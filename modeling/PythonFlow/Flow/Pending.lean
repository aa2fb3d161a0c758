import PythonFlow.Flow.Graph
import PythonFlow.Syntax.Ancestry

/-!
# Pending edges

An edge is pending while its source is known and its target is not. Its scope is the construct that
flow must leave before the edge can land; without a scope it lands on the exit alone. The list is
in order of addition, and whatever leaves it keeps that order.
-/

set_option autoImplicit false

namespace PythonFlow

structure PendingEdge where
  scope : Option NodeId
  source : InstructionId
deriving DecidableEq, Repr

namespace PendingEdge

/-- Whether an edge lands on reaching `element`. The exit, which has no element, takes every edge;
an element takes the edges whose scope it lies outside. -/
def landsOn (t : SyntaxTree) (element : Option NodeId) (e : PendingEdge) : Except Fault Bool :=
  match element, e.scope with
  | none, _ => .ok true
  | some _, none => .ok false
  | some el, some scope =>
    match t.descends el scope with
    | .ok inside => .ok !inside
    | .error f => .error f

def scopedWithin (t : SyntaxTree) (node : NodeId) (e : PendingEdge) : Except Fault Bool :=
  match e.scope with
  | none => .ok false
  | some scope => t.descends scope node

end PendingEdge

abbrev PendingEdges := List PendingEdge

/-- A list of pending edges parted in two. Where a fault ended the parting, the edges not yet
looked at are kept. -/
structure Parting where
  taken : List PendingEdge
  kept : PendingEdges
  fault : Option Fault
deriving DecidableEq, Repr

namespace PendingEdges

/-- Appends an edge; one without a source is no edge. -/
def add (p : PendingEdges) (scope : Option NodeId) : Option InstructionId → PendingEdges
  | some source => p ++ [⟨scope, source⟩]
  | none => p

def part (test : PendingEdge → Except Fault Bool) : PendingEdges → Parting
  | [] => ⟨[], [], none⟩
  | e :: rest =>
    match test e with
    | .error f => ⟨[], e :: rest, some f⟩
    | .ok true =>
      let r := part test rest
      { r with taken := e :: r.taken }
    | .ok false =>
      let r := part test rest
      { r with kept := e :: r.kept }

def resolve (t : SyntaxTree) (element : Option NodeId) (p : PendingEdges) : Parting :=
  part (PendingEdge.landsOn t element) p

def drainWithin (t : SyntaxTree) (node : NodeId) (p : PendingEdges) : Parting :=
  part (PendingEdge.scopedWithin t node) p

theorem part_all (p : PendingEdges) : part (fun _ => .ok true) p = ⟨p, [], none⟩ := by
  induction p with
  | nil => rfl
  | cons e rest ih => simp [part, ih]

theorem resolve_exit (t : SyntaxTree) (p : PendingEdges) : resolve t none p = ⟨p, [], none⟩ :=
  part_all p

end PendingEdges
end PythonFlow
