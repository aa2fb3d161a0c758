import PythonFlow.Lowering.Module
import PythonFlow.Proofs.Growing.Places

/-!
# Lowering an expression onto a growing tree

The shape of an expression says what its tree is in the end. Here the same rules are followed step by
step: a node is pushed onto the tree below a parent that is there, and then what belongs below it. The
expressions inside another one are looked for with a stack of the nodes that are still to be looked at,
the next one on top. Every step hands on fewer concrete nodes than it was given, so it comes to an end.
-/

set_option autoImplicit false

namespace PythonFlow

namespace Concrete

mutual

def size : Concrete → Nat
  | node _ _ _ _ children => sizeAll children + 1

def sizeAll : List Concrete → Nat
  | [] => 0
  | c :: rest => c.size + sizeAll rest

end

theorem size_eq (c : Concrete) : c.size = sizeAll c.children + 1 := by
  cases c
  rw [size, children]

theorem size_pos (c : Concrete) : 0 < c.size := by
  rw [size_eq]
  exact Nat.succ_pos _

theorem size_all_append (cs ds : List Concrete) : sizeAll (cs ++ ds) = sizeAll cs + sizeAll ds := by
  induction cs with
  | nil => rw [List.nil_append, sizeAll, Nat.zero_add]
  | cons c rest ih => rw [List.cons_append, sizeAll, ih, sizeAll, Nat.add_assoc]

theorem size_all_reverse (cs : List Concrete) : sizeAll cs.reverse = sizeAll cs := by
  induction cs with
  | nil => rfl
  | cons c rest ih =>
    rw [List.reverse_cons, size_all_append, ih, sizeAll, sizeAll, sizeAll, Nat.add_zero, Nat.add_comm]

theorem size_all_le {cs ds : List Concrete} (h : cs.Sublist ds) : sizeAll cs ≤ sizeAll ds := by
  induction h with
  | slnil => exact Nat.le_refl _
  | cons c _ ih =>
    rw [sizeAll]
    exact Nat.le_add_left_of_le ih
  | cons_cons c _ ih =>
    rw [sizeAll, sizeAll]
    exact Nat.add_le_add_left ih _

theorem size_le_of_mem {c : Concrete} {cs : List Concrete} (h : c ∈ cs) : c.size ≤ sizeAll cs := by
  have hle := size_all_le (List.singleton_sublist.2 h)
  rwa [sizeAll, sizeAll, Nat.add_zero] at hle

/-- Children of a node have fewer nodes together than it has. -/
theorem size_all_lt {c : Concrete} {cs : List Concrete} (h : cs.Sublist c.children) :
    sizeAll cs < c.size := by
  rw [size_eq]
  exact Nat.lt_succ_of_le (size_all_le h)

theorem size_proper_lt (c : Concrete) : sizeAll c.properChildren < c.size :=
  size_all_lt List.filter_sublist

theorem size_in_lt (c : Concrete) (field : String) : sizeAll (c.childrenIn field) < c.size :=
  size_all_lt List.filter_sublist

theorem size_child_lt (c : Concrete) (field : String) : sizeAll (c.child? field).toList < c.size := by
  refine size_all_lt ?_
  cases h : c.child? field with
  | none => exact List.nil_sublist _
  | some d => exact List.singleton_sublist.2 (List.mem_of_find?_eq_some h)

theorem size_first_lt (c : Concrete) : sizeAll c.properChildren.head?.toList < c.size := by
  refine Nat.lt_of_le_of_lt (size_all_le ?_) c.size_proper_lt
  cases h : c.properChildren.head? with
  | none => exact List.nil_sublist _
  | some d => exact List.singleton_sublist.2 (List.mem_of_mem_head? h)

def pendingSize (stack : Array Concrete) : Nat := sizeAll stack.toList

theorem pending_size_push (stack : Array Concrete) (c : Concrete) :
    pendingSize (stack.push c) = pendingSize stack + c.size := by
  rw [pendingSize, Array.toList_push, size_all_append, sizeAll, sizeAll, Nat.add_zero]
  rfl

theorem pending_size_append (stack : Array Concrete) (cs : List Concrete) :
    pendingSize (stack ++ cs) = pendingSize stack + sizeAll cs := by
  rw [pendingSize, Array.toList_appendList, size_all_append]
  rfl

/-- The top of the stack is apart from the rest. -/
theorem pending_size_top {stack : Array Concrete} {c : Concrete} (h : stack.back? = some c) :
    pendingSize stack = pendingSize stack.pop + c.size := by
  obtain ⟨rest, rfl⟩ := Array.back?_eq_some_iff.1 h
  rw [Array.pop_push, pending_size_push]

end Concrete

abbrev Growing := ExceptT Fault (StateM SyntaxTree)

namespace Growing
open Lowering Concrete

def push (parent : NodeId) (kind : SyntaxKind) (role : Role) (span : Span) : Growing NodeId := do
  let result ← modifyGet fun t =>
    let (t, result) := t.push parent kind role span
    (result, t)
  match result with
  | .ok id => return id
  | .error f => throw f

def change (id : NodeId) (f : SyntaxTree → SyntaxTree) : Growing Unit := do
  match (← get).require id with
  | .ok () => modify f
  | .error e => throw e

def setName (id : NodeId) (name : String) : Growing Unit := change id (·.setName id name)

def setText (id : NodeId) (text : String) : Growing Unit := change id (·.setText id text)

/-- Pushes a node that covers the whole of a concrete one and has its snippet for a text. -/
def enter (source : String) (parent : NodeId) (kind : SyntaxKind) (role : Role) (c : Concrete) :
    Growing NodeId := do
  let id ← push parent kind role c.span
  setText id (Source.snippet (c.text source))
  return id

def enterNamed (source : String) (parent : NodeId) (kind : SyntaxKind) (role : Role) (c : Concrete)
    (name : String) : Growing NodeId := do
  let id ← enter source parent kind role c
  setName id name
  return id

def growParameter (source : String) (parent : NodeId) (c : Concrete) : Growing Unit :=
  match parameterName source c with
  | some name => discard (enterNamed source parent .parameter .plain c name)
  | none => pure ()

def growParameters (source : String) (parent : NodeId) (c : Concrete) : Growing Unit := do
  let id ← enter source parent .parameters .plain c
  c.properChildren.forM (growParameter source id)

mutual

def growExpression (source : String) (parent : NodeId) (role : Role) (c : Concrete) :
    Growing NodeId :=
  match flowRule? role c.kind with
  | some (.comprehension role) => do
    let id ← enter source parent .comprehension role c
    growExpressions source id .result (c.child? "body").toList
    growClauses source id c.properChildren
    return id
  | some (.lambda role) => do
    let id ← enterNamed source parent .lambda role c "<lambda>"
    (c.child? "parameters").toList.forM (growParameters source id)
    growExpressions source id .body (c.child? "body").toList
    return id
  | some (.namedExpression role) => do
    let id ← enter source parent .expression role c
    growExpressions source id .value (c.child? "value").toList
    growTargets source id .target (c.child? "name").toList
    return id
  | some (.aliased role) => do
    let id ← enter source parent .expression role c
    growParts source id false c.children
    return id
  | _ => do
    let id ← enter source parent .expression role c
    growNested source id c
    return id
termination_by (c.size, 1)
decreasing_by
  · exact .left _ _ (c.size_child_lt "body")
  · exact .left _ _ c.size_proper_lt
  · exact .left _ _ (c.size_child_lt "body")
  · exact .left _ _ (c.size_child_lt "value")
  · exact .left _ _ (c.size_child_lt "name")
  · exact .left _ _ (size_all_lt (List.Sublist.refl _))
  · exact .right _ (by decide)

/-- Pushes the expressions inside another one, from a stack that begins with its children. -/
def growNested (source : String) (parent : NodeId) (c : Concrete) : Growing Unit :=
  growStacked source parent c.properChildren.reverse.toArray
termination_by (c.size, 0)
decreasing_by
  refine .left _ _ ?_
  rw [pendingSize, size_all_reverse]
  exact c.size_proper_lt

/-- Takes the top off the stack and pushes it if it decides flow; else its children take its place. -/
def growStacked (source : String) (parent : NodeId) (stack : Array Concrete) : Growing Unit :=
  match _top : stack.back? with
  | none => pure ()
  | some current =>
    if current.decidesFlow then do
      discard (growExpression source parent .plain current)
      growStacked source parent stack.pop
    else
      growStacked source parent (stack.pop ++ current.properChildren.reverse)
termination_by (pendingSize stack, 3)
decreasing_by
  all_goals rw [pending_size_top _top]
  · exact .right' _ (Nat.le_add_left _ _) (by decide)
  · exact .left _ _ (Nat.lt_add_of_pos_right current.size_pos)
  · refine .left _ _ ?_
    rw [pending_size_append, size_all_reverse]
    exact Nat.add_lt_add_left current.size_proper_lt _

def growExpressions (source : String) (parent : NodeId) (role : Role) : List Concrete → Growing Unit
  | [] => pure ()
  | c :: rest => do
    discard (growExpression source parent role c)
    growExpressions source parent role rest
termination_by cs => (sizeAll cs, 3)
decreasing_by
  all_goals rw [sizeAll]
  · exact .right' _ (Nat.le_add_right _ _) (by decide)
  · exact .left _ _ (Nat.lt_add_of_pos_left c.size_pos)

def growTarget (source : String) (parent : NodeId) (role : Role) (c : Concrete) : Growing Unit :=
  if c.kind = "identifier" then discard (enterNamed source parent .target role c (c.text source))
  else if targetGroups.contains c.kind then growTargets source parent role c.properChildren
  else discard (growExpression source parent role c)
termination_by (c.size, 2)
decreasing_by
  · exact .left _ _ c.size_proper_lt
  · exact .right _ (by decide)

def growTargets (source : String) (parent : NodeId) (role : Role) : List Concrete → Growing Unit
  | [] => pure ()
  | c :: rest => do
    growTarget source parent role c
    growTargets source parent role rest
termination_by cs => (sizeAll cs, 3)
decreasing_by
  all_goals rw [sizeAll]
  · exact .right' _ (Nat.le_add_right _ _) (by decide)
  · exact .left _ _ (Nat.lt_add_of_pos_left c.size_pos)

/-- A part of an `as` pattern: its alias is a target, and what else is proper is a value. -/
def growPart (source : String) (parent : NodeId) (isAlias : Bool) (c : Concrete) : Growing Unit :=
  if !c.isProper then pure ()
  else if isAlias then growTarget source parent .target c
  else discard (growExpression source parent .value c)
termination_by (c.size, 3)
decreasing_by
  · exact .right _ (by decide)
  · exact .right _ (by decide)

def growParts (source : String) (parent : NodeId) (passed : Bool) : List Concrete → Growing Unit
  | [] => pure ()
  | c :: rest => do
    let isAlias := !passed && c.field == some "alias"
    growPart source parent isAlias c
    growParts source parent (passed || isAlias) rest
termination_by cs => (sizeAll cs, 4)
decreasing_by
  all_goals rw [sizeAll]
  · exact .right' _ (Nat.le_add_right _ _) (by decide)
  · exact .left _ _ (Nat.lt_add_of_pos_left c.size_pos)

/-- What a comprehension iterates over: several expressions have one node above them. -/
def growIterables (source : String) (parent : NodeId) : List Concrete → Growing Unit
  | [] => pure ()
  | [only] => discard (growExpression source parent .iterable only)
  | first :: second :: rest => do
    let id ← push parent .expression .iterable first.span
    growExpressions source id .plain (first :: second :: rest)
termination_by cs => (sizeAll cs, 4)
decreasing_by
  · rw [sizeAll]
    exact .right' _ (Nat.le_add_right _ _) (by decide)
  · exact .right _ (by decide)

def growClause (source : String) (parent : NodeId) (c : Concrete) : Growing Unit :=
  match comprehensionClauseRule c.kind with
  | .comprehensionFor => do
    let id ← enter source parent .comprehensionFor .plain c
    growIterables source id (c.childrenIn "right")
    growTargets source id .target (c.child? "left").toList
  | .comprehensionIf => do
    let id ← enter source parent .comprehensionIf .plain c
    growExpressions source id .condition c.properChildren.head?.toList
  | _ => pure ()
termination_by (c.size, 0)
decreasing_by
  · exact .left _ _ (c.size_in_lt "right")
  · exact .left _ _ (c.size_child_lt "left")
  · exact .left _ _ c.size_first_lt

def growClauses (source : String) (parent : NodeId) : List Concrete → Growing Unit
  | [] => pure ()
  | c :: rest => do
    growClause source parent c
    growClauses source parent rest
termination_by cs => (sizeAll cs, 3)
decreasing_by
  all_goals rw [sizeAll]
  · exact .right' _ (Nat.le_add_right _ _) (by decide)
  · exact .left _ _ (Nat.lt_add_of_pos_left c.size_pos)

end

end Growing
end PythonFlow
