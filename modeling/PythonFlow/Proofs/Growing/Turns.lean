import PythonFlow.Proofs.Growing.Expression

/-!
# Turns of the stack

A turn takes the top off the stack. If that node decides flow it is pushed onto the tree, and else its
children take its place, the first one on top. The nodes that the turns push are those that the descent
finds, and there are no more turns than nodes.
-/

set_option autoImplicit false

namespace PythonFlow

namespace Concrete

def nested (c : Concrete) : List Concrete := c.foundBelow.map Prod.snd

theorem found_nodes (c : Concrete) :
    c.found.map Prod.snd = if c.decidesFlow then [c] else c.nested := by
  rw [found_eq]
  split <;> rfl

theorem found_from_nodes (i : Nat) (cs : List Concrete) : (foundFrom i cs).map Prod.snd =
    (cs.filter isProper).flatMap fun c => if c.decidesFlow then [c] else c.nested := by
  induction cs generalizing i with
  | nil => rw [foundFrom]; rfl
  | cons c rest ih =>
    rw [foundFrom, List.map_append, ih, List.filter_cons]
    cases c.isProper with
    | true =>
      rw [if_pos rfl, if_pos rfl, List.map_map, List.flatMap_cons, ← found_nodes]
      rfl
    | false => rfl

/-- What is nested in a node is nested in its proper children from left to right. -/
theorem nested_eq (c : Concrete) :
    c.nested = c.properChildren.flatMap fun d => if d.decidesFlow then [d] else d.nested :=
  found_from_nodes 0 c.children

/-- The loop ends after so many turns from the stack, having pushed the nodes in this order. -/
inductive Turns : Array Concrete → Nat → List Concrete → Prop
  | done : Turns #[] 0 []
  | keep {current : Concrete} {stack : Array Concrete} {n : Nat} {ds : List Concrete}
      (h : current.decidesFlow = true) (rest : Turns stack n ds) :
      Turns (stack.push current) (n + 1) (current :: ds)
  | enter {current : Concrete} {stack : Array Concrete} {n : Nat} {ds : List Concrete}
      (h : current.decidesFlow = false) (rest : Turns (stack ++ current.properChildren.reverse) n ds) :
      Turns (stack.push current) (n + 1) ds

def nestedIn (stack : Array Concrete) : List Concrete :=
  stack.toList.reverse.flatMap fun d => if d.decidesFlow then [d] else d.nested

theorem nested_in_push (stack : Array Concrete) (c : Concrete) : nestedIn (stack.push c) =
    (if c.decidesFlow then [c] else c.nested) ++ nestedIn stack := by
  rw [nestedIn, Array.toList_push, List.reverse_append]
  rfl

theorem nested_in_append (stack : Array Concrete) (c : Concrete) :
    nestedIn (stack ++ c.properChildren.reverse) = c.nested ++ nestedIn stack := by
  rw [nestedIn, Array.toList_appendList, List.reverse_append, List.reverse_reverse,
    List.flatMap_append, ← nested_eq]
  rfl

/-- Each turn leaves fewer nodes to be looked at, so the turns come to an end. -/
theorem exists_turns (stack : Array Concrete) :
    ∃ n ≤ pendingSize stack, Turns stack n (nestedIn stack) := by
  induction hk : pendingSize stack using Nat.strongRecOn generalizing stack with
  | ind k ih =>
    subst hk
    by_cases hstack : stack = #[]
    · subst hstack
      exact ⟨0, Nat.le_refl 0, .done⟩
    obtain ⟨rest, current, rfl⟩ := Array.exists_push_of_ne_empty hstack
    rw [pending_size_push, nested_in_push] at *
    cases hflow : current.decidesFlow with
    | true =>
      have hlt : pendingSize rest < pendingSize rest + current.size :=
        Nat.lt_add_of_pos_right current.size_pos
      obtain ⟨n, hn, hturns⟩ := ih _ hlt rest rfl
      exact ⟨n + 1, Nat.lt_of_le_of_lt hn hlt, .keep hflow hturns⟩
    | false =>
      have hlt : pendingSize (rest ++ current.properChildren.reverse) < pendingSize rest + current.size := by
        rw [pending_size_append, size_all_reverse]
        exact Nat.add_lt_add_left current.size_proper_lt _
      obtain ⟨n, hn, hturns⟩ := ih _ hlt _ rfl
      rw [nested_in_append] at hturns
      exact ⟨n + 1, Nat.lt_of_le_of_lt hn hlt, .enter hflow hturns⟩

/-- The turns from the children of a node find what is nested in it, in no more turns than it has nodes
below it. -/
theorem turns_nested (c : Concrete) :
    ∃ n < c.size, Turns c.properChildren.reverse.toArray n c.nested := by
  obtain ⟨n, hn, hturns⟩ := exists_turns c.properChildren.reverse.toArray
  have hfound : nestedIn c.properChildren.reverse.toArray = c.nested := by
    rw [nestedIn, List.reverse_reverse, ← nested_eq]
  rw [hfound] at hturns
  rw [pendingSize, size_all_reverse] at hn
  exact ⟨n, Nat.lt_of_le_of_lt hn c.size_proper_lt, hturns⟩

end Concrete

namespace Growing
open Concrete

theorem grow_expressions_eq (source : String) (parent : NodeId) (role : Role) (cs : List Concrete) :
    growExpressions source parent role cs =
      cs.forM fun c => discard (growExpression source parent role c) := by
  induction cs with
  | nil => rw [growExpressions, List.forM]
  | cons c rest ih => rw [growExpressions, List.forM, ih]

theorem grow_targets_eq (source : String) (parent : NodeId) (role : Role) (cs : List Concrete) :
    growTargets source parent role cs = cs.forM (growTarget source parent role) := by
  induction cs with
  | nil => rw [growTargets, List.forM]
  | cons c rest ih => rw [growTargets, List.forM, ih]

theorem grow_clauses_eq (source : String) (parent : NodeId) (cs : List Concrete) :
    growClauses source parent cs = cs.forM (growClause source parent) := by
  induction cs with
  | nil => rw [growClauses, List.forM]
  | cons c rest ih => rw [growClauses, List.forM, ih]

theorem grow_stacked_empty (source : String) (parent : NodeId) :
    growStacked source parent #[] = pure () := by
  rw [growStacked]
  rfl

theorem grow_stacked_push (source : String) (parent : NodeId) (stack : Array Concrete)
    (current : Concrete) : growStacked source parent (stack.push current) =
      if current.decidesFlow then do
        discard (growExpression source parent .plain current)
        growStacked source parent stack
      else growStacked source parent (stack ++ current.properChildren.reverse) := by
  rw [growStacked]
  split
  next h =>
    rw [Array.back?_push] at h
    cases h
  next top h =>
    rw [Array.back?_push] at h
    obtain rfl := Option.some.inj h
    rw [Array.pop_push]

/-- Whatever the tree, the loop does the same to it as if the nodes of its turns were pushed one after
the other. -/
theorem grow_stacked_of_turns {source : String} {parent : NodeId} {stack : Array Concrete} {n : Nat}
    {ds : List Concrete} (h : Turns stack n ds) :
    growStacked source parent stack = growExpressions source parent .plain ds := by
  induction h with
  | done => rw [grow_stacked_empty, growExpressions]
  | keep hflow _ ih => rw [grow_stacked_push, if_pos hflow, ih, growExpressions]
  | enter hflow _ ih => rw [grow_stacked_push, hflow, if_neg Bool.false_ne_true, ih]

theorem grow_nested_eq (source : String) (parent : NodeId) (c : Concrete) :
    growNested source parent c = growExpressions source parent .plain c.nested := by
  obtain ⟨n, -, hturns⟩ := turns_nested c
  rw [growNested, grow_stacked_of_turns hturns]

end Growing
end PythonFlow
