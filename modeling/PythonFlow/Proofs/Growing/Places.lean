import Mathlib.Data.List.Pairwise
import PythonFlow.Lowering.Rule

/-!
# Places of nested expressions

A place in a concrete tree is a path from a node down to it, one index of a child for each step, so that
the order of places is the order of the source. Inside an expression only some others have a node of
their own. The outermost of those are found by a descent from left to right that does not enter them,
each at one place.
-/

set_option autoImplicit false

namespace PythonFlow.Concrete
open Lowering

def flowKinds : List String :=
  ["list_comprehension", "set_comprehension", "dictionary_comprehension", "generator_expression",
    "lambda", "named_expression", "as_pattern"]

def decidesFlow (c : Concrete) : Bool := flowKinds.contains c.kind

/-- They are the kinds that have a rule of their own, whatever the slot. -/
theorem flow_rule_isSome (role : Role) (c : Concrete) :
    (flowRule? role c.kind).isSome = c.decidesFlow := by
  unfold flowRule? decidesFlow
  split <;> simp_all [flowKinds]

def at? : Concrete → List Nat → Option Concrete
  | c, [] => some c
  | c, i :: path => c.children[i]?.bind fun d => d.at? path

/-- An expression strictly below a node that decides flow and lies below no other that does. It is
reached through proper nodes only. -/
structure Outermost (c : Concrete) (path : List Nat) (d : Concrete) : Prop where
  at_path : c.at? path = some d
  below : path ≠ []
  decides : d.decidesFlow = true
  proper : ∀ before e, before ≠ [] → before <+: path → c.at? before = some e → e.isProper = true
  first : ∀ before e, before ≠ [] → before <+: path → before ≠ path → c.at? before = some e →
    e.decidesFlow = false

mutual

def found : Concrete → List (List Nat × Concrete)
  | node kind named field extent children =>
    if (node kind named field extent children).decidesFlow then
      [([], node kind named field extent children)]
    else foundFrom 0 children

def foundFrom (i : Nat) : List Concrete → List (List Nat × Concrete)
  | [] => []
  | c :: rest =>
    (if c.isProper then c.found.map fun x => (i :: x.1, x.2) else []) ++ foundFrom (i + 1) rest

end

def foundBelow (c : Concrete) : List (List Nat × Concrete) := foundFrom 0 c.children

theorem found_eq (c : Concrete) :
    c.found = if c.decidesFlow then [([], c)] else c.foundBelow := by
  cases c with
  | node kind named field extent children =>
    rw [found]
    rfl

section order

/-- The places found at the children from index `i` on begin with an index that is no smaller. -/
theorem head_of_found_from {i : Nat} {cs : List Concrete} {x : List Nat × Concrete}
    (h : x ∈ foundFrom i cs) : ∃ j path, i ≤ j ∧ x.1 = j :: path := by
  induction cs generalizing i with
  | nil =>
    rw [foundFrom] at h
    cases h
  | cons c rest ih =>
    rw [foundFrom, List.mem_append] at h
    rcases h with h | h
    · split at h
      · obtain ⟨y, -, rfl⟩ := List.mem_map.1 h
        exact ⟨i, y.1, Nat.le_refl i, rfl⟩
      · cases h
    · obtain ⟨j, path, hle, heq⟩ := ih h
      exact ⟨j, path, Nat.le_of_succ_le hle, heq⟩

mutual

/-- What is found is found in the order of the source, each at a place of its own. -/
theorem found_increase (c : Concrete) : c.found.Pairwise fun x y => x.1 < y.1 := by
  cases c with
  | node kind named field extent children =>
    rw [found]
    split
    · exact List.pairwise_singleton _ _
    · exact found_from_increase 0 children

theorem found_from_increase (i : Nat) (cs : List Concrete) :
    (foundFrom i cs).Pairwise fun x y => x.1 < y.1 := by
  cases cs with
  | nil =>
    rw [foundFrom]
    exact .nil
  | cons c rest =>
    rw [foundFrom]
    refine List.pairwise_append.2 ⟨?_, found_from_increase (i + 1) rest, ?_⟩
    · split
      · refine List.pairwise_map.2 ((found_increase c).imp fun hlt => ?_)
        exact List.cons_lt_cons_iff.2 (.inr ⟨rfl, hlt⟩)
      · exact .nil
    · intro x hx y hy
      split at hx
      · obtain ⟨x', -, rfl⟩ := List.mem_map.1 hx
        obtain ⟨j, path, hle, heq⟩ := head_of_found_from hy
        rw [heq]
        exact List.cons_lt_cons_iff.2 (.inl hle)
      · cases hx

end

theorem found_below_increase (c : Concrete) :
    (c.foundBelow.map Prod.fst).Pairwise (· < ·) :=
  List.pairwise_map.2 (found_from_increase 0 c.children)

end order

section members

/-- A place among children is a place below one of them. -/
theorem mem_found_from {i : Nat} {cs : List Concrete} {path : List Nat} {d : Concrete} :
    (path, d) ∈ foundFrom i cs ↔ ∃ k c rest, cs[k]? = some c ∧ c.isProper = true ∧
      path = (i + k) :: rest ∧ (rest, d) ∈ c.found := by
  induction cs generalizing i with
  | nil =>
    rw [foundFrom]
    simp
  | cons c cs ih =>
    rw [foundFrom, List.mem_append, ih]
    constructor
    · rintro (h | ⟨k, e, rest, hk, hp, rfl, he⟩)
      · split at h
        next hproper =>
          obtain ⟨⟨rest, d'⟩, hmem, heq⟩ := List.mem_map.1 h
          obtain ⟨rfl, rfl⟩ := Prod.mk.inj heq
          exact ⟨0, c, rest, rfl, hproper, rfl, hmem⟩
        next => cases h
      · exact ⟨k + 1, e, rest, hk, hp, by rw [Nat.add_right_comm, Nat.add_assoc], he⟩
    · rintro ⟨_ | k, e, rest, hk, hp, rfl, he⟩
      · obtain rfl := Option.some.inj hk
        rw [if_pos hp]
        exact .inl (List.mem_map.2 ⟨(rest, d), he, rfl⟩)
      · exact .inr ⟨k, e, rest, hk, hp, by rw [Nat.add_right_comm, Nat.add_assoc], he⟩

theorem at_cons {c e : Concrete} {i : Nat} (h : c.children[i]? = some e) (path : List Nat) :
    c.at? (i :: path) = e.at? path := by
  rw [at?, h]
  rfl

theorem at_step {c d : Concrete} {i : Nat} {path : List Nat} (h : c.at? (i :: path) = some d) :
    ∃ e, c.children[i]? = some e ∧ e.at? path = some d :=
  Option.bind_eq_some_iff.1 h

/-- The end of a path of one step, or of a longer one that begins with that step. -/
theorem nonempty_start {i : Nat} {before path : List Nat} (hne : before ≠ [])
    (h : before <+: i :: path) : ∃ rest, before = i :: rest ∧ rest <+: path :=
  (List.prefix_cons_iff.1 h).resolve_left hne

section step
variable {c d e : Concrete} {i : Nat} {path : List Nat} (he : c.children[i]? = some e)
include he

theorem Outermost.of_child (hproper : e.isProper = true) (hflow : e.decidesFlow = true) :
    c.Outermost [i] e where
  at_path := at_cons he []
  below := List.cons_ne_nil _ _
  decides := hflow
  proper before f hne hstart hf := by
    obtain ⟨rest, rfl, hrest⟩ := nonempty_start hne hstart
    obtain rfl := List.prefix_nil.1 hrest
    obtain rfl := Option.some.inj ((at_cons he []).symm.trans hf)
    exact hproper
  first before f hne hstart hother hf := by
    obtain ⟨rest, rfl, hrest⟩ := nonempty_start hne hstart
    exact absurd (congrArg _ (List.prefix_nil.1 hrest)) hother

theorem Outermost.of_deeper (hproper : e.isProper = true) (hplain : e.decidesFlow = false)
    (h : e.Outermost path d) : c.Outermost (i :: path) d where
  at_path := (at_cons he path).trans h.at_path
  below := List.cons_ne_nil _ _
  decides := h.decides
  proper before f hne hstart hf := by
    obtain ⟨rest, rfl, hrest⟩ := nonempty_start hne hstart
    rw [at_cons he] at hf
    cases rest with
    | nil => exact Option.some.inj hf ▸ hproper
    | cons j rest => exact h.proper _ f (List.cons_ne_nil _ _) hrest hf
  first before f hne hstart hother hf := by
    obtain ⟨rest, rfl, hrest⟩ := nonempty_start hne hstart
    rw [at_cons he] at hf
    cases rest with
    | nil => exact Option.some.inj hf ▸ hplain
    | cons j rest =>
      exact h.first _ f (List.cons_ne_nil _ _) hrest (fun heq => hother (congrArg _ heq)) hf

namespace Outermost

theorem child_proper (h : c.Outermost (i :: path) d) : e.isProper = true :=
  h.proper [i] e (List.cons_ne_nil _ _) (List.prefix_append [i] path) (at_cons he [])

theorem child_plain (h : c.Outermost (i :: path) d) (hpath : path ≠ []) : e.decidesFlow = false :=
  h.first [i] e (List.cons_ne_nil _ _) (List.prefix_append [i] path)
    (fun heq => hpath (List.cons.inj heq).2.symm) (at_cons he [])

theorem deeper (h : c.Outermost (i :: path) d) (hpath : path ≠ []) : e.Outermost path d where
  at_path := (at_cons he path).symm.trans h.at_path
  below := hpath
  decides := h.decides
  proper before f _ hstart hf := h.proper (i :: before) f (List.cons_ne_nil _ _)
    (List.cons_prefix_cons.2 ⟨rfl, hstart⟩) ((at_cons he before).trans hf)
  first before f _ hstart hother hf := h.first (i :: before) f (List.cons_ne_nil _ _)
    (List.cons_prefix_cons.2 ⟨rfl, hstart⟩) (fun heq => hother (List.cons.inj heq).2)
    ((at_cons he before).trans hf)

end Outermost
end step

/-- An outermost expression is a child that decides flow, or lies below a child that does not. -/
theorem outermost_cons {c d : Concrete} {i : Nat} {path : List Nat} :
    c.Outermost (i :: path) d ↔ ∃ e, c.children[i]? = some e ∧ e.isProper = true ∧
      if e.decidesFlow then path = [] ∧ d = e else e.Outermost path d := by
  constructor
  · intro h
    obtain ⟨e, he, hd⟩ := at_step h.at_path
    refine ⟨e, he, h.child_proper he, ?_⟩
    cases path with
    | nil =>
      obtain rfl := Option.some.inj hd
      rw [if_pos h.decides]
      exact ⟨rfl, rfl⟩
    | cons j path =>
      rw [h.child_plain he (List.cons_ne_nil _ _), if_neg Bool.false_ne_true]
      exact h.deeper he (List.cons_ne_nil _ _)
  · rintro ⟨e, he, hproper, h⟩
    cases hflow : e.decidesFlow with
    | true =>
      rw [hflow, if_pos rfl] at h
      obtain ⟨rfl, rfl⟩ := h
      exact .of_child he hproper hflow
    | false =>
      rw [hflow, if_neg Bool.false_ne_true] at h
      exact .of_deeper he hproper hflow h

theorem mem_found {c d : Concrete} {path : List Nat} : (path, d) ∈ c.found ↔
    if c.decidesFlow then path = [] ∧ d = c else (path, d) ∈ c.foundBelow := by
  rw [found_eq]
  split
  · rw [List.mem_singleton, Prod.mk.injEq]
  · exact Iff.rfl

/-- The descent finds the outermost expressions and nothing else. -/
theorem mem_found_below {c d : Concrete} {path : List Nat} :
    (path, d) ∈ c.foundBelow ↔ c.Outermost path d := by
  induction path generalizing c with
  | nil =>
    constructor
    · intro h
      obtain ⟨k, e, rest, -, -, hpath, -⟩ := mem_found_from.1 h
      cases hpath
    · exact fun h => absurd rfl h.below
  | cons i path ih =>
    rw [outermost_cons, foundBelow, mem_found_from]
    constructor
    · rintro ⟨k, e, rest, he, hproper, hpath, hmem⟩
      rw [Nat.zero_add] at hpath
      obtain ⟨rfl, rfl⟩ := List.cons.inj hpath
      rw [mem_found, ih] at hmem
      exact ⟨e, he, hproper, hmem⟩
    · rintro ⟨e, he, hproper, h⟩
      rw [← ih, ← mem_found] at h
      exact ⟨i, e, path, he, hproper, by rw [Nat.zero_add], h⟩

end members

end PythonFlow.Concrete
