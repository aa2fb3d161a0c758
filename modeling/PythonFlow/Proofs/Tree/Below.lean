import PythonFlow.Syntax.Ancestry
import Mathlib.Order.Basic
import Mathlib.Tactic.ByContra

/-!
# The order of the nodes of a tree

`Below` says that a node is another one or stands under it, `Inside` that it stands strictly under
it. In a tree whose parents come first both are read off one step upwards, and two nodes above the
same node are comparable. Children of one node therefore have nothing below them in common.
-/

set_option autoImplicit false

namespace PythonFlow.SyntaxTree

/-- Parents come before their children, and each records the other. -/
structure Ordered (t : SyntaxTree) : Prop where
  parent_lt : ∀ {id p : NodeId}, t.parent id = some p → p.index < id.index
  mem_children : ∀ {p c : NodeId}, c ∈ t.children p ↔ c.index < t.size ∧ t.parent c = some p
  children_nodup : ∀ p, (t.children p).Nodup

def Below (t : SyntaxTree) (a b : NodeId) : Prop := b ∈ t.lineage a

def Inside (t : SyntaxTree) (a b : NodeId) : Prop := t.Below a b ∧ a ≠ b

instance (t : SyntaxTree) (a b : NodeId) : Decidable (t.Below a b) :=
  inferInstanceAs (Decidable (b ∈ t.lineage a))

instance (t : SyntaxTree) (a b : NodeId) : Decidable (t.Inside a b) :=
  inferInstanceAs (Decidable (_ ∧ _))

theorem is_descendant_of_iff (t : SyntaxTree) (a b : NodeId) :
    t.isDescendantOf a b = true ↔ t.Below a b := by
  simp [isDescendantOf, Below]

theorem below_refl (t : SyntaxTree) (a : NodeId) : t.Below a a := by
  simp [Below, lineage_eq_cons]

theorem Inside.below {t : SyntaxTree} {a b : NodeId} (h : t.Inside a b) : t.Below a b := h.1

theorem below_iff_eq_or_inside {t : SyntaxTree} {a b : NodeId} :
    t.Below a b ↔ a = b ∨ t.Inside a b := by
  by_cases h : a = b
  · simp [h, below_refl]
  · simp [Inside, h]

theorem lineage_of_root {t : SyntaxTree} {id : NodeId} (h : t.parent id = none) :
    t.lineage id = [id] := by
  simp [lineage, climb, h]

theorem index_lt_size_of_parent {t : SyntaxTree} {id p : NodeId} (h : t.parent id = some p) :
    id.index < t.size := by
  by_contra hout
  have hnone : t.nodes[id.index]? = none := Array.getElem?_eq_none (Nat.le_of_not_lt hout)
  simp [parent, node, Array.getD_eq_getD_getElem?, hnone, SyntaxNode.blank, SyntaxNode.fresh] at h

theorem mem_ids {t : SyntaxTree} {id : NodeId} : id ∈ t.ids ↔ id.index < t.size := by
  constructor
  · intro h
    obtain ⟨i, hi, rfl⟩ := List.mem_map.1 h
    exact List.mem_range.1 hi
  · exact fun h => List.mem_map.2 ⟨id.index, List.mem_range.2 h, rfl⟩

theorem ids_ascending (t : SyntaxTree) : t.ids.Pairwise fun a b => a.index < b.index :=
  List.pairwise_map.2 List.pairwise_lt_range

/-- The way up from a node runs through smaller and smaller indices to a node without a parent. -/
inductive Rises (t : SyntaxTree) : NodeId → Prop
  | top {id : NodeId} (h : t.parent id = none) : Rises t id
  | up {id p : NodeId} (h : t.parent id = some p) (hlt : p.index < id.index) (hp : Rises t p) :
      Rises t id

namespace Rises
variable {t : SyntaxTree}

theorem climb_stable {id : NodeId} (hr : t.Rises id) :
    ∀ n m : Nat, id.index < n → id.index < m → t.climb n id = t.climb m id := by
  induction hr with
  | top h =>
    intro n m hn hm
    obtain ⟨n, rfl⟩ : ∃ n', n = n' + 1 := ⟨n - 1, by omega⟩
    obtain ⟨m, rfl⟩ : ∃ m', m = m' + 1 := ⟨m - 1, by omega⟩
    simp only [climb, h]
  | up h hlt _ ih =>
    intro n m hn hm
    obtain ⟨n, rfl⟩ : ∃ n', n = n' + 1 := ⟨n - 1, by omega⟩
    obtain ⟨m, rfl⟩ : ∃ m', m = m' + 1 := ⟨m - 1, by omega⟩
    simp only [climb, h]
    rw [ih n m (by omega) (by omega)]

theorem lineage_of_parent {id p : NodeId} (hp : t.Rises p) (h : t.parent id = some p)
    (hlt : p.index < id.index) : t.lineage id = id :: t.lineage p := by
  simp only [lineage, climb, h]
  rw [hp.climb_stable id.index (p.index + 1) hlt (by omega)]
  rfl

end Rises

namespace Ordered
variable {t : SyntaxTree} (ho : t.Ordered)
include ho

/-- What passes from a parent to its children holds of every node. -/
@[elab_as_elim]
theorem up_induction {P : NodeId → Prop} (a : NodeId)
    (step : ∀ a, (∀ p, t.parent a = some p → P p) → P a) : P a := by
  suffices h : ∀ k, ∀ a : NodeId, a.index < k → P a from h (a.index + 1) a (by omega)
  intro k
  induction k with
  | zero => intro a ha; omega
  | succ k ih =>
    intro a ha
    refine step a fun p hp => ih p ?_
    have hlt := ho.parent_lt hp
    omega

theorem rises (id : NodeId) : t.Rises id := by
  induction id using ho.up_induction with
  | step id ih =>
    cases hp : t.parent id with
    | none => exact .top hp
    | some p => exact .up hp (ho.parent_lt hp) (ih p hp)

theorem lineage_of_parent {id p : NodeId} (h : t.parent id = some p) :
    t.lineage id = id :: t.lineage p :=
  (ho.rises p).lineage_of_parent h (ho.parent_lt h)

theorem below_iff_parent {a b : NodeId} :
    t.Below a b ↔ a = b ∨ ∃ p, t.parent a = some p ∧ t.Below p b := by
  cases hp : t.parent a with
  | none => simp [Below, lineage_of_root hp, eq_comm]
  | some p => simp [Below, ho.lineage_of_parent hp, eq_comm]

theorem below_parent {a p : NodeId} (h : t.parent a = some p) : t.Below a p :=
  ho.below_iff_parent.2 (.inr ⟨p, h, below_refl t p⟩)

theorem index_le {a b : NodeId} (h : t.Below a b) : b.index ≤ a.index := by
  induction a using ho.up_induction with
  | step a ih =>
    rcases ho.below_iff_parent.1 h with rfl | ⟨p, hp, hpb⟩
    · exact Nat.le_refl _
    · have hlt := ho.parent_lt hp
      have hle := ih p hp hpb
      omega

theorem index_lt {a b : NodeId} (h : t.Inside a b) : b.index < a.index := by
  rcases ho.below_iff_parent.1 h.1 with rfl | ⟨p, hp, hpb⟩
  · exact absurd rfl h.2
  · have hlt := ho.parent_lt hp
    have hle := ho.index_le hpb
    omega

theorem inside_parent {a p : NodeId} (h : t.parent a = some p) : t.Inside a p := by
  refine ⟨ho.below_parent h, ?_⟩
  rintro rfl
  exact absurd (ho.parent_lt h) (by omega)

theorem below_trans {a b c : NodeId} (hab : t.Below a b) (hbc : t.Below b c) : t.Below a c := by
  induction a using ho.up_induction with
  | step a ih =>
    rcases ho.below_iff_parent.1 hab with rfl | ⟨p, hp, hpb⟩
    · exact hbc
    · exact ho.below_iff_parent.2 (.inr ⟨p, hp, ih p hp hpb⟩)

theorem below_antisymm {a b : NodeId} (hab : t.Below a b) (hba : t.Below b a) : a = b := by
  by_contra hne
  have h1 := ho.index_lt ⟨hab, hne⟩
  have h2 := ho.index_lt ⟨hba, fun h => hne h.symm⟩
  omega

theorem inside_of_inside_below {a b c : NodeId} (hab : t.Inside a b) (hbc : t.Below b c) :
    t.Inside a c := by
  refine ⟨ho.below_trans hab.1 hbc, ?_⟩
  rintro rfl
  have h1 := ho.index_lt hab
  have h2 := ho.index_le hbc
  omega

/-- A node strictly under another has a parent, at or below the other. -/
theorem exists_parent {a b : NodeId} (h : t.Inside a b) : ∃ p, t.parent a = some p ∧ t.Below p b :=
  (ho.below_iff_parent.1 h.1).resolve_left h.2

theorem index_lt_size_of_inside {a b : NodeId} (h : t.Inside a b) : a.index < t.size := by
  obtain ⟨p, hp, -⟩ := ho.exists_parent h
  exact index_lt_size_of_parent hp

theorem inside_of_below_inside {a b c : NodeId} (hab : t.Below a b) (hbc : t.Inside b c) :
    t.Inside a c := by
  refine ⟨ho.below_trans hab hbc.1, ?_⟩
  rintro rfl
  have h1 := ho.index_lt hbc
  have h2 := ho.index_le hab
  omega

theorem not_below_of_inside {a b : NodeId} (h : t.Inside a b) : ¬ t.Below b a := fun hb =>
  h.2 (ho.below_antisymm h.1 hb)

/-- Two nodes above one node are comparable. -/
theorem below_total {x a b : NodeId} (ha : t.Below x a) (hb : t.Below x b) :
    t.Below a b ∨ t.Below b a := by
  induction x using ho.up_induction with
  | step x ih =>
    rcases ho.below_iff_parent.1 ha with rfl | ⟨p, hp, hpa⟩
    · exact .inl hb
    rcases ho.below_iff_parent.1 hb with rfl | ⟨q, hq, hqb⟩
    · exact .inr ha
    obtain rfl : p = q := Option.some.inj (hp.symm.trans hq)
    exact ih p hp hpa hqb

/-- Nothing lies strictly between a node and its parent. -/
theorem below_of_inside_parent {c p m : NodeId} (hp : t.parent c = some p) (h : t.Inside c m) :
    t.Below p m := by
  rcases ho.below_iff_parent.1 h.1 with hc | ⟨q, hq, hqm⟩
  · exact absurd hc h.2
  · obtain rfl : p = q := Option.some.inj (hp.symm.trans hq)
    exact hqm

theorem inside_iff_parent {a b p : NodeId} (hp : t.parent a = some p) : t.Inside a b ↔ t.Below p b :=
  ⟨ho.below_of_inside_parent hp, ho.inside_of_inside_below (ho.inside_parent hp)⟩

theorem below_child_or_above {c p m x : NodeId} (hp : t.parent c = some p)
    (hxc : t.Below x c) (hxm : t.Below x m) : t.Below m c ∨ t.Below p m := by
  rcases ho.below_total hxc hxm with h | h
  · rcases below_iff_eq_or_inside.1 h with rfl | h
    · exact .inl (below_refl t _)
    · exact .inr (ho.below_of_inside_parent hp h)
  · exact .inl h

theorem not_below_sibling {a b p : NodeId} (ha : t.parent a = some p) (hb : t.parent b = some p)
    (hne : a ≠ b) : ¬ t.Below a b := fun h =>
  ho.not_below_of_inside (ho.inside_parent hb) (ho.below_of_inside_parent ha ⟨h, hne⟩)

theorem siblings_apart {c d p x : NodeId} (hc : t.parent c = some p) (hd : t.parent d = some p)
    (hxc : t.Below x c) (hxd : t.Below x d) : c = d := by
  by_contra hne
  rcases ho.below_total hxc hxd with h | h
  · exact ho.not_below_sibling hc hd hne h
  · exact ho.not_below_sibling hd hc (Ne.symm hne) h

theorem parent_of_mem {p c : NodeId} (h : c ∈ t.children p) : t.parent c = some p :=
  (ho.mem_children.1 h).2

theorem index_lt_size_of_mem {p c : NodeId} (h : c ∈ t.children p) : c.index < t.size :=
  (ho.mem_children.1 h).1

/-- A node strictly under another is below one of its children. -/
theorem exists_child {x p : NodeId} (h : t.Inside x p) :
    ∃ c, t.parent c = some p ∧ t.Below x c := by
  induction x using ho.up_induction with
  | step x ih =>
    rcases ho.below_iff_parent.1 h.1 with hxp | ⟨q, hq, hqp⟩
    · exact absurd hxp h.2
    rcases below_iff_eq_or_inside.1 hqp with rfl | hin
    · exact ⟨x, hq, below_refl t x⟩
    · obtain ⟨c, hc, hqc⟩ := ih q hq hin
      exact ⟨c, hc, ho.below_trans (ho.below_parent hq) hqc⟩

end Ordered
end PythonFlow.SyntaxTree
