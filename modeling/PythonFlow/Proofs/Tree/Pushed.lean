import Mathlib.Data.List.Nodup
import PythonFlow.Proofs.Tree.Below

/-!
# Trees made by pushing

A tree begins as its root and grows by one node at a time, each pushed under a node that is there. In
such a tree parents come before their children and each records the other, whatever the kinds and roles
are. No list of children and no link to a parent leads outside of it.
-/

set_option autoImplicit false

namespace PythonFlow.SyntaxTree

inductive Pushed : SyntaxTree → Prop
  | singleton (kind : SyntaxKind) (span : Span) : Pushed (.singleton kind span)
  | push {t : SyntaxTree} (h : Pushed t) {parent : NodeId} (hp : parent.index < t.size)
      (kind : SyntaxKind) (role : Role) (span : Span) : Pushed (t.push parent kind role span).1
  | setName {t : SyntaxTree} (h : Pushed t) (id : NodeId) (name : String) : Pushed (t.setName id name)
  | setText {t : SyntaxTree} (h : Pushed t) (id : NodeId) (text : String) : Pushed (t.setText id text)
  | setSpan {t : SyntaxTree} (h : Pushed t) (id : NodeId) (span : Span) : Pushed (t.setSpan id span)

structure Closed (t : SyntaxTree) : Prop where
  child_lt : ∀ {p c : NodeId}, c ∈ t.children p → p.index < t.size ∧ c.index < t.size
  parent_lt : ∀ {c p : NodeId}, t.parent c = some p → p.index < t.size ∧ c.index < t.size

section nodes
variable {t : SyntaxTree} {id : NodeId}

theorem node_of_size_le (h : t.size ≤ id.index) : t.node id = .blank := by
  have hout : ¬ id.index < t.nodes.size := Nat.not_lt_of_le h
  simp [node, Array.getD, hout]

theorem node_update (f : SyntaxNode → SyntaxNode) (x : NodeId) :
    (t.update id f).node x = if x = id ∧ id.index < t.size then f (t.node x) else t.node x := by
  by_cases hx : x = id
  · subst hx
    by_cases hlt : x.index < t.size
    · have hlt' : x.index < t.nodes.size := hlt
      simp [node, update, Array.getD, hlt, hlt', Array.getElem_modify]
    · have hout : t.nodes[x.index]? = none := Array.getElem?_eq_none (Nat.le_of_not_lt hlt)
      simp [node, update, Array.getD_eq_getD_getElem?, Array.getElem?_modify, hlt, hout]
  · have hne : id.index ≠ x.index := fun hi => hx (by cases x; cases id; simp_all)
    simp [node, update, Array.getD_eq_getD_getElem?, Array.getElem?_modify, hx, hne]

section push
variable {p : NodeId} (hp : p.index ≤ t.size) (k : SyntaxKind) (r : Role) (s : Span)
include hp

/-- What a push leaves at each index. The node that is pushed may be its own parent. -/
theorem node_push (x : NodeId) : (t.push p k r s).1.node x =
    (fun n : SyntaxNode => if x = p then { n with children := n.children ++ [⟨t.size⟩] } else n)
      (if x.index = t.size then .fresh (some p) k r s else t.node x) := by
  have hgrown : ∀ y : NodeId, node ⟨t.nodes.push (.fresh (some p) k r s)⟩ y =
      if y.index = t.size then .fresh (some p) k r s else t.node y := by
    intro y
    by_cases hy : y.index = t.size
    · have hy' : y.index = t.nodes.size := hy
      simp [node, Array.getD_eq_getD_getElem?, hy', size]
    · have hy' : y.index ≠ t.nodes.size := hy
      simp [node, Array.getD_eq_getD_getElem?, Array.getElem?_push, hy', hy]
  have hlt : p.index < (⟨t.nodes.push (.fresh (some p) k r s)⟩ : SyntaxTree).size := by
    simp only [size, Array.size_push] at hp ⊢
    omega
  rw [push, (require_ok _ _).2 hlt]
  dsimp only
  rw [node_update, hgrown]
  by_cases hx : x = p
  · rw [if_pos ⟨hx, hlt⟩, if_pos hx]
  · rw [if_neg fun h => hx h.1, if_neg hx]

theorem parent_push (x : NodeId) :
    (t.push p k r s).1.parent x = if x.index = t.size then some p else t.parent x := by
  rw [parent, node_push hp]
  dsimp only
  by_cases hsize : x.index = t.size
  · rw [if_pos hsize, if_pos hsize]
    split <;> rfl
  · rw [if_neg hsize, if_neg hsize]
    split <;> rfl

theorem children_push (x : NodeId) : (t.push p k r s).1.children x =
    if x = p then t.children x ++ [⟨t.size⟩] else t.children x := by
  have hnew : x.index = t.size → t.children x = [] := fun hx => by
    rw [children, node_of_size_le (Nat.le_of_eq hx.symm)]
    rfl
  rw [children, node_push hp]
  by_cases hsize : x.index = t.size
  · rw [if_pos hsize, hnew hsize]
    split <;> rfl
  · rw [if_neg hsize]
    split <;> rfl

/-- The nodes that were there keep their parents. -/
theorem mem_children_push_old (q : NodeId) {c : NodeId} (hc : c.index ≠ t.size) :
    c ∈ (t.push p k r s).1.children q ↔ c ∈ t.children q := by
  have hne : c ≠ ⟨t.size⟩ := fun h => hc (congrArg NodeId.index h)
  rw [children_push hp]
  split <;> simp [hne]

end push

end nodes

theorem ordered_singleton (k : SyntaxKind) (s : Span) : (singleton k s).Ordered := by
  have hblank : ∀ id : NodeId, id.index ≠ 0 → (singleton k s).node id = .blank := fun id h =>
    node_of_size_le (Nat.one_le_iff_ne_zero.2 h)
  have hparent : ∀ id, (singleton k s).parent id = none := by
    intro id
    by_cases h : id.index = 0
    · simp [parent, node, singleton, Array.getD, h, SyntaxNode.fresh]
    · simp [parent, hblank id h, SyntaxNode.blank, SyntaxNode.fresh]
  have hchildren : ∀ id, (singleton k s).children id = [] := by
    intro id
    by_cases h : id.index = 0
    · simp [children, node, singleton, Array.getD, h, SyntaxNode.fresh]
    · simp [children, hblank id h, SyntaxNode.blank, SyntaxNode.fresh]
  constructor
  · intro id p h
    rw [hparent] at h
    cases h
  · intro p c
    simp [hparent, hchildren]
  · intro p
    simp [hchildren]

namespace Ordered
variable {t : SyntaxTree} (ho : t.Ordered)
include ho

theorem index_ne_of_mem {x c : NodeId} (hc : c ∈ t.children x) : c.index ≠ t.size :=
  Nat.ne_of_lt (ho.index_lt_size_of_mem hc)

section push
variable {p : NodeId} (hp : p.index < t.size) (k : SyntaxKind) (r : Role) (s : Span)
include hp

/-- The pushed node is a child of its parent and of no other node. -/
theorem mem_children_push_new (q : NodeId) : ⟨t.size⟩ ∈ (t.push p k r s).1.children q ↔ some p = some q := by
  have hnot : ∀ x, (⟨t.size⟩ : NodeId) ∉ t.children x := fun _ h => ho.index_ne_of_mem h rfl
  rw [children_push (Nat.le_of_lt hp)]
  by_cases hq : q = p
  · simp [hq]
  · simp [hq, hnot, Ne.symm hq]

theorem nodup_push (q : NodeId) : ((t.push p k r s).1.children q).Nodup := by
  rw [children_push (Nat.le_of_lt hp)]
  split
  · have hnot : (⟨t.size⟩ : NodeId) ∉ t.children q := fun h => ho.index_ne_of_mem h rfl
    exact List.concat_eq_append ▸ List.Nodup.concat hnot (ho.children_nodup q)
  · exact ho.children_nodup q

theorem push : (t.push p k r s).1.Ordered := by
  constructor
  · intro id q h
    rw [parent_push (Nat.le_of_lt hp)] at h
    split at h
    · next hid =>
      obtain rfl := Option.some.inj h
      omega
    · exact ho.parent_lt h
  · intro q c
    rw [parent_push (Nat.le_of_lt hp), size_push]
    by_cases hc : c.index = t.size
    · obtain rfl : c = ⟨t.size⟩ := congrArg NodeId.mk hc
      rw [ho.mem_children_push_new hp k r s q, if_pos rfl]
      simp
    · have hlt : c.index < t.size + 1 ↔ c.index < t.size := by omega
      rw [mem_children_push_old (Nat.le_of_lt hp) k r s q hc, if_neg hc, hlt]
      exact ho.mem_children
  · exact ho.nodup_push hp k r s

end push

/-- A change of a node that leaves its place in the tree. -/
theorem update (id : NodeId) {f : SyntaxNode → SyntaxNode} (hparent : ∀ n, (f n).parent = n.parent)
    (hchildren : ∀ n, (f n).children = n.children) : (t.update id f).Ordered := by
  have hp : ∀ x, (t.update id f).parent x = t.parent x := by
    intro x
    rw [parent, node_update]
    split
    · exact hparent _
    · rfl
  have hc : ∀ x, (t.update id f).children x = t.children x := by
    intro x
    rw [children, node_update]
    split
    · exact hchildren _
    · rfl
  constructor
  · intro x p h
    exact ho.parent_lt (hp x ▸ h)
  · intro p c
    rw [hc, hp, size_update]
    exact ho.mem_children
  · intro p
    rw [hc]
    exact ho.children_nodup p

theorem closed : t.Closed where
  child_lt := fun {p c} h => by
    have hlt := ho.parent_lt (ho.parent_of_mem h)
    have hc := ho.index_lt_size_of_mem h
    omega
  parent_lt := fun {c p} h => by
    have hlt := ho.parent_lt h
    have hc := index_lt_size_of_parent h
    omega

end Ordered

theorem Pushed.ordered {t : SyntaxTree} (h : t.Pushed) : t.Ordered := by
  induction h with
  | singleton kind span => exact ordered_singleton kind span
  | push _ hp kind role span ih => exact ih.push hp kind role span
  | setName _ id name ih => exact ih.update id (fun _ => rfl) fun _ => rfl
  | setText _ id text ih => exact ih.update id (fun _ => rfl) fun _ => rfl
  | setSpan _ id span ih => exact ih.update id (fun _ => rfl) fun _ => rfl

end PythonFlow.SyntaxTree
