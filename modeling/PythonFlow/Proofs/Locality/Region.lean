import Mathlib.Data.List.Nodup
import Mathlib.Data.Set.Function
import PythonFlow.Flow.Visit
import PythonFlow.Proofs.Tree.Loops
import PythonFlow.Proofs.Tree.Parts

/-!
# What belongs to an owner

The part of an owner is what stands below it with no node of a sealed kind in between; a node of a sealed
kind belongs to the part, and what is below it does not. Two parts are alike if a renaming carries the
children of each node of one, in their order, to the children of the node's image in the other, together
with kinds, roles and names. Whatever the rules ask about the nodes of a part then has the same answer in
both trees, up to the renaming: the walks upwards end at the owner at the latest.
-/

set_option autoImplicit false

namespace PythonFlow

/-- Kinds with a graph of their own, below which a visit never goes. -/
def SyntaxKind.isSealed : SyntaxKind → Bool
  | functionDef | classDef | lambda => true
  | _ => false

namespace SyntaxTree

/-- The node stands below the owner, with no node of a sealed kind strictly between them. -/
def PartOf (t : SyntaxTree) (sealed : SyntaxKind → Bool) (owner x : NodeId) : Prop :=
  t.Inside x owner ∧ ∀ m, t.Inside x m → t.Inside m owner → sealed (t.kind m) = false

/-- The parts of two owners correspond under a renaming. -/
structure Alike (t t' : SyntaxTree) (sealed : SyntaxKind → Bool) (owner owner' : NodeId)
    (φ : NodeId → NodeId) : Prop where
  top : t'.children owner' = (t.children owner).map φ
  children : ∀ p, t.PartOf sealed owner p → sealed (t.kind p) = false →
    t'.children (φ p) = (t.children p).map φ
  kind : ∀ x, t.PartOf sealed owner x → t'.kind (φ x) = t.kind x
  role : ∀ x, t.PartOf sealed owner x → t'.role (φ x) = t.role x
  name : ∀ x, t.PartOf sealed owner x → t'.name (φ x) = t.name x

theorem Alike.refl (t : SyntaxTree) (sealed : SyntaxKind → Bool) (owner : NodeId) :
    t.Alike t sealed owner owner id where
  top := (List.map_id _).symm
  children _ _ _ := (List.map_id _).symm
  kind _ _ := rfl
  role _ _ := rfl
  name _ _ := rfl

/-- One step on the way up to a node of a kind. -/
theorem Ordered.ancestor_of_parent {t : SyntaxTree} (ho : t.Ordered) {x p : NodeId}
    (hp : t.parent x = some p) (k : SyntaxKind) (boundary : Option NodeId) :
    t.ancestorOfKind x k boundary =
      if t.kind x = k then some x
      else if some x = boundary then none
      else t.ancestorOfKind p k boundary := by
  rw [ancestorOfKind, ho.lineage_of_parent hp]
  rfl

section part
variable {t : SyntaxTree} {sealed : SyntaxKind → Bool} {owner x p c : NodeId} (ho : t.Ordered)
include ho

theorem part_of_top (hc : c ∈ t.children owner) : t.PartOf sealed owner c := by
  have hp := ho.parent_of_mem hc
  refine ⟨ho.inside_parent hp, fun m hm hmo => ?_⟩
  exact absurd (ho.below_of_inside_parent hp hm) (ho.not_below_of_inside hmo)

theorem PartOf.child (hp : t.PartOf sealed owner p) (hopen : sealed (t.kind p) = false)
    (hc : c ∈ t.children p) : t.PartOf sealed owner c := by
  have hparent := ho.parent_of_mem hc
  refine ⟨ho.inside_of_inside_below (ho.inside_parent hparent) hp.1.1, fun m hm hmo => ?_⟩
  rcases below_iff_eq_or_inside.1 (ho.below_of_inside_parent hparent hm) with rfl | hpm
  · exact hopen
  · exact hp.2 m hpm hmo

/-- Between a node of the part and the owner there are nodes of the part only. -/
theorem PartOf.above (hx : t.PartOf sealed owner x) (hxp : t.Below x p) (hp : t.Inside p owner) :
    t.PartOf sealed owner p :=
  ⟨hp, fun m hm hmo => hx.2 m (ho.inside_of_below_inside hxp hm) hmo⟩

theorem PartOf.parent (hx : t.PartOf sealed owner x) (hp : t.parent x = some p) :
    p = owner ∨ t.PartOf sealed owner p ∧ sealed (t.kind p) = false := by
  rcases below_iff_eq_or_inside.1 (ho.below_of_inside_parent hp hx.1) with rfl | hin
  · exact .inl rfl
  · exact .inr ⟨hx.above ho (ho.below_parent hp) hin, hx.2 p (ho.inside_parent hp) hin⟩

/-- A part is made of the owner's children and of the children of its open nodes. -/
@[elab_as_elim]
theorem part_induction {P : NodeId → Prop} (x : NodeId) (hx : t.PartOf sealed owner x)
    (top : ∀ c ∈ t.children owner, P c)
    (child : ∀ p, t.PartOf sealed owner p → sealed (t.kind p) = false → P p →
      ∀ c ∈ t.children p, P c) : P x := by
  induction x using ho.up_induction with
  | step x ih =>
    obtain ⟨p, hp, -⟩ := ho.exists_parent hx.1
    have hmem : x ∈ t.children p := ho.mem_children.2 ⟨index_lt_size_of_parent hp, hp⟩
    rcases hx.parent ho hp with rfl | ⟨hpart, hopen⟩
    · exact top x hmem
    · exact child p hpart hopen (ih p hp hpart) x hmem

end part

namespace Alike
variable {t t' : SyntaxTree} {sealed : SyntaxKind → Bool} {owner owner' : NodeId}
  {φ : NodeId → NodeId} (h : Alike t t' sealed owner owner' φ) (ho : t.Ordered) (ho' : t'.Ordered)
  {x y s c p : NodeId}
include h

section images
include ho'

theorem parent_top (hc : c ∈ t.children owner) : t'.parent (φ c) = some owner' :=
  ho'.parent_of_mem (h.top ▸ List.mem_map_of_mem hc)

theorem parent_part (hp : t.PartOf sealed owner p) (hopen : sealed (t.kind p) = false)
    (hc : c ∈ t.children p) : t'.parent (φ c) = some (φ p) :=
  ho'.parent_of_mem (h.children p hp hopen ▸ List.mem_map_of_mem hc)

include ho

theorem part (hx : t.PartOf sealed owner x) : t'.PartOf sealed owner' (φ x) := by
  refine part_induction ho x hx (fun c hc => ?_) fun p hp hopen hpart c hc => ?_
  · exact part_of_top ho' (h.top ▸ List.mem_map_of_mem hc)
  · refine hpart.child ho' ?_ (h.children p hp hopen ▸ List.mem_map_of_mem hc)
    rw [h.kind p hp]
    exact hopen

theorem ne_owner (hx : t.PartOf sealed owner x) : φ x ≠ owner' := (h.part ho ho' hx).1.2

theorem injective (hx : t.PartOf sealed owner x) (hy : t.PartOf sealed owner y)
    (heq : φ x = φ y) : x = y := by
  have hsame : ∀ q, ((t.children q).map φ).Nodup → ∀ a ∈ t.children q, ∀ b ∈ t.children q,
      φ a = φ b → a = b := fun q hnodup a ha b hb hab => List.inj_on_of_nodup_map hnodup ha hb hab
  suffices hall : ∀ y, t.PartOf sealed owner y → φ x = φ y → x = y from hall y hy heq
  refine part_induction ho x hx (fun c hc y hy heq => ?_) fun p hp hopen ih c hc y hy heq => ?_
  · have hparent := h.parent_top ho' hc
    revert heq
    refine part_induction ho y hy (fun d hd heq => ?_) fun q hq hqopen _ d hd heq => ?_
    · exact hsame owner (h.top ▸ ho'.children_nodup owner') c hc d hd heq
    · rw [heq, h.parent_part ho' hq hqopen hd] at hparent
      exact absurd (Option.some.inj hparent) (h.ne_owner ho ho' hq)
  · have hparent := h.parent_part ho' hp hopen hc
    revert heq
    refine part_induction ho y hy (fun d hd heq => ?_) fun q hq hqopen _ d hd heq => ?_
    · rw [heq, h.parent_top ho' hd] at hparent
      exact absurd (Option.some.inj hparent).symm (h.ne_owner ho ho' hp)
    · rw [heq, h.parent_part ho' hq hqopen hd] at hparent
      obtain rfl : p = q := ih q hq (Option.some.inj hparent).symm
      exact hsame p (h.children p hp hopen ▸ ho'.children_nodup (φ p)) c hc d hd heq

theorem surjective (hy : t'.PartOf sealed owner' y) : ∃ x, t.PartOf sealed owner x ∧ φ x = y := by
  refine part_induction ho' y hy (fun c hc => ?_) fun p hp hopen ⟨q, hq, hqp⟩ c hc => ?_
  · rw [h.top] at hc
    obtain ⟨d, hd, rfl⟩ := List.mem_map.1 hc
    exact ⟨d, part_of_top ho hd, rfl⟩
  · subst hqp
    rw [h.kind q hq] at hopen
    rw [h.children q hq hopen] at hc
    obtain ⟨d, hd, rfl⟩ := List.mem_map.1 hc
    exact ⟨d, hq.child ho hopen hd, rfl⟩

/-- The renaming is a bijection between the parts. -/
theorem bij_on : Set.BijOn φ {x | t.PartOf sealed owner x} {y | t'.PartOf sealed owner' y} :=
  ⟨fun _ hx => h.part ho ho' hx, fun _ hx _ hy heq => h.injective ho ho' hx hy heq,
    fun _ hy => h.surjective ho ho' hy⟩

/-- Within the parts the order of the nodes is the same. -/
theorem below_iff (hx : t.PartOf sealed owner x) (hs : t.PartOf sealed owner s) :
    t'.Below (φ x) (φ s) ↔ t.Below x s := by
  have hs' := h.part ho ho' hs
  refine part_induction ho x hx (fun c hc => ?_) fun p hp hopen ih c hc => ?_
  · -- The owner is above both ends, so only the node itself is left.
    have hc' : t.PartOf sealed owner c := part_of_top ho hc
    rw [ho.below_iff_parent, ho'.below_iff_parent]
    refine or_congr ⟨h.injective ho ho' hc' hs, congrArg φ⟩ ?_
    rw [h.parent_top ho' hc, ho.parent_of_mem hc]
    simp only [Option.some.injEq, exists_eq_left']
    exact ⟨fun hb => absurd hb (ho'.not_below_of_inside hs'.1),
      fun hb => absurd hb (ho.not_below_of_inside hs.1)⟩
  · have hc' := hp.child ho hopen hc
    rw [ho.below_iff_parent, ho'.below_iff_parent]
    refine or_congr ⟨h.injective ho ho' hc' hs, congrArg φ⟩ ?_
    rw [h.parent_part ho' hp hopen hc, ho.parent_of_mem hc]
    simp only [Option.some.injEq, exists_eq_left']
    exact ih

/-- A jump refers to the image of the loop that it refers to. -/
theorem enclosing_loop (howner : (t.kind owner).isOwner = true)
    (howner' : (t'.kind owner').isOwner = true) (hx : t.PartOf sealed owner x) :
    t'.enclosingLoop (φ x) = (t.enclosingLoop x).map φ := by
  refine part_induction ho x hx (fun c hc => ?_) fun p hp hopen ih c hc => ?_
  · rw [ho.enclosing_loop_of_parent (ho.parent_of_mem hc),
      ho'.enclosing_loop_of_parent (h.parent_top ho' hc), if_pos howner, if_pos howner']
    rfl
  · rw [ho.enclosing_loop_of_parent (ho.parent_of_mem hc),
      ho'.enclosing_loop_of_parent (h.parent_part ho' hp hopen hc), h.kind p hp,
      h.kind c (hp.child ho hopen hc), ih]
    split
    · rfl
    split <;> rfl

/-- A raise is found on the way up to the body of its statement. -/
theorem raised_in_body {part : NodeId} (hx : t.PartOf sealed owner x)
    (hpart : t.PartOf sealed owner part) :
    Visit.raisedInBody t' (some (φ part)) (φ x) = Visit.raisedInBody t (some part) x := by
  have hsame : t'.isDescendantOf (φ x) (φ part) = t.isDescendantOf x part := by
    rw [Bool.eq_iff_iff, is_descendant_of_iff, is_descendant_of_iff]
    exact h.below_iff ho ho' hx hpart
  have hfound : t.Below x part →
      (t'.ancestorOfKind (φ x) .raiseExit (some (φ part))).isSome =
        (t.ancestorOfKind x .raiseExit (some part)).isSome := by
    refine part_induction ho x hx (fun c hc hb => ?_) fun p hp hopen ih c hc hb => ?_
    · have hc' : t.PartOf sealed owner c := part_of_top ho hc
      have hparent := ho.parent_of_mem hc
      -- A child of the owner that stands in the body is the body.
      obtain rfl : c = part := by
        rcases below_iff_eq_or_inside.1 hb with heq | hin
        · exact heq
        · exact absurd (ho.below_of_inside_parent hparent hin) (ho.not_below_of_inside hpart.1)
      rw [ho.ancestor_of_parent hparent, ho'.ancestor_of_parent (h.parent_top ho' hc), h.kind c hc',
        if_pos (rfl : some c = some c), if_pos (rfl : some (φ c) = some (φ c))]
      split <;> rfl
    · have hc' := hp.child ho hopen hc
      have hparent := ho.parent_of_mem hc
      rw [ho.ancestor_of_parent hparent, ho'.ancestor_of_parent (h.parent_part ho' hp hopen hc),
        h.kind c hc']
      split
      · rfl
      by_cases heq : c = part
      · subst heq
        rw [if_pos rfl, if_pos rfl]
      · have hne : φ c ≠ φ part := fun he => heq (h.injective ho ho' hc' hpart he)
        rw [if_neg fun he => heq (Option.some.inj he), if_neg fun he => hne (Option.some.inj he)]
        exact ih (ho.below_of_inside_parent hparent ⟨hb, heq⟩)
  show ((t'.ancestorOfKind (φ x) .raiseExit (some (φ part))).isSome && _) = (_ && _)
  rw [hsame]
  cases hb : t.isDescendantOf x part with
  | false => rw [Bool.and_false, Bool.and_false]
  | true => rw [hfound ((is_descendant_of_iff t x part).1 hb)]

end images

section parts
variable (hs : t.PartOf sealed owner s) (hopen : sealed (t.kind s) = false)
include ho hs hopen

theorem find_child {q q' : NodeId → Bool} (hq : ∀ c, t.PartOf sealed owner c → q' (φ c) = q c) :
    (t'.children (φ s)).find? q' = ((t.children s).find? q).map φ := by
  rw [h.children s hs hopen, List.find?_map]
  have hall : ∀ c ∈ t.children s, t.PartOf sealed owner c := fun c hc => hs.child ho hopen hc
  refine congrArg (Option.map φ) ?_
  generalize t.children s = cs at hall
  induction cs with
  | nil => rfl
  | cons c cs ih =>
    rw [List.find?_cons, List.find?_cons, Function.comp_apply, hq c (hall c (by simp))]
    cases q c with
    | true => rfl
    | false => exact ih fun d hd => hall d (by simp [hd])

theorem filter_children {q q' : NodeId → Bool}
    (hq : ∀ c, t.PartOf sealed owner c → q' (φ c) = q c) :
    (t'.children (φ s)).filter q' = ((t.children s).filter q).map φ := by
  rw [h.children s hs hopen, List.filter_map]
  refine congrArg (List.map φ) (List.filter_congr fun c hc => ?_)
  exact hq c (hs.child ho hopen hc)

theorem child_with_role (r : Role) :
    t'.childWithRole (φ s) r = (t.childWithRole s r).map φ :=
  h.find_child ho hs hopen fun c hc => by rw [h.role c hc]

theorem first_child_of_kind (k : SyntaxKind) :
    t'.firstChildOfKind (φ s) k = (t.firstChildOfKind s k).map φ :=
  h.find_child ho hs hopen fun c hc => by rw [h.kind c hc]

theorem children_with_role (r : Role) :
    t'.childrenWithRole (φ s) r = (t.childrenWithRole s r).map φ :=
  h.filter_children ho hs hopen fun c hc => by rw [h.role c hc]

theorem children_of_kind (k : SyntaxKind) :
    t'.childrenOfKind (φ s) k = (t.childrenOfKind s k).map φ :=
  h.filter_children ho hs hopen fun c hc => by rw [h.kind c hc]

theorem if_parts : t'.ifParts (φ s) = (t.ifParts s).map φ :=
  h.filter_children ho hs hopen fun c hc => by rw [h.kind c hc]

end parts
end Alike
end SyntaxTree
end PythonFlow
