import Mathlib.Logic.Relation
import PythonFlow.Proofs.Tree.Pushed

/-!
# The loop of a jump

One step upwards decides: the loop of a node is its parent, unless the node is the parent's `else`
clause or the parent no loop, and then it is the loop of the parent. An owner ends the search. Said
without the search, it is the loop above the node that is not entered through its `else` clause, while
every other loop on the way is, and no owner stands on the way.
-/

set_option autoImplicit false

namespace PythonFlow.SyntaxTree
variable {t : SyntaxTree}

theorem enclosing_loop_of_root {s : NodeId} (h : t.parent s = none) : t.enclosingLoop s = none := by
  have habove : t.above s = [] := by simp [above, lineage_of_root h]
  simp [enclosingLoop, habove, loopAmong]

/-- The loop that a jump at a node refers to, by what stands on the way from the one to the other. -/
structure RefersTo (t : SyntaxTree) (n l : NodeId) : Prop where
  loop : (t.kind l).isLoop = true
  inside : t.Inside n l
  free : ∀ m, t.Inside n m → t.Inside m l → (t.kind m).isOwner = false
  entered : ∀ part, t.parent part = some l → t.Below n part → t.kind part ≠ .elsePart
  passed : ∀ m, t.Inside n m → t.Inside m l → (t.kind m).isLoop = true →
    ∀ part, t.parent part = some m → t.Below n part → t.kind part = .elsePart

/-- The node stands in the `else` clause of the loop, and no other loop and no owner is on the way. -/
structure InElse (t : SyntaxTree) (n l : NodeId) : Prop where
  loop : (t.kind l).isLoop = true
  clause : ∃ part, t.parent part = some l ∧ t.kind part = .elsePart ∧ t.Below n part
  clear : ∀ m, t.Inside n m → t.Inside m l →
    (t.kind m).isOwner = false ∧ (t.kind m).isLoop = false

theorem not_owner_of_loop {k : SyntaxKind} (h : k.isLoop = true) : k.isOwner = false := by
  cases k <;> first | rfl | cases h

namespace Ordered
variable (ho : t.Ordered)
include ho

theorem enclosing_loop_of_parent {s p : NodeId} (h : t.parent s = some p) :
    t.enclosingLoop s =
      if (t.kind p).isOwner then none
      else if (t.kind p).isLoop && t.kind s != .elsePart then some p
      else t.enclosingLoop p := by
  have habove : t.above s = p :: t.above p := by
    rw [above, ho.lineage_of_parent h, List.tail_cons, lineage_eq_cons]
  rw [enclosingLoop, habove, loopAmong]
  rfl

section parent
variable {s p : NodeId} (h : t.parent s = some p)
include h

theorem refers_to_parent_iff :
    t.RefersTo s p ↔ (t.kind p).isLoop = true ∧ t.kind s ≠ .elsePart := by
  -- Nothing stands between a node and its parent, and the only child on the way is the node.
  have hnone : ∀ m, t.Inside s m → ¬ t.Inside m p := fun m hsm hmp =>
    ho.not_below_of_inside hmp (ho.below_of_inside_parent h hsm)
  constructor
  · exact fun hr => ⟨hr.loop, hr.entered s h (below_refl t s)⟩
  · rintro ⟨hloop, helse⟩
    refine ⟨hloop, ho.inside_parent h, fun m hsm hmp => absurd hmp (hnone m hsm), ?_,
      fun m hsm hmp => absurd hmp (hnone m hsm)⟩
    intro part hpart hs
    rwa [ho.siblings_apart hpart h hs (below_refl t s)]

/-- The step upwards is one more node that is no owner, and a loop only above an `else` clause. -/
theorem refers_to_above_iff {l : NodeId} (hne : l ≠ p) :
    t.RefersTo s l ↔ t.RefersTo p l ∧ (t.kind p).isOwner = false ∧
      ((t.kind p).isLoop = true → t.kind s = .elsePart) := by
  have hsp := ho.inside_parent h
  -- What is above the parent is above the node, and is reached through the same child.
  have hthrough : ∀ {m part : NodeId}, t.Inside p m → t.parent part = some m →
      (t.Below s part ↔ t.Below p part) := by
    intro m part hpm hpart
    refine ⟨fun hs => ?_, fun hp => ho.below_trans hsp.below hp⟩
    rcases below_iff_eq_or_inside.1 hs with rfl | hs
    · obtain rfl : p = m := Option.some.inj (h.symm.trans hpart)
      exact absurd rfl hpm.2
    · exact ho.below_of_inside_parent h hs
  have hrest : ∀ {m : NodeId}, t.Inside s m → m = p ∨ t.Inside p m := fun hsm =>
    (below_iff_eq_or_inside.1 (ho.below_of_inside_parent h hsm)).imp Eq.symm id
  constructor
  · intro hr
    have hpl : t.Inside p l := (hrest hr.inside).resolve_left hne
    refine ⟨⟨hr.loop, hpl, fun m hpm hml => ?_, fun part hpart hp => ?_, fun m hpm hml hm part hpart hp => ?_⟩,
      hr.free p hsp hpl, fun hp => hr.passed p hsp hpl hp s h (below_refl t s)⟩
    · exact hr.free m (ho.inside_of_inside_below hsp hpm.below) hml
    · exact hr.entered part hpart ((hthrough hpl hpart).2 hp)
    · exact hr.passed m (ho.inside_of_inside_below hsp hpm.below) hml hm part hpart
        ((hthrough hpm hpart).2 hp)
  · rintro ⟨hr, howner, helse⟩
    refine ⟨hr.loop, ho.inside_of_inside_below hsp hr.inside.below, fun m hsm hml => ?_,
      fun part hpart hs => ?_, fun m hsm hml hm part hpart hs => ?_⟩
    · rcases hrest hsm with rfl | hpm
      · exact howner
      · exact hr.free m hpm hml
    · exact hr.entered part hpart ((hthrough hr.inside hpart).1 hs)
    · rcases hrest hsm with rfl | hpm
      · rw [ho.siblings_apart hpart h hs (below_refl t s)]
        exact helse hm
      · exact hr.passed m hpm hml hm part hpart ((hthrough hpm hpart).1 hs)

end parent

theorem enclosing_loop_iff (s l : NodeId) : t.enclosingLoop s = some l ↔ t.RefersTo s l := by
  induction s using ho.up_induction with
  | step s ih =>
    cases hp : t.parent s with
    | none =>
      rw [enclosing_loop_of_root hp]
      refine ⟨nofun, fun hr => ?_⟩
      obtain ⟨p, hsome, -⟩ := ho.exists_parent hr.inside
      simp [hp] at hsome
    | some p =>
      rw [ho.enclosing_loop_of_parent hp]
      by_cases hl : l = p
      · subst hl
        rw [ho.refers_to_parent_iff hp]
        by_cases hloop : (t.kind l).isLoop = true
        · by_cases helse : t.kind s = .elsePart
          · -- The search goes on above the loop, and does not come back to it.
            have hup : t.enclosingLoop l ≠ some l := fun h => ((ih l hp).1 h).inside.2 rfl
            simp [not_owner_of_loop hloop, helse, hup]
          · simp [not_owner_of_loop hloop, hloop, helse]
        · have hup : t.enclosingLoop l ≠ some l := fun h => ((ih l hp).1 h).inside.2 rfl
          simp [hloop, hup]
      · rw [ho.refers_to_above_iff hp hl, ← ih p hp]
        by_cases howner : (t.kind p).isOwner = true
        · simp [howner]
        · by_cases hloop : (t.kind p).isLoop = true <;> by_cases helse : t.kind s = .elsePart <;>
            simp [howner, hloop, helse, Ne.symm hl]

/-- The loop of a node is a loop strictly above it, with no owner between them. -/
theorem enclosing_loop_above {s l : NodeId} (h : t.enclosingLoop s = some l) :
    t.Inside s l ∧ (t.kind l).isLoop = true ∧
      ∀ m, t.Inside s m → t.Below m l → (t.kind m).isOwner = false := by
  have hr := (ho.enclosing_loop_iff s l).1 h
  refine ⟨hr.inside, hr.loop, fun m hsm hml => ?_⟩
  rcases below_iff_eq_or_inside.1 hml with rfl | hml
  · exact not_owner_of_loop hr.loop
  · exact hr.free m hsm hml

/-- What stands in the code of an owner refers to no loop above the owner. -/
theorem not_inside_enclosing_loop {owner x l : NodeId} (howner : (t.kind owner).isOwner = true)
    (hx : t.Inside x owner) (hl : t.enclosingLoop x = some l) : ¬ t.Inside owner l := by
  intro hin
  rw [(ho.enclosing_loop_above hl).2.2 owner hx hin.1] at howner
  cases howner

/-- A jump in the `else` clause of a loop does not refer to that loop. -/
theorem enclosing_loop_in_else {s part l : NodeId} (hpart : t.parent part = some l)
    (hkind : t.kind part = .elsePart) (hs : t.Below s part) : t.enclosingLoop s ≠ some l :=
  fun h => ((ho.enclosing_loop_iff s l).1 h).entered part hpart hs hkind

/-- A jump in the `else` clause of a loop refers to what the loop itself stands in. -/
theorem enclosing_loop_of_in_else {s l : NodeId} (h : t.InElse s l) :
    t.enclosingLoop s = t.enclosingLoop l := by
  induction s using ho.up_induction with
  | step s ih =>
    obtain ⟨part, hpart, hkind, hs⟩ := h.clause
    rcases below_iff_eq_or_inside.1 hs with rfl | hin
    · rw [ho.enclosing_loop_of_parent hpart]
      simp [not_owner_of_loop h.loop, hkind]
    · obtain ⟨p, hp, hpb⟩ := ho.exists_parent hin
      have hsp := ho.inside_parent hp
      obtain ⟨howner, hloop⟩ := h.clear p hsp (ho.inside_of_below_inside hpb (ho.inside_parent hpart))
      rw [ho.enclosing_loop_of_parent hp, howner, hloop]
      exact ih p hp ⟨h.loop, ⟨part, hpart, hkind, hpb⟩, fun m hm =>
        h.clear m (ho.inside_of_inside_below hsp hm.below)⟩

/-- The search finds the loop that a jump refers to, and finds none only where there is none. Through any
number of `else` clauses a jump goes outwards to what the outermost of their loops stands in, and never past
an owner. -/
theorem enclosing_loop_exact (n : NodeId) :
    (∀ l, t.enclosingLoop n = some l ↔ t.RefersTo n l) ∧
    (t.enclosingLoop n = none ↔ ∀ l, ¬ t.RefersTo n l) ∧
    (∀ l, Relation.ReflTransGen t.InElse n l → t.enclosingLoop n = t.enclosingLoop l) ∧
    ∀ l owner, t.enclosingLoop n = some l → (t.kind owner).isOwner = true → t.Inside n owner →
      t.Inside l owner := by
  refine ⟨ho.enclosing_loop_iff n, ?_, fun l hl => ?_, fun l owner hl howner hn => ?_⟩
  · simp only [← ho.enclosing_loop_iff n, Option.eq_none_iff_forall_ne_some, ne_eq]
  · induction hl with
    | refl => rfl
    | tail _ hlast ih => rw [ih, ho.enclosing_loop_of_in_else hlast]
  · obtain ⟨hin, hloop, -⟩ := ho.enclosing_loop_above hl
    rcases ho.below_total hin.below hn.below with hlo | hol
    · refine ⟨hlo, ?_⟩
      rintro rfl
      rw [not_owner_of_loop hloop] at howner
      cases howner
    · rcases below_iff_eq_or_inside.1 hol with rfl | hol
      · rw [not_owner_of_loop hloop] at howner
        cases howner
      · exact absurd hol (ho.not_inside_enclosing_loop howner hn hl)

end Ordered

/-- A `for` loop, in it the `else` clause of a `while` loop, in that the `else` clause of an `if` statement,
and in that the `else` clause of another `while` loop. A `break` stands in it, and a function with a
`continue`. -/
def nestedElses : SyntaxTree :=
  let root := singleton .module .zero
  let outer := (root.push ⟨0⟩ .forLoop .plain .zero).1
  let body := (outer.push ⟨1⟩ .block .body .zero).1
  let middle := (body.push ⟨2⟩ .whileLoop .plain .zero).1
  let middleElse := (middle.push ⟨3⟩ .elsePart .plain .zero).1
  let choice := (middleElse.push ⟨4⟩ .ifStatement .plain .zero).1
  let choiceElse := (choice.push ⟨5⟩ .elsePart .plain .zero).1
  let inner := (choiceElse.push ⟨6⟩ .whileLoop .plain .zero).1
  let innerElse := (inner.push ⟨7⟩ .elsePart .plain .zero).1
  let jump := (innerElse.push ⟨8⟩ .breakJump .plain .zero).1
  let definition := (jump.push ⟨8⟩ .functionDef .plain .zero).1
  (definition.push ⟨10⟩ .continueJump .plain .zero).1

theorem nested_elses_refer_outwards :
    nestedElses.Ordered ∧ nestedElses.RefersTo ⟨9⟩ ⟨1⟩ ∧
      nestedElses.enclosingLoop ⟨9⟩ = nestedElses.enclosingLoop ⟨3⟩ ∧
      (∀ l, ¬ nestedElses.RefersTo ⟨11⟩ l) ∧ nestedElses.Inside ⟨1⟩ ⟨0⟩ := by
  have ho : nestedElses.Ordered := Pushed.ordered <|
    .push (.push (.push (.push (.push (.push (.push (.push (.push (.push (.push (.singleton .module .zero)
      (by decide) .forLoop .plain .zero) (by decide) .block .body .zero) (by decide) .whileLoop .plain .zero)
      (by decide) .elsePart .plain .zero) (by decide) .ifStatement .plain .zero) (by decide) .elsePart .plain
      .zero) (by decide) .whileLoop .plain .zero) (by decide) .elsePart .plain .zero) (by decide) .breakJump
      .plain .zero) (by decide) .functionDef .plain .zero) (by decide) .continueJump .plain .zero
  obtain ⟨hfound, -, hchain, howned⟩ := ho.enclosing_loop_exact ⟨9⟩
  have hloop : nestedElses.enclosingLoop ⟨9⟩ = some ⟨1⟩ := by decide
  have hinner : nestedElses.InElse ⟨9⟩ ⟨7⟩ := by
    have hclear : ∀ m ∈ nestedElses.lineage ⟨9⟩, ⟨9⟩ ≠ m → nestedElses.Inside m ⟨7⟩ →
        (nestedElses.kind m).isOwner = false ∧ (nestedElses.kind m).isLoop = false := by decide
    exact ⟨by decide, ⟨⟨8⟩, by decide⟩, fun m hm => hclear m hm.1 hm.2⟩
  have houter : nestedElses.InElse ⟨7⟩ ⟨3⟩ := by
    have hclear : ∀ m ∈ nestedElses.lineage ⟨7⟩, ⟨7⟩ ≠ m → nestedElses.Inside m ⟨3⟩ →
        (nestedElses.kind m).isOwner = false ∧ (nestedElses.kind m).isLoop = false := by decide
    exact ⟨by decide, ⟨⟨4⟩, by decide⟩, fun m hm => hclear m hm.1 hm.2⟩
  refine ⟨ho, (hfound ⟨1⟩).1 hloop, hchain _ (.head hinner (.single houter)), ?_, ?_⟩
  · exact (ho.enclosing_loop_exact ⟨11⟩).2.1.1 (by decide)
  · exact howned ⟨1⟩ ⟨0⟩ hloop (by decide) (by decide)

end PythonFlow.SyntaxTree
