import PythonFlow.Proofs.Choice.Forks

/-!
# The branches of conditionals and of `while` loops

Before a branch is entered what its condition has left pending is joined, so that nothing lands on the
branch and flow stands at one place, at which both outcomes begin.
-/

set_option autoImplicit false

namespace PythonFlow
namespace Sketch
variable {t : SyntaxTree} {depth : Nat} {s c p : NodeId} {P : Label → Prop} {k k0 k1 : Sketch}
  {H : NodeId → Option InstructionId} {R : List NodeId} {x : InstructionId}

namespace Forks
variable (hg : t.Grammatical) (hk : Clear t s k0)
include hg hk

/-- Where nothing pending lands, an outcome is entered from the cursor alone. -/
theorem outcome (h : Forks t depth s P k0 H R k) (hheld : Held t s k) {el : NodeId} {co : Option NodeId}
    {o : Bool} (hsite : Site t s (t.followed s) el (.conditional co o)) (hx : k.cursor = some x)
    (hH : ∀ c, co = some c → H c = some x) :
    Forks t depth s P k0 H R (k.place t (some el) (.conditional co o)) :=
  h.choose hg hk hsite hx hH fun _ ha =>
    .inl (Option.some.inj ((cursor_of_held hg.ordered hheld (spot_below hsite.spot) ha).symm.trans hx))

theorem joined (h : Forks t depth s P k0 H R k) (hc : c ∈ t.followed s)
    (hplain : (t.kind c).isStatement = false) : Forks t depth s P k0 H R (Sketch.joined t c k) := by
  have hr := ready depth hg hk
  have hinner := h.course.inner_lt hr c
  have hdrained := h.drained (hr.direct c hc).1.1
  unfold Sketch.joined
  split
  · exact hdrained
  · exact (hdrained.place (site_planned hr _ hc hplain) (by simp)).linked
      (lt_place (t := t) hinner (some c) .plain) (fun a ha => .inl (hinner a ha)) ⟨c, element_place_next, .inr hc⟩ fun el co o hlabel => by
        cases label_place_next.symm.trans hlabel

/-- After a condition flow stands at one place, where both its outcomes begin. -/
theorem conditioned {o : Option NodeId} (ho : ∀ c, o = some c → (t.kind c).isQuiet = true)
    (h : Forks t depth s P k0 H (o.toList ++ R) k) (hheld : Held t s k) (hx : k.cursor = some x)
    (hnone : ∀ c, o = some c → H c = none) :
    ∃ y H', (Sketch.conditioned t (visit t depth) o k).cursor = some y ∧
      Forks t depth s P k0 H' R (Sketch.conditioned t (visit t depth) o k) ∧
      Held t s (Sketch.conditioned t (visit t depth) o k) ∧
      (∀ c, o = some c → H' c = some y) ∧ ∀ c, o ≠ some c → H' c = H c := by
  cases o with
  | none => exact ⟨x, H, hx, h, hheld, by simp, fun _ _ => rfl⟩
  | some c =>
    have hr := ready depth hg hk
    have hquiet := ho c rfl
    have hc : c ∈ t.followed s := h.course.head_mem
    have hfresh := h.course.freshness hr c List.mem_cons_self
    have hjoined := (h.visited (c := c) hg hk).joined hg hk hc (SyntaxTree.not_statement_of_quiet hquiet)
    have hvisited := held_drained hg.ordered hheld (hr.direct c hc) (h.course.visited (c := c) hr)
    have hforward := (steady_visit hg depth c hquiet k hfresh).trans
      (forwards_joined (not_simple_of_quiet hquiet)) (later_joined c)
    obtain ⟨y, hy, -⟩ := hforward x hx
    refine ⟨y, Function.update H c (some y), hy, hjoined.learn (hnone c rfl) y, held_joined hvisited,
      fun c' hc' => ?_, fun c' hc' => ?_⟩
    · rw [← Option.some.inj hc', Function.update_self]
    · exact Function.update_of_ne (fun heq => hc' (congrArg some heq.symm)) _ _

section part
variable (hp : p ∈ t.ifParts s)
include hp

/-- A part of a conditional, in which its condition is asked at `x`. -/
theorem part (first : Bool) {head : Option InstructionId} {last : Option NodeId}
    (hlt : x.index < k.size) (hhead : (if first then k.cursor else head) = some x)
    (hlast : ∀ c, last = some c → H c = some x) (hnone : ∀ c, t.condition p = some c → H c = none)
    (h : Forks t depth s P k0 H (t.followedInPart p ++ R) k) (hheld : Held t s k) :
    ∃ y H', (asked t (visit t depth) first head last p k).cursor = some y ∧
      Forks t depth s P k0 H' R
        (partDone t (visit t depth) s p (asked t (visit t depth) first head last p k)) ∧
      Held t s (partDone t (visit t depth) s p (asked t (visit t depth) first head last p k)) ∧
      (∀ c, t.condition p = some c → H' c = some y) ∧ ∀ c, t.condition p ≠ some c → H' c = H c := by
  have hr := ready depth hg hk
  rw [SyntaxTree.followedInPart, List.append_assoc] at h
  have hentry : Forks t depth s P k0 H ((t.condition p).toList ++ ((t.body p).toList ++ R))
        (partEntry t first head last p k) ∧ Held t s (partEntry t first head last p k) ∧
      ∃ z, (partEntry t first head last p k).cursor = some z := by
    cases first with
    | true => exact ⟨h, hheld, x, hhead⟩
    | false =>
      have hmoved := h.moved (x := head) fun y hy => Option.some.inj (hy.symm.trans hhead) ▸ hlt
      exact ⟨hmoved.outcome (k := k.moved head) hg hk hheld
        (site_child hr (.conditional last false) (SyntaxTree.mem_if_parts.1 hp).1 (plain_part hp))
        hhead hlast, held_place (k := k.moved head) hheld _ _, _, rfl⟩
  obtain ⟨hentered, hheld1, z, hz⟩ := hentry
  obtain ⟨y, H', hy, hasked, hheld2, hH, hother⟩ := hentered.conditioned hg hk (fun c hc =>
    SyntaxTree.is_quiet_of_term (hg.term_condition (or_assoc.1 (.inl (kind_part hp))) hc)) hheld1 hz hnone
  refine ⟨y, H', hy, ?_, Course.held_part_done hr hg hp hasked.course hheld2, hH, hother⟩
  have hopened := hasked.outcome hg hk hheld2 (Course.part_site hr hg hp hasked.course) hy hH
  have hbody : Forks t depth s P k0 H' R
      (partBody t (visit t depth) p (asked t (visit t depth) first head last p k)) := by
    unfold partBody
    cases hb : t.body p with
    | none =>
      rw [hb] at hopened
      exact hopened
    | some b =>
      rw [hb] at hopened
      exact hopened.visited (c := b) hg hk
  have hleft := hbody.rescoped (direct_part hg hp).1.1 (hbody.course.above_rest hr)
  exact hleft.pended (hleft.course.above_rest hr) (hbody.course.cursor_list_lt hr)

end part

/-- The parts of a conditional, by induction on those that are left. -/
theorem parts (ps : List NodeId) (hps : ∀ p ∈ ps, p ∈ t.ifParts s) (hnodup : ps.Nodup) (first : Bool)
    {head : Option InstructionId} {last : Option NodeId} (hlt : x.index < k.size) (hhead : head = some x)
    (hcursor : first = true → k.cursor = some x) (hlast : ∀ c, last = some c → H c = some x)
    (hnone : ∀ p ∈ ps, ∀ c, t.condition p = some c → H c = none)
    (h : Forks t depth s P k0 H (ps.flatMap t.followedInPart ++ R) k) (hheld : Held t s k) :
    ∃ y H', (ifParts t (visit t depth) s first head last ps k).2.1 = some y ∧
      y.index < (ifParts t (visit t depth) s first head last ps k).1.size ∧
      Forks t depth s P k0 H' R (ifParts t (visit t depth) s first head last ps k).1 ∧
      Held t s (ifParts t (visit t depth) s first head last ps k).1 ∧
      ∀ c, (ifParts t (visit t depth) s first head last ps k).2.2 = some c → H' c = some y := by
  induction ps generalizing k H first head last x with
  | nil => exact ⟨x, H, hhead, hlt, h, hheld, hlast⟩
  | cons p ps ih =>
    have hr := ready depth hg hk
    obtain ⟨hne, hrest⟩ := List.nodup_cons.1 hnodup
    have hp := hps p List.mem_cons_self
    rw [List.flatMap_cons, List.append_assoc] at h
    have hstart : (if first then k.cursor else head) = some x := by
      cases first with
      | true => exact hcursor rfl
      | false => exact hhead
    obtain ⟨y, H', hy, hdone, hheld1, hH, hother⟩ := h.part hg hk hp first hlt hstart hlast
      (hnone p List.mem_cons_self) hheld
    have hylt := (Course.part hr hg hp first last (fun z hz =>
      Option.some.inj (hz.symm.trans hhead) ▸ hlt) h.course).2 y hy
    refine ih (fun q hq => hps q (List.mem_cons_of_mem p hq)) hrest false hylt hy (by simp) hH
      (fun q hq c hc => ?_) hdone hheld1
    rw [hother c fun hpc => hne (clause_of_condition hg.ordered hc hpc ▸ hq)]
    exact hnone q (List.mem_cons_of_mem p hq) c hc

theorem conditional (h : Forks t depth s P k0 (fun _ => none)
      ((t.ifParts s).flatMap t.followedInPart ++ (t.elsePart s).toList) k0) :
    ∃ H, Forks t depth s P k0 H [] (Sketch.conditional t (visit t depth) s k0) := by
  have hr := ready depth hg hk
  have hnodup : (t.ifParts s).Nodup := (hg.ordered.children_nodup s).filter _
  have hunasked : ∀ c, (none : Option NodeId) = some c → (none : Option InstructionId) = some k0.next :=
    fun _ hc => by cases hc
  obtain ⟨x, H, hx, hlt, hparts, hheld, hlast⟩ := h.started.parts hg hk (t.ifParts s) (fun _ hp => hp)
    hnodup true (next_lt_place t k0 (some s) .plain) rfl (fun _ => rfl) hunasked (by simp)
    (held_start k0 .plain)
  have hmoved := hparts.moved fun y hy => Option.some.inj (hy.symm.trans hx) ▸ hlt
  refine ⟨H, ?_⟩
  unfold Sketch.conditional ifElse
  dsimp only
  cases hpart : t.elsePart s with
  | none =>
    rw [hpart] at hmoved
    exact (hmoved.pended (hmoved.course.above_rest hr) fun a ha =>
      Option.some.inj ((Option.mem_toList.1 ha).symm.trans hx) ▸ hlt).moved (by simp)
  | some part =>
    rw [hpart] at hmoved
    have hentered := hmoved.outcome hg hk hheld (o := false)
      (site_planned hr _ hmoved.course.head_mem (else_part hg hpart).2) hx hlast
    have hdone := hentered.visited (c := part) hg hk
    exact (hdone.pended (hdone.course.above_rest hr) (hdone.course.cursor_list_lt hr)).moved (by simp)

theorem skipped (h : Forks t depth s P k0 H R k) {head : Option InstructionId}
    (hhead : ∀ x, head = some x → x.index < k.size) :
    Forks t depth s P k0 H R (Sketch.skipped t s head k) := by
  unfold Sketch.skipped
  split
  · exact h.pended (h.course.above_rest (ready depth hg hk)) fun a ha => hhead a (Option.mem_toList.1 ha)
  · exact h

section whileLoop
variable (hkind : t.kind s = .whileLoop)
include hkind

/-- The body of a `while` loop leads back to the header. -/
theorem whileBody (h : Forks t depth s P k0 H ((t.body s).toList ++ R) k) (hheld : Held t s k)
    (hx : k.cursor = some x) (hH : ∀ c, t.condition s = some c → H c = some x) {header : InstructionId}
    (hheader : k.element header = some s) :
    Forks t depth s P k0 H R (Sketch.whileBody t (visit t depth) s header (t.body s) k) := by
  have hr := ready depth hg hk
  have hcourse := h.course.whileBody hr hg hkind hheader
  have hloop : (t.kind s).isLoop = true := by rw [hkind]; rfl
  unfold Sketch.whileBody at hcourse ⊢
  cases hb : t.body s with
  | none =>
    rw [hb] at h
    exact h
  | some b =>
    rw [hb] at h hcourse
    have hbody := loop_body hg hloop hb
    have hentered := h.outcome hg hk hheld (o := true) (site_planned hr _ h.course.head_mem hbody.2) hx hH
    have hdone := (hentered.visited (c := b) hg hk).drained hbody.1.1.1
    have hle := ((Later.refl k).place (t := t) (some b) (.conditional (t.condition s) true)).trans
      (hentered.course.visited hr (c := b)).later
    have hlast := (hle.element (lt_size_of_element hheader)).trans hheader
    refine hdone.step hcourse List.prefix_rfl (fun a _ _ _ ha => absurd ha.2 (Nat.not_lt_of_le ha.1))
      (fun a b hab => (edge_linked _ a b _ _).2 (.inl hab)) fun a b el co o hlabel hnear hab => ?_
    refine ((edge_linked _ a b _ _).1 hab).resolve_right ?_
    rintro ⟨-, rfl⟩
    have hplain := hnear.plain
    obtain rfl := Option.some.inj ((element_of_label hlabel).symm.trans hlast)
    rw [hloop] at hplain
    cases hplain

theorem whileLoop (h : Forks t depth s P k0 (fun _ => none)
      (t.followedInPart s ++ (t.elsePart s).toList) k0) :
    ∃ H, Forks t depth s P k0 H [] (Sketch.whileLoop t (visit t depth) s k0) := by
  have hr := ready depth hg hk
  have hgrows := hr.grows
  have hs := hk.fresh
  rw [SyntaxTree.followedInPart, List.append_assoc] at h
  obtain ⟨x, H, hx, hasked, hheld, hH, -⟩ := h.started.conditioned hg hk (x := k0.next)
    (fun c hc => SyntaxTree.is_quiet_of_term (hg.term_condition (.inr (.inr (.inl hkind))) hc))
    (held_start k0 .plain) rfl fun _ _ => rfl
  have hlt := hasked.course.cursor_lt hr
  have hlater := later_while_rounds hg hkind hgrows hs
  have hheader : (Sketch.skipped t s (whileAsked t (visit t depth) s k0).cursor
      (whileAsked t (visit t depth) s k0)).element k0.next = some s :=
    ((later_skipped _).element (grown_while_asked hg hkind hgrows hs).size_lt).trans
      ((grown_while_asked hg hkind hgrows hs).headed (by rw [hkind]; rfl))
  have hrounds : Forks t depth s P k0 H (t.elsePart s).toList (whileRounds t (visit t depth) s k0) :=
    (hasked.skipped hg hk hlt).whileBody hg hk hkind (held_skipped hheld _)
      ((cursor_skipped _ _).trans hx) hH hheader
  have hmoved : Forks t depth s P k0 H (t.elsePart s).toList
      ((whileRounds t (visit t depth) s k0).moved (whileAsked t (visit t depth) s k0).cursor) :=
    hrounds.moved fun y hy => Nat.lt_of_lt_of_le (hlt y hy) hlater.size_le
  refine ⟨H, ?_⟩
  rw [while_eq hg hkind hgrows hs]
  refine Forks.moved ?_ (by simp)
  unfold whileExit whileElse
  cases hpart : t.elsePart s with
  | none =>
    rw [hpart] at hrounds
    exact hrounds
  | some part =>
    rw [hpart] at hmoved
    have hentered := hmoved.outcome hg hk (held_while_rounds hg hkind hgrows hs) (o := false)
      (site_planned hr _ hmoved.course.head_mem (else_part hg hpart).2) hx hH
    have hdone := hentered.visited (c := part) hg hk
    exact (hdone.drained (hr.direct part hmoved.course.head_mem).1.1).pended
      (hdone.course.above_rest hr) (hdone.course.exits_lt hr part)

end whileLoop
end Forks

variable (depth P) in
theorem forked_visit (hg : t.Grammatical) (hs : t.kind s = .ifStatement ∨ t.kind s = .whileLoop)
    (hk : Clear t s k0) : ∃ H, Forked t s P k0 H (visit t (depth + 1) s k0) := by
  have h := Forks.start t depth s P k0 fun _ => none
  unfold SyntaxTree.followed at h
  rcases hs with hs | hs <;> rw [hs] at h <;> rw [visit, dispatch, hs]
  · obtain ⟨H, h⟩ := h.conditional hg hk
    exact ⟨H, h.forked⟩
  · obtain ⟨H, h⟩ := h.whileLoop hg hk hs
    exact ⟨H, h.forked⟩

end Sketch

/-- `el` is a branch of the conditional or `while` loop `s`: a part or its body, the body of the loop, or
the `else` clause. -/
inductive SyntaxTree.Branch (t : SyntaxTree) (s : NodeId) : NodeId → Prop
  | part {p : NodeId} (hs : t.kind s = .ifStatement) (hp : p ∈ t.ifParts s) : Branch t s p
  | partBody {p b : NodeId} (hs : t.kind s = .ifStatement) (hp : p ∈ t.ifParts s) (hb : t.body p = some b) :
    Branch t s b
  | body {b : NodeId} (hs : t.kind s = .whileLoop) (hb : t.body s = some b) : Branch t s b
  | otherwise {c : NodeId} (hs : t.kind s = .ifStatement ∨ t.kind s = .whileLoop)
    (hc : t.elsePart s = some c) : Branch t s c

namespace SyntaxTree.Branch
variable {t : SyntaxTree} (hg : t.Grammatical) {s el owner : NodeId}

theorem kind (h : t.Branch s el) : t.kind s = .ifStatement ∨ t.kind s = .whileLoop := by
  cases h with
  | part hs _ | partBody hs _ _ => exact .inl hs
  | body hs _ => exact .inr hs
  | otherwise hs _ => exact hs

include hg

/-- A branch is no loop and owns no code. -/
theorem plain (h : t.Branch s el) : (t.kind el).isLoop = false ∧ (t.kind el).isOwner = false := by
  cases h with
  | part hs hp => rcases Sketch.kind_part hp with h | h <;> rw [h] <;> exact ⟨rfl, rfl⟩
  | partBody hs hp hb => rw [(Sketch.part_body hg hp hb).2]; exact ⟨rfl, rfl⟩
  | body hs hb => rw [hg.kind_body (.inr (.inr (by rw [hs]; rfl))) hb]; exact ⟨rfl, rfl⟩
  | otherwise hs hc => rw [(SyntaxTree.mem_else_part hc).2]; exact ⟨rfl, rfl⟩

theorem near (h : t.Branch s el) : Sketch.Near t s el where
  part := by
    cases h with
    | part hs hp => exact .inl (SyntaxTree.mem_if_parts.1 hp).1
    | partBody hs hp hb =>
      right
      rw [followed, hs]
      exact List.mem_append_left _ (List.mem_flatMap.2 ⟨_, hp, mem_followed_in_part.2 (.inr hb)⟩)
    | body hs hb => exact .inl (SyntaxTree.mem_body hb).1
    | otherwise hs hc => exact .inl (SyntaxTree.mem_else_part hc).1
  plain := (h.plain hg).1

theorem inside (h : t.Branch s el) : t.Inside el s := by
  rcases (h.near hg).part with hel | hel
  · exact Sketch.inside_of_mem hg.ordered hel
  · exact inside_of_followed hg.ordered hel

end SyntaxTree.Branch

namespace Sketch
variable {t : SyntaxTree} {depth : Nat} {s owner : NodeId} {f : ControlFlow}

/-- In the graph a branch is entered from where its condition came out, and from nowhere else. -/
theorem Describes.forked (h : Describes t depth owner f) (hg : t.Grammatical)
    (howner : (t.kind owner).isOwner = true) (s : NodeId) :
    ∃ H : NodeId → Option InstructionId, ∀ b el co o, (f.graph.instruction b).element = some el →
      (f.graph.instruction b).kind = .conditional co o → t.Branch s el →
        ∃ p, (∀ c, co = some c → H c = some p) ∧ f.graph.predecessors b = [p] := by
  by_cases hany : ∃ b el, (f.graph.instruction b).element = some el ∧ t.Branch s el
  · obtain ⟨b, el, hel, hbranch⟩ := hany
    have hs := hbranch.kind
    have hplain := hbranch.plain hg
    have hin : t.Inside el owner := by
      refine ⟨h.element_below hg hel, ?_⟩
      rintro rfl
      rw [howner] at hplain
      cases hplain.2
    obtain ⟨d, k0, hclear, hshows⟩ := h.shows hg howner
      ((hbranch.near hg).inside_owner hg howner (by rcases hs with hs | hs <;> rw [hs] <;> rfl) hin)
      (by rcases hs with hs | hs <;> rw [hs] <;> rfl) hel (hbranch.inside hg) hplain.1
    obtain ⟨H, hH⟩ := forked_visit d (fun _ => False) hg hs hclear
    refine ⟨H, fun b el co o hel hkind hbranch => ?_⟩
    have hin := hbranch.inside hg
    have hloop := (hbranch.plain hg).1
    have hnew := hshows.new b el hel hin hloop
    obtain ⟨p, hp, hpb, hall⟩ := hH b el co o hnew (by rw [hshows.label hnew.2, hel, hkind]) (hbranch.near hg)
    have hedge := hshows.edge b el hel hin hloop
    refine ⟨p, hp, h.predecessors_one fun a => ⟨fun hab => ?_, ?_⟩⟩
    · exact (hall a ((hedge a).1 hab)).resolve_right fun ⟨_, _, _, hfalse⟩ => hfalse
    · rintro rfl
      exact (hedge a).2 hpb
  · exact ⟨fun _ => none, fun b el _ _ hel _ hbranch => absurd ⟨b, el, hel, hbranch⟩ hany⟩

end Sketch

/-- Each branch of a conditional or `while` loop is entered from one instruction, which is the same for
both outcomes of a condition. -/
theorem branches_entered_from_one (source : String) (root : Concrete) (c : Config)
    {cancel : Option Bool} (hc : cancel ≠ some true) {owner : NodeId}
    (ho : owner ∈ (Lowering.tree source root).owners) :
    ∃ f, (buildOwner (Lowering.tree source root) c cancel owner).outcome = .ok f ∧ ∀ s,
      (∀ b el co o, (f.graph.instruction b).element = some el →
        (f.graph.instruction b).kind = .conditional co o → (Lowering.tree source root).Branch s el →
          ∃ p, f.graph.predecessors b = [p]) ∧
      ∀ b b' el el' condition, (f.graph.instruction b).element = some el →
        (f.graph.instruction b').element = some el' →
        (f.graph.instruction b).kind = .conditional (some condition) true →
        (f.graph.instruction b').kind = .conditional (some condition) false →
        (Lowering.tree source root).Branch s el → (Lowering.tree source root).Branch s el' →
          f.graph.predecessors b = f.graph.predecessors b' := by
  have hg := Lowering.tree_grammatical source root
  have howner : ((Lowering.tree source root).kind owner).isOwner = true := (List.mem_filter.1 ho).2
  obtain ⟨f, hf, hd, -⟩ := Sketch.build_describes hg.ordered c hc (SyntaxTree.lt_of_mem_owners ho)
  refine ⟨f, hf, fun s => ?_⟩
  obtain ⟨H, hH⟩ := hd.forked hg howner s
  refine ⟨fun b el co o hel hkind hbranch => ?_,
    fun b b' el el' condition hel hel' hkind hkind' hbranch hbranch' => ?_⟩
  · obtain ⟨p, -, hp⟩ := hH b el co o hel hkind hbranch
    exact ⟨p, hp⟩
  · obtain ⟨p, hp, heq⟩ := hH b el _ _ hel hkind hbranch
    obtain ⟨p', hp', heq'⟩ := hH b' el' _ _ hel' hkind' hbranch'
    obtain rfl := Option.some.inj ((hp condition rfl).symm.trans (hp' condition rfl))
    rw [heq, heq']

/-- The concrete tree of `if [x for y in z if w]: pass` with `else: pass`, without its positions. -/
def filteredCondition : Concrete :=
  .node "module" true none default
    [.node "if_statement" true none default
      [.node "list_comprehension" true (some "condition") default
        [.node "identifier" true (some "body") default [],
          .node "for_in_clause" true none default
            [.node "identifier" true (some "left") default [],
              .node "identifier" true (some "right") default []],
          .node "if_clause" true none default [.node "identifier" true none default []]],
        .node "block" true (some "consequence") default [.node "pass_statement" true none default []],
        .node "else_clause" true (some "alternative") default
          [.node "block" true (some "body") default [.node "pass_statement" true none default []]]]]

theorem filtered_condition_entered_from_one :
    ∃ f, (buildOwner (Lowering.tree "" filteredCondition) .standard none ⟨0⟩).outcome = .ok f ∧
      ((f.graph.instruction ⟨7⟩).element = some ⟨10⟩ ∧
        (f.graph.instruction ⟨7⟩).kind = .conditional (some ⟨3⟩) true) ∧
      ((f.graph.instruction ⟨9⟩).element = some ⟨12⟩ ∧
        (f.graph.instruction ⟨9⟩).kind = .conditional (some ⟨3⟩) false) ∧
      ∃ p, f.graph.predecessors ⟨7⟩ = [p] ∧ f.graph.predecessors ⟨9⟩ = [p] := by
  have hc : (none : Option Bool) ≠ some true := by decide
  have ho : (⟨0⟩ : NodeId) ∈ (Lowering.tree "" filteredCondition).owners := by decide +kernel
  obtain ⟨f, hf, hbranches⟩ := branches_entered_from_one "" filteredCondition .standard hc ho
  have hif : (Lowering.tree "" filteredCondition).kind ⟨1⟩ = .ifStatement := by decide +kernel
  have hbody : (Lowering.tree "" filteredCondition).Branch ⟨1⟩ ⟨10⟩ :=
    .partBody (p := ⟨2⟩) hif (by decide +kernel) (by decide +kernel)
  have hother : (Lowering.tree "" filteredCondition).Branch ⟨1⟩ ⟨12⟩ :=
    .otherwise (.inl hif) (by decide +kernel)
  have hrun : (buildOwner (Lowering.tree "" filteredCondition) .standard none ⟨0⟩).outcome.map
      (fun f => [7, 9].map fun i => ((f.graph.instruction ⟨i⟩).element, (f.graph.instruction ⟨i⟩).kind)) =
        .ok [(some ⟨10⟩, .conditional (some ⟨3⟩) true), (some ⟨12⟩, .conditional (some ⟨3⟩) false)] := by
    decide +kernel
  rw [hf] at hrun
  have hmade := Except.ok.inj hrun
  simp only [List.map_cons, List.map_nil, List.cons.injEq, Prod.mk.injEq, and_true] at hmade
  obtain ⟨⟨hel, hkind⟩, hel', hkind'⟩ := hmade
  obtain ⟨hone, hsame⟩ := hbranches ⟨1⟩
  obtain ⟨p, hp⟩ := hone ⟨7⟩ _ _ _ hel hkind hbody
  exact ⟨f, hf, ⟨hel, hkind⟩, ⟨hel', hkind'⟩, p, hp,
    (hsame ⟨7⟩ ⟨9⟩ _ _ _ hel hel' hkind hkind' hbody hother).symm.trans hp⟩

end PythonFlow
