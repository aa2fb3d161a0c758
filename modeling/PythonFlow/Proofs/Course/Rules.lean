import PythonFlow.Proofs.Course.Basic

/-!
# Every rule takes a course

Each rule is such a course from its first step to its last, with the nodes that it follows for its
plan. A `try` statement takes one as far as its `finally` clause, before what is pending is settled.
-/

set_option autoImplicit false

namespace PythonFlow.Sketch
variable {t : SyntaxTree} {V : Visitor} {s : NodeId} {plan R : List NodeId} {k k1 : Sketch}

theorem next_lt_place (t : SyntaxTree) (k : Sketch) (el : Option NodeId) (kind : InstructionKind) :
    k.next.index < (k.place t el kind).size := by
  rw [size_place]
  exact Nat.lt_succ_self k.size

/-- What was in range is so after one more instruction. -/
theorem lt_place {l : List InstructionId} (h : ∀ a ∈ l, a.index < k.size) (el : Option NodeId)
    (kind : InstructionKind) : ∀ a ∈ l, a.index < (k.place t el kind).size := by
  intro a ha
  rw [size_place]
  exact Nat.lt_succ_of_lt (h a ha)

theorem next_list_lt (t : SyntaxTree) (k : Sketch) (el : Option NodeId) (kind : InstructionKind) :
    ∀ a ∈ [k.next], a.index < (k.place t el kind).size := by
  intro a ha
  rw [List.mem_singleton.1 ha]
  exact next_lt_place t k el kind

def Absent (d : NodeId) (k : Sketch) : Prop := ∀ id, k.element id ≠ some d

section absent
variable {d c : NodeId}

theorem absent_place (h : Absent d k) {el : NodeId} (hel : el ≠ d) (kind : InstructionKind) :
    Absent d (k.place t (some el) kind) := by
  intro id hid
  rw [element_place] at hid
  split at hid
  · exact hel (Option.some.inj hid)
  · exact h id hid

theorem absent_visited (h : Absent d k) (hv : Visited t c k k1) (hd : ¬ t.Below d c) : Absent d k1 := by
  rcases hv with rfl | ⟨hG, -⟩
  · exact h
  intro id hid
  by_cases hold : id.index < k.size
  · exact h id ((hG.element_old id hold).symm.trans hid)
  · obtain ⟨x, hx, hb⟩ := hG.element_new id ⟨Nat.le_of_not_lt hold, lt_size_of_element hid⟩
    exact hd (Option.some.inj (hx.symm.trans hid) ▸ hb)

end absent

section round
variable {k0 : Sketch} (hg : t.Grammatical) (hk : t.kind s = .forLoop)
  (hV : ∀ c, t.Inside c s → Grows t V c) (hs : Fresh t s k0)
include hg hk hV hs

/-- Before its body is entered, a `for` loop has no instruction for a part of it but the iterable. -/
theorem absent_asked {d : NodeId} (hd : d ∈ t.children s) (hrole : t.role d ≠ .iterable) :
    Absent d (forAsked t V s k0) := by
  have hin := inside_of_mem hg.ordered hd
  have hnone : Absent d k0 := fun id hid =>
    hs.bare s (t.below_refl s) (by rw [hk]; rfl) id d hid hin.1
  have hstart : Absent d (k0.start t s) := absent_place hnone (fun heq => hin.2 heq.symm) .plain
  unfold forAsked
  cases hc : t.iterable s with
  | none => exact hstart
  | some c =>
    obtain ⟨hchild, hiter⟩ := SyntaxTree.mem_iterable hc
    have hv := hV c (inside_of_mem hg.ordered hchild) _
      (fresh_started hg.ordered hs (inside_of_mem hg.ordered hchild) .plain)
    exact absent_visited hstart hv fun hb =>
      apart_of_role hg hd hchild (by simp [hiter, hrole]) d (t.below_refl d) hb

variable {b : NodeId} (hb : t.body s = some b)
include hb

/-- A round of a `for` loop leads back to the entry of the body. The way there from the header itself
goes on. -/
theorem round_leads : ∀ a ∈ (V b (each V (t.targets s) ((skipped t s (forAsked t V s k0).cursor
      (forAsked t V s k0)).start t b))).exits t b,
    Leads t (V b (each V (t.targets s) ((skipped t s (forAsked t V s k0).cursor
      (forAsked t V s k0)).start t b))) a
        (skipped t s (forAsked t V s k0).cursor (forAsked t V s k0)).next := by
  have hasked := grown_for_asked hg hk hV hs
  have hnone : ∀ id, (skipped t s (forAsked t V s k0).cursor (forAsked t V s k0)).element id ≠ some b := by
    unfold skipped
    obtain ⟨hmem, hrole⟩ := SyntaxTree.mem_body hb
    split <;> exact absent_asked hg hk hV hs hmem (by simp [hrole])
  have hbody := fresh_for_body_start hg hk hV hs hb
  have htargets := fun c (hc : c ∈ t.targets s) => fresh_for_target_start hg hk hV hs hc
  have hskipped := grown_skipped hasked hasked.cursor_live
  generalize skipped t s (forAsked t V s k0).cursor (forAsked t V s k0) = K at *
  have hG := grown_for_round hg hk hV hs hb hskipped hbody htargets
  have hle := later_for_round hg hk hV hb hbody htargets
  intro a ha
  have hnew := (exits_live hG hg.ordered (inside_of_mem hg.ordered (SyntaxTree.mem_body hb).1) a ha).1
  obtain ⟨el, hel, hbelow⟩ := hG.element_new a hnew
  rcases SyntaxTree.below_iff_eq_or_inside.1 hbelow with rfl | hin
  · rw [hG.first a hnew hel]
    exact .inl hskipped.size_lt
  · have hloop : (t.kind s).isLoop = true := by rw [hk]; rfl
    have hlt := next_lt_place t K (some b) .plain
    refine .inr ⟨s, el, hloop, ⟨k0.next, hG.headed hloop⟩, hel, hin, .inr ⟨hk, b, hb, ?_, fun id hid heq => ?_⟩⟩
    · exact (hle.element hlt).trans element_place_next
    · have hold := (hle.element (Nat.lt_trans hid hlt)).symm.trans heq
      exact hnone id ((element_place_of_lt hid).symm.trans hold)

end round

namespace Course

theorem stopped (h : Course t V s plan k R k1) : Course t V s plan k R (k1.moved none) :=
  h.moved (by simp)

theorem all {cs : List NodeId} (h : Course t V s plan k cs k1) :
    Course t V s plan k [] (Sketch.each V cs k1) := by
  refine Course.each (R := []) ?_
  rwa [List.append_nil]

theorem started (h : Course t V s plan k R k1) : Course t V s plan k R (k1.start t s) :=
  h.place (site_self (by simp))

theorem binding (h : Course t V s plan k (if (t.name s).isSome then [] else t.children s) k1) :
    Course t V s plan k [] (Sketch.binding t V s k1) := by
  unfold Sketch.binding
  cases hname : t.name s with
  | some name =>
    rw [hname] at h
    exact h.place (site_self (by simp))
  | none =>
    rw [hname] at h
    exact all h

theorem definition (h : Course t V s plan k R k1) :
    Course t V s plan k R (Sketch.definition t s k1) := by
  unfold Sketch.definition
  split
  · exact h.place (site_self (by simp))
  · exact h.started

theorem sequence {cs : List NodeId} (h : Course t V s plan k cs k1) :
    Course t V s plan k [] (Sketch.sequence t V s cs k1) := all h.started

theorem breakJump (h : Course t V s plan k [] k1) :
    Course t V s plan k [] (Sketch.breakJump t s k1) := by
  have hstart := h.started
  unfold Sketch.breakJump
  split
  · exact (hstart.pended (by simp) (next_list_lt t k1 (some s) .plain)).stopped
  · exact hstart

theorem continueJump (ho : t.Ordered) (h : Course t V s plan k R k1) :
    Course t V s plan k R (Sketch.continueJump t s k1) := by
  have hstart := h.started
  unfold Sketch.continueJump
  split
  · next header heq =>
    obtain ⟨l, hl, hlatest⟩ := Option.bind_eq_some_iff.1 heq
    obtain ⟨hin, hloop, -⟩ := ho.enclosing_loop_above hl
    have hheader := (latest_some hlatest).2
    refine (hstart.linked (next_list_lt t k1 (some s) .plain) (fun a ha => ?_)
      ⟨l, hheader, .inl hloop⟩).stopped
    rw [List.mem_singleton.1 ha]
    exact .inr ⟨l, s, hloop, ⟨header, hheader⟩, element_place_next, hin, .inl hheader⟩
  · exact hstart

section ready
variable (hr : Ready t V s plan k)
include hr

/-- A part is entered from further instructions than those that flow stands at. -/
theorem entered (h : Course t V s plan k R k1) {c : NodeId} (hc : c ∈ plan)
    (hplain : (t.kind c).isStatement = false) {l : List InstructionId}
    (hl : ∀ a ∈ l, a.index < k1.size) :
    Course t V s plan k R ((k1.start t c).linked k1.next l) :=
  (h.place (site_planned hr _ hc hplain)).linked (lt_place hl (some c) .plain) (fun a ha => .inl (hl a ha))
    ⟨c, element_place_next, .inr hc⟩

theorem inner_lt (h : Course t V s plan k R k1) (c : NodeId) :
    ∀ a ∈ (k1.inner t c).map (·.source), a.index < k1.size := by
  intro a ha
  obtain ⟨e, he, rfl⟩ := List.mem_map.1 ha
  exact h.loose_lt hr e.source (.inr ⟨e, ((mem_inner k1 t e c).1 he).1, rfl⟩)

theorem joined {c : NodeId} (hc : c ∈ plan) (hplain : (t.kind c).isStatement = false)
    (h : Course t V s plan k R k1) : Course t V s plan k R (Sketch.joined t c k1) := by
  have hinner := h.inner_lt hr c
  have hdrained := h.drained (hr.direct c hc).1.1
  unfold Sketch.joined
  split
  · exact hdrained
  · next heq => exact hdrained.entered hr hc hplain hinner

theorem conditioned {o : Option NodeId} (hplain : ∀ c, o = some c → (t.kind c).isStatement = false)
    (h : Course t V s plan k (o.toList ++ R) k1) :
    Course t V s plan k R (Sketch.conditioned t V o k1) := by
  cases o with
  | none => exact h
  | some c => exact (h.visit (c := c)).joined hr (head_mem h) (hplain c rfl)

/-- Where flow stands is left pending under the node of the rule. -/
theorem parked (h : Course t V s plan k R k1) :
    Course t V s plan k R (k1.pended (some s) k1.cursor.toList) :=
  h.pended (h.above_rest hr) (h.cursor_list_lt hr)

/-- A clause is left under the node of the rule. -/
theorem left (h : Course t V s plan k R k1) {c : NodeId} (hc : c ∈ plan) :
    Course t V s plan k R ((k1.drained t c).pended (some s) (k1.exits t c)) :=
  (h.drained (hr.direct c hc).1.1).pended (h.above_rest hr) (h.exits_lt hr c)

theorem leaving (h : Course t V s plan k (t.children s) k1) :
    Course t V s plan k [] (Sketch.leaving t V s k1) := by
  have hrescoped := (sequence h).rescoped (t.below_refl s) (o := none) (by simp)
  exact (hrescoped.pended (o := none) (by simp) (hrescoped.cursor_list_lt hr)).stopped

theorem skipped (h : Course t V s plan k R k1) {head : Option InstructionId}
    (hhead : ∀ x, head = some x → x.index < k1.size) :
    Course t V s plan k R (Sketch.skipped t s head k1) := by
  unfold Sketch.skipped
  split
  · exact h.pended (h.above_rest hr) fun a ha => hhead a (Option.mem_toList.1 ha)
  · exact h
end ready

section conditional
variable (hr : Ready t V s plan k) (hg : t.Grammatical)
include hr hg

/-- The body of a part is entered where its condition came out true. -/
theorem part_site {p : NodeId} (hp : p ∈ t.ifParts s)
    (h : Course t V s plan k ((t.body p).toList ++ R) k1) :
    Site t s plan ((t.body p).getD p) (.conditional (t.condition p) true) := by
  cases hb : t.body p with
  | none => exact site_child hr _ (SyntaxTree.mem_if_parts.1 hp).1 (plain_part hp)
  | some b =>
    rw [hb] at h
    exact site_planned hr _ h.head_mem (by rw [Option.getD_some, (part_body hg hp hb).2]; rfl)

/-- What the body of a part leaves pending inside the conditional is within the part. -/
theorem beyond_part_body {p : NodeId} (hp : p ∈ t.ifParts s)
    (h : Course t V s plan k ((t.body p).toList ++ R) k1) (hheld : Held t s k1) :
    ∀ e ∈ (partBody t V p k1).pending, e.within t p = false → e.lands t (some s) = false := by
  have ho := hr.ordered
  have hopened := h.place (part_site hr hg hp h)
  have hheld1 := held_place hheld (some ((t.body p).getD p)) (.conditional (t.condition p) true)
  unfold partBody
  cases hb : t.body p with
  | none =>
    rw [hb] at hheld1
    exact fun e he _ => hheld1 e he
  | some b =>
    rw [hb] at hopened hheld1
    have hbp := inside_of_mem ho (SyntaxTree.mem_body hb).1
    have hdrained := held_drained ho hheld1 (part_body hg hp hb).1 (hopened.visited hr (c := b))
    refine fun e he hw => hdrained e ((mem_pending_drained _ t e b).2 ⟨he, beyond_iff.2 fun sc hsc hin => ?_⟩)
    exact beyond_iff.1 hw sc hsc (ho.below_trans hin hbp.1)

/-- After a part nothing lands on the conditional. -/
theorem held_part_done {p : NodeId} (hp : p ∈ t.ifParts s)
    (h : Course t V s plan k ((t.body p).toList ++ R) k1) (hheld : Held t s k1) :
    Held t s (partDone t V s p k1) :=
  held_pended (held_rescoped (beyond_part_body hr hg hp h hheld)) (t.below_refl s) _

/-- A part of a conditional, from where its condition is asked. -/
theorem part {p : NodeId} (hp : p ∈ t.ifParts s) (first : Bool) {head : Option InstructionId}
    (last : Option NodeId) (hhead : ∀ x, head = some x → x.index < k1.size)
    (h : Course t V s plan k (t.followedInPart p ++ R) k1) :
    Course t V s plan k R (partDone t V s p (asked t V first head last p k1)) ∧
      ∀ x, (asked t V first head last p k1).cursor = some x →
        x.index < (partDone t V s p (asked t V first head last p k1)).size := by
  rw [SyntaxTree.followedInPart, List.append_assoc] at h
  have hentry : Course t V s plan k ((t.condition p).toList ++ ((t.body p).toList ++ R))
      (partEntry t first head last p k1) := by
    unfold partEntry
    split
    · exact h
    · exact (h.moved hhead).place (site_child hr _ (SyntaxTree.mem_if_parts.1 hp).1 (plain_part hp))
  have hasked : Course t V s plan k ((t.body p).toList ++ R) (asked t V first head last p k1) :=
    hentry.conditioned hr fun c hc => (part_condition hg hp hc).2
  have hopened := hasked.place (part_site hr hg hp hasked)
  have hbody : Course t V s plan k R (partBody t V p (asked t V first head last p k1)) :=
    hopened.each
  refine ⟨(hbody.rescoped (direct_part hg hp).1.1 (hbody.above_rest hr)).parked hr, fun x hx => ?_⟩
  have hlater := ((Later.refl (asked t V first head last p k1)).place (t := t) _ _).trans
    (hopened.later_each hr)
  exact Nat.lt_of_lt_of_le (hasked.cursor_lt hr x hx) hlater.size_le

theorem parts (ps : List NodeId) (hps : ∀ p ∈ ps, p ∈ t.ifParts s) (first : Bool)
    {head : Option InstructionId} (last : Option NodeId)
    (hhead : ∀ x, head = some x → x.index < k1.size)
    (h : Course t V s plan k (ps.flatMap t.followedInPart ++ R) k1) :
    Course t V s plan k R (ifParts t V s first head last ps k1).1 ∧
      ∀ x, (ifParts t V s first head last ps k1).2.1 = some x →
        x.index < (ifParts t V s first head last ps k1).1.size := by
  induction ps generalizing k1 first head last with
  | nil => exact ⟨h, hhead⟩
  | cons p ps ih =>
    rw [List.flatMap_cons, List.append_assoc] at h
    obtain ⟨hdone, hafter⟩ := part hr hg (hps p (by simp)) first last hhead h
    exact ih (fun q hq => hps q (by simp [hq])) false (t.condition p) hafter hdone

theorem conditional (h : Course t V s plan k
    ((t.ifParts s).flatMap t.followedInPart ++ (t.elsePart s).toList) k1) :
    Course t V s plan k [] (Sketch.conditional t V s k1) := by
  obtain ⟨hparts, hleft⟩ := parts hr hg (t.ifParts s) (fun _ hp => hp) true none
    (h.started.cursor_lt hr) h.started
  have hmoved := hparts.moved hleft
  unfold Sketch.conditional ifElse
  dsimp only
  cases hpart : t.elsePart s with
  | some part =>
    rw [hpart] at hmoved
    exact (((hmoved.place (site_planned hr _ hmoved.head_mem (else_part hg hpart).2)).visit).parked hr).stopped
  | none =>
    rw [hpart] at hmoved
    exact (hmoved.pended (hmoved.above_rest hr) fun a ha => hleft a (Option.mem_toList.1 ha)).stopped

end conditional

section whileLoop
variable (hr : Ready t V s plan k) (hg : t.Grammatical) (hk : t.kind s = .whileLoop)
include hr hg hk

theorem whileBody {header : InstructionId} (hheader : k1.element header = some s)
    (h : Course t V s plan k ((t.body s).toList ++ R) k1) :
    Course t V s plan k R (Sketch.whileBody t V s header (t.body s) k1) := by
  unfold Sketch.whileBody
  cases hb : t.body s with
  | none =>
    rw [hb] at h
    exact h
  | some b =>
    rw [hb] at h
    have hloop : (t.kind s).isLoop = true := by rw [hk]; rfl
    have hbody := loop_body hg hloop hb
    have hentered := h.place (site_planned hr (.conditional (t.condition s) true) h.head_mem hbody.2)
    have hv := hentered.visited hr (c := b)
    have hdone := hentered.visit (c := b)
    have hle := ((Later.refl k1).place (t := t) _ _).trans hv.later
    have hlast := (hle.element (lt_size_of_element hheader)).trans hheader
    refine (hdone.drained hbody.1.1.1).linked (hdone.exits_lt hr b) (fun a ha => ?_)
      ⟨s, hlast, .inl hloop⟩
    obtain ⟨el, hel, hin⟩ := exits_below hv (hentered.freshness hr b List.mem_cons_self)
      (fun x hx => ⟨b, Option.some.inj hx ▸ element_place_next, t.below_refl b⟩) a ha
    exact .inr ⟨s, el, hloop, ⟨header, hlast⟩, hel, hr.ordered.inside_of_below_inside hin hbody.1.1,
      .inl hlast⟩

theorem whileLoop (h : Course t V s plan k (t.followedInPart s ++ (t.elsePart s).toList) k) :
    Course t V s plan k [] (Sketch.whileLoop t V s k) := by
  rw [SyntaxTree.followedInPart, List.append_assoc] at h
  have hasked : Course t V s plan k ((t.body s).toList ++ (t.elsePart s).toList)
      (whileAsked t V s k) := h.started.conditioned hr fun c hc => (while_condition hg hk hc).2
  have hheader : (Sketch.skipped t s (whileAsked t V s k).cursor (whileAsked t V s k)).element
      k.next = some s :=
    ((later_skipped _).element (grown_while_asked hg hk hr.grows hr.fresh).size_lt).trans
      ((grown_while_asked hg hk hr.grows hr.fresh).headed (by rw [hk]; rfl))
  have hrounds : Course t V s plan k (t.elsePart s).toList (whileRounds t V s k) :=
    whileBody hr hg hk hheader (by simpa using hasked.skipped hr (hasked.cursor_lt hr))
  have hlater : Later (whileAsked t V s k) (whileRounds t V s k) :=
    later_while_rounds hg hk hr.grows hr.fresh
  have hmoved : Course t V s plan k (t.elsePart s).toList
      ((whileRounds t V s k).moved (whileAsked t V s k).cursor) :=
    hrounds.moved fun x hx => Nat.lt_of_lt_of_le (hasked.cursor_lt hr x hx) hlater.size_le
  have hexit : Course t V s plan k [] (whileExit t V s k) := by
    unfold whileExit whileElse
    cases hpart : t.elsePart s with
    | none =>
      rw [hpart] at hrounds
      exact hrounds
    | some part =>
      rw [hpart] at hmoved
      have hsite := site_planned hr (.conditional (t.condition s) false) hmoved.head_mem
        (else_part hg hpart).2
      exact ((hmoved.place hsite).visit (c := part)).left hr hmoved.head_mem
  rw [while_eq hg hk hr.grows hr.fresh]
  exact hexit.stopped

end whileLoop

section forLoop
variable (hr : Ready t V s plan k) (hg : t.Grammatical) (hk : t.kind s = .forLoop)
include hr hg hk

omit hg hk in
theorem closeRound (h : Course t V s plan k R k1) {first : InstructionId}
    {exits : List InstructionId} (hexits : ∀ a ∈ exits, a.index < k1.size)
    (hfirst : ∀ a ∈ exits, Leads t k1 a first) (hat : Meets t plan k1 first) :
    Course t V s plan k R (Sketch.closeRound t s first exits k1).1 := by
  unfold Sketch.closeRound
  split
  · exact h.linked hexits hfirst hat
  · exact (h.linked hexits hfirst hat).pended (h.above_rest hr) hexits

theorem forBody (h : Course t V s plan k (t.followedInRound s ++ R) k1)
    (hround : ∀ b, t.body s = some b →
      ∀ a ∈ (V b (Sketch.each V (t.targets s) (k1.start t b))).exits t b,
        Leads t (V b (Sketch.each V (t.targets s) (k1.start t b))) a k1.next) :
    Course t V s plan k R (Sketch.forBody t V s (t.body s) k1).1 := by
  rw [SyntaxTree.followedInRound] at h
  unfold Sketch.forBody
  cases hb : t.body s with
  | none =>
    rw [hb] at h
    exact h
  | some b =>
    simp only [hb, List.append_assoc] at h
    have hmem : b ∈ plan := h.suffix.subset (by simp)
    have hbody := loop_body hg (by rw [hk]; rfl) hb
    have hplaced := h.place (site_planned hr .plain hmem hbody.2)
    have hbound : Course t V s plan k (b :: R) (Sketch.each V (t.targets s) (k1.start t b)) :=
      Course.each hplaced
    have hle := (hplaced.later_each hr).trans (hbound.visited hr).later
    have hdone := hbound.visit
    exact (hdone.drained hbody.1.1.1).closeRound hr (hdone.exits_lt hr b) (hround b hb)
      ⟨b, (hle.element (next_lt_place t k1 _ _)).trans element_place_next, .inr hmem⟩

/-- A `for` loop up to the end of its rounds. -/
theorem forRounds (h : Course t V s plan k
    ((t.iterable s).toList ++ (t.followedInRound s ++ R)) k) :
    Course t V s plan k R (Sketch.forRounds t V s k).1 := by
  have hasked : Course t V s plan k (t.followedInRound s ++ R) (forAsked t V s k) := Course.each h.started
  exact forBody hr hg hk (hasked.skipped hr (hasked.cursor_lt hr)) fun _ hb =>
    round_leads hg hk hr.grows hr.fresh hb

theorem forLoop (h : Course t V s plan k
    ((t.iterable s).toList ++ (t.followedInRound s ++ (t.elsePart s).toList)) k) :
    Course t V s plan k [] (Sketch.forLoop t V s k) := by
  have hasked : Course t V s plan k (t.followedInRound s ++ (t.elsePart s).toList)
      (forAsked t V s k) := Course.each h.started
  have hrounds := h.forRounds hr hg hk
  have hlater := later_for_rounds hg hk hr.grows hr.fresh
  have hexhausted : ∀ a ∈ (Sketch.forRounds t V s k).2, a.index < (Sketch.forRounds t V s k).1.size := fun a ha =>
    ((grown_for_rounds hg hk hr.grows hr.fresh).2 a ha).1.2
  have hmoved : Course t V s plan k (t.elsePart s).toList
      ((Sketch.forRounds t V s k).1.moved (forAsked t V s k).cursor) :=
    hrounds.moved fun x hx => Nat.lt_of_lt_of_le (hasked.cursor_lt hr x hx) hlater.size_le
  unfold Sketch.forLoop forExit forElse
  cases hpart : t.elsePart s with
  | none =>
    rw [hpart] at hmoved
    exact hmoved.stopped
  | some part =>
    rw [hpart] at hmoved
    have hentry := hmoved.entered hr hmoved.head_mem (else_part hg hpart).2 hexhausted
    exact ((hentry.visit (c := part)).left hr hmoved.head_mem).stopped

end forLoop

section tryStatement
variable (hr : Ready t V s plan k) (hg : t.Grammatical) (hk : t.kind s = .tryStatement)
include hr hg hk

omit hk in
theorem tryTried (h : Course t V s plan k ((t.tryPart s).toList ++ R) k) :
    Course t V s plan k R (Sketch.tryTried t V s k).1 := by
  unfold Sketch.tryTried tryBody
  cases hpart : t.tryPart s with
  | none =>
    rw [hpart] at h
    exact h.started
  | some part =>
    rw [hpart] at h
    obtain ⟨hmem, -, hplain⟩ := try_part hpart
    have hentry := h.started.place (site_planned hr .plain h.head_mem hplain)
    exact (hentry.visit (c := part)).drained (inside_of_mem hg.ordered hmem).1

theorem tryOthers (h : Course t V s plan k ((t.tryPart s).toList ++ ((t.elsePart s).toList ++ R)) k) :
    Course t V s plan k R (Sketch.tryOthers t V s k) := by
  have htried := tryTried hr hg h
  obtain ⟨-, -, hexits⟩ := grown_tried hg hr.grows hk hr.fresh
  unfold Sketch.tryOthers tryElse
  cases hpart : t.elsePart s with
  | none =>
    rw [hpart] at htried
    exact htried.pended (htried.above_rest hr) fun a ha => (hexits a ha).1.2
  | some part =>
    rw [hpart] at htried
    have hentry := htried.stopped.entered hr htried.head_mem (else_part hg hpart).2
      fun a ha => (hexits a ha).1.2
    exact (hentry.visit (c := part)).left hr htried.head_mem

section handlers
variable {entry : InstructionId} {exits : List InstructionId}

omit hk in
theorem handler {p : NodeId} (hp : p ∈ t.exceptParts s) (hentry : entry.index < k1.size)
    (hexits : ∀ a ∈ exits, a.index < k1.size) (h : Course t V s plan k (p :: R) k1) :
    Course t V s plan k R (Sketch.handler t V s entry exits p k1) ∧
      k1.size ≤ (Sketch.handler t V s entry exits p k1).size := by
  have hled : ∀ a ∈ [entry], a.index < k1.size := by simpa using hentry
  have hlinked := (h.stopped.entered hr h.head_mem (except_part hp).2.2 hled).linked
    (lt_place (t := t) (k := k1.moved none) hexits (some p) .plain) (fun a ha => .inl (hexits a ha))
    ⟨p, element_place_next (t := t), .inr h.head_mem⟩
  exact ⟨hlinked.visit.left hr h.head_mem,
    (later_handler hg hr.grows entry exits hp (h.freshness hr p List.mem_cons_self)).size_le⟩

omit hk in
theorem handlers (ps : List NodeId) (hps : ∀ p ∈ ps, p ∈ t.exceptParts s)
    (hentry : entry.index < k1.size) (hexits : ∀ a ∈ exits, a.index < k1.size)
    (h : Course t V s plan k (ps ++ R) k1) :
    Course t V s plan k R (Sketch.handlers t V s entry exits ps k1).1 := by
  induction ps generalizing k1 with
  | nil => exact h
  | cons p ps ih =>
    obtain ⟨hdone, hle⟩ := handler hr hg (hps p (by simp)) hentry hexits h
    exact ih (fun q hq => hps q (by simp [hq])) (Nat.lt_of_lt_of_le hentry hle)
      (fun a ha => Nat.lt_of_lt_of_le (hexits a ha) hle) hdone

end handlers

/-- A `try` statement up to the end of its handlers. -/
theorem tryCaught (h : Course t V s plan k
    ((t.tryPart s).toList ++ ((t.elsePart s).toList ++ (t.exceptParts s ++ R))) k) :
    Course t V s plan k R (Sketch.tryCaught t V s k).1 := by
  obtain ⟨-, hentry, hexits⟩ := grown_tried hg hr.grows hk hr.fresh
  have hle := (later_others hg hr.grows hr.fresh).size_le
  exact handlers hr hg (t.exceptParts s) (fun _ hp => hp) (Nat.lt_of_lt_of_le hentry.1.2 hle)
    (fun a ha => Nat.lt_of_lt_of_le (hexits a ha).1.2 hle) (tryOthers hr hg hk h)

/-- A `try` statement up to the end of its `finally` clause. -/
theorem tryLast (h : Course t V s plan k ((t.tryPart s).toList ++ ((t.elsePart s).toList ++
    (t.exceptParts s ++ (t.finallyPart s).toList))) k) :
    Course t V s plan k [] (Sketch.tryLast t V s k).1 := by
  have hcaught := tryCaught hr hg hk h
  unfold Sketch.tryLast finallyClause
  cases hpart : t.finallyPart s with
  | none =>
    rw [hpart] at hcaught
    exact hcaught
  | some part =>
    rw [hpart] at hcaught
    obtain ⟨hmem, -, hplain⟩ := finally_part hpart
    have hentry := hcaught.stopped.place (site_planned hr .plain hcaught.head_mem hplain)
    have hdone := hentry.visit (c := part)
    exact (hdone.drained (inside_of_mem hg.ordered hmem).1).pended (by simp) (hdone.exits_lt hr part)

end tryStatement

section comprehension
variable (hr : Ready t V s plan k) (hg : t.Grammatical)
include hr hg

theorem filterClause {clause : NodeId} (hclause : clause ∈ t.comprehensionIfs s)
    (h : Course t V s plan k ((t.condition clause).toList ++ R) k1) :
    Course t V s plan k R (Sketch.filterClause t V s clause k1) := by
  unfold Sketch.filterClause
  cases hc : t.condition clause with
  | none =>
    rw [hc] at h
    exact h
  | some c =>
    rw [hc] at h
    obtain ⟨-, -, hterm⟩ := filter_condition hg hclause hc
    have hsite : ∀ kind, Site t s plan c kind := fun kind => site_planned hr _ h.head_mem
      (SyntaxTree.not_statement_of_quiet (SyntaxTree.is_quiet_of_term hterm))
    have hasked : Course t V s plan k R (V c k1) := h.visit
    have hkept := hasked.place (hsite (.conditional (some c) true))
    have hleft := hkept.moved fun x hx => Nat.lt_trans (hasked.cursor_lt hr x hx)
      (next_lt_place t (V c k1) (some c) (.conditional (some c) true))
    have hrefused := hleft.place (hsite (.conditional (some c) false))
    have hold : ∀ x, some (V c k1).next = some x → x.index < (V c k1).size + 1 + 1 := by
      intro x hx
      rw [← Option.some.inj hx]
      exact Nat.lt_succ_of_lt (Nat.lt_succ_self (V c k1).size)
    refine (hrefused.pended (hrefused.above_rest hr) fun a ha => ?_).moved fun x hx => ?_
    · rw [List.mem_singleton.1 ha]
      exact next_lt_place t _ (some c) (.conditional (some c) false)
    · rw [size_pended, size_place, size_moved, size_place]
      exact hold x hx

theorem filters (clauses : List NodeId) (hclauses : ∀ c ∈ clauses, c ∈ t.comprehensionIfs s)
    (h : Course t V s plan k (clauses.flatMap (fun c => (t.condition c).toList) ++ R) k1) :
    Course t V s plan k R (Sketch.each (Sketch.filterClause t V s) clauses k1) := by
  induction clauses generalizing k1 with
  | nil => exact h
  | cons c clauses ih =>
    rw [List.flatMap_cons, List.append_assoc] at h
    exact ih (fun d hd => hclauses d (by simp [hd])) (filterClause hr hg (hclauses c (by simp)) h)

omit hr hg in
theorem forClauses (clauses : List NodeId)
    (h : Course t V s plan k (clauses.flatMap t.followedInClause ++ R) k1) :
    Course t V s plan k R (Sketch.each (forClause t V) clauses k1) := by
  induction clauses generalizing k1 with
  | nil => exact h
  | cons c clauses ih =>
    rw [List.flatMap_cons, SyntaxTree.followedInClause, List.append_assoc, List.append_assoc] at h
    exact ih (Course.each (Course.each h))

theorem comprehension (h : Course t V s plan k
    ((t.comprehensionIfs s).flatMap (fun c => (t.condition c).toList) ++
      ((t.comprehensionFors s).flatMap t.followedInClause ++ (t.comprehensionResult s).toList)) k1) :
    Course t V s plan k [] (Sketch.comprehension t V s k1) :=
  all (forClauses _ (filters hr hg _ (fun _ hc => hc) h.started))

end comprehension

/-- Every rule but that of a `try` statement is a course through the nodes that it follows. -/
theorem dispatch (hr : Ready t V s (t.followed s) k) (hg : t.Grammatical)
    (hk : t.kind s ≠ .tryStatement) :
    Course t V s (t.followed s) k [] (Sketch.dispatch t V s k) := by
  have h : Course t V s (t.followed s) k (t.followed s) k := .start
  generalize hplan : t.followed s = plan at h hr ⊢
  unfold SyntaxTree.followed at hplan
  unfold Sketch.dispatch
  cases hkind : t.kind s <;> simp only [hkind] at hplan ⊢ <;> subst hplan
  case functionDef | classDef => exact h.definition
  case lambda => exact h
  case statement | importStatement | assignment => exact h.sequence
  case target | parameter | importBinding => exact h.binding
  case ifStatement => exact h.conditional hr hg
  case whileLoop => exact h.whileLoop hr hg hkind
  case forLoop => exact h.forLoop hr hg hkind
  case breakJump => exact h.breakJump
  case continueJump => exact h.continueJump hr.ordered
  case returnExit | raiseExit => exact h.leaving hr
  case tryStatement => exact absurd hkind hk
  case comprehension => exact h.comprehension hr hg
  all_goals exact h.all

end Course
end PythonFlow.Sketch
