import PythonFlow.Proofs.Account.Branches

/-!
# The account of a loop

Where a round may begin, what is left of the loop may be read: another round, or the `else` clause and what
follows. In the body a `continue` to the loop is followed by the same, and a `break` by what follows the
loop.
-/

set_option autoImplicit false

namespace PythonFlow.Sketch
variable {t : SyntaxTree} {V : Visitor} {s c b : NodeId} {plan R : List NodeId} {k k0 k1 : Sketch}
  {C C0 : Labels} {K : Sequel} {X Y : Set (List NodeId)}

/-- What follows the outcomes of the body of the loop `s`, where `X` may be read when a round begins. -/
def Sequel.round (K : Sequel) (s : NodeId) (X : Set (List NodeId)) : Sequel := fun o =>
  if o.again s then X else K (o.leave s)

theorem passes_round (s : NodeId) (K : Sequel) (X : Set (List NodeId)) : Passes s K (K.round s X) := by
  intro o hnormal hbroke hcontinued
  cases o with
  | normal => exact absurd rfl hnormal
  | broke l =>
    have hl : l ≠ s := fun heq => hbroke (congrArg Outcome.broke heq)
    simp [Sequel.round, Outcome.again, Outcome.leave, hl]
  | continued l =>
    have hl : l ≠ s := fun heq => hcontinued (congrArg Outcome.continued heq)
    simp [Sequel.round, Outcome.again, Outcome.leave, hl]
  | returned | raised => rfl

theorem round_continued (K : Sequel) (s : NodeId) (X : Set (List NodeId)) :
    K.round s X (.continued s) = X := by simp [Sequel.round, Outcome.again]

theorem round_broke (K : Sequel) (s : NodeId) (X : Set (List NodeId)) :
    K.round s X (.broke s) = K .normal := by simp [Sequel.round, Outcome.again, Outcome.leave]

section runs

theorem then_rounds (hloop : (t.kind s).isLoop = true) :
    Then t (.rounds s) K ⊆ Then t (.node s) K := by
  rintro w ⟨w1, o, w2, rfl, hrun, hw⟩
  exact ⟨w1, o, w2, rfl, .loop hloop hrun, hw⟩

/-- A round, and then whatever is left of the loop. -/
theorem then_round (hb : t.body s = some b) :
    Then t (.node b) (K.round s (Then t (.rounds s) K)) ⊆ Then t (.rounds s) K := by
  rintro w ⟨w1, o, w2, rfl, hrun, hw⟩
  unfold Sequel.round at hw
  split at hw
  · next hagain =>
    obtain ⟨w3, o', w4, rfl, hrest, hw⟩ := hw
    exact ⟨w1 ++ w3, o', w4, (List.append_assoc _ _ _).symm, .round hb hrun hagain hrest, hw⟩
  · next hagain => exact ⟨w1, o.leave s, w2, rfl, .left hb hrun (by simpa using hagain), hw⟩

theorem then_exhausted : Then t (.all (t.elsePart s).toList) K ⊆ Then t (.rounds s) K := by
  rintro w ⟨w1, o, w2, rfl, hrun, hw⟩
  exact ⟨w1, o, w2, rfl, .exhausted hrun, hw⟩

theorem then_else (hc : t.elsePart s = some c) : Then t (.node c) K ⊆ Then t (.rounds s) K := by
  have hother := then_exhausted (t := t) (s := s) (K := K)
  rw [hc] at hother
  exact then_only.trans hother

theorem then_done (hc : t.elsePart s = none) : K .normal ⊆ Then t (.rounds s) K := by
  have hother := then_exhausted (t := t) (s := s) (K := K)
  rw [hc] at hother
  exact (subset_then .nil K).trans hother

end runs

theorem Poised.skipped (h : Poised t s k C Y) (head : Option InstructionId) :
    Poised t s (Sketch.skipped t s head k) C Y := by
  unfold Sketch.skipped
  split
  · exact h.parked _
  · exact h

namespace Ledger
variable (hg : t.Grammatical) (hO : Outset t V s plan k0 C0 K)
include hg hO

omit hg in
/-- A loop is left by `head` where no `else` clause follows it. -/
theorem skipped (h : Ledger t V s plan k0 C0 K R k C) {head : Option InstructionId}
    (hlt : ∀ x, head = some x → x.index < k.size)
    (hX : ∀ x, head = some x → Then t (.rounds s) K ⊆ C x) :
    Ledger t V s plan k0 C0 K R (Sketch.skipped t s head k) C := by
  unfold Sketch.skipped
  split
  · next hnone =>
    exact h.parked hO (fun a ha => hlt a (Option.mem_toList.1 ha)) fun a ha =>
      (then_done (by simpa using hnone)).trans (hX a (Option.mem_toList.1 ha))
  · exact h

omit hg in
/-- A visit of the body, in which the header is the instruction made last for the loop. -/
theorem round (h : Ledger t V s plan k0 C0 K (b :: R) k C) {header : InstructionId}
    (hlatest : k.latest s = some header) (hheader : C header = X)
    (harrivals : ∀ a ∈ k.arrivals t (some b), Then t (.node b) (K.round s X) ⊆ C a) :
    ∃ C1, Ledger t V s plan k0 C0 K R (V b k) C1 ∧ Agrees k C C1 ∧
      ∀ x, Departs t b (V b k) x → X ⊆ C1 x := by
  refine h.visit hO (fun _ => ⟨?_, header, hlatest, ?_⟩) (passes_round s K X) harrivals
  · rw [round_broke]
  · rw [round_continued, hheader]

/-- The `else` clause of a loop. -/
theorem otherwise (h : Ledger t V s plan k0 C0 K (c :: R) k C) (hc : t.elsePart s = some c)
    (harrivals : ∀ a ∈ k.arrivals t (some c), Then t (.node c) K ⊆ C a) :
    ∃ C1, Ledger t V s plan k0 C0 K R (V c k) C1 ∧ Poised t s (V c k) C1 (K .normal) ∧
      Ledger t V s plan k0 C0 K R (((V c k).drained t c).pended (some s) ((V c k).exits t c)) C1 := by
  have ho := hg.ordered
  obtain ⟨C1, h1, -, hdeparts⟩ := h.visit (J := K) hO
    (fun hr => absurd hr (not_refers_of_else hg hc)) (fun _ _ _ _ => rfl) harrivals
  refine ⟨C1, h1, fun x hx => hdeparts x (hx.departs_child ho (SyntaxTree.mem_else_part hc).1), ?_⟩
  exact (h1.drained (else_part hg hc).1.1.1).parked hO (h1.course.exits_lt hO.ready c) fun a ha =>
    hdeparts a (departs_of_exit ho ha)

section whileLoop
variable (hk : t.kind s = .whileLoop)
include hk

/-- The condition of a `while` loop. -/
theorem whileAsked (harr : ∀ a ∈ k0.arrivals t (some s), Then t (.node s) K ⊆ C0 a)
    (h : Ledger t V s plan k0 C0 K ((t.condition s).toList ++ R) k0 C0) :
    ∃ C1, Ledger t V s plan k0 C0 K R (Sketch.whileAsked t V s k0) C1 ∧
      C1 k0.next = Then t (.rounds s) K ∧ Held t s (Sketch.whileAsked t V s k0) ∧
      Facing (Sketch.whileAsked t V s k0) C1 (Then t (.rounds s) K) := by
  have hmark : mark t s = [] := mark_other (by rw [hk]; rfl)
  obtain ⟨C1, h1, hnext, hf1⟩ := h.started (X := Then t (.rounds s) K) hO harr .plain (by simp) fun w hw => by
    rw [hmark]
    exact then_rounds (by rw [hk]; rfl) hw
  obtain ⟨C2, h2, hagrees, hheld, hf2⟩ := h1.conditioned hg hO
    (fun c hc => ⟨(while_condition hg hk hc).1, (quiet_while_condition hg hk hc).2⟩)
    (held_start k0 .plain) hf1
  exact ⟨C2, h2, (hagrees k0.next (next_lt_place t k0 (some s) .plain)).trans hnext, hheld, hf2⟩

/-- The body of a `while` loop leads back to the header. -/
theorem whileBody (hb : t.body s = some b) (hG : Grown t s k0 k) (hheld : Held t s k)
    (hheader : C k0.next = Then t (.rounds s) K) (hX : Facing k C (Then t (.rounds s) K))
    (h : Ledger t V s plan k0 C0 K (b :: R) k C) :
    ∃ C1, Ledger t V s plan k0 C0 K R (Sketch.whileBody t V s k0.next (some b) k) C1 ∧
      Agrees k C C1 ∧ Held t s (Sketch.whileBody t V s k0.next (some b) k) := by
  have ho := hg.ordered
  have hloop : (t.kind s).isLoop = true := by rw [hk]; rfl
  have hd := loop_body hg hloop hb
  have hblock := hg.kind_body (.inr (.inr hloop)) hb
  obtain ⟨C1, h1, hagrees1, hheld1, hf1⟩ := h.entered hg hO hheld
    (site_planned hO.ready (.conditional (t.condition s) true) h.course.head_mem hd.2)
    (by rw [hblock]; rfl) fun x hx => (then_round hb).trans (hX x hx)
  have hGb := grown_place hG ho hd.1 hd.2 (.conditional (t.condition s) true)
  have hheader1 : C1 k0.next = Then t (.rounds s) K := (hagrees1 k0.next hG.size_lt).trans hheader
  obtain ⟨C2, h2, hagrees2, hdeparts⟩ := h1.round hO (latest_header hGb hO.begun.fresh hloop) hheader1
    fun a ha => hf1 a (cursor_of_held ho hheld1 hd.1.1.1 ha)
  have hv := h1.course.visited (c := b) hO.ready
  have hlt := hGb.size_lt
  have hel := (hv.later.element hlt).trans (hGb.headed hloop)
  refine ⟨C2, (h2.drained hd.1.1.1).linked ⟨s, hel, .inl hloop⟩ (h2.course.exits_lt hO.ready b)
    (fun a ha => ?_) (fun a ha w hw => ?_), ?_, held_drained ho hheld1 hd.1 hv⟩
  · obtain ⟨el, hel', hin⟩ := exits_below hv (h1.course.freshness hO.ready b List.mem_cons_self)
      (fun x hx => ⟨b, Option.some.inj hx ▸ element_place_next, t.below_refl b⟩) a ha
    exact .inr ⟨s, el, hloop, ⟨k0.next, hel⟩, hel', ho.inside_of_below_inside hin hd.1.1, .inl hel⟩
  · have hsilent : ((V b (k.place t (some b) (.conditional (t.condition s) true))).drained t b).shown t
        k0.next = [] := (shown_some (k := V b _) hel).trans (mark_other (by rw [hk]; rfl))
    rw [hsilent, List.nil_append]
    rw [hagrees2 k0.next hlt, hheader1] at hw
    exact hdeparts a (departs_of_exit ho ha) hw
  · exact hagrees1.trans hagrees2 (by rw [size_place]; exact Nat.le_succ _)

/-- The rounds of a `while` loop. -/
theorem whileRounds (h : Ledger t V s plan k0 C0 K ((t.body s).toList ++ R) (Sketch.whileAsked t V s k0) C)
    (hheader : C k0.next = Then t (.rounds s) K) (hheld : Held t s (Sketch.whileAsked t V s k0))
    (hX : Facing (Sketch.whileAsked t V s k0) C (Then t (.rounds s) K)) :
    ∃ C1, Ledger t V s plan k0 C0 K R (Sketch.whileRounds t V s k0) C1 ∧
      Agrees (Sketch.whileAsked t V s k0) C C1 ∧ Held t s (Sketch.whileRounds t V s k0) := by
  have hasked := grown_while_asked hg hk hO.ready.grows hO.begun.fresh
  have h1 := h.skipped hO (h.course.cursor_lt hO.ready) hX
  have hheld1 := held_skipped hheld (Sketch.whileAsked t V s k0).cursor
  unfold Sketch.whileRounds
  cases hb : t.body s with
  | none =>
    rw [hb] at h1
    exact ⟨C, h1, .refl _ C, hheld1⟩
  | some b =>
    rw [hb] at h1
    obtain ⟨C2, h2, hagrees, hheld2⟩ := h1.whileBody hg hO hk hb (grown_skipped hasked hasked.cursor_live)
      hheld1 hheader fun x hx => hX x ((cursor_skipped _ _).symm.trans hx)
    exact ⟨C2, h2, hagrees.mono (later_skipped _).size_le, hheld2⟩

theorem whileLoop (harr : ∀ a ∈ k0.arrivals t (some s), Then t (.node s) K ⊆ C0 a)
    (h : Ledger t V s plan k0 C0 K (t.followedInPart s ++ (t.elsePart s).toList) k0 C0) :
    Accounted t s k0 C0 K (Sketch.whileLoop t V s k0) := by
  have hgrows := hO.ready.grows
  rw [SyntaxTree.followedInPart, List.append_assoc] at h
  obtain ⟨C1, h1, hheader, hheld1, hX1⟩ := h.whileAsked hg hO hk harr
  obtain ⟨C2, h2, hagrees, hheld2⟩ := h1.whileRounds hg hO hk hheader hheld1 hX1
  rw [while_eq hg hk hgrows hO.begun.fresh]
  unfold whileExit whileElse
  cases hc : t.elsePart s with
  | none =>
    rw [hc] at h2
    exact h2.stopped.done (poised_of_held hheld2 (facing_none _ _ _))
  | some c =>
    rw [hc] at h2
    have hasked : ∀ x, (Sketch.whileAsked t V s k0).cursor = some x →
        x.index < (Sketch.whileRounds t V s k0).size := fun x hx =>
      Nat.lt_of_lt_of_le (h1.course.cursor_lt hO.ready x hx)
        (later_while_rounds hg hk hgrows hO.begun.fresh).size_le
    have hX2 : Facing ((Sketch.whileRounds t V s k0).moved (Sketch.whileAsked t V s k0).cursor) C2
        (Then t (.node c) K) := fun x hx =>
      hagrees.subset (h1.course.cursor_lt hO.ready x hx) ((then_else hc).trans (hX1 x hx))
    obtain ⟨C3, h3, -, hheld3, hf3⟩ := (h2.moved hasked).entered hg hO hheld2
      (site_planned hO.ready (.conditional (t.condition s) false) h2.course.head_mem (else_part hg hc).2)
      (by rw [(SyntaxTree.mem_else_part hc).2]; rfl) hX2
    obtain ⟨C4, -, hp, h4⟩ := h3.otherwise (R := []) hg hO hc fun a ha =>
      hf3 a (cursor_of_held hg.ordered hheld3 (inside_of_mem hg.ordered (SyntaxTree.mem_else_part hc).1).1 ha)
    exact h4.stopped.done (((hp.drained c).parked _).moved (by simp))

end whileLoop

section forLoop
variable (hk : t.kind s = .forLoop)
include hk

/-- The iterable of a `for` loop. -/
theorem forAsked (harr : ∀ a ∈ k0.arrivals t (some s), Then t (.node s) K ⊆ C0 a)
    (h : Ledger t V s plan k0 C0 K ((t.iterable s).toList ++ R) k0 C0) :
    ∃ C1, Ledger t V s plan k0 C0 K R (Sketch.forAsked t V s k0) C1 ∧
      C1 k0.next = Then t (.rounds s) K ∧ Poised t s (Sketch.forAsked t V s k0) C1 (Then t (.rounds s) K) := by
  have hmark : mark t s = [] := mark_other (by rw [hk]; rfl)
  obtain ⟨C1, h1, hnext, hf1⟩ := h.started (X := Then t (.rounds s) K) hO harr .plain (by simp) fun w hw => by
    rw [hmark]
    exact then_rounds (by rw [hk]; rfl) hw
  obtain ⟨C2, h2, hagrees, hp⟩ := h1.each_quiet hg hO (fun c hc => (mem_iterable_list hc).1)
    (fun c hc => quiet_for_iterable hg hk hc) (poised_of_held (held_start k0 .plain) hf1)
  exact ⟨C2, h2, (hagrees k0.next (next_lt_place t k0 (some s) .plain)).trans hnext, hp⟩

/-- The body of a `for` loop is entered, and the targets are bound in it. -/
theorem forBound (hb : t.body s = some b) (hmem : b ∈ plan) (hf : Fresh t b k)
    (h : Ledger t V s plan k0 C0 K (t.targets s ++ R) k C) (hp : Poised t s k C (Then t (.rounds s) K)) :
    ∃ C1, Ledger t V s plan k0 C0 K R (Sketch.each V (t.targets s) (k.start t b)) C1 ∧ Agrees k C C1 ∧
      C1 k.next = Then t (.node b) (K.round s (Then t (.rounds s) K)) ∧
      Poised t s (Sketch.each V (t.targets s) (k.start t b)) C1
        (Then t (.node b) (K.round s (Then t (.rounds s) K))) := by
  have ho := hg.ordered
  have hloop : (t.kind s).isLoop = true := by rw [hk]; rfl
  have hd := loop_body hg hloop hb
  have hmark : mark t b = [] := mark_other (by rw [hg.kind_body (.inr (.inr hloop)) hb]; rfl)
  obtain ⟨C1, h1, hagrees, hnext⟩ := h.place hO
    (site_planned hO.ready .plain hmem hd.2) (X := Then t (.node b) (K.round s (Then t (.rounds s) K))) fun a ha w hw => by
      rw [hmark]
      exact hp a (stands_of_arrival_below ho hd.1.1.1 ha) (then_round hb hw)
  have hp1 : Poised t s (k.start t b) C1 (Then t (.node b) (K.round s (Then t (.rounds s) K))) := by
    refine poised_of_held (held_entered ho (SyntaxTree.mem_body hb).1 hf .plain) fun x hx => ?_
    obtain rfl : k.next = x := Option.some.inj hx
    exact hnext ▸ subset_rfl
  obtain ⟨C2, h2, hagrees2, hp2⟩ := h1.each_quiet hg hO (fun c hc => (SyntaxTree.mem_targets.1 hc).1)
    (fun c hc => quiet_for_target hg hk hc) hp1
  exact ⟨C2, h2, hagrees.trans hagrees2 (by rw [size_place]; exact Nat.le_succ _),
    (hagrees2 k.next (next_lt_place t k (some b) .plain)).trans hnext, hp2⟩

omit hg hk in
/-- From wherever a round has ended another one may begin, or the loop is left. -/
theorem closeRound (h : Ledger t V s plan k0 C0 K R k C) {first : InstructionId} {exits : List InstructionId}
    (hfirst : Meets t plan k first) (hexits : ∀ a ∈ exits, a.index < k.size)
    (hleads : ∀ a ∈ exits, Leads t k a first) (hreads : ∀ w ∈ C first, k.shown t first ++ w ∈ Then t (.rounds s) K)
    (hX : ∀ a ∈ exits, Then t (.rounds s) K ⊆ C a) (hp : Poised t s k C (Then t (.rounds s) K)) :
    Ledger t V s plan k0 C0 K R (Sketch.closeRound t s first exits k).1 C ∧
      (∀ a ∈ (Sketch.closeRound t s first exits k).2, Then t (.rounds s) K ⊆ C a) ∧
      Poised t s (Sketch.closeRound t s first exits k).1 C (Then t (.rounds s) K) := by
  have hlinked := h.linked hfirst hexits hleads fun a ha w hw => hX a ha (hreads w hw)
  have hp1 : Poised t s (k.linked first exits) C (Then t (.rounds s) K) := hp
  unfold Sketch.closeRound
  split
  · exact ⟨hlinked, hX, hp1⟩
  · next hnone =>
    have hdone := then_done (K := K) (by simpa using hnone)
    exact ⟨hlinked.parked hO hexits fun a ha => hdone.trans (hX a ha), by simp, hp1.parked _⟩

/-- The body of a `for` loop leads back to its own entry. -/
theorem forBody (hb : t.body s = some b) (hG : Grown t s k0 k) (hf : Fresh t b k)
    (hft : ∀ c ∈ t.targets s, Fresh t c k)
    (hleads : ∀ a ∈ (V b (Sketch.each V (t.targets s) (k.start t b))).exits t b,
      Leads t (V b (Sketch.each V (t.targets s) (k.start t b))) a k.next)
    (hheader : C k0.next = Then t (.rounds s) K) (hp : Poised t s k C (Then t (.rounds s) K))
    (h : Ledger t V s plan k0 C0 K (t.targets s ++ (b :: R)) k C) :
    ∃ C1, Ledger t V s plan k0 C0 K R (Sketch.forBody t V s (some b) k).1 C1 ∧ Agrees k C C1 ∧
      (∀ a ∈ (Sketch.forBody t V s (some b) k).2, Then t (.rounds s) K ⊆ C1 a) ∧
      Poised t s (Sketch.forBody t V s (some b) k).1 C1 (Then t (.rounds s) K) := by
  have ho := hg.ordered
  have hgrows := hO.ready.grows
  have hloop : (t.kind s).isLoop = true := by rw [hk]; rfl
  have hd := loop_body hg hloop hb
  have hmem : b ∈ plan := h.course.suffix.subset (by simp)
  have htargets : ∀ c ∈ t.targets s, c ∈ t.children s := fun c hc => (SyntaxTree.mem_targets.1 hc).1
  have hfresh := fun c (hc : c ∈ t.targets s) => fresh_for_targets hg hb hc (hft c hc)
  have hGb : Grown t s k0 (Sketch.each V (t.targets s) (k.start t b)) :=
    grown_each_role hg hgrows hO.begun.fresh (grown_place hG ho hd.1 hd.2 .plain) (nodup_targets ho s)
      htargets hfresh
  have hround := later_for_round hg hk hgrows hb hf hft
  have hfirst : k.next.index < (Sketch.each V (t.targets s) (k.start t b)).size :=
    Nat.lt_of_lt_of_le (next_lt_place t k (some b) .plain)
      (later_each hg hgrows (nodup_targets ho s) htargets hfresh).size_le
  have hel : ((V b (Sketch.each V (t.targets s) (k.start t b))).drained t b).element k.next = some b :=
    (hround.element (next_lt_place t k (some b) .plain)).trans element_place_next
  -- A `continue` goes back to the header, every other way out of the body to the entry of the body. At
  -- the header what is left of the loop may be read, at the entry a round and then what is left.
  obtain ⟨C1, h1, hagrees1, hnext, hp1⟩ := h.forBound hg hO hk hb hmem hf hp
  obtain ⟨C2, h2, hagrees2, hdeparts⟩ := h1.round hO (latest_header hGb hO.begun.fresh hloop)
    ((hagrees1 k0.next hG.size_lt).trans hheader) fun a ha =>
      hp1 a (stands_of_arrival_below ho hd.1.1.1 ha)
  have hp2 : Poised t s _ C2 (Then t (.rounds s) K) := fun x hx =>
    hdeparts x (hx.departs_child ho (SyntaxTree.mem_body hb).1)
  obtain ⟨h3, hexhausted, hp3⟩ := (h2.drained hd.1.1.1).closeRound hO
    ⟨b, hel, .inr hmem⟩ (h2.course.exits_lt hO.ready b) hleads (fun w hw => by
      rw [shown_some hel, mark_other (by rw [hg.kind_body (.inr (.inr hloop)) hb]; rfl), List.nil_append]
      rw [hagrees2 k.next hfirst, hnext] at hw
      exact then_round hb hw)
    (fun a ha => hdeparts a (departs_of_exit ho ha)) (hp2.drained b)
  exact ⟨C2, h3, hagrees1.trans hagrees2 (Nat.le_of_lt hfirst), hexhausted, hp3⟩

/-- The rounds of a `for` loop. -/
theorem forRounds (h : Ledger t V s plan k0 C0 K (t.followedInRound s ++ R) (Sketch.forAsked t V s k0) C)
    (hheader : C k0.next = Then t (.rounds s) K)
    (hp : Poised t s (Sketch.forAsked t V s k0) C (Then t (.rounds s) K)) :
    ∃ C1, Ledger t V s plan k0 C0 K R (Sketch.forRounds t V s k0).1 C1 ∧
      Agrees (Sketch.forAsked t V s k0) C C1 ∧
      (∀ a ∈ (Sketch.forRounds t V s k0).2, Then t (.rounds s) K ⊆ C1 a) ∧
      Poised t s (Sketch.forRounds t V s k0).1 C1 (Then t (.rounds s) K) := by
  have hgrows := hO.ready.grows
  have hs := hO.begun.fresh
  have hasked := grown_for_asked hg hk hgrows hs
  have h1 := h.skipped hO (h.course.cursor_lt hO.ready) fun x hx => hp x (.inl hx)
  have hp1 := hp.skipped (Sketch.forAsked t V s k0).cursor
  rw [SyntaxTree.followedInRound] at h1
  unfold Sketch.forRounds
  cases hb : t.body s with
  | none =>
    rw [hb] at h1
    exact ⟨C, h1, .refl _ C, by simp [Sketch.forBody], hp1⟩
  | some b =>
    simp only [hb, List.append_assoc] at h1
    obtain ⟨C2, h2, hagrees, hexhausted, hp2⟩ := h1.forBody hg hO hk hb
      (grown_skipped hasked hasked.cursor_live) (fresh_for_body_start hg hk hgrows hs hb)
      (fun c hc => fresh_for_target_start hg hk hgrows hs hc) (round_leads hg hk hgrows hs hb) hheader hp1
    exact ⟨C2, h2, hagrees.mono (later_skipped _).size_le, hexhausted, hp2⟩

theorem forLoop (harr : ∀ a ∈ k0.arrivals t (some s), Then t (.node s) K ⊆ C0 a)
    (h : Ledger t V s plan k0 C0 K
      ((t.iterable s).toList ++ (t.followedInRound s ++ (t.elsePart s).toList)) k0 C0) :
    Accounted t s k0 C0 K (Sketch.forLoop t V s k0) := by
  have ho := hg.ordered
  have hgrows := hO.ready.grows
  have hs := hO.begun.fresh
  obtain ⟨C1, h1, hheader, hp1⟩ := h.forAsked hg hO hk harr
  obtain ⟨C2, h2, hagrees, hexhausted, hp2⟩ := h1.forRounds hg hO hk hheader hp1
  have hcursor := h1.course.cursor_lt hO.ready
  have hlater := later_for_rounds hg hk hgrows hs
  have h3 := h2.moved fun x hx => Nat.lt_of_lt_of_le (hcursor x hx) hlater.size_le
  have hp3 := hp2.moved fun x hx => hagrees.subset (hcursor x hx) (hp1 x (.inl hx))
  unfold Sketch.forLoop forExit forElse
  cases hc : t.elsePart s with
  | none =>
    rw [hc] at h3
    exact h3.stopped.done fun x hx => (then_done hc).trans (hp3.moved (by simp) x hx)
  | some c =>
    rw [hc] at h3
    obtain ⟨hmem, hkind⟩ := SyntaxTree.mem_else_part hc
    have hmark : mark t c = [] := mark_other (by rw [hkind]; rfl)
    have hfresh := fresh_for_else_start hg hk hgrows hs hc
    have hlt : ∀ a ∈ (Sketch.forRounds t V s k0).2,
        a.index < ((Sketch.forRounds t V s k0).1.moved (Sketch.forAsked t V s k0).cursor).size :=
      fun a ha => ((grown_for_rounds hg hk hgrows hs).2 a ha).1.2
    generalize (Sketch.forRounds t V s k0).1.moved (Sketch.forAsked t V s k0).cursor = k3 at *
    obtain ⟨C4, h4, hagrees4, hnext⟩ := h3.place hO
      (site_planned hO.ready .plain h3.course.head_mem (else_part hg hc).2) (X := Then t (.node c) K) fun a ha w hw => by
        rw [hmark]
        exact hp3 a (stands_of_arrival_below ho (inside_of_mem ho hmem).1 ha) (then_else hc hw)
    have hheld : Held t s ((k3.start t c).linked k3.next (Sketch.forRounds t V s k0).2) :=
      held_entered ho hmem hfresh .plain
    have h5 := h4.linked ⟨c, element_place_next, .inr h3.course.head_mem⟩ (lt_place hlt (some c) .plain)
      (fun a ha => .inl (hlt a ha)) fun a ha w hw => by
        rw [shown_some element_place_next, hmark, hagrees4 a (hlt a ha)]
        exact hexhausted a ha (then_else hc (hnext ▸ hw))
    obtain ⟨C5, -, hp5, h6⟩ := h5.otherwise (R := []) hg hO hc fun a ha => by
      obtain rfl : k3.next = a :=
        Option.some.inj (cursor_of_held ho hheld (inside_of_mem ho hmem).1 ha)
      exact hnext ▸ subset_rfl
    exact h6.stopped.done (((hp5.drained c).parked _).moved (by simp))

end forLoop
end Ledger
end PythonFlow.Sketch
