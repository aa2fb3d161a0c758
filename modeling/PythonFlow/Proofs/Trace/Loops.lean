import PythonFlow.Proofs.Trace.Rules

/-!
# Runs of a loop

A round begins at one of several places: where the condition or the iterable has been evaluated, and
in a `for` loop also where a round has ended. From each of them a walk leads into the body, and from
each the loop may be exhausted. The rounds of a run are followed one after another.
-/

set_option autoImplicit false

namespace PythonFlow.Sketch
variable {t : SyntaxTree} {s b : NodeId} {V : Visitor} {k k0 k1 K : Sketch} {a e x z : InstructionId}
  {w : List NodeId} {o : Outcome} {Z : InstructionId → Prop}

/-- Flow has left the loop in the end, or its body, at an instruction of the loop. -/
def Quits (t : SyntaxTree) (s : NodeId) (k0 K : Sketch) (z : InstructionId) (w : List NodeId)
    (o : Outcome) : Prop :=
  ∃ x, Reads t K z w x ∧ Ended t s K (K.Pends (some s) x) x o ∧ New k0 K x

/-- After a run of the body from `z` on flow is where another round may begin, or has left the loop. -/
def Rounds (t : SyntaxTree) (s : NodeId) (k0 K : Sketch) (Z : InstructionId → Prop) (z : InstructionId)
    (w : List NodeId) (o : Outcome) : Prop :=
  (o.again s = true → ∃ y, Z y ∧ Reads t K z w y) ∧ (o.again s = false → Quits t s k0 K z w (o.leave s))

theorem Quits.prepend (h : Quits t s k0 K e w o) (hread : Reads t K z [] e) : Quits t s k0 K z w o := by
  obtain ⟨x, hx, hend⟩ := h
  exact ⟨x, hread.trans hx, hend⟩

theorem Rounds.prepend (h : Rounds t s k0 K Z e w o) (hread : Reads t K z [] e) :
    Rounds t s k0 K Z z w o := by
  refine ⟨fun hagain => ?_, fun hagain => (h.2 hagain).prepend hread⟩
  obtain ⟨y, hy, hx⟩ := h.1 hagain
  exact ⟨y, hy, hread.trans hx⟩

/-- The rounds of a run, from any place where a round may begin. -/
theorem goes_rounds
    (hbody : ∀ b w o z, t.body s = some b → Run t (.node b) w o → Z z → Rounds t s k0 K Z z w o)
    (hdone : ∀ w o z, Run t (.all (t.elsePart s).toList) w o → Z z → Quits t s k0 K z w o)
    (hz : Z z) (h : Run t (.rounds s) w o) : Quits t s k0 K z w o := by
  generalize hτ : Task.rounds s = τ at h
  induction h generalizing z with
  | round hb h hagain _ _ ih =>
    obtain rfl := Task.rounds.inj hτ
    obtain ⟨y, hy, hread⟩ := (hbody _ _ _ z hb h hz).1 hagain
    obtain ⟨x, hread', hend⟩ := ih hy rfl
    exact ⟨x, hread.trans hread', hend⟩
  | left hb h hagain _ =>
    obtain rfl := Task.rounds.inj hτ
    exact (hbody _ _ _ z hb h hz).2 hagain
  | exhausted h _ =>
    obtain rfl := Task.rounds.inj hτ
    exact hdone _ _ z h hz
  | _ => cases hτ

section round
variable (hloop : (t.kind s).isLoop = true) (hs : Begun t s k0) (hG : Grown t s k0 K)
include hloop hs hG

/-- The header is the only instruction of the loop itself. -/
theorem header_unique (hel : K.element x = some s) : x = k0.next := by
  refine hG.first x ⟨Nat.le_of_not_lt fun hold => ?_, lt_size_of_element hel⟩ hel
  rw [hG.later.element hold] at hel
  exact hs.fresh.bare s (t.below_refl s) (isStatement_of_loop hloop) x s hel (t.below_refl s)

/-- From the entry of the body a run of it leads to another round, or out of the loop. -/
theorem goes_round (hg : t.Grammatical) (hb : t.body s = some b) (hV : Grows t V b) (hF : Traces t V b)
    (hB : Begun t b k) (he : k.cursor = some e) (hfree : Free t k e) (hnew : New k0 k e)
    (hle : Onward t s (V b k) K)
    (hexit : ∀ x ∈ (V b k).exits t b, Free t K x → New k0 K x → ∃ y, Z y ∧ Reads t K x [] y)
    (hheader : ∃ y, Z y ∧ Reads t K k0.next [] y) (h : Run t (.node b) w o) :
    Rounds t s k0 K Z e w o := by
  have ho := hg.ordered
  have hd := (loop_body hg hloop hb).1
  obtain ⟨x, hread, hend, hx⟩ := goes_clause hV hF hB he hfree h
  have hread' := hread.later hle.toLater
  have hxnew : New k0 K x := (hnew.since (hV k hB.fresh).later.size_le hx).later hle.size_le
  refine ⟨fun hagain => ?_, fun hagain => ?_⟩
  · cases hend with
    | normal hx hxfree =>
      obtain ⟨y, hy, hback⟩ := hexit x hx (hxfree.later hle.toLater) hxnew
      rw [← List.append_nil w]
      exact ⟨y, hy, hread'.trans hback⟩
    | @continued l header _ hel hedge =>
      obtain rfl : l = s := by simpa [Outcome.again] using hagain
      have hel' := (hle.element (lt_size_of_element hel)).trans hel
      obtain rfl := header_unique hloop hs hG hel'
      have hsimple : (t.kind l).isSimple = false := by
        rcases SyntaxTree.is_loop_iff.1 hloop with hk | hk <;> rw [hk] <;> rfl
      have hjump : Reads t K x [] k0.next := reads_silent (hle.edge hedge) hel' hsimple
      obtain ⟨y, hy, hback⟩ := hheader
      rw [← List.append_nil w]
      exact ⟨y, hy, hread'.trans (hjump.trans hback)⟩
    | _ => cases hagain
  · by_cases hbreak : o = .broke s
    · subst hbreak
      cases hend with
      | broke _ _ hpends hxfree =>
        refine ⟨x, hread', ?_, hxnew⟩
        rw [Outcome.leave, if_pos rfl]
        exact .normal (hle.pends (t.below_refl s) hpends) (hxfree.later hle.toLater)
    · have hsame : o.leave s = o := by
        cases o with
        | broke l => rw [Outcome.leave, if_neg (fun heq => hbreak (congrArg Outcome.broke heq))]
        | _ => rfl
      have hnormal : o ≠ .normal := by
        rintro rfl
        cases hagain
      rw [hsame]
      exact ⟨x, hread', hend.rise hnormal ho hd hbreak hle, hxnew⟩

end round

/-- No `break` in the `else` clause of a loop leaves that loop. -/
theorem not_broke_in_else (ho : t.Ordered) {c : NodeId} (hc : t.elsePart s = some c)
    (h : Run t (.node c) w o) : o ≠ .broke s := by
  rintro rfl
  obtain ⟨d, hd, -, hl⟩ := h.from_code ho
  obtain ⟨hmem, hkind⟩ := SyntaxTree.mem_else_part hc
  exact ho.enclosing_loop_in_else (ho.parent_of_mem hmem) hkind hd.1 hl

section whileLoop

def whileBound (t : SyntaxTree) (V : Visitor) (s b : NodeId) (k : Sketch) : Sketch :=
  (skipped t s (whileAsked t V s k).cursor (whileAsked t V s k)).place t (some b)
    (.conditional (t.condition s) true)

theorem while_rounds_of_body (hb : t.body s = some b) :
    whileRounds t V s k0 = ((V b (whileBound t V s b k0)).drained t b).linked k0.next
      ((V b (whileBound t V s b k0)).exits t b) := by
  rw [whileRounds, hb]
  rfl

variable (hg : t.Grammatical) (hk : t.kind s = .whileLoop) (hH : Heeds t V s) (hs : Begun t s k0)
  (hun : Unraised t s)
include hg hk hH hs hun

/-- Flow gets from the header to where the condition has come out. -/
theorem goes_while_asked : ∃ h, (whileAsked t V s k0).cursor = some h ∧
    Reads t (whileAsked t V s k0) k0.next [] h ∧ Free t (whileAsked t V s k0) h :=
  goes_conditioned hg hH.toBelow
    (fun c hc => ⟨(while_condition hg hk hc).1.1, (quiet_while_condition hg hk hc).2,
      hun.child hg.ordered (by simp [hk]) (SyntaxTree.mem_condition hc).1⟩)
    (fun c hc => fresh_started hg.ordered hs.fresh (while_condition hg hk hc).1.1 .plain) rfl
    (free_place hun (by simp [hk]) .plain)

omit hun in
theorem onward_while_else : Onward t s (whileRounds t V s k0) (whileLoop t V s k0) := by
  rw [while_eq hg hk hH.grows hs.fresh]
  refine Onward.moved ?_ none
  unfold whileExit whileElse
  cases hc : t.elsePart s with
  | none => exact .refl t s _
  | some c =>
    obtain ⟨hd, hplain⟩ := else_part hg hc
    exact (((Onward.refl t s _).moved _).place hg.ordered hd.1.1 _).trans
      (onward_left hg.ordered hd (hH.grows c hd.1) (fresh_entry hg.ordered
        (fresh_moved (fresh_while_else_start hg hk hH.grows hs.fresh hc) _) hplain _))

omit hun in
theorem onward_while_body (hb : t.body s = some b) :
    Onward t s (V b (whileBound t V s b k0)) (whileLoop t V s k0) := by
  have hd := (loop_body hg (by rw [hk]; rfl) hb).1
  refine Onward.trans ?_ (onward_while_else hg hk hH hs)
  rw [while_rounds_of_body hb]
  exact ((Onward.refl t s _).drained hg.ordered hd.1).linked _ _

/-- A round begins where the condition has come out. -/
theorem goes_while_body {h : InstructionId} (hh : (whileAsked t V s k0).cursor = some h)
    (hasked : Reads t (whileAsked t V s k0) k0.next [] h) (hb : t.body s = some b)
    (hrun : Run t (.node b) w o) :
    Rounds t s k0 (whileLoop t V s k0) (fun y => y = h) h w o := by
  have ho := hg.ordered
  have hloop : (t.kind s).isLoop = true := by rw [hk]; rfl
  obtain ⟨hd, hplain⟩ := loop_body hg hloop hb
  have hblock := hg.kind_body (.inr (.inr hloop)) hb
  have hGa := grown_while_asked hg hk hH.grows hs.fresh
  have hGb : Grown t s k0 (whileBound t V s b k0) := grown_place (grown_skipped hGa hGa.cursor_live) ho hd
    hplain (.conditional (t.condition s) true)
  have hB := begun_grown ho hs hGb hd (fresh_entry ho
    (fresh_while_body_start hg hk hH.grows hs.fresh hb) hplain _)
  have hlast := onward_while_else hg hk hH hs
  have hGw := grown_while hg hk hH.grows hs.fresh
  have hv := hH.grows b hd.1 _ hB.fresh
  have hle := onward_while_body hg hk hH hs hb
  have hhead : Reads t (whileLoop t V s k0) k0.next [] h :=
    (hasked.later (later_while_rounds hg hk hH.grows hs.fresh)).later hlast.toLater
  have hfirst : Reads t (whileLoop t V s k0) h [] (skipped t s (whileAsked t V s k0).cursor
      (whileAsked t V s k0)).next := by
    have hcursor := (cursor_skipped (t := t) (s := s) (whileAsked t V s k0).cursor (whileAsked t V s k0)).trans hh
    have hread := reads_into (mem_arrivals_of_cursor (some b) hcursor) (by rw [hblock]; rfl)
      (.conditional (t.condition s) true)
    exact (hread.later hv.later).later hle.toLater
  refine (goes_round (Z := fun y => y = h) hloop hs hGw hg hb (hH.grows b hd.1) (hH.traces b ?_) hB rfl ?_
    (hGb.cursor_live _ rfl).1 hle (fun x hx _ _ => ⟨h, rfl, ?_⟩) ⟨h, rfl, hhead⟩ hrun).prepend hfirst
  · rw [SyntaxTree.followed, hk]
    exact List.mem_append_left _ (SyntaxTree.mem_followed_in_part.2 (.inr hb))
  · exact free_place (hun.child ho (by simp [hk]) (SyntaxTree.mem_body hb).1) (by simp [hblock]) _
  · have hedge : (whileRounds t V s k0).Edge x k0.next := by
      rw [while_rounds_of_body hb]
      exact (edge_linked _ _ _ _ _).2 (.inr ⟨hx, rfl⟩)
    have hel := hGw.headed hloop
    exact (reads_silent (hlast.edge hedge) hel (by rw [hk]; rfl)).trans hhead

/-- Where the condition has come out the loop may be exhausted. -/
theorem goes_while_done {h : InstructionId} (hh : (whileAsked t V s k0).cursor = some h)
    (hfree : Free t (whileAsked t V s k0) h) (hrun : Run t (.all (t.elsePart s).toList) w o) :
    Quits t s k0 (whileLoop t V s k0) h w o := by
  have ho := hg.ordered
  have hasked := (grown_while_asked hg hk hH.grows hs.fresh).cursor_live h hh
  have hlater := later_while_rounds hg hk hH.grows hs.fresh
  have hlast := onward_while_else hg hk hH hs
  have hmade := hlater.trans hlast.toLater
  cases hc : t.elsePart s with
  | none =>
    rw [hc] at hrun
    obtain ⟨rfl, rfl⟩ := hrun.all_nil
    have hskips := while_skips hg hk hH.toBelow hs.fresh hc hh
    exact ⟨h, .here h, .normal (hlast.pends (t.below_refl s) hskips) (hfree.later hmade),
      hasked.1.later hmade.size_le⟩
  | some c =>
    rw [hc] at hrun
    have hrun := hrun.of_only
    obtain ⟨hd, hplain⟩ := else_part hg hc
    obtain ⟨hmem, hkind⟩ := SyntaxTree.mem_else_part hc
    have hmoved := grown_moved (grown_while_rounds hg hk hH.grows hs.fresh) (c := some h)
      fun x hx => Option.some.inj hx ▸ hasked.later hlater
    have hGc := grown_place hmoved ho hd hplain (.conditional (t.condition s) false)
    have hB := begun_grown ho hs hGc hd (fresh_entry ho
      (fresh_moved (fresh_while_else_start hg hk hH.grows hs.fresh hc) (some h)) hplain _)
    have hfollowed : c ∈ t.followed s := by
      rw [SyntaxTree.followed, hk]
      exact List.mem_append_right _ (Option.mem_toList.2 hc)
    obtain ⟨x, hread, hend, hnew⟩ := goes_left ho hd (hH.grows c hd.1) (hH.traces c hfollowed) hB rfl
      (free_place (hun.child ho (by simp [hk]) hmem) (by simp [hkind]) _) hrun (not_broke_in_else ho hc hrun)
    have hentry := reads_into (k := (whileRounds t V s k0).moved (some h))
      (mem_arrivals_of_cursor (some c) rfl) (by rw [hkind]; rfl) (.conditional (t.condition s) false)
    have hleft := onward_left ho hd (hH.grows c hd.1) hB.fresh
    have hwhole : whileLoop t V s k0 = (((V c (((whileRounds t V s k0).moved (some h)).place t (some c)
        (.conditional (t.condition s) false))).drained t c).pended (some s)
          ((V c (((whileRounds t V s k0).moved (some h)).place t (some c)
            (.conditional (t.condition s) false))).exits t c)).moved none := by
      rw [while_eq hg hk hH.grows hs.fresh, whileExit, hc, hh]
      rfl
    rw [hwhole]
    have hend' := (Onward.refl t s (((V c (((whileRounds t V s k0).moved (some h)).place t (some c)
        (.conditional (t.condition s) false))).drained t c).pended (some s)
          ((V c (((whileRounds t V s k0).moved (some h)).place t (some c)
            (.conditional (t.condition s) false))).exits t c))).moved none
    exact ⟨x, ((hentry.later hleft.toLater).trans hread).later hend'.toLater, hend.onward hend' id,
      (hGc.cursor_live _ rfl).1.since hleft.size_le hnew⟩

theorem goes_while (ha : a ∈ k0.arrivals t (some s)) (hrun : Run t (.node s) w o) :
    Goes t s k0 (whileLoop t V s k0) (Departs t s (whileLoop t V s k0)) a w o := by
  have hloop : (t.kind s).isLoop = true := by rw [hk]; rfl
  obtain ⟨h, hh, hasked, hfree⟩ := goes_while_asked hg hk hH hs hun
  have hlater := (later_while_rounds hg hk hH.grows hs.fresh).trans (onward_while_else hg hk hH hs).toLater
  have hG := grown_while hg hk hH.grows hs.fresh
  have hentry := reads_enter hG.toFramed ha (hG.headed hloop) (by rw [hk]; rfl)
  obtain ⟨x, hread, hend, hnew⟩ := goes_rounds (Z := fun y => y = h)
    (fun b w o z hb hrun hz => by
      rw [hz]
      exact goes_while_body hg hk hH hs hun hh hasked hb hrun)
    (fun w o z hrun hz => by
      rw [hz]
      exact goes_while_done hg hk hH hs hun hh hfree hrun) rfl (hrun.loop_inv hloop)
  exact ⟨x, (hentry.trans (hasked.later hlater)).trans hread, hend.mono departs_of_pends, .inl hnew⟩

end whileLoop

section forLoop

def forBound (t : SyntaxTree) (V : Visitor) (s b : NodeId) (k : Sketch) : Sketch :=
  each V (t.targets s) ((skipped t s (forAsked t V s k).cursor (forAsked t V s k)).start t b)

theorem for_rounds_of_body (hb : t.body s = some b) :
    forRounds t V s k0 = closeRound t s (skipped t s (forAsked t V s k0).cursor (forAsked t V s k0)).next
      ((V b (forBound t V s b k0)).exits t b) ((V b (forBound t V s b k0)).drained t b) := by
  rw [forRounds, hb]
  rfl

structure Renews (t : SyntaxTree) (V : Visitor) (s : NodeId) (k0 : Sketch) (z : InstructionId) :
    Prop where
  place : (forAsked t V s k0).cursor = some z ∨
    ∃ b, t.body s = some b ∧ z ∈ (V b (forBound t V s b k0)).exits t b
  free : Free t (forLoop t V s k0) z
  new : New k0 (forLoop t V s k0) z

theorem free_cursor_each (hg : t.Grammatical) {cs : List NodeId} (hV : ∀ c ∈ cs, Grows t V c)
    (hnodup : cs.Nodup) (hcs : ∀ c ∈ cs, c ∈ t.children s)
    (hquiet : ∀ c ∈ cs, (t.kind c).isQuiet = true ∧ Unraised t c) (hf : ∀ c ∈ cs, Fresh t c k)
    (h : FreeCursor t k) : FreeCursor t (each V cs k) :=
  each_keeps hg.ordered hV (apart_children hg.ordered hnodup hcs) hf (P := FreeCursor t) h
    fun c hc k1 hk1 hf1 => free_cursor_quiet hg (hquiet c hc).2 (hquiet c hc).1 hk1 (hV c hc k1 hf1)

theorem onward_closed (first : InstructionId) (exits : List InstructionId) :
    Onward t s k (closeRound t s first exits k).1 := by
  unfold closeRound
  split
  · exact (Onward.refl t s k).linked _ _
  · exact ((Onward.refl t s k).linked _ _).pended _ _

theorem edge_closed {first : InstructionId} {exits : List InstructionId} (hx : x ∈ exits) :
    (closeRound t s first exits k).1.Edge x first := by
  unfold closeRound
  split
  · exact (edge_linked _ _ _ _ _).2 (.inr ⟨hx, rfl⟩)
  · exact (edge_pended _ _ _ _ _).2 ((edge_linked _ _ _ _ _).2 (.inr ⟨hx, rfl⟩))

variable (hg : t.Grammatical) (hk : t.kind s = .forLoop) (hH : Heeds t V s) (hs : Begun t s k0)
include hg hk hH hs

/-- Flow gets from the header to where the iterable has been evaluated. -/
theorem goes_for_asked (hun : Unraised t s) : ∃ h, (forAsked t V s k0).cursor = some h ∧
    Reads t (forAsked t V s k0) k0.next [] h ∧ Free t (forAsked t V s k0) h := by
  obtain ⟨h, hh, hread⟩ := for_head hg hk hH.toBelow hs.fresh
  have hmem : ∀ c ∈ (t.iterable s).toList, c ∈ t.children s := fun c hc => (mem_iterable_list hc).1
  refine ⟨h, hh, hread, free_cursor_each hg (fun c hc => hH.grows c (inside_of_mem hg.ordered (hmem c hc)))
    (nodup_option _) hmem (fun c hc => ⟨quiet_for_iterable hg hk hc, ?_⟩)
    (fun c hc => fresh_for_iterable hg hs.fresh hc) (free_cursor_place hun (by simp [hk]) k0 .plain) h hh⟩
  exact hun.child hg.ordered (by simp [hk]) (hmem c hc)

theorem onward_for_else : Onward t s (forRounds t V s k0).1 (forLoop t V s k0) := by
  refine Onward.moved ?_ none
  unfold forExit forElse
  cases hc : t.elsePart s with
  | none => exact (Onward.refl t s _).moved _
  | some c =>
    obtain ⟨hd, hplain⟩ := else_part hg hc
    exact ((((Onward.refl t s _).moved _).place hg.ordered hd.1.1 _).linked _ _).trans
      (onward_left hg.ordered hd (hH.grows c hd.1) (fresh_linked (fresh_entry hg.ordered
        (fresh_for_else_start hg hk hH.grows hs.fresh hc) hplain _) _ _))

theorem later_for : Later (forAsked t V s k0) (forLoop t V s k0) :=
  (later_for_rounds hg hk hH.grows hs.fresh).trans (onward_for_else hg hk hH hs).toLater

theorem onward_for_body (hb : t.body s = some b) :
    Onward t s (V b (forBound t V s b k0)) (forLoop t V s k0) := by
  have hd := (loop_body hg (by rw [hk]; rfl) hb).1
  refine Onward.trans ?_ (onward_for_else hg hk hH hs)
  rw [for_rounds_of_body hb]
  exact ((Onward.refl t s _).drained hg.ordered hd.1).trans (onward_closed _ _)

/-- The body is entered from wherever a round begins. -/
theorem enters_body_of_renews (hb : t.body s = some b) (hz : Renews t V s k0 z)
    (hstart : Later ((skipped t s (forAsked t V s k0).cursor (forAsked t V s k0)).start t b)
      (forLoop t V s k0)) :
    Reads t (forLoop t V s k0) z [] (skipped t s (forAsked t V s k0).cursor (forAsked t V s k0)).next := by
  have hblock := hg.kind_body (.inr (.inr (by rw [hk]; rfl))) hb
  refine reads_silent ?_ ((hstart.element (next_lt_place t _ (some b) .plain)).trans element_place_next)
    (by rw [hblock]; rfl)
  rcases hz.place with hz | ⟨b', hb', hz⟩
  · refine hstart.edge ((edge_place _ t (some b) .plain z _).2 (.inr ⟨?_, rfl⟩))
    exact mem_arrivals_of_cursor (some b)
      ((cursor_skipped (t := t) (s := s) (forAsked t V s k0).cursor (forAsked t V s k0)).trans hz)
  · obtain rfl := Option.some.inj (hb.symm.trans hb')
    refine (onward_for_else hg hk hH hs).edge ?_
    rw [for_rounds_of_body hb]
    exact edge_closed hz

/-- From wherever a round begins flow gets into the body, past the targets. -/
theorem goes_for_bound (hun : Unraised t s) {b : NodeId} (hb : t.body s = some b) :
    Begun t b (forBound t V s b k0) ∧ Grown t s k0 (forBound t V s b k0) ∧
      Onward t s (V b (forBound t V s b k0)) (forLoop t V s k0) ∧
      ∃ e, (forBound t V s b k0).cursor = some e ∧ Free t (forBound t V s b k0) e ∧
        ∀ z, Renews t V s k0 z → Reads t (forLoop t V s k0) z [] e := by
  have ho := hg.ordered
  have hloop : (t.kind s).isLoop = true := by rw [hk]; rfl
  obtain ⟨hd, hplain⟩ := loop_body hg hloop hb
  have hblock := hg.kind_body (.inr (.inr hloop)) hb
  have hin : ∀ c ∈ t.targets s, c ∈ t.children s := fun c hc => (SyntaxTree.mem_targets.1 hc).1
  have hgrows : ∀ c ∈ t.targets s, Grows t V c := fun c hc => hH.grows c (inside_of_mem ho (hin c hc))
  have hfb := fresh_for_body_start hg hk hH.grows hs.fresh hb
  have hft := fun c hc => fresh_for_target_start (c := c) hg hk hH.grows hs.fresh hc
  have hft' := fun c hc => fresh_for_targets hg hb hc (hft c hc)
  have hGa := grown_for_asked hg hk hH.grows hs.fresh
  have hGe := grown_place (grown_skipped hGa hGa.cursor_live) ho hd hplain .plain
  have hGb : Grown t s k0 (forBound t V s b k0) :=
    grown_each_role hg hH.grows hs.fresh hGe (nodup_targets ho s) hin hft'
  have hB := begun_grown ho hs hGb hd (fresh_for_bound hg hk hH.grows hb hfb hft)
  have hbound := onward_each ho hin (nodup_targets ho s) hgrows hft'
  have hv := hH.grows b hd.1 _ hB.fresh
  have hle := onward_for_body hg hk hH hs hb
  obtain ⟨e, he, hread⟩ := forwards_each hg hgrows
    (fun c hc => hH.steady c (inside_of_mem ho (hin c hc)) (quiet_for_target hg hk hc))
    (apart_children ho (nodup_targets ho s) hin) hft' _ rfl
  have hfree : FreeCursor t (forBound t V s b k0) := free_cursor_each hg hgrows (nodup_targets ho s) hin
    (fun c hc => ⟨quiet_for_target hg hk hc, hun.child ho (by simp [hk]) (hin c hc)⟩) hft'
    (free_cursor_place (hun.child ho (by simp [hk]) (SyntaxTree.mem_body hb).1) (by simp [hblock]) _ _)
  refine ⟨hB, hGb, hle, e, he, hfree e he, fun z hz => ?_⟩
  have hmade : Later (forBound t V s b k0) (forLoop t V s k0) := hv.later.trans hle.toLater
  exact (enters_body_of_renews hg hk hH hs hb hz (hbound.toLater.trans hmade)).trans (hread.later hmade)

/-- Wherever a round begins flow is left pending, if no `else` clause follows the loop. -/
theorem pends_of_renews (hc : t.elsePart s = none) (hz : Renews t V s k0 z) :
    (forRounds t V s k0).1.Pends (some s) z := by
  rcases hz.place with hz | ⟨b, hb, hz⟩
  · exact for_skips hg hk hH.toBelow hs.fresh hc hz
  · rw [forRounds, hb]
    show (closeRound t s _ _ _).1.Pends (some s) z
    rw [closeRound, hc]
    exact (mem_pending_pended _ _ _ _).2 (.inr ⟨rfl, hz⟩)

/-- From wherever a round begins flow gets into the `else` clause. -/
theorem enters_else_of_renews {c : NodeId} (hc : t.elsePart s = some c) (hz : Renews t V s k0 z) :
    Reads t (forLoop t V s k0) z [] (forRounds t V s k0).1.next := by
  have ho := hg.ordered
  obtain ⟨hd, hplain⟩ := else_part hg hc
  have hexit : (forAsked t V s k0).cursor = some z ∨ z ∈ (forRounds t V s k0).2 := by
    rcases hz.place with hz | ⟨b, hb, hz⟩
    · exact .inl hz
    · refine .inr ?_
      rw [forRounds, hb]
      show z ∈ (closeRound t s _ _ _).2
      rw [closeRound, hc]
      exact hz
  obtain ⟨-, -, hedge⟩ := for_else_entry hg hk hH.toBelow hs.fresh hc hexit
  refine reads_silent hedge (?_ : (forLoop t V s k0).element _ = some c)
    (by rw [(SyntaxTree.mem_else_part hc).2]; rfl)
  have hleft := onward_left ho hd (hH.grows c hd.1) (fresh_linked (fresh_entry ho
    (fresh_for_else_start hg hk hH.grows hs.fresh hc) hplain .plain) (forRounds t V s k0).1.next
      (forRounds t V s k0).2)
  have hend := (Onward.refl t s (forElse t V s (forRounds t V s k0).2 (some c)
    ((forRounds t V s k0).1.moved (forAsked t V s k0).cursor))).moved none
  rw [forLoop, forExit, hc]
  exact ((hleft.toLater.trans hend.toLater).element (by
    rw [size_linked]
    exact next_lt_place t _ (some c) .plain)).trans (element_place_next (t := t))

/-- Wherever a round begins the loop may be exhausted. -/
theorem goes_for_done (hun : Unraised t s) (hz : Renews t V s k0 z)
    (hrun : Run t (.all (t.elsePart s).toList) w o) : Quits t s k0 (forLoop t V s k0) z w o := by
  have ho := hg.ordered
  have hlast := onward_for_else hg hk hH hs
  cases hc : t.elsePart s with
  | none =>
    rw [hc] at hrun
    obtain ⟨rfl, rfl⟩ := hrun.all_nil
    exact ⟨z, .here z, .normal (hlast.pends (t.below_refl s) (pends_of_renews hg hk hH hs hc hz)) hz.free,
      hz.new⟩
  | some c =>
    rw [hc] at hrun
    have hrun := hrun.of_only
    obtain ⟨hd, hplain⟩ := else_part hg hc
    obtain ⟨hmem, hkind⟩ := SyntaxTree.mem_else_part hc
    obtain ⟨hrounds, hexhausted⟩ := grown_for_rounds hg hk hH.grows hs.fresh
    have hmoved := grown_moved hrounds fun x hx =>
      ((grown_for_asked hg hk hH.grows hs.fresh).cursor_live x hx).later
        (later_for_rounds hg hk hH.grows hs.fresh)
    have hplaced := grown_place hmoved ho hd hplain .plain
    have hGc := grown_linked hplaced (hplaced.cursor_live _ rfl).1 fun a ha =>
      (hexhausted a ha).later (((Later.refl _).moved _).place (some c) .plain)
    have hB := begun_grown ho hs hGc hd (fresh_linked (fresh_entry ho
      (fresh_for_else_start hg hk hH.grows hs.fresh hc) hplain .plain) _ _)
    have hfollowed : c ∈ t.followed s := by
      rw [SyntaxTree.followed, hk]
      exact List.mem_append_right _ (List.mem_append_right _ (Option.mem_toList.2 hc))
    have hentryfree := (free_place (k := (forRounds t V s k0).1.moved (forAsked t V s k0).cursor)
      (hun.child ho (by simp [hk]) hmem) (by simp [hkind]) .plain).later
        ((Later.refl _).linked (forRounds t V s k0).1.next (forRounds t V s k0).2)
    obtain ⟨x, hread, hend, hnew⟩ := goes_left ho hd (hH.grows c hd.1) (hH.traces c hfollowed) hB rfl
      hentryfree hrun (not_broke_in_else ho hc hrun)
    have hleft := onward_left ho hd (hH.grows c hd.1) hB.fresh
    have hend' := (Onward.refl t s (forElse t V s (forRounds t V s k0).2 (some c)
      ((forRounds t V s k0).1.moved (forAsked t V s k0).cursor))).moved none
    have hwhole : forLoop t V s k0 = (forElse t V s (forRounds t V s k0).2 (some c)
        ((forRounds t V s k0).1.moved (forAsked t V s k0).cursor)).moved none := by
      rw [forLoop, forExit, hc]
    have hentry := enters_else_of_renews hg hk hH hs hc hz
    rw [hwhole] at hentry ⊢
    exact ⟨x, hentry.trans (hread.later hend'.toLater), hend.onward hend' id,
      (hGc.cursor_live _ rfl).1.since hleft.size_le hnew⟩

theorem goes_for (hun : Unraised t s) (ha : a ∈ k0.arrivals t (some s)) (hrun : Run t (.node s) w o) :
    Goes t s k0 (forLoop t V s k0) (Departs t s (forLoop t V s k0)) a w o := by
  have hloop : (t.kind s).isLoop = true := by rw [hk]; rfl
  have hG := grown_for hg hk hH.grows hs.fresh
  obtain ⟨h, hh, hasked, hfree⟩ := goes_for_asked hg hk hH hs hun
  have hlater := later_for hg hk hH hs
  have hrenews : Renews t V s k0 h := ⟨.inl hh, hfree.later hlater,
    ((grown_for_asked hg hk hH.grows hs.fresh).cursor_live h hh).1.later hlater.size_le⟩
  have hhead := hasked.later hlater
  have hentry := reads_enter hG.toFramed ha (hG.headed hloop) (by rw [hk]; rfl)
  obtain ⟨x, hread, hend, hnew⟩ := goes_rounds (Z := Renews t V s k0)
    (fun b w o z hb hrun hz => by
      obtain ⟨hB, hGb, hle, e, he, hefree, hbound⟩ := goes_for_bound hg hk hH hs hun hb
      have hd := (loop_body hg hloop hb).1
      have hfollowed : b ∈ t.followed s := by
        rw [SyntaxTree.followed, hk]
        exact List.mem_append_right _ (List.mem_append_left _
          (SyntaxTree.mem_followed_in_round.2 ⟨b, hb, .inr rfl⟩))
      exact (goes_round hloop hs hG hg hb (hH.grows b hd.1) (hH.traces b hfollowed) hB he hefree
        (hGb.cursor_live e he).1 hle (fun x hx hxfree hxnew => ⟨x, ⟨.inr ⟨b, hb, hx⟩, hxfree, hxnew⟩, .here x⟩)
        ⟨h, hrenews, hhead⟩ hrun).prepend (hbound z hz))
    (fun w o z hrun hz => goes_for_done hg hk hH hs hun hz hrun) hrenews (hrun.loop_inv hloop)
  exact ⟨x, (hentry.trans hhead).trans hread, hend.mono departs_of_pends, .inl hnew⟩

end forLoop
end PythonFlow.Sketch
