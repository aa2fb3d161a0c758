import PythonFlow.Proofs.Trace.Rules

/-!
# Runs of a conditional

Every condition is evaluated where the one before it was false. Whichever part is chosen, the body of
it is entered from there, and what leaves the body is pending under the conditional from then on.
-/

set_option autoImplicit false

namespace PythonFlow.Sketch
variable {t : SyntaxTree} {s p : NodeId} {V : Visitor} {k k0 : Sketch} {a : InstructionId}
  {w : List NodeId} {o : Outcome}

theorem part_followed (hk : t.kind s = .ifStatement) (hp : p ∈ t.ifParts s) {c : NodeId}
    (hc : c ∈ t.followedInPart p) : c ∈ t.followed s := by
  rw [SyntaxTree.followed, hk]
  exact List.mem_append_left _ (List.mem_flatMap.2 ⟨p, hp, hc⟩)

section parts
variable (hg : t.Grammatical) (hH : Heeds t V s) (hk : t.kind s = .ifStatement) (hs : Begun t s k0)
  (hun : Unraised t s)
include hg

theorem unraised_part (hk : t.kind s = .ifStatement) (hun : Unraised t s) (hp : p ∈ t.ifParts s) :
    Unraised t p ∧ t.kind p ≠ .raiseExit := by
  refine ⟨hun.child hg.ordered (by simp [hk]) (SyntaxTree.mem_if_parts.1 hp).1, ?_⟩
  rcases kind_part hp with h | h <;> simp [h]

include hH hk hun

/-- The condition of a part is asked where the one before it was false. -/
theorem goes_asked (hp : p ∈ t.ifParts s) (hf : Fresh t p k) {first : Bool}
    {head : Option InstructionId} (last : Option NodeId) {h : InstructionId} (hhead : head = some h)
    (hfirst : first = true → k.cursor = some h) (hfree : Free t k h) :
    Onward t s k (asked t V first head last p k) ∧
      ∃ y, (asked t V first head last p k).cursor = some y ∧
        Reads t (asked t V first head last p k) h [] y ∧ Free t (asked t V first head last p k) y := by
  obtain ⟨hunp, hraise⟩ := unraised_part hg hk hun hp
  have hcondition : ∀ c, t.condition p = some c →
      t.Inside c s ∧ (t.kind c).isQuiet = true ∧ Unraised t c := fun c hc =>
    ⟨(quiet_condition hg hp hc).1, (quiet_condition hg hp hc).2,
      hunp.child hg.ordered hraise (SyntaxTree.mem_condition hc).1⟩
  have hfc : ∀ c, t.condition p = some c → Fresh t c (partEntry t first head last p k) := fun c hc =>
    fresh_in_part hg hf (SyntaxTree.mem_condition hc).1 first head last
  have hentry : Onward t s k (partEntry t first head last p k) ∧
      ∃ e, (partEntry t first head last p k).cursor = some e ∧
        Reads t (partEntry t first head last p k) h [] e ∧ Free t (partEntry t first head last p k) e := by
    unfold partEntry
    cases first with
    | true => exact ⟨.refl t s k, h, hfirst rfl, .here h, hfree⟩
    | false =>
      subst hhead
      refine ⟨((Onward.refl t s k).moved _).place hg.ordered (direct_part hg hp).1.1 _, _, rfl, ?_,
        free_place hunp hraise _⟩
      exact reads_into (mem_arrivals_of_cursor (some p) rfl)
        (by rcases kind_part hp with h | h <;> rw [h] <;> rfl) _
  obtain ⟨hle, e, he, hread, hefree⟩ := hentry
  obtain ⟨y, hy, hread', hyfree⟩ := goes_conditioned hg hH.toBelow hcondition hfc he hefree
  have hle' := onward_conditioned hg.ordered hH.grows (fun c hc => (hcondition c hc).1) hfc
  exact ⟨hle.trans hle', y, hy, (hread.later hle'.toLater).trans hread', hyfree⟩

omit hk hun hH in
theorem read_entry (hp : p ∈ t.ifParts s) {h : InstructionId} (hcursor : k.cursor = some h)
    (kind : InstructionKind) :
    Reads t (k.place t (some ((t.body p).getD p)) kind) h [] k.next := by
  refine reads_into (mem_arrivals_of_cursor (some ((t.body p).getD p)) hcursor) ?_ kind
  cases hb : t.body p with
  | none => rcases kind_part hp with h | h <;> rw [Option.getD_none, h] <;> rfl
  | some b =>
    rw [Option.getD_some, (part_body hg hp hb).2]
    rfl

include hs

/-- A run of the body of a part, up to one of the ways out of the part. -/
theorem goes_part_body (hp : p ∈ t.ifParts s) (hG : Grown t s k0 k)
    (hf : ∀ b, t.body p = some b → Fresh t b k) {h : InstructionId} (hcursor : k.cursor = some h) :
    Onward t s k (partBody t V p k) ∧ ∀ w o, Run t (.all (t.body p).toList) w o →
      ∃ x, Reads t (partBody t V p k) h w x ∧
        Ended t s (partBody t V p k) (x ∈ (partBody t V p k).exits t p) x o ∧
          New k (partBody t V p k) x := by
  have ho := hg.ordered
  obtain ⟨hunp, hraise⟩ := unraised_part hg hk hun hp
  have hentry := read_entry hg hp hcursor (.conditional (t.condition p) true)
  unfold partBody
  cases hb : t.body p with
  | none =>
    rw [hb] at hentry
    refine ⟨(Onward.refl t s k).place ho (direct_part hg hp).1.1 _, fun w o hrun => ?_⟩
    obtain ⟨rfl, rfl⟩ := hrun.all_nil
    refine ⟨k.next, hentry, .normal ?_ (free_place hunp hraise _), Nat.le_refl _, ?_⟩
    · exact (mem_exits _ t p _).2 (.inl rfl)
    · exact next_lt_place t k (some p) _
  | some b =>
    rw [hb] at hentry
    obtain ⟨hd, hblock⟩ := part_body hg hp hb
    have hmem := (SyntaxTree.mem_body hb).1
    have hfree : Free t (k.place t (some b) (.conditional (t.condition p) true)) k.next :=
      free_place (hunp.child ho hraise hmem) (by simp [hblock]) _
    have hplain : (t.kind b).isStatement = false := by rw [hblock]; rfl
    have hB := begun_grown ho hs (grown_place hG ho hd hplain (.conditional (t.condition p) true)) hd
      (fresh_entry ho (hf b hb) hplain _)
    have hv := hH.grows b hd.1 _ hB.fresh
    refine ⟨((Onward.refl t s k).place ho hd.1.1 _).visited ho hd.1.1 hv, fun w o hrun => ?_⟩
    have hrun := hrun.of_only
    obtain ⟨x, hread, hend, hnew⟩ := goes_clause (hH.grows b hd.1)
      (hH.traces b (part_followed hk hp (SyntaxTree.mem_followed_in_part.2 (.inr hb)))) hB rfl hfree hrun
    have hfirst : New k (k.place t (some b) (.conditional (t.condition p) true)) k.next :=
      new_next (Nat.le_refl _) (next_lt_place t k (some b) _)
    exact ⟨x, (hentry.later hv.later).trans hread,
      hend.pass ho hd (hrun.not_broke ho (by rw [hk]; rfl)) (.refl t s _)
        (exits_within ho (inside_of_mem ho hmem).1),
      hfirst.since hv.later.size_le hnew⟩

omit hg hH hk hun hs in
theorem pends_of_exit {x : InstructionId} (hx : x ∈ k.exits t p) : (partLeft t s p k).Pends (some s) x := by
  refine (mem_pending_pended _ _ _ _).2 ?_
  rcases (mem_exits k t p x).1 hx with hx | ⟨e, he, rfl⟩
  · exact .inr ⟨rfl, Option.mem_toList.2 hx⟩
  · obtain ⟨he, hw⟩ := (mem_inner k t e p).1 he
    refine .inl ((mem_pending_rescoped k t _ p (some s)).2 ⟨e, he, ?_⟩)
    rw [rescope, hw, if_pos rfl]

omit hH hk hun hs in
theorem onward_part_left (hp : p ∈ t.ifParts s) : Onward t s k (partLeft t s p k) :=
  ((Onward.refl t s k).rescoped hg.ordered (direct_part hg hp).1 _).pended _ _

end parts

def Chosen (t : SyntaxTree) (s : NodeId) (k0 k : Sketch) (p : NodeId) : Prop :=
  ∀ w o, Run t (.all (t.body p).toList) w o → ∃ x, Reads t k k0.next w x ∧
    Ended t s k (k.Pends (some s) x) x o ∧ New k0 k x

structure Refused (t : SyntaxTree) (s : NodeId) (k0 k : Sketch) (h : InstructionId) : Prop where
  reads : Reads t k k0.next [] h
  free : Free t k h
  live : Live t s k0 k h

theorem Chosen.onward {k' : Sketch} (h : Chosen t s k0 k p) (hle : Onward t s k k') :
    Chosen t s k0 k' p := by
  intro w o hrun
  obtain ⟨x, hread, hend, hnew⟩ := h w o hrun
  exact ⟨x, hread.later hle.toLater, hend.onward hle (hle.pends (t.below_refl s)),
    hnew.later hle.size_le⟩

theorem Refused.later {k' : Sketch} {h : InstructionId} (hr : Refused t s k0 k h) (hle : Later k k') :
    Refused t s k0 k' h := ⟨hr.reads.later hle, hr.free.later hle, hr.live.later hle⟩

section whole
variable (hg : t.Grammatical) (hH : Heeds t V s) (hk : t.kind s = .ifStatement) (hs : Begun t s k0)
  (hun : Unraised t s)
include hg hH hk hs hun

theorem goes_part (hp : p ∈ t.ifParts s) (hG : Grown t s k0 k) (hf : Fresh t p k) {first : Bool}
    {head : Option InstructionId} (last : Option NodeId) {h : InstructionId} (hhead : head = some h)
    (hfirst : first = true → k.cursor = some h) (hrefused : Refused t s k0 k h) :
    Onward t s k (partDone t V s p (asked t V first head last p k)) ∧
      Chosen t s k0 (partDone t V s p (asked t V first head last p k)) p ∧
      ∃ y, (asked t V first head last p k).cursor = some y ∧
        Refused t s k0 (partDone t V s p (asked t V first head last p k)) y := by
  obtain ⟨hle, y, hy, hread, hyfree⟩ := goes_asked hg hH hk hun hp hf last hhead hfirst hrefused.free
  have hGa : Grown t s k0 (asked t V first head last p k) :=
    grown_asked hg hH.grows hs.fresh hp hG hf first
      (fun x hx => Option.some.inj (hhead.symm.trans hx) ▸ hrefused.live) last
  have hya : Refused t s k0 (asked t V first head last p k) y :=
    ⟨(hrefused.reads.later hle.toLater).trans hread, hyfree, hGa.cursor_live y hy⟩
  have hfb : ∀ b, t.body p = some b → Fresh t b (asked t V first head last p k) := fun b hb =>
    fresh_body_asked hg hH.grows hp hf hb first head last
  obtain ⟨hle', hbody⟩ := goes_part_body hg hH hk hs hun hp hGa hfb hy
  have hleft : Onward t s (partBody t V p (asked t V first head last p k))
      (partDone t V s p (asked t V first head last p k)) := onward_part_left hg hp
  refine ⟨(hle.trans hle').trans hleft, fun w o hrun => ?_, y, hy, hya.later (hle'.trans hleft).toLater⟩
  obtain ⟨x, hread', hend, hnew⟩ := hbody w o hrun
  have hsilent := (hya.reads.later hle'.toLater).trans hread'
  exact ⟨x, hsilent.later hleft.toLater, hend.onward hleft pends_of_exit,
    (hnew.earlier hGa.later.size_le).later hleft.size_le⟩

/-- When the parts are done, each of them may have been chosen, or none. -/
theorem goes_parts : ∃ h, (ifParts t V s true (some k0.next) none (t.ifParts s) (k0.start t s)).2.1 = some h ∧
    Refused t s k0 (ifParts t V s true (some k0.next) none (t.ifParts s) (k0.start t s)).1 h ∧
    Grown t s k0 (ifParts t V s true (some k0.next) none (t.ifParts s) (k0.start t s)).1 ∧
    (ifParts t V s true (some k0.next) none (t.ifParts s) (k0.start t s)).1.element k0.next = some s ∧
    ∀ p ∈ t.ifParts s, Chosen t s k0
      (ifParts t V s true (some k0.next) none (t.ifParts s) (k0.start t s)).1 p := by
  have ho := hg.ordered
  have hstart : Grown t s k0 (k0.start t s) := grown_begin ho (by simp [hk]) .plain
  obtain ⟨-, hG, hel, ⟨h, hhead, hrefused, -⟩, hchosen⟩ := if_parts_keeps hg hH.grows
    (M := fun first head _ rest k => Grown t s k0 k ∧ k.element k0.next = some s ∧
      (∃ h, head = some h ∧ Refused t s k0 k h ∧ (first = true → k.cursor = some h)) ∧
      ∀ p ∈ t.ifParts s, p ∉ rest → Chosen t s k0 k p)
    (fun first head last p rest k hp hf ⟨hG, hel, ⟨h, hhead, hrefused, hfirst⟩, hchosen⟩ => by
      obtain ⟨hle, hbody, y, hy, hya⟩ := goes_part hg hH hk hs hun hp hG hf last hhead hfirst hrefused
      refine ⟨?_, (hle.element (lt_size_of_element hel)).trans hel, ⟨y, hy, hya, by simp⟩,
        fun q hq hrest => ?_⟩
      · exact grown_part_done hg hH.grows hs.fresh hp
          (grown_asked hg hH.grows hs.fresh hp hG hf first
            (fun x hx => Option.some.inj (hhead.symm.trans hx) ▸ hrefused.live) last)
          fun b hb => fresh_body_asked hg hH.grows hp hf hb first head last
      · by_cases heq : q = p
        · exact heq ▸ hbody
        · exact (hchosen q hq (by simp [heq, hrest])).onward hle)
    true (some k0.next) none (fun _ hp => hp) ((ho.children_nodup s).filter _)
    (fun p hp => fresh_started ho hs.fresh (direct_part hg hp).1 .plain)
    ⟨hstart, element_place_next, ⟨k0.next, rfl, ⟨.here _, free_place hun (by simp [hk]) .plain, hstart.cursor_live _ rfl⟩,
      fun _ => rfl⟩, fun p hp hnot => absurd hp hnot⟩
  exact ⟨h, hhead, hrefused, hG, hel, fun p hp => hchosen p hp (by simp)⟩

/-- A run of the `else` clause, or of nothing where there is none. -/
theorem goes_if_else {h : InstructionId} (last : Option NodeId) (hG : Grown t s k0 k)
    (hf : ∀ c, t.elsePart s = some c → Fresh t c k) (hrefused : Refused t s k0 k h) :
    Onward t s k (ifElse t V s (some h) last (t.elsePart s) (k.moved (some h))) ∧
      ∀ w o, Run t (.all (t.elsePart s).toList) w o →
        Goes t s k0 (ifElse t V s (some h) last (t.elsePart s) (k.moved (some h)))
          (fun x => ∃ sc, (ifElse t V s (some h) last (t.elsePart s) (k.moved (some h))).Pends (some sc) x ∧
            ¬ t.Inside s sc) k0.next w o := by
  have ho := hg.ordered
  have hmoved : Onward t s k (k.moved (some h)) := (Onward.refl t s k).moved _
  unfold ifElse
  cases hpart : t.elsePart s with
  | none =>
    have hle := hmoved.pended (some s) [h]
    refine ⟨hle, fun w o hrun => ?_⟩
    obtain ⟨rfl, rfl⟩ := hrun.all_nil
    refine ⟨h, hrefused.reads.later hle.toLater, .normal ⟨s, ?_, fun hin => hin.2 rfl⟩
      (hrefused.free.later hle.toLater), .inl (hrefused.live.1.later hle.size_le)⟩
    exact (mem_pending_pended _ _ _ _).2 (.inr ⟨rfl, List.mem_singleton.2 rfl⟩)
  | some c =>
    obtain ⟨hd, hplain⟩ := else_part hg hpart
    obtain ⟨hmem, hkind⟩ := SyntaxTree.mem_else_part hpart
    have hfree : Free t ((k.moved (some h)).place t (some c) (.conditional last false)) k.next :=
      free_place (hun.child ho (by simp [hk]) hmem) (by simp [hkind]) _
    have hGm : Grown t s k0 (k.moved (some h)) :=
      grown_moved hG fun x hx => Option.some.inj hx ▸ hrefused.live
    have hB := begun_grown ho hs (grown_place hGm ho hd hplain (.conditional last false)) hd
      (fresh_entry ho (fresh_moved (hf c hpart) _) hplain _)
    have hv := hH.grows c hd.1 _ hB.fresh
    have hle : Onward t s k (V c ((k.moved (some h)).place t (some c) (.conditional last false))) :=
      (hmoved.place ho hd.1.1 _).visited ho hd.1.1 hv
    refine ⟨hle.pended _ _, fun w o hrun => ?_⟩
    have hrun := hrun.of_only
    have hfollowed : c ∈ t.followed s := by
      rw [SyntaxTree.followed, hk]
      exact List.mem_append_right _ (Option.mem_toList.2 hpart)
    obtain ⟨x, hread, hend, hnew⟩ := goes_clause (hH.grows c hd.1) (hH.traces c hfollowed) hB rfl hfree hrun
    have hentry : Reads t ((k.moved (some h)).place t (some c) (.conditional last false)) h [] k.next :=
      reads_into (mem_arrivals_of_cursor (some c) rfl) (by rw [hkind]; rfl) _
    have hparked := (Onward.refl t s (V c ((k.moved (some h)).place t (some c)
      (.conditional last false)))).pended (some s) (V c ((k.moved (some h)).place t (some c)
        (.conditional last false))).cursor.toList
    refine ⟨x, ?_, ?_, .inl ?_⟩
    · have hsilent := (hrefused.reads.later hle.toLater).trans ((hentry.later hv.later).trans hread)
      exact hsilent.later hparked.toLater
    · refine hend.pass ho hd (hrun.not_broke ho (by rw [hk]; rfl)) hparked fun hexit => ?_
      rcases (mem_exits _ t c x).1 hexit with hx | ⟨e, he, rfl⟩
      · exact ⟨s, (mem_pending_pended _ _ _ _).2 (.inr ⟨rfl, Option.mem_toList.2 hx⟩),
          fun hin => hin.2 rfl⟩
      · obtain ⟨he, hw⟩ := (mem_inner _ t e c).1 he
        obtain ⟨sc, hsc, hb⟩ := within_iff.1 hw
        refine ⟨sc, (mem_pending_pended _ _ _ _).2 (.inl ?_), fun hin => ?_⟩
        · exact hsc ▸ he
        · exact ho.not_below_of_inside hin (ho.below_trans hb hd.1.1)
    · have hfirst := new_next hG.later.size_le
        (next_lt_place t (k.moved (some h)) (some c) (.conditional last false))
      exact hfirst.since hv.later.size_le hnew

theorem goes_conditional (ha : a ∈ k0.arrivals t (some s)) (hrun : Run t (.node s) w o) :
    Goes t s k0 (conditional t V s k0) (Departs t s (conditional t V s k0)) a w o := by
  obtain ⟨h, hhead, hrefused, hG, hel, hchosen⟩ := goes_parts hg hH hk hs hun
  obtain ⟨hle, helse⟩ := goes_if_else hg hH hk hs hun
    (ifParts t V s true (some k0.next) none (t.ifParts s) (k0.start t s)).2.2 hG
    (fun c hc => fresh_if_else hg hH.grows hs.fresh hc (some k0.next)) hrefused
  have hwhole : conditional t V s k0 = (ifElse t V s (some h)
      (ifParts t V s true (some k0.next) none (t.ifParts s) (k0.start t s)).2.2 (t.elsePart s)
      ((ifParts t V s true (some k0.next) none (t.ifParts s) (k0.start t s)).1.moved (some h))).moved
        none := by
    rw [conditional, hhead]
  have hentry : Reads t (conditional t V s k0) a [] k0.next := by
    refine reads_enter (grown_conditional hg hH.grows hs.fresh hk).toFramed ha ?_ (by rw [hk]; rfl)
    rw [hwhole]
    exact (hle.element (lt_size_of_element hel)).trans hel
  have hlast := (Onward.refl t s (ifElse t V s (some h)
      (ifParts t V s true (some k0.next) none (t.ifParts s) (k0.start t s)).2.2 (t.elsePart s)
      ((ifParts t V s true (some k0.next) none (t.ifParts s) (k0.start t s)).1.moved (some h)))).moved none
  rw [hwhole] at hentry ⊢
  rcases hrun.if_inv hk with ⟨p, hp, hbody⟩ | hbody
  · obtain ⟨x, hread, hend, hnew⟩ := hchosen p hp w o hbody
    have hle := hle.trans hlast
    exact ⟨x, hentry.trans (hread.later hle.toLater),
      hend.onward hle fun hx => departs_of_pends (hle.pends (t.below_refl s) hx),
      .inl (hnew.later hle.size_le)⟩
  · obtain ⟨x, hread, hend, hnew⟩ := helse w o hbody
    refine ⟨x, hentry.trans (hread.later hlast.toLater), hend.onward hlast .inr, ?_⟩
    rcases hnew with hnew | ⟨-, heq, -⟩
    · exact .inl hnew
    · have hsize := hG.size_lt
      rw [heq] at hle
      exact absurd hsize (Nat.not_lt_of_le hle.size_le)

end whole
end PythonFlow.Sketch
