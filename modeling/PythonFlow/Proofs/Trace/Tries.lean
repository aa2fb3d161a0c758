import PythonFlow.Proofs.Reach.Raises
import PythonFlow.Proofs.Trace.Rules

/-!
# Runs of a `try` statement

The clauses before the `finally` clause are followed first, up to where flow leaves them and no
handler catches it. What a handler catches gets its edges when the statement is settled. From there
flow goes through the `finally` clause, if there is one, and resumes its outcome at the ways out.
-/

set_option autoImplicit false

namespace PythonFlow

/-- No `continue` and no `raise` is in a `try` statement with a `finally` clause. -/
def SyntaxTree.Tame (t : SyntaxTree) (n : NodeId) : Prop :=
  ∀ T F c, t.Holds n T → t.kind T = .tryStatement → t.finallyPart T = some F → t.Holds T c →
    t.kind c ≠ .continueJump ∧ t.kind c ≠ .raiseExit

namespace Sketch
variable {t : SyntaxTree} {s c p : NodeId} {V : Visitor} {k k0 : Sketch} {a x : InstructionId}
  {w : List NodeId} {o : Outcome}

structure Released (t : SyntaxTree) (V : Visitor) (s : NodeId) (k0 : Sketch) (x : InstructionId)
    (o : Outcome) : Prop where
  ended : Ended t s (tryCaught t V s k0).1 ((tryCaught t V s k0).1.Pends (some s) x) x o
  new : New k0 (tryCaught t V s k0).1 x
  uncaught : ∀ r, o = .raised r → ∀ el, (tryCaught t V s k0).1.element x = some el →
    ¬ (Visit.raisedInBody t (t.tryPart s) el = true ∧ (tryCaught t V s k0).2 ≠ [])

/-- What is free is not raised anywhere. -/
theorem not_raised_of_free {part : Option NodeId} {el : NodeId} (h : Free t k x)
    (hel : k.element x = some el) : Visit.raisedInBody t part el ≠ true := by
  intro hraised
  unfold Visit.raisedInBody at hraised
  cases part with
  | none => cases hraised
  | some b =>
    rw [Bool.and_eq_true] at hraised
    obtain ⟨r, hr⟩ := Option.isSome_iff_exists.1 hraised.1
    obtain ⟨hb, hk⟩ := mem_of_first_of_kind hr
    exact h.free el r hel hk hb

section clauses
variable (hg : t.Grammatical) (hk : t.kind s = .tryStatement) (hH : Heeds t V s) (hs : Begun t s k0)
include hg hk

omit hg in
theorem followed_try : t.followed s = (t.tryPart s).toList ++ ((t.elsePart s).toList ++
    (t.exceptParts s ++ (t.finallyPart s).toList)) := by
  rw [SyntaxTree.followed, hk]

include hH hs

/-- A run of the body. -/
theorem goes_tried (hun : Unraised t s) :
    Reads t (tryTried t V s k0).1 k0.next [] (tryTried t V s k0).2.1 ∧
      ∀ w o, Run t (.all (t.tryPart s).toList) w o → ∃ x, Reads t (tryTried t V s k0).1 k0.next w x ∧
        Ended t s (tryTried t V s k0).1 (x ∈ (tryTried t V s k0).2.2) x o ∧
          New k0 (tryTried t V s k0).1 x := by
  have ho := hg.ordered
  have hG : Grown t s k0 (k0.start t s) := grown_begin ho (by simp [hk]) .plain
  unfold tryTried
  cases hc : t.tryPart s with
  | none =>
    refine ⟨.here _, fun w o hrun => ?_⟩
    obtain ⟨rfl, rfl⟩ := hrun.all_nil
    exact ⟨k0.next, .here _, .normal (List.mem_singleton.2 rfl) (free_place hun (by simp [hk]) .plain),
      (hG.cursor_live _ rfl).1⟩
  | some c =>
    obtain ⟨hmem, hkind, hplain⟩ := try_part hc
    have hd := direct_child ho hmem
    have hGc := grown_place hG ho hd hplain .plain
    have hB := begun_grown ho hs hGc hd (fresh_entry ho (fresh_child ho hs.fresh hmem) hplain .plain)
    have hv := hH.grows c hd.1 _ hB.fresh
    have hle : Onward t s (V c ((k0.start t s).start t c)) ((V c ((k0.start t s).start t c)).drained t c) :=
      (Onward.refl t s _).drained ho hd.1
    have hentry := (reads_into (mem_arrivals_of_cursor (k := k0.start t s) (some c) rfl)
      (by rw [hkind]; rfl) .plain).later (hv.later.trans hle.toLater)
    refine ⟨hentry, fun w o hrun => ?_⟩
    have hrun := hrun.of_only
    have hfollowed : c ∈ t.followed s := by
      rw [followed_try hk, hc]
      simp
    obtain ⟨x, hread, hend, hnew⟩ := goes_clause (hH.grows c hd.1) (hH.traces c hfollowed) hB rfl
      (free_place (hun.child ho (by simp [hk]) hmem) (by simp [hkind]) .plain) hrun
    exact ⟨x, hentry.trans (hread.later hle.toLater),
      hend.pass ho hd (hrun.not_broke ho (not_loop_of_try hk)) hle id,
      (hGc.cursor_live _ rfl).1.since hv.later.size_le hnew⟩

omit hk in
theorem onward_others : Onward t s (tryTried t V s k0).1 (tryOthers t V s k0) := by
  unfold tryOthers
  cases hc : t.elsePart s with
  | none => exact (Onward.refl t s _).pended _ _
  | some c =>
    obtain ⟨hd, hplain⟩ := else_part hg hc
    exact ((((Onward.refl t s _).moved none).place hg.ordered hd.1.1 _).linked _ _).trans
      (onward_left hg.ordered hd (hH.grows c hd.1) (fresh_linked (fresh_clause_start hg hplain
        (fresh_tried_else hg hH.grows hs.fresh hc) none) _ _))

/-- A run of the `else` clause, from a way out of the body. -/
theorem goes_others (hun : Unraised t s) (hx : x ∈ (tryTried t V s k0).2.2)
    (hfree : Free t (tryTried t V s k0).1 x) (hnew : New k0 (tryTried t V s k0).1 x)
    (hrun : Run t (.all (t.elsePart s).toList) w o) :
    ∃ y, Reads t (tryOthers t V s k0) x w y ∧
      Ended t s (tryOthers t V s k0) ((tryOthers t V s k0).Pends (some s) y) y o ∧
        New k0 (tryOthers t V s k0) y ∧ (o = .normal ∨ New (tryTried t V s k0).1 (tryOthers t V s k0) y) := by
  have ho := hg.ordered
  have hlater := onward_others hg hH hs
  obtain ⟨hGt, -, hexits⟩ := grown_tried hg hH.grows hk hs.fresh
  unfold tryOthers at hlater ⊢
  cases hc : t.elsePart s with
  | none =>
    rw [hc] at hrun hlater
    obtain ⟨rfl, rfl⟩ := hrun.all_nil
    exact ⟨x, .here x, .normal ((mem_pending_pended _ _ _ _).2 (.inr ⟨rfl, hx⟩)) (hfree.later hlater.toLater),
      hnew.later hlater.size_le, .inl rfl⟩
  | some c =>
    rw [hc] at hrun
    have hrun := hrun.of_only
    obtain ⟨hd, hplain⟩ := else_part hg hc
    obtain ⟨hmem, hkind⟩ := SyntaxTree.mem_else_part hc
    have hstart := grown_clause_start hg hmem hplain hGt none (by simp)
    have hlinked := grown_linked hstart (hstart.cursor_live _ rfl).1 fun a ha =>
      (hexits a ha).later (((Later.refl _).moved none).place (some c) .plain)
    have hB := begun_grown ho hs hlinked hd (fresh_linked (fresh_clause_start hg hplain
      (fresh_tried_else hg hH.grows hs.fresh hc) none) _ _)
    have hfollowed : c ∈ t.followed s := by
      rw [followed_try hk, hc]
      simp
    have hentryfree := (free_place (k := (tryTried t V s k0).1.moved none)
      (hun.child ho (by simp [hk]) hmem) (by simp [hkind]) .plain).later
        ((Later.refl _).linked (tryTried t V s k0).1.next (tryTried t V s k0).2.2)
    obtain ⟨y, hread, hend, hy⟩ := goes_left ho hd (hH.grows c hd.1) (hH.traces c hfollowed) hB rfl
      hentryfree hrun (hrun.not_broke ho (not_loop_of_try hk))
    have hentered : Reads t ((((tryTried t V s k0).1.moved none).start t c).linked
        (tryTried t V s k0).1.next (tryTried t V s k0).2.2) x [] (tryTried t V s k0).1.next :=
      reads_silent ((edge_linked _ _ _ _ _).2 (.inr ⟨hx, rfl⟩))
        (element_place_next (t := t) (k := (tryTried t V s k0).1.moved none)) (by rw [hkind]; rfl)
    have hleft := onward_left ho hd (hH.grows c hd.1) hB.fresh
    have hlast : New (tryTried t V s k0).1 (tryElse t V s (tryTried t V s k0).2.2 (some c)
        (tryTried t V s k0).1) y :=
      (new_next (Nat.le_refl _) (next_lt_place t ((tryTried t V s k0).1.moved none) (some c) .plain)).since
        hleft.size_le hy
    exact ⟨y, (hentered.later hleft.toLater).trans hread, hend, hlast.earlier hGt.later.size_le,
      .inr hlast⟩

omit hk hs in
theorem onward_handler (entry : InstructionId) (exits : List InstructionId) (hp : p ∈ t.exceptParts s)
    (hf : Fresh t p k) : Onward t s k (handler t V s entry exits p k) := by
  have hd := direct_child hg.ordered (except_part hp).1
  exact (((((Onward.refl t s k).moved none).place hg.ordered hd.1.1 .plain).linked _ _).linked _ _).trans
    (onward_left hg.ordered hd (hH.grows p hd.1) (fresh_handler_start hg entry exits hp hf))

/-- A run of a handler, from its entry. -/
theorem goes_handler (hun : Unraised t s) {entry : InstructionId} {exits : List InstructionId}
    (hG : Grown t s k0 k) (hentry : Live t s k0 k entry) (hexits : ∀ a ∈ exits, Live t s k0 k a)
    (hp : p ∈ t.exceptParts s) (hf : Fresh t p k) (hrun : Run t (.node p) w o) :
    ∃ y, Reads t (handler t V s entry exits p k) k.next w y ∧
      Ended t s (handler t V s entry exits p k)
        ((handler t V s entry exits p k).Pends (some s) y) y o ∧
          New k (handler t V s entry exits p k) y := by
  have ho := hg.ordered
  obtain ⟨hmem, hkind, -⟩ := except_part hp
  have hd := direct_child ho hmem
  have hB := begun_grown ho hs (grown_handler_start hg entry exits hG hentry hexits hp) hd
    (fresh_handler_start hg entry exits hp hf)
  have hfollowed : p ∈ t.followed s := by
    rw [followed_try hk]
    simp [hp]
  have hfree : Free t (handlerStart t entry exits p k) k.next :=
    (free_place (k := k.moved none) (hun.child ho (by simp [hk]) hmem) (by simp [hkind]) .plain).later
      (((Later.refl _).linked _ _).linked _ _)
  obtain ⟨y, hread, hend, hnew⟩ := goes_left ho hd (hH.grows p hd.1) (hH.traces p hfollowed) hB rfl hfree
    hrun (hrun.not_broke ho (not_loop_of_try hk))
  have hfirst : New k (handlerStart t entry exits p k) k.next :=
    new_next (Nat.le_refl _) (next_lt_place t (k.moved none) (some p) .plain)
  exact ⟨y, hread, hend, hfirst.since (hH.grows p hd.1 _ hB.fresh).later.size_le hnew⟩

theorem onward_caught : Onward t s (tryOthers t V s k0) (tryCaught t V s k0).1 :=
  handlers_keeps hg hH.grows _ _ (M := Onward t s _)
    (fun _ _ hq hf hk1 => hk1.trans (onward_handler hg hH _ _ hq hf)) (fun _ hq => hq)
    (nodup_except_parts hg s) (fun _ hq => fresh_others_handler hg hH.grows hk hs.fresh hq) (.refl t s _)

/-- Every handler is entered from the entry of the body and from the ways out of it. -/
theorem goes_caught (hun : Unraised t s) (hp : p ∈ t.exceptParts s) :
    ∃ h ∈ (tryCaught t V s k0).2, (tryCaught t V s k0).1.element h = some p ∧
      (∀ x, x = (tryTried t V s k0).2.1 ∨ x ∈ (tryTried t V s k0).2.2 →
        (tryCaught t V s k0).1.Edge x h) ∧
      ∀ w o, Run t (.node p) w o → ∃ y, Reads t (tryCaught t V s k0).1 h w y ∧
        Ended t s (tryCaught t V s k0).1 ((tryCaught t V s k0).1.Pends (some s) y) y o ∧
          New (tryOthers t V s k0) (tryCaught t V s k0).1 y := by
  obtain ⟨htried, hentry, hexits⟩ := grown_tried hg hH.grows hk hs.fresh
  have hlater := later_others hg hH.grows hs.fresh
  obtain ⟨k1, rest, ⟨hG, hle⟩, hf, hmem, heq, hrest, hnodup, hfresh⟩ := handlers_at hg hH.grows
    (tryTried t V s k0).2.1 (tryTried t V s k0).2.2
    (M := fun k => Grown t s k0 k ∧ Onward t s (tryOthers t V s k0) k)
    (fun q k hq hf ⟨hG, hle⟩ => ⟨grown_handler hg hH.grows _ _ hs.fresh hG
      (hentry.later (hlater.trans hle.toLater)) (fun a ha => (hexits a ha).later (hlater.trans hle.toLater))
      hq hf, hle.trans (onward_handler hg hH _ _ hq hf)⟩)
    (fun _ hq => hq) (nodup_except_parts hg s)
    (fun _ hq => fresh_others_handler hg hH.grows hk hs.fresh hq)
    ⟨grown_others hg hH.grows hk hs.fresh, .refl t s _⟩ hp
  have hdone : Onward t s (handler t V s (tryTried t V s k0).2.1 (tryTried t V s k0).2.2 p k1)
      (tryCaught t V s k0).1 := by
    rw [tryCaught, heq]
    exact handlers_keeps hg hH.grows _ _ (M := Onward t s _)
      (fun q k hq hf hk1 => hk1.trans (onward_handler hg hH _ _ hq hf)) hrest hnodup hfresh (.refl t s _)
  obtain ⟨hel, hedge⟩ := handler_entered hg hH.grows (tryTried t V s k0).2.1 (tryTried t V s k0).2.2 hp hf
  refine ⟨k1.next, hmem, (hdone.element (lt_size_of_element hel)).trans hel, fun x hx => hdone.edge (hedge x hx),
    fun w o hrun => ?_⟩
  obtain ⟨y, hread, hend, hnew⟩ := goes_handler hg hk hH hs hun hG (hentry.later (hlater.trans hle.toLater))
    (fun a ha => (hexits a ha).later (hlater.trans hle.toLater)) hp hf hrun
  exact ⟨y, hread.later hdone.toLater, hend.onward hdone (hdone.pends (t.below_refl s)),
    (hnew.earlier hle.size_le).later hdone.size_le⟩

theorem onward_last : Onward t s (tryCaught t V s k0).1 (tryLast t V s k0).1 := by
  unfold tryLast finallyClause
  cases hc : t.finallyPart s with
  | none => exact .refl t s _
  | some c =>
    obtain ⟨hmem, -, hplain⟩ := finally_part hc
    have hd := direct_child hg.ordered hmem
    exact (((((Onward.refl t s _).moved none).place hg.ordered hd.1.1 .plain).visited hg.ordered hd.1.1
      (hH.grows c hd.1 _ (fresh_clause_start hg hplain (fresh_caught hg hH.grows hk hs.fresh hc)
        none))).drained hg.ordered hd.1).pended _ _

/-- A raise in the body is caught by every handler. -/
theorem edge_of_raised {r : NodeId} {el : NodeId} {h : InstructionId}
    (hx : (tryTried t V s k0).1.Pends none x) (hel : (tryTried t V s k0).1.element x = some el)
    (hb : t.Below el r) (hr : t.kind r = .raiseExit)
    (hin : Task.Holds t (.all (t.tryPart s).toList) r) (hh : h ∈ (tryCaught t V s k0).2) :
    (tryStatement t V s k0).Edge x h := by
  have ho := hg.ordered
  have hle := ((onward_others hg hH hs).trans (onward_caught hg hk hH hs)).trans (onward_last hg hk hH hs)
  obtain ⟨c, hc, hrc, -⟩ := hin
  have hc := Option.mem_toList.1 hc
  obtain ⟨hmem, hkind, -⟩ := try_part hc
  have hin : t.Inside r c := by
    refine ⟨hrc, ?_⟩
    rintro rfl
    rw [hkind] at hr
    cases hr
  have hraised : Visit.raisedInBody t (t.tryPart s) el = true := by
    rw [hc]
    simp only [Visit.raisedInBody, Bool.and_eq_true]
    exact ⟨raised_of_below ho hr hin hb, (SyntaxTree.is_descendant_of_iff t el c).2 (ho.below_trans hb hrc)⟩
  have hel' := (hle.element (lt_size_of_element hel)).trans hel
  have hbs := ho.below_trans (ho.below_trans hb hrc) (inside_of_mem ho hmem).1
  refine (edge_settled _ _ _ _).2 (.inr ⟨⟨none, x⟩, hle.unscoped hx, rfl, ?_⟩)
  rw [settle_of_raised t hel' hbs hraised (List.ne_nil_of_mem hh)]
  exact hh

/-- A run of a handler from where it is entered, wherever that is. -/
theorem goes_from_handler {h z : InstructionId} {w' : List NodeId}
    (hel : (tryCaught t V s k0).1.element h = some p) (hkind : t.kind p = .exceptPart)
    (hhandled : ∃ y, Reads t (tryCaught t V s k0).1 h w y ∧
      Ended t s (tryCaught t V s k0).1 ((tryCaught t V s k0).1.Pends (some s) y) y o ∧
        New (tryOthers t V s k0) (tryCaught t V s k0).1 y)
    (hz : Reads t (tryStatement t V s k0) k0.next w' z) (hedge : (tryStatement t V s k0).Edge z h) :
    ∃ y, Reads t (tryStatement t V s k0) k0.next (w' ++ w) y ∧ Released t V s k0 y o := by
  have hlast := later_try hg hH.grows hk hs.fresh
  have hgrown := (grown_others hg hH.grows hk hs.fresh).later
  obtain ⟨y, hread, hend, hnew⟩ := hhandled
  have hstep : Reads t (tryStatement t V s k0) z [] h :=
    reads_silent hedge ((hlast.element (lt_size_of_element hel)).trans hel) (by rw [hkind]; rfl)
  refine ⟨y, hz.trans (hstep.trans (hread.later hlast)), hend, hnew.earlier hgrown.size_le, ?_⟩
  intro r _ el hel' hraised
  exact unraised_since hg hk hH.toBelow hs.fresh hnew.1
    (((later_last hg hH.grows hk hs.fresh).element hnew.2).trans hel') hraised.1

/-- A run of all clauses but the `finally` clause. -/
theorem goes_attempt (hun : Unraised t s) (hrun : Run t (.attempt s) w o) :
    ∃ x, Reads t (tryStatement t V s k0) k0.next w x ∧ Released t V s k0 x o := by
  have ho := hg.ordered
  obtain ⟨hentry, htried⟩ := goes_tried hg hk hH hs hun
  have hothers := onward_others hg hH hs
  have hcaught := onward_caught hg hk hH hs
  have hlast := later_try hg hH.grows hk hs.fresh
  have hle := (hothers.trans hcaught).toLater.trans hlast
  cases hrun with
  | tried h rest =>
    obtain ⟨x, hread, hend, hnew⟩ := htried _ _ h
    obtain ⟨hx, hfree⟩ := hend.stands
    obtain ⟨y, hread', hend', hnew', hwhere⟩ := goes_others hg hk hH hs hun hx hfree hnew rest
    refine ⟨y, (hread.later hle).trans (hread'.later (hcaught.toLater.trans hlast)),
      hend'.onward hcaught (hcaught.pends (t.below_refl s)), hnew'.later hcaught.size_le, ?_⟩
    rintro r rfl el hel hraised
    rcases hwhere with hwhere | hwhere
    · cases hwhere
    · rw [hcaught.element hnew'.2] at hel
      obtain ⟨c, hc, hb⟩ := others_below hg hH.grows hs.fresh hwhere hel
      obtain ⟨hmem, hkind⟩ := SyntaxTree.mem_else_part hc
      exact not_raised hg hmem (by simp [hkind]) hb hraised.1
  | failed h ho' hr =>
    obtain ⟨x, hread, hend, hnew⟩ := htried _ _ h
    refine ⟨x, hread.later hle, (hend.onward (hothers.trans hcaught) id).departed ho',
      hnew.later (hothers.trans hcaught).size_le, ?_⟩
    intro r hor el _ hraised
    exact hraised.2 (caught_nil (hr r hor))
  | early hp h =>
    obtain ⟨e, -, hel, hedge, hhandled⟩ := goes_caught hg hk hH hs hun hp
    exact goes_from_handler hg hk hH hs hel (except_part hp).2.1 (hhandled _ _ h) (hentry.later hle)
      (hlast.edge (hedge _ (.inl rfl)))
  | late h hp rest =>
    obtain ⟨x, hread, hend, -⟩ := htried _ _ h
    obtain ⟨e, -, hel, hedge, hhandled⟩ := goes_caught hg hk hH hs hun hp
    exact goes_from_handler hg hk hH hs hel (except_part hp).2.1 (hhandled _ _ rest) (hread.later hle)
      (hlast.edge (hedge _ (.inr hend.stands.1)))
  | caught h hp rest =>
    obtain ⟨x, hread, hend, -⟩ := htried _ _ h
    obtain ⟨hin, hr⟩ := h.from_code ho
    obtain ⟨e, he, hel, -, hhandled⟩ := goes_caught hg hk hH hs hun hp
    cases hend with
    | raised hx hxel hb =>
      exact goes_from_handler hg hk hH hs hel (except_part hp).2.1 (hhandled _ _ rest) (hread.later hle)
        (edge_of_raised hg hk hH hs hx hxel hb hr hin he)

omit hg hk hH hs in
/-- What has been left is so in the end, if the edges from there are kept. -/
theorem Ended.settled {D D' : Prop} (h : Ended t s (tryLast t V s k0).1 D x o)
    (hkeep : (∀ l, o ≠ .continued l) → ∀ e ∈ (tryLast t V s k0).1.pending, e.source = x →
      settle t s (tryCaught t V s k0).2 (tryLast t V s k0).2 (tryLast t V s k0).1 e = keep e)
    (hD : D → D') : Ended t s (tryStatement t V s k0) D' x o := by
  have hle : Later (tryLast t V s k0).1 (tryStatement t V s k0) := ((Later.refl _).settled _).moved none
  have hkept : ∀ sc, (∀ l, o ≠ .continued l) → (tryLast t V s k0).1.Pends sc x →
      (tryStatement t V s k0).Pends sc x := by
    intro sc hne hx
    refine (mem_pending_settled _ _ _).2 ⟨_, hx, ?_⟩
    rw [hkeep hne _ hx rfl]
    exact List.mem_singleton.2 rfl
  cases h with
  | normal h hx => exact .normal (hD h) (hx.later hle)
  | broke hl hin h hx => exact .broke hl hin (hkept _ (by simp) h) (hx.later hle)
  | continued hx hel h =>
    exact .continued (Nat.lt_of_lt_of_le hx hle.size_le)
      ((hle.element (lt_size_of_element hel)).trans hel) (hle.edge h)
  | returned h hx => exact .returned (hkept _ (by simp) h) (hx.later hle)
  | raised h hel hb =>
    exact .raised (hkept _ (by simp) h) ((hle.element (lt_size_of_element hel)).trans hel) hb

/-- Flow that is released is at the statement, and raised to none of its handlers. -/
theorem Released.element (h : Released t V s k0 x o) (hne : ∀ l, o ≠ .continued l) :
    ∃ el, (tryCaught t V s k0).1.element x = some el ∧ t.Below el s ∧
      ¬ (Visit.raisedInBody t (t.tryPart s) el = true ∧ (tryCaught t V s k0).2 ≠ []) := by
  obtain ⟨el, hel, hb⟩ := (grown_caught hg hH.grows hk hs.fresh).element_new x h.new
  refine ⟨el, hel, hb, fun hraised => ?_⟩
  cases h.ended with
  | normal _ hfree | broke _ _ _ hfree | returned _ hfree => exact not_raised_of_free hfree hel hraised.1
  | continued => exact hne _ rfl
  | raised => exact h.uncaught _ rfl el hel hraised

/-- Without a `finally` clause flow leaves the statement where it is released. -/
theorem goes_unguarded (hf : t.finallyPart s = none) (h : Released t V s k0 x o) :
    Ended t s (tryStatement t V s k0) (Departs t s (tryStatement t V s k0) x) x o := by
  have hlast : tryLast t V s k0 = ((tryCaught t V s k0).1, none) := by
    rw [tryLast, hf]
    rfl
  have hkeep : (∀ l, o ≠ .continued l) → ∀ e ∈ (tryLast t V s k0).1.pending, e.source = x →
      settle t s (tryCaught t V s k0).2 (tryLast t V s k0).2 (tryLast t V s k0).1 e = keep e := by
    rintro hne e - rfl
    obtain ⟨el, hel, -, huncaught⟩ := h.element hg hk hH hs hne
    rw [hlast]
    exact settle_of_no_finally t hel huncaught
  have hend := h.ended
  have hpends : (tryCaught t V s k0).1.Pends (some s) x → o = .normal →
      Departs t s (tryStatement t V s k0) x := by
    rintro hx rfl
    refine departs_of_pends ((mem_pending_settled _ _ _).2 ⟨⟨some s, x⟩, ?_, ?_⟩)
    · rw [hlast]
      exact hx
    · rw [hkeep (by simp) ⟨some s, x⟩ (by rw [hlast]; exact hx) rfl]
      exact List.mem_singleton.2 rfl
  by_cases hnormal : o = .normal
  · subst hnormal
    obtain ⟨hx, hfree⟩ := hend.stands
    exact .normal (hpends hx rfl) (hfree.later (later_try hg hH.grows hk hs.fresh))
  · refine Ended.settled (D := False) ?_ hkeep False.elim
    rw [hlast]
    exact hend.departed hnormal

section finallyClause
variable {y : InstructionId} (hc : t.finallyPart s = some c)
include hc

/-- A run of the `finally` clause, from its entry. -/
theorem goes_last (hun : Unraised t s) : ∃ f, (tryLast t V s k0).2 = some f ∧ f.part = c ∧
    ∀ w o, Run t (.node c) w o → ∃ y, Reads t (tryLast t V s k0).1 f.entry w y ∧
      Ended t s (tryLast t V s k0).1 (y ∈ f.exits ∧ (tryLast t V s k0).1.Pends (some c) y) y o ∧
        New (tryCaught t V s k0).1 (tryLast t V s k0).1 y := by
  have ho := hg.ordered
  obtain ⟨hmem, hkind, hplain⟩ := finally_part hc
  have hd := direct_child ho hmem
  have hstart := grown_clause_start hg hmem hplain (grown_caught hg hH.grows hk hs.fresh) none (by simp)
  have hB := begun_grown ho hs hstart hd
    (fresh_clause_start hg hplain (fresh_caught hg hH.grows hk hs.fresh hc) none)
  have hv := hH.grows c hd.1 _ hB.fresh
  have hfollowed : c ∈ t.followed s := by
    rw [followed_try hk, hc]
    simp
  rw [tryLast, hc]
  refine ⟨_, rfl, rfl, fun w o hrun => ?_⟩
  obtain ⟨y, hread, hend, hnew⟩ := goes_clause (hH.grows c hd.1) (hH.traces c hfollowed) hB rfl
    (free_place (k := (tryCaught t V s k0).1.moved none) (hun.child ho (by simp [hk]) hmem)
      (by simp [hkind]) .plain) hrun
  have hle : Onward t s (V c (((tryCaught t V s k0).1.moved none).start t c))
      (finallyClause t V (some c) (tryCaught t V s k0).1).1 :=
    ((Onward.refl t s _).drained ho hd.1).pended _ _
  have hfirst : New (tryCaught t V s k0).1 (((tryCaught t V s k0).1.moved none).start t c)
      (tryCaught t V s k0).1.next :=
    new_next (Nat.le_refl _) (next_lt_place t ((tryCaught t V s k0).1.moved none) (some c) .plain)
  exact ⟨y, hread.later hle.toLater, hend.pass ho hd (hrun.not_broke ho (not_loop_of_try hk)) hle
    fun hy => ⟨hy, (mem_pending_pended _ _ _ _).2 (.inr ⟨rfl, hy⟩)⟩, hfirst.since hv.later.size_le hnew⟩

/-- Flow that is released goes into the `finally` clause. -/
theorem reads_finally {f : Visit.Finally} (hf : (tryLast t V s k0).2 = some f)
    (hx : Released t V s k0 x o) (hcontinued : ∀ l, o ≠ .continued l) (hraised : ∀ r, o ≠ .raised r) :
    Reads t (tryStatement t V s k0) x [] f.entry := by
  obtain ⟨el, hel, -, huncaught⟩ := hx.element hg hk hH hs hcontinued
  refine reads_silent ?_ (element_finally hg hk hH.toBelow hs.fresh hc hf)
    (by rw [(finally_part hc).2.1]; rfl)
  have hgoes : ∀ sc, (tryCaught t V s k0).1.Pends sc x →
      (tryStatement t V s k0).Edge x f.entry := by
    intro sc hpends
    rcases pending_goes_on hg hk hH.toBelow hs.fresh hc hf hpends hx.new with
      hedge | ⟨el', hel', hraised', h, hh, -⟩
    · exact hedge
    · obtain rfl := Option.some.inj (hel.symm.trans hel')
      exact absurd ⟨hraised', List.ne_nil_of_mem hh⟩ huncaught
  cases hx.ended with
  | normal hpends | broke _ _ hpends | returned hpends => exact hgoes _ hpends
  | continued => exact absurd rfl (hcontinued _)
  | raised => exact absurd rfl (hraised _)

/-- What the clause does not replace is resumed at every way out of it. -/
theorem goes_resumed {f : Visit.Finally} (hf : (tryLast t V s k0).2 = some f)
    (h : Released t V s k0 x o) (hcontinued : ∀ l, o ≠ .continued l) (hraised : ∀ r, o ≠ .raised r)
    (hy : y ∈ f.exits) (hpends : (tryLast t V s k0).1.Pends (some c) y)
    (hfree : Free t (tryLast t V s k0).1 y) (hnew : New (tryCaught t V s k0).1 (tryLast t V s k0).1 y) :
    Ended t s (tryStatement t V s k0) (Departs t s (tryStatement t V s k0) y) y o := by
  have hle : Later (tryLast t V s k0).1 (tryStatement t V s k0) := ((Later.refl _).settled _).moved none
  have hlast := onward_last hg hk hH hs
  obtain ⟨hmem, -, -⟩ := finally_part hc
  obtain ⟨f', hf', hpart⟩ := last_finally V k0 hc
  obtain rfl := Option.some.inj (hf.symm.trans hf')
  obtain ⟨el, hel, hb, huncaught⟩ := h.element hg hk hH hs hcontinued
  have hout := caught_outside hg hk hH.toBelow hs.fresh hc h.new hel
  -- An edge that leaves the whole statement goes on from every way out of the clause.
  have hthrough : ∀ sc, (tryCaught t V s k0).1.Pends sc x → (⟨sc, x⟩ : PendingEdge).lands t (some s) = false →
      (⟨sc, x⟩ : PendingEdge).within t s = false → (tryStatement t V s k0).Pends sc y := by
    intro sc hx hlands hwithin
    refine (mem_pending_settled _ _ _).2 ⟨⟨sc, x⟩, hlast.kept _ hx hlands, ?_⟩
    have hscope : sc ≠ some f.part := by
      rintro rfl
      exact (beyond_iff.1 hwithin) f.part rfl (hpart ▸ (inside_of_mem hg.ordered hmem).1)
    rw [hf, settle_of_finally t ((hlast.element h.new.2).trans hel) hb huncaught f,
      if_pos ⟨hscope, hpart ▸ hout⟩, through, hwithin]
    exact List.mem_map.2 ⟨y, hy, rfl⟩
  cases h.ended with
  | normal =>
    refine .normal (.inr ⟨c, (mem_pending_settled _ _ _).2 ⟨_, hpends, ?_⟩, fun hin => ?_⟩) (hfree.later hle)
    · rw [settle_last hg hk hH.toBelow hs.fresh (e := ⟨some c, y⟩) hnew]
      exact List.mem_singleton.2 rfl
    · exact hg.ordered.not_below_of_inside (inside_of_mem hg.ordered hmem) hin.1
  | broke hl hin hx =>
    refine .broke hl hin (hthrough _ hx ?_ ?_) (hfree.later hle)
    · exact stays_iff.2 fun _ hsc => Option.some.inj hsc ▸ hin.1
    · exact beyond_iff.2 fun _ hsc => Option.some.inj hsc ▸ hg.ordered.not_below_of_inside hin
  | continued => exact absurd rfl (hcontinued _)
  | returned hx => exact .returned (hthrough _ hx rfl rfl) (hfree.later hle)
  | raised => exact absurd rfl (hraised _)

end finallyClause

omit hH hs in
/-- In tame code no `continue` and no raise leaves for a `finally` clause. -/
theorem not_jumped_of_tame (htame : t.Tame s) (hc : t.finallyPart s = some c)
    (hrun : Run t (.attempt s) w o) : (∀ l, o ≠ .continued l) ∧ ∀ r, o ≠ .raised r := by
  have hheld := fun d hd => htame s c d (holds_self hg.ordered s) hk hc hd
  have hholds : ∀ d, Task.Holds t (.attempt s) d → t.Holds s d := fun d ⟨e, he, hd⟩ =>
    holds_of_child hg.ordered he (by rw [hk]; rfl) hd
  constructor
  · rintro l rfl
    obtain ⟨d, hd, hkind, -⟩ := hrun.from_code hg.ordered
    exact (hheld d (hholds d hd)).1 hkind
  · rintro r rfl
    obtain ⟨hr, hkind⟩ := hrun.from_code hg.ordered
    exact (hheld r (hholds r hr)).2 hkind

/-- A run of the statement. -/
theorem goes_try (hun : Unraised t s) (htame : t.Tame s) (ha : a ∈ k0.arrivals t (some s))
    (hrun : Run t (.node s) w o) :
    Goes t s k0 (tryStatement t V s k0) (Departs t s (tryStatement t V s k0)) a w o := by
  have ho := hg.ordered
  have hG := grown_settle hg hH.grows hk hs.fresh
  have hlast := later_try hg hH.grows hk hs.fresh
  have hle : Later (tryLast t V s k0).1 (tryStatement t V s k0) := ((Later.refl _).settled _).moved none
  have hbody : Later (k0.start t s) (tryTried t V s k0).1 :=
    later_try_body hg hH.grows fun _ hc => fresh_child hg.ordered hs.fresh (try_part hc).1
  have hstart := ((hbody.trans (later_others hg hH.grows hs.fresh)).trans
    (caught_entries hg hH.grows hk hs.fresh).1).trans hlast
  have hentry : Reads t (tryStatement t V s k0) a [] k0.next :=
    reads_enter hG.toFramed ha ((hstart.element (next_lt_place t k0 (some s) .plain)).trans
      element_place_next) (by rw [hk]; rfl)
  rcases hrun.try_inv hk with ⟨hf, hrun⟩ | ⟨c, w1, w2, o1, o2, hc, rfl, htried, hlater, rfl⟩
  · obtain ⟨x, hread, hx⟩ := goes_attempt hg hk hH hs hun hrun
    exact ⟨x, hentry.trans hread, goes_unguarded hg hk hH hs hf hx, .inl (hx.new.later hlast.size_le)⟩
  obtain ⟨x, hread, hx⟩ := goes_attempt hg hk hH hs hun htried
  obtain ⟨hcontinued, hraised⟩ := not_jumped_of_tame hg hk htame hc htried
  obtain ⟨f, hf, rfl, hclause⟩ := goes_last hg hk hH hs hc hun
  obtain ⟨y, hread', hend, hnew⟩ := hclause w2 o2 hlater
  have hinto := reads_finally hg hk hH hs hc hf hx hcontinued hraised
  refine ⟨y, (hentry.trans hread).trans (hinto.trans (hread'.later hle)), ?_,
    .inl ((hnew.later hle.size_le).earlier (grown_caught hg hH.grows hk hs.fresh).later.size_le)⟩
  by_cases hnormal : o2 = .normal
  · subst hnormal
    obtain ⟨⟨hy, hpends⟩, hfree⟩ := hend.stands
    rw [if_pos rfl]
    exact goes_resumed hg hk hH hs hc hf hx hcontinued hraised hy hpends hfree hnew
  · rw [if_neg hnormal]
    refine Ended.settled (D := False) (hend.departed hnormal) (fun _ e _ he => ?_) False.elim
    exact settle_last hg hk hH.toBelow hs.fresh (he ▸ hnew)

end clauses
end Sketch
end PythonFlow
