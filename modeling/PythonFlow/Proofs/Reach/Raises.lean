import PythonFlow.Proofs.Reach.Clauses

/-!
# From a `raise` to the handlers

A `raise` leaves an edge pending without a scope, with its source at or below the `raise`. Only the end
of a `try` statement takes such an edge away: to the handlers if the `raise` is in the body, or through the
`finally` clause if the `raise` is not in that clause. Where neither is the case for the statements on the
way, the edge is still there when the statement ends whose handlers are for it.
-/

set_option autoImplicit false

namespace PythonFlow

/-- The statement whose handlers are for `r`: the innermost `try` statement with handlers that has `r`
in its body. -/
structure SyntaxTree.Catches (t : SyntaxTree) (T r : NodeId) : Prop where
  kind : t.kind T = .tryStatement
  handled : t.exceptParts T ≠ []
  body : ∃ part, t.tryPart T = some part ∧ t.Below r part
  innermost : ∀ T', t.Inside T' T → t.kind T' = .tryStatement → t.exceptParts T' ≠ [] →
    ∀ part, t.tryPart T' = some part → ¬ t.Below r part

/-- Every `finally` clause of a statement inside `T` that has `r` in it has `r` in the clause. -/
def SyntaxTree.Unguarded (t : SyntaxTree) (T r : NodeId) : Prop :=
  ∀ T', t.Inside T' T → t.Below r T' → t.kind T' = .tryStatement →
    ∀ F, t.finallyPart T' = some F → t.Below r F

namespace Sketch
variable {t : SyntaxTree} {s r el : NodeId} {V : Visitor} {plan R : List NodeId}
  {k k' k0 k1 k2 : Sketch} {id : InstructionId}

/-- From `id` a walk leads to an edge that is pending without a scope below `r`. -/
def Carried (t : SyntaxTree) (r : NodeId) (k : Sketch) (id : InstructionId) : Prop :=
  ∃ x el, k.Walk id x ∧ ⟨none, x⟩ ∈ k.pending ∧ k.element x = some el ∧ t.Below el r

def Carries (t : SyntaxTree) (r : NodeId) (k k' : Sketch) : Prop :=
  r ∉ k'.truncated → ∀ id, New k k' id → k'.element id = some r → Carried t r k' id

theorem raised_of_below (ho : t.Ordered) (hk : t.kind r = .raiseExit) {part : NodeId}
    (hr : t.Inside r part) (hel : t.Below el r) :
    (t.ancestorOfKind el .raiseExit (some part)).isSome = true := by
  unfold SyntaxTree.ancestorOfKind
  induction el using ho.up_induction with
  | step el ih =>
    rw [SyntaxTree.lineage_eq_cons, SyntaxTree.firstOfKind]
    split
    · rfl
    · next hne =>
      rw [if_neg]
      · rcases ho.below_iff_parent.1 hel with rfl | ⟨p, hp, hb⟩
        · exact absurd hk hne
        · have habove : t.above el = t.lineage p := by
            rw [SyntaxTree.above, ho.lineage_of_parent hp, List.tail_cons]
          rw [habove]
          exact ih p hp hb
      · intro heq
        obtain rfl := Option.some.inj heq
        exact ho.not_below_of_inside hr hel

theorem mem_of_first_of_kind {kind : SyntaxKind} {boundary : Option NodeId} {l : List NodeId}
    (h : t.firstOfKind kind boundary l = some r) : r ∈ l ∧ t.kind r = kind := by
  induction l with
  | nil => cases h
  | cons id rest ih =>
    rw [SyntaxTree.firstOfKind] at h
    split at h
    · next hk =>
      obtain rfl := Option.some.inj h
      exact ⟨List.mem_cons_self, hk⟩
    · split at h
      · cases h
      · exact ⟨List.mem_cons_of_mem _ (ih h).1, (ih h).2⟩

section steps

theorem Carried.step (h : Carried t r k1 id) (hle : Later k1 k2)
    (hkeep : ∀ x, ⟨none, x⟩ ∈ k1.pending → ⟨none, x⟩ ∈ k2.pending) : Carried t r k2 id := by
  obtain ⟨x, el, hw, hx, hel, hb⟩ := h
  exact ⟨x, el, hw.later hle, hkeep x hx, (hle.element (lt_size_of_element hel)).trans hel, hb⟩

/-- A step that makes no instruction and keeps the edges that are pending without a scope. -/
theorem Carries.step (h : Carries t r k k1) (hle : Later k1 k2) (hsize : k2.size = k1.size)
    (hkeep : ∀ x, ⟨none, x⟩ ∈ k1.pending → ⟨none, x⟩ ∈ k2.pending) : Carries t r k k2 := by
  intro hcut id hid hel
  have hold : New k k1 id := ⟨hid.1, hsize ▸ hid.2⟩
  rw [hle.element hold.2] at hel
  exact (h (fun hmem => hcut (hle.truncated r hmem)) id hold hel).step hle hkeep

theorem unscoped_stays (x : InstructionId) (n : NodeId) :
    (⟨none, x⟩ : PendingEdge).lands t (some n) = false := rfl

theorem unscoped_beyond (x : InstructionId) (n : NodeId) :
    (⟨none, x⟩ : PendingEdge).within t n = false := rfl

/-- What the visits of a course carry on, the course carries on. -/
theorem Course.carries (hr : Ready t V s plan k) (hk : Sourced k) (hin : t.Inside r s)
    (hstatement : (t.kind r).isStatement = true)
    (hvisit : ∀ c ∈ plan, t.Below r c → ∀ k, Sound t c k → Carries t r k (V c k))
    (h : Course t V s plan k R k1) : Carries t r k k1 := by
  induction h with
  | start => exact fun _ id hid => absurd hid.2 (Nat.not_lt_of_le hid.1)
  | @place R k1 h el kind hsite ih =>
    intro hcut id hid hx
    rw [element_place] at hx
    split at hx
    · obtain rfl : el = r := Option.some.inj hx
      exact absurd (t.below_refl el) (spot_not_below hr.ordered hsite.spot hin hstatement)
    · next hne =>
      have hold := (eq_next_of_new hid).resolve_left hne
      exact (ih hcut id hold hx).step ((Later.refl k1).place _ _) fun x hx =>
        (mem_pending_place k1 t (some el) kind _).2 ⟨hx, unscoped_stays x el⟩
  | moved h hc ih => exact ih.step ((Later.refl _).moved _) rfl fun _ hx => hx
  | linked h hl hx hat ih => exact ih.step ((Later.refl _).linked _ _) rfl fun _ hx => hx
  | pended h ho hl ih =>
    exact ih.step ((Later.refl _).pended _ _) rfl fun _ hx =>
      (mem_pending_pended _ _ _ _).2 (.inl hx)
  | @drained R k1 h n hn ih =>
    exact ih.step ((Later.refl _).drained n) rfl fun x hx =>
      (mem_pending_drained _ t _ n).2 ⟨hx, unscoped_beyond x n⟩
  | @rescoped R k1 h n hn o ho ih =>
    refine ih.step ((Later.refl _).rescoped n _) rfl fun x hx => ?_
    refine (mem_pending_rescoped _ t _ n _).2 ⟨_, hx, ?_⟩
    rw [rescope, unscoped_beyond x n, if_neg Bool.false_ne_true]
  | @visit c R k1 h ih =>
    have hv := h.visited hr
    intro hcut id hid hx
    by_cases hold : id.index < k1.size
    · rw [hv.later.element hold] at hx
      refine (ih (fun hmem => hcut (hv.later.truncated r hmem)) id ⟨hid.1, hold⟩ hx).step hv.later
        fun x hx => ?_
      rcases hv with heq | ⟨hG, -⟩
      · rw [heq]
        exact hx
      · exact hG.kept _ hx (unscoped_stays x c)
    · have hnew : New k1 (V c k1) id := ⟨Nat.le_of_not_lt hold, hid.2⟩
      have hrc : t.Below r c := by
        rcases hv with heq | ⟨hG, -⟩
        · rw [heq] at hid
          exact absurd hid.2 hold
        · obtain ⟨y, hy, hyc⟩ := hG.element_new id hnew
          exact Option.some.inj (hx.symm.trans hy) ▸ hyc
      exact hvisit c (h.suffix.subset List.mem_cons_self) hrc k1 (h.sound hr hk) hcut id hnew hx

end steps

section leaving
variable (hg : t.Grammatical) (hV : ∀ c, t.Inside c s → Grows t V c)
  (hsteady : ∀ c, t.Inside c s → (t.kind c).isQuiet = true → Steady t V c)
  (hk : t.kind s = .raiseExit) (hs : Fresh t s k0)
include hg hV hsteady hk hs

/-- A `raise` leaves its way out pending without a scope. -/
theorem carries_leaving : Carries t s k0 (leaving t V s k0) := by
  intro _ id hid hel
  obtain rfl := (grown_leaving hg hs hV (.inr hk)).first id hid hel
  have hall := hg.ordered.children_nodup s
  have hin : ∀ c ∈ t.children s, t.Inside c s := fun c hc => inside_of_mem hg.ordered hc
  have hquiet : ∀ c ∈ t.children s, (t.kind c).isQuiet = true := fun c hc =>
    SyntaxTree.is_quiet_of_term (by
      have hadmits := hg.admitted hc
      rw [hk] at hadmits
      exact hadmits)
  have hforwards : Forwards t (k0.start t s) (sequence t V s (t.children s) k0) :=
    forwards_each hg (fun c hc => hV c (hin c hc)) (fun c hc => hsteady c (hin c hc) (hquiet c hc))
      (apart_children hg.ordered hall fun _ hc => hc)
      fun c hc => fresh_started hg.ordered hs (hin c hc) .plain
  obtain ⟨x, hx, hreads⟩ := hforwards k0.next rfl
  have hG := grown_sequence hg hs hV (by simp [hk]) hall fun _ hc => hc
  obtain ⟨el, hel, hb⟩ := hG.element_new x (hG.cursor_live x hx).1
  refine ⟨x, el, Reads.walk (k := sequence t V s (t.children s) k0) hreads, ?_, hel, hb⟩
  refine (mem_pending_pended _ _ _ _).2 (.inr ⟨rfl, ?_⟩)
  exact Option.mem_toList.2 hx

end leaving

section settled
variable {T : NodeId}

/-- There is no entry of a handler where there are no handlers. -/
theorem caught_nil (h : t.exceptParts T = []) : (tryCaught t V T k0).2 = [] := by
  rw [tryCaught, h]
  rfl

/-- A `try` statement keeps the edge of a `raise` that is not for its handlers, and that does not
stand before its `finally` clause. -/
theorem Carries.settled (hg : t.Grammatical) (hin : t.Inside r T) (h : Carries t r k0 (tryLast t V T k0).1)
    (hunhandled : t.exceptParts T ≠ [] → ∀ part, t.tryPart T = some part → ¬ t.Below r part)
    (hunguarded : ∀ F, t.finallyPart T = some F → t.Below r F) :
    Carries t r k0 (tryStatement t V T k0) := by
  intro hcut id hid hel
  obtain ⟨x, el, hw, hx, hxel, hb⟩ := h hcut id hid hel
  refine ⟨x, el, hw.later (((Later.refl _).settled _).moved none), ?_, hxel, hb⟩
  refine (mem_pending_settled _ _ _).2 ⟨⟨none, x⟩, hx, ?_⟩
  have hbT := hg.ordered.below_trans hb hin.1
  have hnot : ¬ (Visit.raisedInBody t (t.tryPart T) el = true ∧ (tryCaught t V T k0).2 ≠ []) := by
    rintro ⟨hraised, hhandlers⟩
    have hparts : t.exceptParts T ≠ [] := fun heq => hhandlers (caught_nil heq)
    obtain ⟨part, hpart, hbpart⟩ := below_of_raised hraised
    have hmem := (SyntaxTree.mem_try_part hpart).1
    have hnb := hunhandled hparts part hpart
    rcases hg.ordered.below_total hb hbpart with hrp | hpr
    · exact hnb hrp
    · rcases SyntaxTree.below_iff_eq_or_inside.1 hpr with rfl | hpr
      · exact hnb (t.below_refl _)
      · exact hg.ordered.not_below_of_inside hin
          (hg.ordered.below_of_inside_parent (hg.ordered.parent_of_mem hmem) hpr)
  have hkeep : settle t T (tryCaught t V T k0).2 (tryLast t V T k0).2 (tryLast t V T k0).1 ⟨none, x⟩ =
      keep ⟨none, x⟩ := by
    cases hF : t.finallyPart T with
    | none =>
      have hf : (tryLast t V T k0).2 = none := by
        rw [tryLast, hF]
        rfl
      rw [hf, settle_of_no_finally t hxel hnot]
    | some F =>
      obtain ⟨f, hf, rfl⟩ := last_finally V k0 hF
      rw [hf, settle_of_finally t hxel hbT hnot f, if_neg]
      exact fun h => h.2 (hg.ordered.below_trans hb (hunguarded f.part hF))
  rw [hkeep]
  exact List.mem_singleton.2 rfl

end settled

section visit
variable (hg : t.Grammatical) {T : NodeId} (hk : t.kind r = .raiseExit) (hcatch : t.Catches T r)
  (hunguarded : t.Unguarded T r)
include hg hk hcatch hunguarded

/-- Inside the statement whose handlers are for it, a `raise` is carried on by every visit. -/
theorem carries_visit (depth : Nat) (hrs : t.Below r s) (hsT : t.Inside s T) (hs : Sound t s k) :
    Carries t r k (visit t depth s k) := by
  have hstatement : (t.kind r).isStatement = true := by rw [hk]; rfl
  induction depth generalizing s k with
  | zero =>
    intro hcut id hid hel
    refine absurd ?_ hcut
    rcases eq_next_of_new (k := { k with truncated := s :: k.truncated }) hid with rfl | hid
    · obtain rfl : s = r := Option.some.inj
        ((element_place_next (k := { k with truncated := s :: k.truncated })).symm.trans hel)
      exact List.mem_cons_self
    · exact absurd hid.2 (Nat.not_lt_of_le hid.1)
  | succ depth ih =>
    have hgrows : ∀ c, t.Inside c s → Grows t (visit t depth) c := fun c _ => grows_visit hg depth c
    rcases SyntaxTree.below_iff_eq_or_inside.1 hrs with rfl | hin
    · rw [visit, dispatch, hk]
      exact carries_leaving hg hgrows (fun c _ hq => steady_visit hg depth c hq) hk hs.fresh
    · have hr := ready_followed hg depth hs
      have hvisit : ∀ c ∈ t.followed s, t.Below r c → ∀ k, Sound t c k →
          Carries t r k (visit t depth c k) := fun c hc hrc k' hk' =>
        ih hrc (hg.ordered.inside_of_inside_below (hr.direct c hc).1 hsT.1) hk'
      have hstart : Course t (visit t depth) s (t.followed s) k (t.followed s) k := .start
      by_cases htry : t.kind s = .tryStatement
      · have hplan : t.followed s = (t.tryPart s).toList ++ ((t.elsePart s).toList ++
            (t.exceptParts s ++ (t.finallyPart s).toList)) := by
          rw [SyntaxTree.followed, htry]
        have hlast := Course.tryLast hr hg htry (hplan ▸ hstart)
        rw [visit, dispatch, htry]
        exact (hlast.carries hr hs.sourced hin hstatement hvisit).settled hg hin
          (hcatch.innermost s hsT htry) (hunguarded s hsT hrs htry)
      · exact (Course.dispatch hr hg htry).carries hr hs.sourced hin hstatement hvisit

/-- The statement sends a `raise` in its body to each of its handlers. -/
theorem walk_of_raise {depth : Nat} (hs : Sound t T k0) (hcut : r ∉ (visit t (depth + 1) T k0).truncated)
    (hid : New k0 (visit t (depth + 1) T k0) id)
    (hel : (visit t (depth + 1) T k0).element id = some r) {h : InstructionId}
    (hh : h ∈ (tryCaught t (visit t depth) T k0).2) :
    (visit t (depth + 1) T k0).Walk id h := by
  have htry := hcatch.kind
  obtain ⟨part, hpart, hrpart⟩ := hcatch.body
  have hstatement : (t.kind r).isStatement = true := by rw [hk]; rfl
  have hmem := (SyntaxTree.mem_try_part hpart).1
  have hpartT := inside_of_mem hg.ordered hmem
  have hrT := hg.ordered.inside_of_below_inside hrpart hpartT
  have hr := ready_followed hg depth hs
  have hplan : t.followed T = (t.tryPart T).toList ++ ((t.elsePart T).toList ++
      (t.exceptParts T ++ (t.finallyPart T).toList)) := by
    rw [SyntaxTree.followed, htry]
  have hstart : Course t (visit t depth) T (t.followed T) k0 (t.followed T) k0 := .start
  have hlast := Course.tryLast hr hg htry (hplan ▸ hstart)
  have hcarries := hlast.carries hr hs.sourced hrT hstatement fun c hc hrc k' hk' =>
    carries_visit hg hk hcatch hunguarded depth hrc (hr.direct c hc).1 hk'
  rw [visit, dispatch, htry] at hcut hid hel ⊢
  obtain ⟨x, el, hw, hx, hxel, hb⟩ := hcarries hcut id hid hel
  have hrin : t.Inside r part := by
    refine ⟨hrpart, ?_⟩
    rintro rfl
    rw [(SyntaxTree.mem_try_part hpart).2] at hk
    cases hk
  have hraised : Visit.raisedInBody t (t.tryPart T) el = true := by
    rw [hpart, Visit.raisedInBody, raised_of_below hg.ordered hk hrin hb, Bool.true_and]
    exact (SyntaxTree.is_descendant_of_iff t el part).2 (hg.ordered.below_trans hb hrpart)
  refine (hw.later (((Later.refl _).settled _).moved none)).trans (walk_edge ?_)
  refine (edge_settled _ _ _ _).2 (.inr ⟨⟨none, x⟩, hx, rfl, ?_⟩)
  rw [settle_of_raised t hxel (hg.ordered.below_trans hb hrT.1) hraised (List.ne_nil_of_mem hh)]
  exact hh

end visit
end Sketch
end PythonFlow
