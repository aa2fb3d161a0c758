import PythonFlow.Proofs.Account.Rules

/-!
# The account of a conditional

Between two steps of a conditional nothing that is pending lands on it, so that flow stands at the cursor.
Wherever a condition has come out, a run of the whole conditional may be read, and in a part or in the
`else` clause what this one emits.
-/

set_option autoImplicit false

namespace PythonFlow.Sketch
variable {t : SyntaxTree} {V : Visitor} {s c p : NodeId} {plan R : List NodeId} {k k0 k1 : Sketch}
  {C C0 : Labels} {K : Sequel} {X Y : Set (List NodeId)}

section runs

theorem then_part (hk : t.kind s = .ifStatement) (hp : p ∈ t.ifParts s) :
    Then t (.all (t.body p).toList) K ⊆ Then t (.node s) K := by
  rintro w ⟨w1, o, w2, rfl, hrun, hw⟩
  exact ⟨w1, o, w2, rfl, .part hk hp hrun, hw⟩

theorem then_otherwise (hk : t.kind s = .ifStatement) :
    Then t (.all (t.elsePart s).toList) K ⊆ Then t (.node s) K := by
  rintro w ⟨w1, o, w2, rfl, hrun, hw⟩
  exact ⟨w1, o, w2, rfl, .otherwise hk hrun, hw⟩

end runs

namespace Ledger
variable (hg : t.Grammatical) (hO : Outset t V s plan k0 C0 K)
include hg hO

/-- An instruction of which nothing is read, where flow stands at the cursor only. -/
theorem entered (h : Ledger t V s plan k0 C0 K R k C) (hheld : Held t s k) {el : NodeId}
    {kind : InstructionKind} (hsite : Site t s plan el kind) (hsilent : (t.kind el).isSimple = false)
    (hX : Facing k C X) :
    ∃ C1, Ledger t V s plan k0 C0 K R (k.place t (some el) kind) C1 ∧ Agrees k C C1 ∧
      Held t s (k.place t (some el) kind) ∧ Facing (k.place t (some el) kind) C1 X := by
  obtain ⟨C1, h1, hagrees, hnext⟩ := h.place hO hsite (X := X) fun a ha w hw => by
    rw [mark_other hsilent]
    exact hX a (cursor_of_held hg.ordered hheld (spot_below hsite.spot) ha) hw
  refine ⟨C1, h1, hagrees, held_place hheld _ kind, fun x hx => ?_⟩
  obtain rfl : k.next = x := Option.some.inj hx
  exact hnext ▸ subset_rfl

section part
variable (hk : t.kind s = .ifStatement) (hp : p ∈ t.ifParts s)
include hk hp

/-- The body of a part. Wherever it leaves flow within the part, flow has left the conditional. -/
theorem partBody (h : Ledger t V s plan k0 C0 K ((t.body p).toList ++ R) k C) (hheld : Held t s k)
    (hX : Facing k C (Then t (.node s) K)) :
    ∃ C1, Ledger t V s plan k0 C0 K R (Sketch.partBody t V p k) C1 ∧ Agrees k C C1 ∧
      Facing (Sketch.partBody t V p k) C1 (K .normal) ∧
      ∀ e ∈ (Sketch.partBody t V p k).pending, e.within t p = true → K .normal ⊆ C1 e.source := by
  have ho := hg.ordered
  have hps := (direct_part hg hp).1
  have hsilent : (t.kind ((t.body p).getD p)).isSimple = false := by
    cases hb : t.body p with
    | none => rcases kind_part hp with hk | hk <;> rw [Option.getD_none, hk] <;> rfl
    | some b => rw [Option.getD_some, (part_body hg hp hb).2]; rfl
  obtain ⟨C1, h1, hagrees, hheld1, hf1⟩ := h.entered hg hO hheld
    (Course.part_site hO.ready hg hp h.course) hsilent fun x hx => (then_part hk hp).trans (hX x hx)
  unfold Sketch.partBody
  cases hb : t.body p with
  | none =>
    rw [hb] at h1 hheld1 hf1
    refine ⟨C1, h1, hagrees, fun x hx => (subset_then .nil K).trans (hf1 x hx), fun e he hw => ?_⟩
    have hnot := not_within_of_held ho hheld1 hps he
    rw [hw] at hnot
    cases hnot
  | some b =>
    rw [hb] at h1 hheld1 hf1
    have hdb := (part_body hg hp hb).1
    obtain ⟨C2, h2, hagrees2, hdeparts⟩ := visit (c := b) (J := K) hO h1
      (fun hr => absurd hr (not_refers_of_kind hg (by rw [hk]; rfl))) (fun _ _ _ _ => rfl)
      fun a ha => then_only.trans (hf1 a (cursor_of_held ho hheld1 hdb.1.1 ha))
    have hdrained := held_drained ho hheld1 hdb (h1.course.visited (c := b) hO.ready)
    refine ⟨C2, h2, hagrees.trans hagrees2 (by rw [size_place]; exact Nat.le_succ _),
      fun x hx => hdeparts x (.inl hx), fun e he hw => ?_⟩
    by_cases hwb : e.within t b = true
    · exact hdeparts _ (departs_of_exit ho ((mem_exits _ t b _).2
        (.inr ⟨e, (mem_inner _ t e b).2 ⟨he, hwb⟩, rfl⟩)))
    · have hmem := (mem_pending_drained _ t e b).2 ⟨he, by simpa using hwb⟩
      have hnot := not_within_of_held ho hdrained hps hmem
      rw [hw] at hnot
      cases hnot

/-- Where the body leaves flow it leaves the conditional. -/
theorem partDone (h : Ledger t V s plan k0 C0 K ((t.body p).toList ++ R) k C) (hheld : Held t s k)
    (hX : Facing k C (Then t (.node s) K)) :
    ∃ C1, Ledger t V s plan k0 C0 K R (Sketch.partDone t V s p k) C1 ∧ Agrees k C C1 ∧
      Held t s (Sketch.partDone t V s p k) := by
  obtain ⟨C1, h1, hagrees, hf1, hwithin⟩ := h.partBody hg hO hk hp hheld hX
  have h2 := h1.rescoped (direct_part hg hp).1.1 (h1.course.above_rest hO.ready) (fun _ => hwithin) fun hin =>
    absurd rfl (hin s rfl).2
  exact ⟨C1, h2.parked hO (h1.course.cursor_list_lt hO.ready) fun a ha => hf1 a (Option.mem_toList.1 ha),
    hagrees, Course.held_part_done hO.ready hg hp h.course hheld⟩

/-- A part of a conditional. Where its condition has come out, a run of the conditional may be read. -/
theorem part (first : Bool) {head : Option InstructionId} (last : Option NodeId)
    (hhead : ∀ x, head = some x → x.index < k.size)
    (h : Ledger t V s plan k0 C0 K (t.followedInPart p ++ R) k C) (hheld : Held t s k)
    (hX : ∀ x, (if first then k.cursor else head) = some x → Then t (.node s) K ⊆ C x) :
    ∃ C1, Ledger t V s plan k0 C0 K R (Sketch.partDone t V s p (asked t V first head last p k)) C1 ∧
      Held t s (Sketch.partDone t V s p (asked t V first head last p k)) ∧
      ∀ x, (asked t V first head last p k).cursor = some x → Then t (.node s) K ⊆ C1 x := by
  rw [SyntaxTree.followedInPart, List.append_assoc] at h
  have hentry : ∃ C1, Ledger t V s plan k0 C0 K ((t.condition p).toList ++ ((t.body p).toList ++ R))
      (partEntry t first head last p k) C1 ∧ Held t s (partEntry t first head last p k) ∧
        Facing (partEntry t first head last p k) C1 (Then t (.node s) K) := by
    cases first with
    | true => exact ⟨C, h, hheld, hX⟩
    | false =>
      obtain ⟨C1, h1, -, hheld1, hf1⟩ := (h.moved hhead).entered (k := k.moved head) hg hO hheld
        (site_child hO.ready (.conditional last false) (SyntaxTree.mem_if_parts.1 hp).1 (plain_part hp))
        (by rcases kind_part hp with hk | hk <;> rw [hk] <;> rfl) hX
      exact ⟨C1, h1, hheld1, hf1⟩
  obtain ⟨C1, h1, hheld1, hf1⟩ := hentry
  obtain ⟨C2, h2, -, hheld2, hf2⟩ := h1.conditioned hg hO
    (fun c hc => ⟨(part_condition hg hp hc).1, SyntaxTree.is_quiet_of_term
      (hg.term_condition (or_assoc.1 (.inl (kind_part hp))) hc)⟩) hheld1 hf1
  obtain ⟨C3, h3, hagrees, hheld3⟩ := h2.partDone hg hO hk hp hheld2 hf2
  exact ⟨C3, h3, hheld3, fun x hx => hagrees.subset (h2.course.cursor_lt hO.ready x hx) (hf2 x hx)⟩

end part

variable (hk : t.kind s = .ifStatement)
include hk

/-- The parts of a conditional, by induction on those that are left. -/
theorem parts (ps : List NodeId) (hps : ∀ p ∈ ps, p ∈ t.ifParts s) (first : Bool)
    {head : Option InstructionId} (last : Option NodeId)
    (hhead : ∀ x, head = some x → x.index < k.size ∧ Then t (.node s) K ⊆ C x)
    (hcursor : first = true → Facing k C (Then t (.node s) K))
    (h : Ledger t V s plan k0 C0 K (ps.flatMap t.followedInPart ++ R) k C) (hheld : Held t s k) :
    ∃ C1, Ledger t V s plan k0 C0 K R (ifParts t V s first head last ps k).1 C1 ∧
      Held t s (ifParts t V s first head last ps k).1 ∧
      ∀ x, (ifParts t V s first head last ps k).2.1 = some x →
        x.index < (ifParts t V s first head last ps k).1.size ∧ Then t (.node s) K ⊆ C1 x := by
  induction ps generalizing k C first head last with
  | nil => exact ⟨C, h, hheld, hhead⟩
  | cons p ps ih =>
    have hp := hps p (by simp)
    rw [List.flatMap_cons, List.append_assoc] at h
    have hlt := fun x hx => (hhead x hx).1
    obtain ⟨C1, h1, hheld1, hX1⟩ := h.part hg hO hk hp first last hlt hheld fun x hx => by
      cases first with
      | true => exact hcursor rfl x hx
      | false => exact (hhead x hx).2
    exact ih (fun q hq => hps q (by simp [hq])) false (t.condition p)
      (fun x hx => ⟨(Course.part hO.ready hg hp first last hlt h.course).2 x hx, hX1 x hx⟩) (by simp) h1 hheld1

theorem conditional
    (harr : ∀ a ∈ k0.arrivals t (some s), Then t (.node s) K ⊆ C0 a)
    (h : Ledger t V s plan k0 C0 K ((t.ifParts s).flatMap t.followedInPart ++ (t.elsePart s).toList) k0 C0) :
    Accounted t s k0 C0 K (Sketch.conditional t V s k0) := by
  have ho := hg.ordered
  have hmark : mark t s = [] := mark_other (by rw [hk]; rfl)
  obtain ⟨C1, h1, -, hf1⟩ := h.started (X := Then t (.node s) K) hO harr .plain (by simp) fun w hw => by
    rwa [hmark]
  have hhead : ∀ x, some k0.next = some x → x.index < (k0.start t s).size ∧ Then t (.node s) K ⊆ C1 x :=
    fun x hx => ⟨h1.course.cursor_lt hO.ready x hx, hf1 x hx⟩
  obtain ⟨C2, h2, hheld, hX⟩ := h1.parts hg hO hk (t.ifParts s) (fun _ hp => hp) true none hhead
    (fun _ => hf1) (held_start k0 .plain)
  have hmoved := h2.moved fun x hx => (hX x hx).1
  unfold Sketch.conditional ifElse
  dsimp only
  cases hpart : t.elsePart s with
  | none =>
    rw [hpart] at hmoved
    have h3 := hmoved.parked hO (fun a ha => (hX a (Option.mem_toList.1 ha)).1) fun a ha => by
      refine (subset_then ?_ K).trans (hX a (Option.mem_toList.1 ha)).2
      exact .otherwise hk (by rw [hpart]; exact .nil)
    exact h3.stopped.done (poised_of_held (held_pended hheld (t.below_refl s) _) (facing_none _ _ _))
  | some part =>
    rw [hpart] at hmoved
    obtain ⟨hmem, hkind⟩ := SyntaxTree.mem_else_part hpart
    obtain ⟨C3, h3, -, hheld3, hf3⟩ := entered
      (k := (ifParts t V s true (some k0.next) none (t.ifParts s) (k0.start t s)).1.moved _)
      (X := Then t (.node part) K) hg hO hmoved hheld
      (site_planned hO.ready (.conditional _ false) hmoved.course.head_mem (else_part hg hpart).2) (by rw [hkind]; rfl)
      fun x hx => by
        refine Set.Subset.trans ?_ (hX x hx).2
        have hother := then_otherwise (K := K) hk
        rw [hpart] at hother
        exact then_only.trans hother
    obtain ⟨C4, h4, -, hdeparts⟩ := visit (c := part) (J := K) hO h3
      (fun hr => absurd hr (not_refers_of_kind hg (by rw [hk]; rfl))) (fun _ _ _ _ => rfl)
      fun a ha => hf3 a (cursor_of_held ho hheld3 (inside_of_mem ho hmem).1 ha)
    have hp : Poised t s _ C4 (K .normal) := fun x hx => hdeparts x (hx.departs_child ho hmem)
    have h5 := h4.parked hO (h4.course.cursor_list_lt hO.ready) fun a ha =>
      hp a (.inl (Option.mem_toList.1 ha))
    exact h5.stopped.done ((hp.parked _).moved (by simp))

end Ledger
end PythonFlow.Sketch
