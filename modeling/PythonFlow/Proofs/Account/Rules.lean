import PythonFlow.Proofs.Account.Ledger
import PythonFlow.Proofs.Trace.Rules

/-!
# Accounts of the simple statements

Everything that is made for a term has one label, what may be read after it. A node with an instruction of
its own may be read where flow arrives, and then what the nodes below it emit, one after the other.
-/

set_option autoImplicit false

namespace PythonFlow.Sketch
variable {t : SyntaxTree} {V : Visitor} {s c : NodeId} {plan R : List NodeId} {k k0 k1 : Sketch}
  {C C0 : Labels} {K : Sequel} {X Y : Set (List NodeId)}

section refers
variable (hg : t.Grammatical)
include hg

theorem not_refers_of_kind (hs : (t.kind s).isLoop = false) : ¬ Refers t c s := by
  rintro ⟨x, -, -, hl⟩
  rw [(hg.ordered.enclosing_loop_above hl).2.1] at hs
  cases hs

theorem not_refers_of_quiet (hq : (t.kind c).isQuiet = true) : ¬ Refers t c s := by
  rintro ⟨x, hx, hk, -⟩
  have hquiet := hg.quiet_below hq hx
  rcases hk with hk | hk <;> rw [hk] at hquiet <;> cases hquiet

theorem not_refers_of_else (hc : t.elsePart s = some c) : ¬ Refers t c s := by
  rintro ⟨x, hx, -, hl⟩
  obtain ⟨hmem, hkind⟩ := SyntaxTree.mem_else_part hc
  exact hg.ordered.enclosing_loop_in_else (hg.ordered.parent_of_mem hmem) hkind hx hl

end refers

section quiet
variable (hg : t.Grammatical) {n : NodeId} (hq : (t.kind n).isQuiet = true)
include hg hq

/-- Nothing is read where an instruction was made for a term. -/
theorem shown_quiet {x : InstructionId} {el : NodeId} (hel : k.element x = some el) (hb : t.Below el n) :
    k.shown t x = [] := by
  rw [shown_some hel, mark_other (not_simple_of_quiet (hg.quiet_below hq hb))]

/-- What is pending since the visit of a term has its scope within it. -/
theorem scope_of_quiet {o : Option NodeId} (h : Scoped t n o) : ∃ sc, o = some sc ∧ t.Below sc n := by
  cases o with
  | none =>
    obtain ⟨b, hb, hk⟩ := h
    have hquiet := hg.quiet_below hq hb
    rcases hk with hk | hk <;> rw [hk] at hquiet <;> cases hquiet
  | some sc =>
    rcases h with hb | ⟨-, b, hb, hk, -⟩
    · exact ⟨sc, rfl, hb⟩
    · have hquiet := hg.quiet_below hq hb
      rw [hk] at hquiet
      cases hquiet

theorem account_quiet (hs : Begun t n k) (hacc : Account t k C) (hG : Grown t n k k1)
    (harr : ∀ a ∈ k.arrivals t (some n), Y ⊆ C a) :
    Account t k1 (fun x => if x.index < k.size then C x else Y) := by
  have hold : ∀ {x : InstructionId}, x.index < k.size →
      (if x.index < k.size then C x else Y) = C x := fun hx => if_pos hx
  have hnew : ∀ {x : InstructionId}, New k k1 x → (if x.index < k.size then C x else Y) = Y :=
    fun hx => if_neg (Nat.not_lt_of_le hx.1)
  -- Nothing is read at a new instruction, so that one label does for all of them.
  have hread : ∀ {b : InstructionId}, New k k1 b → ∀ w, k1.shown t b ++ w = w := by
    intro b hb w
    obtain ⟨el, hel, hbelow⟩ := hG.element_new b hb
    rw [shown_quiet hg hq hel hbelow, List.nil_append]
  have hnext : New k k1 k.next := ⟨Nat.le_refl _, hG.size_lt⟩
  constructor
  · intro a b hab
    rcases hG.origin a b hab with hab | ⟨ha, rfl⟩ | ⟨ha, hb, -⟩ | ⟨ha, c, l, hc, hk, -⟩
    · obtain ⟨ha, hb⟩ := hacc.ranged a b hab
      exact ⟨Nat.lt_trans ha hG.size_lt, Nat.lt_trans hb hG.size_lt⟩
    · exact ⟨Nat.lt_trans (loose_range hs.toSound (loose_of_arrival ha)) hG.size_lt, hnext.2⟩
    · exact ⟨ha.2, hb.2⟩
    · obtain ⟨el, hel, hb⟩ := hG.element_new a ha
      obtain rfl := Option.some.inj (hc.symm.trans hel)
      have hquiet := hg.quiet_below hq hb
      rw [hk] at hquiet
      cases hquiet
  · intro a b hab w hw
    rcases hG.origin a b hab with hab | ⟨ha, rfl⟩ | ⟨ha, hb, -⟩ | ⟨ha, c, l, hc, hk, -⟩
    · obtain ⟨ha, hb⟩ := hacc.ranged a b hab
      rw [hold hb] at hw
      rw [hold ha, shown_later hG.later hb]
      exact hacc.reads a b hab w hw
    · rw [hnew hnext] at hw
      rw [hold (loose_range hs.toSound (loose_of_arrival ha)), hread hnext]
      exact harr a ha hw
    · rw [hnew hb] at hw
      rw [hnew ha, hread hb]
      exact hw
    · obtain ⟨el, hel, hb⟩ := hG.element_new a ha
      obtain rfl := Option.some.inj (hc.symm.trans hel)
      have hquiet := hg.quiet_below hq hb
      rw [hk] at hquiet
      cases hquiet

theorem accounts_quiet (depth : Nat) : Accounts t (visit t depth) n := by
  intro k C K hs hacc _ harr
  have ho := hg.ordered
  have harr' : ∀ a ∈ k.arrivals t (some n), K .normal ⊆ C a := fun a ha =>
    (subset_then (.quiet hq) K).trans (harr a ha)
  have hscope : ∀ {sc x}, k.Pends (some sc) x → ¬ t.Inside n sc → ¬ t.Below n sc := by
    intro sc x hx hin hb
    rcases SyntaxTree.below_iff_eq_or_inside.1 hb with rfl | hb
    · exact hs.fresh.unscoped _ hx n rfl (t.below_refl n)
    · exact hin hb
  rcases grows_visit hg depth n k hs.fresh with heq | ⟨hG, -⟩
  · rw [heq]
    refine ⟨C, .refl k C, hacc, fun x hx => harr' x ?_, fun o x _ _ hnew => ?_⟩
    · refine (mem_arrivals k t (some n) x).2 (hx.imp_right fun ⟨sc, hx, hin⟩ => ?_)
      exact ⟨⟨some sc, x⟩, hx, lands_iff.2 ⟨sc, rfl, hscope hx hin⟩, rfl⟩
    · exact absurd hnew.2 (Nat.not_lt_of_le hnew.1)
  · refine ⟨_, fun x hx => if_pos hx, account_quiet hg hq hs hacc hG harr', fun x hx => ?_,
      fun o x ho' hx hnew => ?_⟩
    · have hnew : New k (visit t depth n k) x := by
        rcases hx with hx | ⟨sc, hx, hin⟩
        · exact (hG.cursor_live x hx).1
        · rcases hG.waits _ hx with ⟨hold, hstays⟩ | ⟨hlive, -⟩
          · exact absurd (stays_iff.1 hstays sc rfl) (hscope hold hin)
          · exact hlive.1
      exact (if_neg (Nat.not_lt_of_le hnew.1)).symm ▸ subset_rfl
    · rcases hG.waits _ hx with ⟨hold, -⟩ | ⟨-, hscoped⟩
      · exact absurd (hs.fresh.ranged _ hold) (Nat.not_lt_of_le hnew.1)
      · obtain ⟨sc, rfl, hb⟩ := scope_of_quiet hg hq hscoped
        exact absurd hb (ho.not_below_of_inside (ho' sc rfl))

end quiet

/-- Where a `return` or `raise` has left its node, nothing waits for what follows the node. -/
theorem not_departs_left (hG : Grown t s k0 k) (l : List InstructionId) (x : InstructionId) :
    ¬ Departs t s (((k.rescoped t s none).pended none l).moved none) x := by
  rintro (hx | ⟨sc, hx, hin⟩)
  · cases hx
  rcases (mem_pending_pended _ _ _ _).1 hx with hx | ⟨heq, -⟩
  · obtain ⟨e, he, heq⟩ := (mem_pending_rescoped _ t _ s none).1 hx
    unfold rescope at heq
    split at heq
    · cases heq
    · next hw =>
      obtain rfl := heq
      refine absurd (within_iff.2 ⟨sc, rfl, ?_⟩) hw
      rcases hG.waits _ he with ⟨-, hstays⟩ | ⟨-, hb | ⟨hin', -⟩⟩
      · rcases SyntaxTree.below_iff_eq_or_inside.1 (stays_iff.1 hstays sc rfl) with rfl | hin'
        · exact t.below_refl s
        · exact absurd hin' hin
      · exact hb
      · exact absurd hin' hin
  · cases heq

namespace Ledger

section steps
variable (hg : t.Grammatical) (hO : Outset t V s plan k0 C0 K)
include hg hO

/-- A term is passed over. -/
theorem quiet (h : Ledger t V s plan k0 C0 K (c :: R) k C) (hq : (t.kind c).isQuiet = true)
    (hY : ∀ a ∈ k.arrivals t (some c), Y ⊆ C a) :
    ∃ C1, Ledger t V s plan k0 C0 K R (V c k) C1 ∧ Agrees k C C1 ∧
      ∀ x, Departs t c (V c k) x → Y ⊆ C1 x :=
  h.visit hO (fun hr => absurd hr (not_refers_of_quiet hg hq)) (passes_after s K Y)
    fun a ha => (then_quiet hq).trans (hY a ha)

/-- Children to which no jump to `s` belongs, one after the other. -/
theorem each {cs : List NodeId} (hcs : ∀ c ∈ cs, c ∈ t.children s)
    (hno : ∀ c ∈ cs, ¬ Refers t c s) (h : Ledger t V s plan k0 C0 K (cs ++ R) k C)
    (hp : Poised t s k C (Then t (.all cs) (K.after Y))) :
    ∃ C1, Ledger t V s plan k0 C0 K R (Sketch.each V cs k) C1 ∧ Agrees k C C1 ∧
      Poised t s (Sketch.each V cs k) C1 Y := by
  induction cs generalizing k C with
  | nil => exact ⟨C, h, .refl k C, fun x hx => (subset_then .nil (K.after Y)).trans (hp x hx)⟩
  | cons c cs ih =>
    have ho := hg.ordered
    have hc := hcs c (by simp)
    -- After the first node the rest of the list may be run, after any other outcome the same as before.
    have hpass : Passes s K ((K.after Y).after (Then t (.all cs) (K.after Y))) := fun o h1 h2 h3 =>
      (passes_after s (K.after Y) _ o h1 h2 h3).trans (passes_after s K Y o h1 h2 h3)
    obtain ⟨C1, h1, hagrees, hdeparts⟩ := visit hO h (fun hr => absurd hr (hno c (by simp))) hpass fun a ha =>
        then_cons.trans (hp a (stands_of_arrival_below ho (inside_of_mem ho hc).1 ha))
    obtain ⟨C2, h2, hagrees', hp2⟩ := ih (fun d hd => hcs d (by simp [hd]))
      (fun d hd => hno d (by simp [hd])) h1 fun x hx => hdeparts x (hx.departs_child ho hc)
    exact ⟨C2, h2, hagrees.trans hagrees' (h.course.visited hO.ready).later.size_le, hp2⟩

theorem each_quiet {cs : List NodeId} (hcs : ∀ c ∈ cs, c ∈ t.children s)
    (hq : ∀ c ∈ cs, (t.kind c).isQuiet = true)
    (h : Ledger t V s plan k0 C0 K (cs ++ R) k C) (hp : Poised t s k C Y) :
    ∃ C1, Ledger t V s plan k0 C0 K R (Sketch.each V cs k) C1 ∧ Agrees k C C1 ∧
      Poised t s (Sketch.each V cs k) C1 Y :=
  h.each hg hO hcs (fun c hc => not_refers_of_quiet hg (hq c hc)) fun x hx =>
    (then_all_quiet hq).trans (hp x hx)

/-- A condition, where flow stands at the cursor only. -/
theorem conditioned {part : Option NodeId}
    (hpart : ∀ c, part = some c → Direct t s c ∧ (t.kind c).isQuiet = true)
    (h : Ledger t V s plan k0 C0 K (part.toList ++ R) k C) (hheld : Held t s k) (hX : Facing k C X) :
    ∃ C1, Ledger t V s plan k0 C0 K R (Sketch.conditioned t V part k) C1 ∧ Agrees k C C1 ∧
      Held t s (Sketch.conditioned t V part k) ∧ Facing (Sketch.conditioned t V part k) C1 X := by
  have ho := hg.ordered
  cases part with
  | none => exact ⟨C, h, .refl k C, hheld, hX⟩
  | some c =>
    obtain ⟨hd, hq⟩ := hpart c rfl
    obtain ⟨C1, h1, hagrees, hdeparts⟩ := quiet (c := c) hg hO h hq fun a ha =>
      hX a (cursor_of_held ho hheld hd.1.1 ha)
    have hv := h.course.visited (c := c) hO.ready
    have hdrained : Held t s ((V c k).drained t c) := held_drained ho hheld hd hv
    have hinner : ∀ a ∈ ((V c k).inner t c).map (·.source), Departs t c (V c k) a := by
      intro a ha
      obtain ⟨e, he, rfl⟩ := List.mem_map.1 ha
      exact departs_of_exit ho ((mem_exits _ t c _).2 (.inr ⟨e, he, rfl⟩))
    have hmade := h1.course.inner_lt hO.ready c
    show ∃ C1, Ledger t V s plan k0 C0 K R (Sketch.joined t c (V c k)) C1 ∧ Agrees k C C1 ∧
      Held t s (Sketch.joined t c (V c k)) ∧ Facing (Sketch.joined t c (V c k)) C1 X
    unfold Sketch.joined
    split
    · exact ⟨C1, h1.drained hd.1.1, hagrees, hdrained, fun x hx => hdeparts x (.inl hx)⟩
    · have hmem := h.course.head_mem (c := c)
      have hsite : Site t s plan c .plain :=
        site_planned hO.ready _ hmem (SyntaxTree.not_statement_of_quiet hq)
      have hmark : mark t c = [] := mark_other (not_simple_of_quiet hq)
      obtain ⟨C2, h2, hagrees', hnext⟩ := (h1.drained hd.1.1).place hO hsite (X := X) fun a ha w hw => by
        rw [hmark]
        exact hdeparts a (.inl (cursor_of_held (k := (V c k).drained t c) ho hdrained hd.1.1 ha)) hw
      refine ⟨C2, h2.linked ⟨c, element_place_next, .inr hmem⟩ (lt_place (k := (V c k).drained t c) hmade _ _)
        (fun a ha => .inl (hmade a ha)) fun a ha w hw => ?_, hagrees.trans hagrees' hv.later.size_le,
        held_place hdrained (some c) .plain, fun x hx => ?_⟩
      · have hshown : (((V c k).drained t c).place t (some c) .plain).shown t (V c k).next = [] :=
          (shown_some element_place_next).trans hmark
        rw [hshown, List.nil_append, hagrees' a (hmade a ha)]
        exact hdeparts a (hinner a ha) (hnext ▸ hw)
      · obtain rfl : (V c k).next = x := Option.some.inj hx
        exact hnext ▸ subset_rfl

end steps

section rules
variable (hg : t.Grammatical) (hO : Outset t V s plan k0 C0 K)
  (harr : ∀ a ∈ k0.arrivals t (some s), Then t (.node s) K ⊆ C0 a)
include hO harr

/-- The instruction with which a rule begins, and what may be read from there on. -/
theorem started (h : Ledger t V s plan k0 C0 K R k0 C0) (kind : InstructionKind)
    (hkind : ∀ co o, kind ≠ .conditional co o)
    (hX : ∀ w ∈ X, mark t s ++ w ∈ Then t (.node s) K) :
    ∃ C1, Ledger t V s plan k0 C0 K R (k0.place t (some s) kind) C1 ∧ C1 k0.next = X ∧
      Facing (k0.place t (some s) kind) C1 X := by
  obtain ⟨C1, h1, -, hnext⟩ := h.place hO (site_self hkind) fun a ha w hw => harr a ha (hX w hw)
  refine ⟨C1, h1, hnext, fun x hx => ?_⟩
  obtain rfl : k0.next = x := Option.some.inj hx
  exact hnext ▸ subset_rfl

theorem definition (h : Ledger t V s plan k0 C0 K [] k0 C0)
    (hk : t.kind s = .functionDef ∨ t.kind s = .classDef) :
    Accounted t s k0 C0 K (Sketch.definition t s k0) := by
  have hX : ∀ w ∈ K .normal, mark t s ++ w ∈ Then t (.node s) K := by
    intro w hw
    rw [mark_simple (by rcases hk with hk | hk <;> rw [hk] <;> rfl)]
    exact ⟨[s], .normal, w, rfl, .binding (.inr (.inr hk)), hw⟩
  unfold Sketch.definition
  split
  · obtain ⟨C1, h1, -, hf⟩ := h.started hO harr (.write _) (by simp) hX
    exact h1.done (poised_of_held (held_start k0 _) hf)
  · obtain ⟨C1, h1, -, hf⟩ := h.started hO harr .plain (by simp) hX
    exact h1.done (poised_of_held (held_start k0 _) hf)

include hg

/-- A node and then children of it. -/
theorem sequence {cs : List NodeId} (h : Ledger t V s plan k0 C0 K cs k0 C0)
    (hcs : ∀ c ∈ cs, c ∈ t.children s) (hloop : (t.kind s).isLoop = false)
    (hX : ∀ w ∈ Then t (.all cs) K, mark t s ++ w ∈ Then t (.node s) K) :
    Accounted t s k0 C0 K (Sketch.sequence t V s cs k0) := by
  obtain ⟨C1, h1, -, hf⟩ := h.started hO harr .plain (by simp) hX
  have hp := poised_of_held (held_start k0 .plain) hf
  obtain ⟨C2, h2, -, hp2⟩ := each (R := []) (Y := K .normal) hg hO hcs
    (fun _ _ => not_refers_of_kind hg hloop) (by rwa [List.append_nil]) (by rwa [K.after_self])
  exact h2.done hp2

/-- The children of a suite, where flow arrives at it. -/
theorem suite (h : Ledger t V s plan k0 C0 K (t.children s) k0 C0) (hk : (t.kind s).isSuite = true) :
    Accounted t s k0 C0 K (Sketch.each V (t.children s) k0) := by
  have hloop : (t.kind s).isLoop = false := SyntaxKind.not_loop_of_suite hk
  have hp : Poised t s k0 C0 (Then t (.all (t.children s)) K) := by
    intro x hx
    refine Set.Subset.trans ?_ (harr x ((mem_arrivals k0 t (some s) x).2 (hx.imp_right ?_)))
    · rintro w ⟨w1, o, w2, rfl, hrun, hw⟩
      exact ⟨w1, o, w2, rfl, .suite hk hrun, hw⟩
    · rintro ⟨sc, hx, hb⟩
      exact ⟨⟨some sc, x⟩, hx, lands_iff.2 ⟨sc, rfl, hb⟩, rfl⟩
  obtain ⟨C1, h1, -, hp1⟩ := each (R := []) (Y := K .normal) hg hO (fun _ hc => hc)
    (fun _ _ => not_refers_of_kind hg hloop) (by rwa [List.append_nil]) (by rwa [K.after_self])
  exact h1.done hp1

theorem breakJump (h : Ledger t V s plan k0 C0 K [] k0 C0) (hk : t.kind s = .breakJump) :
    Accounted t s k0 C0 K (Sketch.breakJump t s k0) := by
  have hmark : mark t s = [s] := mark_simple (by rw [hk]; rfl)
  unfold Sketch.breakJump
  cases hl : t.enclosingLoop s with
  | none =>
    obtain ⟨C1, h1, -, hf⟩ := h.started (X := K .normal) hO harr .plain (by simp) fun w hw =>
      hmark ▸ ⟨[s], .normal, w, rfl, .astray (.inl hk) hl, hw⟩
    exact h1.done (poised_of_held (held_start k0 _) hf)
  | some l =>
    have hin := (hg.ordered.enclosing_loop_above hl).1
    obtain ⟨C1, h1, hnext, -⟩ := h.started (X := K (.broke l)) hO harr .plain (by simp) fun w hw =>
      hmark ▸ ⟨[s], .broke l, w, rfl, .broke hk hl, hw⟩
    have h2 := (h1.pended (o := some l) (l := [k0.next]) (by simp) (next_list_lt t k0 (some s) .plain)
      (fun heq => absurd (Option.some.inj heq).symm hin.2) fun _ a ha => by
        rw [List.mem_singleton.1 ha, hnext]
        exact subset_rfl).stopped
    exact h2.done (poised_of_held (held_pended (held_start k0 .plain) hin.1 _) (facing_none _ _ _))

theorem continueJump (h : Ledger t V s plan k0 C0 K [] k0 C0) (hk : t.kind s = .continueJump) :
    Accounted t s k0 C0 K (Sketch.continueJump t s k0) := by
  have ho := hg.ordered
  have hmark : mark t s = [s] := mark_simple (by rw [hk]; rfl)
  unfold Sketch.continueJump
  cases hl : t.enclosingLoop s with
  | none =>
    obtain ⟨C1, h1, -, hf⟩ := h.started (X := K .normal) hO harr .plain (by simp) fun w hw =>
      hmark ▸ ⟨[s], .normal, w, rfl, .astray (.inr hk) hl, hw⟩
    exact h1.done (poised_of_held (held_start k0 _) hf)
  | some l =>
    obtain ⟨hin, hloop, -⟩ := ho.enclosing_loop_above hl
    have hhas := hO.begun.headed s l (t.below_refl s) hk hl hin
    rw [Option.bind_some, Sketch.start, latest_started hin]
    cases hlatest : k0.latest l with
    | none => exact absurd hhas (not_has_of_latest hlatest)
    | some header =>
      obtain ⟨hmade, hel⟩ := latest_some hlatest
      obtain ⟨l', hel', hheader⟩ := hO.resumes.headers s l header (t.below_refl s) hk hl hin hlatest
      obtain rfl := Option.some.inj (hel.symm.trans hel')
      obtain ⟨C1, h1, hnext, -⟩ := h.started (X := K (.continued l)) hO harr .plain (by simp) fun w hw =>
        hmark ▸ ⟨[s], .continued l, w, rfl, .continued hk hl, hw⟩
      have hel1 : (k0.place t (some s) .plain).element header = some l :=
        (element_place_of_lt hmade).trans hel
      have hsimple : (t.kind l).isSimple = false := by
        rcases SyntaxTree.is_loop_iff.1 hloop with hk | hk <;> rw [hk] <;> rfl
      have h2 := (h1.linked (l := [k0.next]) ⟨l, hel1, .inl hloop⟩
        (next_list_lt t k0 (some s) .plain)
        (fun a ha => by
          rw [List.mem_singleton.1 ha]
          exact .inr ⟨l, s, hloop, ⟨header, hel1⟩, element_place_next, hin, .inl hel1⟩)
        fun a ha w hw => by
          rw [List.mem_singleton.1 ha, hnext, shown_some hel1, mark_other hsimple]
          exact hheader (h1.agrees header hmade ▸ hw)).stopped
      exact h2.done (poised_of_held (held_start k0 .plain) (facing_none _ _ _))

end rules

/-- A `return` or `raise`. Its node is never left by the normal outcome, so that what may be read after it
stands for what may be read after the owner has been left. -/
theorem leaving (hg : t.Grammatical) (hO : Outset t V s (t.children s) k0 C0 K) (hacc : Account t k0 C0)
    (harr : ∀ a ∈ k0.arrivals t (some s), Then t (.node s) K ⊆ C0 a)
    (hk : t.kind s = .returnExit ∨ t.kind s = .raiseExit) :
    Accounted t s k0 C0 K (Sketch.leaving t V s k0) := by
  have ho := hg.ordered
  have hmark : mark t s = [s] := mark_simple (by rcases hk with hk | hk <;> rw [hk] <;> rfl)
  have hX : ∀ w ∈ K .returned, mark t s ++ w ∈ Then t (.node s) K := by
    intro w hw
    rw [hmark]
    rcases hk with hk | hk
    · exact ⟨[s], .returned, w, rfl, .exit hk, hw⟩
    · exact ⟨[s], .raised s, w, rfl, .raise hk, hO.resumes.raised s hw⟩
  have hquiet : ∀ c ∈ t.children s, (t.kind c).isQuiet = true := fun c hc =>
    SyntaxTree.is_quiet_of_term (by
      have hadmits := hg.admitted hc
      rcases hk with hk | hk <;> rw [hk] at hadmits <;> exact hadmits)
  have hO' : Outset t V s (t.children s) k0 C0 (K.after (K .returned)) :=
    ⟨hO.ready, hO.begun, hO.resumes.after _, hO.visits⟩
  have hsite : Site t s (t.children s) s .plain := site_self (by simp)
  obtain ⟨C1, h1, -, hnext⟩ := (Ledger.start hO' hacc).place hO' hsite fun a ha w hw => harr a ha (hX w hw)
  have hf : Facing (k0.start t s) C1 (K .returned) := fun x hx => by
    obtain rfl : k0.next = x := Option.some.inj hx
    exact hnext ▸ subset_rfl
  obtain ⟨C2, h2, -, hp⟩ := each_quiet (R := []) hg hO' (fun _ hc => hc) hquiet
    (by rwa [List.append_nil]) (poised_of_held (held_start k0 .plain) hf)
  have hwithin : ∀ e ∈ (Sketch.sequence t V s (t.children s) k0).pending, e.within t s = true →
      K .returned ⊆ C2 e.source := by
    intro e he hw
    obtain ⟨sc, hsc, hb⟩ := within_iff.1 hw
    have hx : (Sketch.sequence t V s (t.children s) k0).Pends (some sc) e.source := by
      rw [Pends, ← hsc]
      exact he
    by_cases heq : sc = s
    · exact h2.own e.source (heq ▸ hx)
    · exact hp e.source (.inr ⟨sc, hx, fun hs => heq (ho.below_antisymm hb hs)⟩)
  have h3 := h2.rescoped (t.below_refl s) (o := none) (by simp) (by simp) fun _ => hwithin
  have h4 := (h3.pended (o := none) (by simp) (h3.course.cursor_list_lt hO.ready) (by simp) fun _ a ha =>
    hp a (.inl (Option.mem_toList.1 ha))).stopped
  have hG : Grown t s k0 (Sketch.sequence t V s (t.children s) k0) :=
    grown_sequence hg hO.begun.fresh hO.ready.grows (by rcases hk with hk | hk <;> simp [hk])
      (ho.children_nodup s) fun _ hc => hc
  refine ⟨C2, h4.agrees, h4.toAccount, fun x hx => absurd hx (not_departs_left hG _ x),
    fun o x ho' hx hnew => ?_⟩
  rw [← K.beyond_after (K .returned)]
  exact h4.left o x ho' hx hnew

end Ledger
end PythonFlow.Sketch
