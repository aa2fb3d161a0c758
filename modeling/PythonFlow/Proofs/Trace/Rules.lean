import PythonFlow.Proofs.Reach.Clauses
import PythonFlow.Proofs.Trace.Ended

/-!
# Runs of the simple statements

A term is passed without anything being read. Where a rule begins with an instruction for its node, a
walk reads the node and then what the nodes below it read, one after the other.
-/

set_option autoImplicit false

namespace PythonFlow.Sketch
variable {t : SyntaxTree} {s : NodeId} {V : Visitor} {k k0 : Sketch} {a : InstructionId}
  {w : List NodeId} {o : Outcome}

section quiet
variable (hg : t.Grammatical) (hq : (t.kind s).isQuiet = true)
include hg hq

theorem free_of_quiet (hun : Unraised t s) {x : InstructionId} {el : NodeId} (hel : k.element x = some el)
    (hb : t.Below el s) : Free t k x where
  made := lt_size_of_element hel
  free := by
    intro y r hy hr hyr
    obtain rfl := Option.some.inj (hel.symm.trans hy)
    rcases hg.ordered.below_total hb hyr with hsr | hrs
    · refine hun.not_below ?_ hr hsr
      intro hk
      rw [hk] at hq
      cases hq
    · have hquiet := hg.quiet_below hq hrs
      rw [hr] at hquiet
      cases hquiet

/-- A walk among what is new below a term reads nothing. -/
theorem reads_quiet {k' : Sketch} (hG : Framed t s k k') (hs : Sound t s k) {x y : InstructionId}
    (hx : New k k' x) (h : k'.Walk x y) : Reads t k' x [] y := by
  induction h with
  | refl => exact .here x
  | @tail b c hw hbc ih =>
    have hc : New k k' c := by
      refine new_of_walk hg.ordered hG hs.fresh hs.sourced (fun i d l hi hd hk _ => ?_) hx
        (hw.tail hbc)
      obtain ⟨el, hel, hb⟩ := hG.element_new i hi
      obtain rfl := Option.some.inj (hd.symm.trans hel)
      have hquiet := hg.quiet_below hq hb
      rw [hk] at hquiet
      cases hquiet
    obtain ⟨el, hel, hb⟩ := hG.element_new c hc
    exact ih.trans (reads_silent hbc hel (not_simple_of_quiet (hg.quiet_below hq hb)))

/-- What is left pending below a term is left on leaving it. -/
theorem departs_quiet {k' : Sketch} (hG : Framed t s k k') (hs : Sound t s k) {x : InstructionId}
    (hx : k.size ≤ x.index) (h : k'.Loose x) : Departs t s k' x := by
  rcases h with h | ⟨e, he, rfl⟩
  · exact .inl h
  rcases hG.waits e he with ⟨he, -⟩ | ⟨-, hscoped⟩
  · exact absurd (hs.fresh.ranged e he) (Nat.not_lt_of_le hx)
  obtain ⟨sc, x⟩ := e
  cases sc with
  | none =>
    obtain ⟨c, hc, hk⟩ := hscoped
    have hquiet := hg.quiet_below hq hc
    rcases hk with hk | hk <;> rw [hk] at hquiet <;> cases hquiet
  | some sc =>
    rcases hscoped with hb | ⟨-, c, hc, hk, -⟩
    · exact .inr ⟨sc, he, fun hin => hg.ordered.not_below_of_inside hin hb⟩
    · have hquiet := hg.quiet_below hq hc
      rw [hk] at hquiet
      cases hquiet

theorem traces_quiet (hun : Unraised t s) (depth : Nat) : Traces t (visit t depth) s := by
  intro k w o a hs h ha hfree
  obtain ⟨rfl, rfl⟩ := h.quiet_inv hq
  rcases grows_visit hg depth s k hs.fresh with heq | ⟨hG, -⟩
  · rw [heq]
    exact ⟨a, .here a, .normal (stands_of_arrival ha).departs hfree, .inr ⟨rfl, rfl, rfl⟩⟩
  · have hnext : New k (visit t depth s k) k.next := ⟨Nat.le_refl _, hG.size_lt⟩
    have halive := reaches_visit hg depth s k (fun _ => False) hs.fresh (promised_quiet hg hq)
    obtain ⟨y, hw, hfalse | ⟨hny, hy⟩⟩ := halive k.next hnext.1 hnext.2
    · exact hfalse.elim
    have hread := reads_quiet hg hq hG.toFramed hs.toSound hnext hw
    obtain ⟨el, hel, hb⟩ := hG.element_new k.next hnext
    have henter : Reads t (visit t depth s k) a [] k.next :=
      reads_silent (hG.entered a ha) hel (not_simple_of_quiet (hg.quiet_below hq hb))
    have hnew : New k (visit t depth s k) y := by
      refine ⟨hny, ?_⟩
      rcases hy with hy | ⟨e, he, rfl⟩
      · exact (hG.cursor_live y hy).1.2
      · exact pending_ranged hs.fresh hG e he
    obtain ⟨el', hel', hb'⟩ := hG.element_new y hnew
    exact ⟨y, henter.trans hread, .normal (departs_quiet hg hq hG.toFramed hs.toSound hny hy)
      (free_of_quiet hg hq hun hel' hb'), .inl hnew⟩

end quiet

/-- A rule for a node of which nothing is read is entered without anything being read. -/
theorem reads_enter {k' : Sketch} (hG : Framed t s k0 k') (ha : a ∈ k0.arrivals t (some s))
    (hel : k'.element k0.next = some s) (hk : (t.kind s).isSimple = false) : Reads t k' a [] k0.next :=
  reads_silent (hG.entered a ha) hel hk

def FreeCursor (t : SyntaxTree) (k : Sketch) : Prop := ∀ x, k.cursor = some x → Free t k x

section cursor
variable {c : NodeId} (hg : t.Grammatical) (hun : Unraised t c)
include hg hun

theorem free_cursor_quiet {k' : Sketch} (hq : (t.kind c).isQuiet = true) (h : FreeCursor t k)
    (hv : Visited t c k k') : FreeCursor t k' := by
  rcases hv with rfl | ⟨hG, -⟩
  · exact h
  · intro x hx
    obtain ⟨el, hel, hb⟩ := hG.element_new x (hG.cursor_live x hx).1
    exact free_of_quiet hg hq hun hel hb

omit hg in
theorem free_cursor_place (hk : t.kind c ≠ .raiseExit) (k : Sketch) (kind : InstructionKind) :
    FreeCursor t (k.place t (some c) kind) := fun _ hx =>
  Option.some.inj hx ▸ free_place hun hk kind

omit hg in
theorem free_cursor_joined (hk : t.kind c ≠ .raiseExit) (h : FreeCursor t k) :
    FreeCursor t (joined t c k) := by
  unfold joined
  split
  · exact fun x hx => (h x hx).later ((Later.refl k).drained c)
  · exact fun x hx => (free_cursor_place hun hk (k.drained t c) .plain x hx).later
      ((Later.refl _).linked _ _)

end cursor

theorem not_raise_of_quiet {kind : SyntaxKind} (h : kind.isQuiet = true) : kind ≠ .raiseExit := by
  rintro rfl
  cases h

/-- A condition has been evaluated without anything being read. -/
theorem goes_conditioned (hg : t.Grammatical) (hB : Below t V s) {part : Option NodeId}
    (hpart : ∀ c, part = some c → t.Inside c s ∧ (t.kind c).isQuiet = true ∧ Unraised t c)
    (hf : ∀ c, part = some c → Fresh t c k) {x : InstructionId} (hx : k.cursor = some x)
    (hfree : Free t k x) :
    ∃ y, (conditioned t V part k).cursor = some y ∧ Reads t (conditioned t V part k) x [] y ∧
      Free t (conditioned t V part k) y := by
  obtain ⟨y, hy, hread⟩ := forwards_conditioned hB (fun c hc => ⟨(hpart c hc).1, (hpart c hc).2.1⟩) hf x hx
  have hcursor : FreeCursor t k := fun z hz => Option.some.inj (hx.symm.trans hz) ▸ hfree
  refine ⟨y, hy, hread, ?_⟩
  cases part with
  | none => exact hcursor y hy
  | some c =>
    obtain ⟨hin, hq, hun⟩ := hpart c rfl
    exact free_cursor_joined hun (not_raise_of_quiet hq)
      (free_cursor_quiet hg hun hq hcursor (hB.grows c hin k (hf c rfl))) y hy

theorem onward_conditioned (ho : t.Ordered) (hV : ∀ c, t.Inside c s → Grows t V c)
    {part : Option NodeId} (hin : ∀ c, part = some c → t.Inside c s)
    (hf : ∀ c, part = some c → Fresh t c k) : Onward t s k (conditioned t V part k) := by
  cases part with
  | none => exact .refl t s k
  | some c =>
    have hc := hin c rfl
    have hvisit := (Onward.refl t s k).visited ho hc.1 (hV c hc k (hf c rfl))
    show Onward t s k (joined t c (V c k))
    unfold joined
    split
    · exact hvisit.drained ho hc
    · exact ((hvisit.drained ho hc).place ho hc.1 _).linked _ _

/-- What leaves a clause that has just been entered is among the ways out of it. -/
theorem exit_of_departs {c : NodeId} {k' : Sketch} {x : InstructionId}
    (hf : Fresh t c k) (hv : Visited t c k k') (h : Departs t c k' x)
    (hnew : New k k' x ∨ k' = k ∧ k.cursor = some x) : x ∈ k'.exits t c := by
  refine (mem_exits k' t c x).2 ?_
  rcases h with h | ⟨sc, h, hin⟩
  · exact .inl h
  rcases hnew with hnew | ⟨rfl, hx⟩
  · rcases hv with rfl | ⟨hG, -⟩
    · exact absurd hnew.2 (Nat.not_lt_of_le hnew.1)
    · rcases hG.waits _ h with ⟨hold, -⟩ | ⟨-, hb | ⟨hcs, -⟩⟩
      · exact absurd (hf.ranged _ hold) (Nat.not_lt_of_le hnew.1)
      · exact .inr ⟨⟨some sc, x⟩, (mem_inner k' t _ c).2 ⟨h, within_iff.2 ⟨sc, rfl, hb⟩⟩, rfl⟩
      · exact absurd hcs hin
  · exact .inl hx

/-- A run of a clause, from its entry to one of the ways out of it. -/
theorem goes_clause {c : NodeId} {e : InstructionId} (hV : Grows t V c)
    (hF : Traces t V c) (hB : Begun t c k) (he : k.cursor = some e) (hfree : Free t k e)
    (h : Run t (.node c) w o) : ∃ x, Reads t (V c k) e w x ∧
      Ended t c (V c k) (x ∈ (V c k).exits t c) x o ∧ (x = e ∨ New k (V c k) x) := by
  obtain ⟨x, hread, hend, hnew⟩ := hF k w o e hB h (mem_arrivals_of_cursor (some c) he) hfree
  refine ⟨x, hread, hend.mono fun hx => ?_, ?_⟩
  · refine exit_of_departs hB.fresh (hV k hB.fresh) hx (hnew.imp_right fun ⟨_, hsame, heq⟩ => ?_)
    exact ⟨hsame, heq ▸ he⟩
  · exact hnew.symm.imp_left fun ⟨_, _, heq⟩ => heq

theorem exits_within (ho : t.Ordered) {c d : NodeId} {x : InstructionId} (hcd : t.Below c d)
    (h : x ∈ k.exits t c) : x ∈ k.exits t d := by
  refine (mem_exits k t d x).2 (((mem_exits k t c x).1 h).imp_right fun ⟨e, he, hx⟩ => ?_)
  obtain ⟨he, hw⟩ := (mem_inner k t e c).1 he
  obtain ⟨sc, hsc, hb⟩ := within_iff.1 hw
  exact ⟨e, (mem_inner k t e d).2 ⟨he, within_iff.2 ⟨sc, hsc, ho.below_trans hb hcd⟩⟩, hx⟩

/-- A run of a clause that is left under the node of the rule. -/
theorem goes_left (ho : t.Ordered) {c : NodeId} {e : InstructionId} (hd : Direct t s c)
    (hV : Grows t V c) (hF : Traces t V c) (hB : Begun t c k) (he : k.cursor = some e)
    (hfree : Free t k e) (h : Run t (.node c) w o) (hbreak : o ≠ .broke s) :
    ∃ x, Reads t (((V c k).drained t c).pended (some s) ((V c k).exits t c)) e w x ∧
      Ended t s (((V c k).drained t c).pended (some s) ((V c k).exits t c))
        ((((V c k).drained t c).pended (some s) ((V c k).exits t c)).Pends (some s) x) x o ∧
      (x = e ∨ New k (V c k) x) := by
  obtain ⟨x, hread, hend, hnew⟩ := goes_clause hV hF hB he hfree h
  have hle : Onward t s (V c k) (((V c k).drained t c).pended (some s) ((V c k).exits t c)) :=
    ((Onward.refl t s _).drained ho hd.1).pended _ _
  exact ⟨x, hread.later hle.toLater, hend.pass ho hd hbreak hle fun hx =>
    (mem_pending_pended _ _ _ _).2 (.inr ⟨rfl, hx⟩), hnew⟩

theorem onward_left (ho : t.Ordered) {c : NodeId} (hd : Direct t s c) (hV : Grows t V c)
    (hf : Fresh t c k) :
    Onward t s k (((V c k).drained t c).pended (some s) ((V c k).exits t c)) :=
  (((Onward.refl t s k).visited ho hd.1.1 (hV k hf)).drained ho hd.1).pended _ _

theorem run_quiet {cs : List NodeId} (h : ∀ c ∈ cs, (t.kind c).isQuiet = true) :
    Run t (.all cs) [] .normal := by
  induction cs with
  | nil => exact .nil
  | cons c cs ih =>
    exact .cons (.quiet (h c (by simp))) (ih fun d hd => h d (by simp [hd]))

structure Heeds (t : SyntaxTree) (V : Visitor) (s : NodeId) : Prop extends Below t V s where
  traces : ∀ c ∈ t.followed s, Traces t V c

section rules
variable (hg : t.Grammatical) (hH : Heeds t V s) (hs : Begun t s k0) (hun : Unraised t s)
  (ha : a ∈ k0.arrivals t (some s)) (hfree : Free t k0 a)
include hg hs hun ha

omit hg hs hun in
theorem reads_start : Reads t (k0.start t s) a (mark t s) k0.next := reads_place ha

theorem goes_sequence (hgrows : ∀ c, t.Inside c s → Grows t V c) (hraise : t.kind s ≠ .raiseExit)
    (hjump : t.kind s ≠ .continueJump) (hloop : (t.kind s).isLoop = false) {cs : List NodeId}
    (hcs : ∀ c ∈ cs, c ∈ t.children s) (hnodup : cs.Nodup) (hF : ∀ c ∈ cs, Traces t V c)
    (h : Run t (.all cs) w o) :
    Goes t s k0 (sequence t V s cs k0) (Departs t s (sequence t V s cs k0)) a (mark t s ++ w) o := by
  have ho := hg.ordered
  have hG : Grown t s k0 (k0.start t s) := grown_begin ho hjump .plain
  have hin : ∀ c ∈ cs, t.Inside c s := fun c hc => inside_of_mem ho (hcs c hc)
  have hV : ∀ c ∈ cs, Grows t V c := fun c hc => hgrows c (hin c hc)
  have hB : ∀ c ∈ cs, Begun t c (k0.start t s) := fun c hc =>
    begun_grown ho hs hG (direct_child ho (hcs c hc)) (fresh_started ho hs.fresh (hin c hc) .plain)
  obtain ⟨x, hread, hend, hnew⟩ := traces_each ho hcs hnodup hV hF hB h (h.not_broke ho hloop)
    (.inl rfl) (free_place hun hraise .plain)
  have hlater := onward_each ho hcs hnodup hV fun c hc => (hB c hc).fresh
  refine ⟨x, ((reads_start ha).later hlater.toLater).trans hread, hend.mono Stands.departs, .inl ?_⟩
  rcases hnew with hnew | ⟨-, heq, rfl⟩
  · exact hnew.earlier hG.later.size_le
  · rw [sequence, heq]
    exact ⟨Nat.le_refl _, hG.size_lt⟩

omit hg hs in
/-- A rule that makes one instruction, at which flow stands. -/
theorem goes_place (hraise : t.kind s ≠ .raiseExit) (kind : InstructionKind) :
    Goes t s k0 (k0.place t (some s) kind) (Departs t s (k0.place t (some s) kind)) a (mark t s)
      .normal :=
  ⟨k0.next, reads_place ha, .normal (.inl rfl) (free_place hun hraise kind),
    .inl ⟨Nat.le_refl _, next_lt_place t k0 (some s) kind⟩⟩

omit hg hs in
theorem goes_definition (hraise : t.kind s ≠ .raiseExit) :
    Goes t s k0 (definition t s k0) (Departs t s (definition t s k0)) a (mark t s) .normal := by
  unfold definition
  split
  · exact goes_place hun ha hraise _
  · exact goes_place hun ha hraise _

omit hs in
theorem goes_break (hk : t.kind s = .breakJump) (h : Run t (.node s) w o) :
    Goes t s k0 (breakJump t s k0) (Departs t s (breakJump t s k0)) a w o := by
  have hraise : t.kind s ≠ .raiseExit := by simp [hk]
  have hmark : mark t s = [s] := mark_simple (by rw [hk]; rfl)
  have hread : Reads t (k0.start t s) a [s] k0.next := hmark ▸ reads_start ha
  unfold breakJump
  obtain ⟨rfl, ⟨hl, rfl⟩ | ⟨l, hl, rfl⟩⟩ := h.break_inv hk
  · rw [hl]
    exact hmark ▸ goes_place hun ha hraise .plain
  · rw [hl]
    obtain ⟨hin, hloop, -⟩ := hg.ordered.enclosing_loop_above hl
    have hlater := ((Later.refl (k0.start t s)).pended (some l) [k0.next]).moved none
    refine ⟨k0.next, hread.later hlater, .broke hloop hin ?_ ?_, .inl ?_⟩
    · exact (mem_pending_pended _ _ _ _).2 (.inr ⟨rfl, by simp⟩)
    · exact (free_place hun hraise .plain).later hlater
    · exact ⟨Nat.le_refl _, next_lt_place t k0 (some s) .plain⟩

theorem goes_continue (hk : t.kind s = .continueJump) (h : Run t (.node s) w o) :
    Goes t s k0 (continueJump t s k0) (Departs t s (continueJump t s k0)) a w o := by
  have hraise : t.kind s ≠ .raiseExit := by simp [hk]
  have hmark : mark t s = [s] := mark_simple (by rw [hk]; rfl)
  have hread : Reads t (k0.start t s) a [s] k0.next := hmark ▸ reads_start ha
  unfold continueJump
  obtain ⟨rfl, ⟨hl, rfl⟩ | ⟨l, hl, rfl⟩⟩ := h.continue_inv hk
  · rw [hl]
    exact hmark ▸ goes_place hun ha hraise .plain
  · obtain ⟨hin, -, -⟩ := hg.ordered.enclosing_loop_above hl
    have hhas := ((Later.refl k0).place (t := t) (some s) .plain).has
      (hs.headed s l (t.below_refl s) hk hl hin)
    rw [hl, Option.bind_some]
    cases hlatest : (k0.start t s).latest l with
    | none => exact absurd hhas (not_has_of_latest hlatest)
    | some header =>
      have hlater := ((Later.refl (k0.start t s)).linked header [k0.next]).moved none
      have hedge : (((k0.start t s).linked header [k0.next]).moved none).Edge k0.next header :=
        (edge_linked _ _ _ _ _).2 (.inr ⟨by simp, rfl⟩)
      refine ⟨k0.next, hread.later hlater, .continued ?_ (latest_some hlatest).2 hedge, .inl ?_⟩
      · exact next_lt_place t k0 (some s) .plain
      · exact ⟨Nat.le_refl _, next_lt_place t k0 (some s) .plain⟩

/-- A `return` or `raise` leaves from where its expression has been evaluated. -/
theorem goes_leaving (hH : Below t V s) (hk : t.kind s = .returnExit ∨ t.kind s = .raiseExit)
    (h : Run t (.node s) w o) :
    Goes t s k0 (leaving t V s k0) (Departs t s (leaving t V s k0)) a w o := by
  have ho := hg.ordered
  have hall := ho.children_nodup s
  have hin : ∀ c ∈ t.children s, t.Inside c s := fun c hc => inside_of_mem ho hc
  have hquiet : ∀ c ∈ t.children s, (t.kind c).isQuiet = true := fun c hc =>
    SyntaxTree.is_quiet_of_term (by
      have hadmits := hg.admitted hc
      rcases hk with hk | hk <;> rw [hk] at hadmits <;> exact hadmits)
  have hV : ∀ c ∈ t.children s, Grows t V c := fun c hc => hH.grows c (hin c hc)
  have hf : ∀ c ∈ t.children s, Fresh t c (k0.start t s) := fun c hc =>
    fresh_started ho hs.fresh (hin c hc) .plain
  have hforwards : Forwards t (k0.start t s) (sequence t V s (t.children s) k0) :=
    forwards_each hg hV (fun c hc => hH.steady c (hin c hc) (hquiet c hc))
      (apart_children ho hall fun _ hc => hc) hf
  obtain ⟨y, hy, hsilent⟩ := hforwards k0.next rfl
  have hG : Grown t s k0 (sequence t V s (t.children s) k0) :=
    grown_sequence hg hs.fresh hH.grows (by rcases hk with hk | hk <;> simp [hk]) hall fun _ hc => hc
  have hnew := (hG.cursor_live y hy).1
  obtain ⟨el, hel, hb⟩ := hG.element_new y hnew
  have hlater : Later (sequence t V s (t.children s) k0) (leaving t V s k0) :=
    (((Later.refl _).rescoped s none).pended none _).moved none
  have hpends : (leaving t V s k0).Pends none y :=
    (mem_pending_pended _ _ _ _).2 (.inr ⟨rfl, Option.mem_toList.2 hy⟩)
  have hmark : mark t s = [s] := mark_simple (by rcases hk with hk | hk <;> rw [hk] <;> rfl)
  have hread : Reads t (leaving t V s k0) a [s] y := by
    have hfirst : Reads t (sequence t V s (t.children s) k0) a [s] k0.next :=
      hmark ▸ (reads_start ha).later (onward_each ho (fun _ hc => hc) hall hV hf).toLater
    exact (hfirst.trans hsilent).later hlater
  have hel' : (leaving t V s k0).element y = some el := hel
  rcases hk with hk | hk
  · obtain ⟨rfl, rfl⟩ := h.exit_inv hk
    refine ⟨y, hread, .returned hpends ⟨hnew.2, fun z r hz hr hzr => ?_⟩, .inl hnew⟩
    obtain rfl := Option.some.inj (hel'.symm.trans hz)
    rcases ho.below_total hb hzr with hsr | hrs
    · exact hun.not_below (by simp [hk]) hr hsr
    · rcases SyntaxTree.below_iff_eq_or_inside.1 hrs with rfl | hrs
      · rw [hk] at hr
        cases hr
      · obtain ⟨c, hc, hrc⟩ := ho.exists_child hrs
        have hmem := ho.mem_children.2 ⟨SyntaxTree.index_lt_size_of_parent hc, hc⟩
        have hterm := hg.quiet_below (hquiet c hmem) hrc
        rw [hr] at hterm
        cases hterm
  · obtain ⟨rfl, rfl⟩ := h.raise_inv hk
    exact ⟨y, hread, .raised hpends hel' hb, .inl hnew⟩

end rules
end PythonFlow.Sketch
