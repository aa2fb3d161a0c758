import PythonFlow.Proofs.Reach.Branches

/-!
# A loop keeps instructions alive

The body of a loop may count on the header, to which it leads back. The header itself lives because
flow leaves the loop where no further round begins, or goes on to the `else` clause there, and in the
`else` clause there is no `continue` of the loop any more.
-/

set_option autoImplicit false

namespace PythonFlow.Sketch
variable {t : SyntaxTree} {s : NodeId} {V : Visitor} {k k' k0 : Sketch} {n : Nat}
  {P : InstructionId → Prop} {x : InstructionId}

section pends
variable {c : NodeId}

theorem pends_place (h : k.Pends (some s) x) (hc : t.Below c s) (kind : InstructionKind) :
    (k.place t (some c) kind).Pends (some s) x := by
  refine (mem_pending_place k t (some c) kind _).2 ⟨h, stays_iff.2 fun sc hsc => ?_⟩
  exact Option.some.inj hsc ▸ hc

theorem pends_visited (h : k.Pends (some s) x) (hc : t.Below c s) (hv : Visited t c k k') :
    k'.Pends (some s) x := by
  rcases hv with rfl | ⟨hv, -⟩
  · exact h
  · exact hv.kept _ h (stays_iff.2 fun sc hsc => Option.some.inj hsc ▸ hc)

theorem pends_drained (ho : t.Ordered) (h : k.Pends (some s) x) (hc : t.Inside c s) :
    (k.drained t c).Pends (some s) x := by
  refine (mem_pending_drained k t _ c).2 ⟨h, beyond_iff.2 fun sc hsc => ?_⟩
  exact Option.some.inj hsc ▸ ho.not_below_of_inside hc

theorem pends_pended (h : k.Pends (some s) x) (o : Option NodeId) (l : List InstructionId) :
    (k.pended o l).Pends (some s) x := (mem_pending_pended k _ o l).2 (.inl h)

theorem pends_skipped {head : Option InstructionId} (he : t.elsePart s = none)
    (hx : head = some x) : (skipped t s head k).Pends (some s) x := by
  rw [skipped, he, Option.isNone_none, if_pos rfl]
  exact (mem_pending_pended k _ (some s) _).2 (.inr ⟨rfl, Option.mem_toList.2 hx⟩)

end pends

theorem alive_skipped (h : Alive n k P) (head : Option InstructionId) :
    Alive n (skipped t s head k) P := by
  unfold skipped
  split
  · exact alive_pended h _ _
  · exact h

section whileLoop
variable (hg : t.Grammatical) (hk : t.kind s = .whileLoop) (hB : Below t V s) (hs : Fresh t s k0)
include hg hk hB hs

omit hB hs in
theorem quiet_while_condition {c : NodeId} (hc : t.condition s = some c) :
    t.Inside c s ∧ (t.kind c).isQuiet = true :=
  ⟨(while_condition hg hk hc).1.1,
    SyntaxTree.is_quiet_of_term (hg.term_condition (.inr (.inr (.inl hk))) hc)⟩

/-- Flow gets from the header to where the condition has come out. -/
theorem while_head : ∃ x, (whileAsked t V s k0).cursor = some x ∧
    Reads t (whileAsked t V s k0) k0.next [] x :=
  forwards_conditioned hB (fun _ hc => quiet_while_condition hg hk hc)
    (fun _ hc => fresh_started hg.ordered hs (while_condition hg hk hc).1.1 .plain) k0.next rfl

/-- Where no `else` clause follows, that is where the loop is left. -/
theorem while_skips (he : t.elsePart s = none) {x : InstructionId}
    (hx : (whileAsked t V s k0).cursor = some x) : (whileRounds t V s k0).Pends (some s) x := by
  have hskipped := pends_skipped (k := whileAsked t V s k0) he hx
  unfold whileRounds whileBody
  cases hc : t.body s with
  | none => exact hskipped
  | some c =>
    obtain ⟨hd, hplain⟩ := loop_body hg (by rw [hk]; rfl) hc
    have hv := hB.grows c hd.1 _ (fresh_entry hg.ordered
      (fresh_while_body_start hg hk hB.grows hs hc) hplain (.conditional (t.condition s) true))
    exact pends_drained hg.ordered (pends_visited (pends_place hskipped hd.1.1 _) hd.1.1 hv) hd.1

variable (hp : Promised t s k0 P)
include hp

theorem alive_while_rounds (hself : P k0.next) :
    Alive k0.size ((whileRounds t V s k0).moved (whileAsked t V s k0).cursor) P := by
  have hstart : Alive k0.size (k0.start t s) P :=
    alive_place (alive_start k0 P) (Nat.le_refl _) _ _
  have hasked : Alive k0.size (whileAsked t V s k0) P :=
    alive_conditioned hg hB (fun _ hc => quiet_while_condition hg hk hc)
      (fun _ hc => fresh_started hg.ordered hs (while_condition hg hk hc).1.1 .plain)
      (by rw [start, size_place]; exact Nat.le_succ _) hstart
  have hskipped := alive_skipped (t := t) (s := s) hasked (whileAsked t V s k0).cursor
  have hG := grown_skipped (grown_while_asked hg hk hB.grows hs)
    (grown_while_asked hg hk hB.grows hs).cursor_live
  unfold whileRounds whileBody
  cases hc : t.body s with
  | none => exact alive_moved hskipped fun x hn hx => lives_of_loose hn (.inl (by
      unfold skipped at hx
      split at hx <;> exact hx))
  | some c =>
    obtain ⟨hd, hplain⟩ := loop_body hg (by rw [hk]; rfl) hc
    have hplaced := grown_place hG hg.ordered hd hplain (.conditional (t.condition s) true)
    have hdone := alive_direct hg hB hd (.inr hplaced) hs hp (fun _ _ _ _ => hself)
      (fresh_entry hg.ordered (fresh_while_body_start hg hk hB.grows hs hc) hplain _)
      hplaced.later.size_le (alive_place hskipped hG.later.size_le _ _)
    refine alive_moved (alive_led hdone c hself) fun x _ hx => ?_
    exact lives_of_edge ((edge_linked _ x _ _ _).2
      (.inr ⟨(mem_exits _ t c x).2 (.inl hx), rfl⟩)) hself

/-- The `else` clause, of all that is alive from some point on. -/
theorem alive_while_else {c : NodeId} (hc : t.elsePart s = some c)
    (hn : n ≤ (whileRounds t V s k0).size)
    (h : Alive n ((whileRounds t V s k0).moved (whileAsked t V s k0).cursor) P) :
    Alive n ((whileExit t V s k0).moved none) P := by
  obtain ⟨hd, hplain⟩ := else_part hg hc
  have hmoved := grown_moved (grown_while_rounds hg hk hB.grows hs) fun x hx =>
    ((grown_while_asked hg hk hB.grows hs).cursor_live x hx).later
      (later_while_rounds hg hk hB.grows hs)
  have hplaced := grown_place hmoved hg.ordered hd hplain (.conditional (t.condition s) false)
  have hmem := SyntaxTree.mem_else_part hc
  have hdone := alive_direct hg hB hd (.inr hplaced) hs hp
    (fun x hx _ hl => absurd hl
      (hg.ordered.enclosing_loop_in_else (hg.ordered.parent_of_mem hmem.1) hmem.2 hx))
    (fresh_entry hg.ordered (fresh_moved (fresh_while_else_start hg hk hB.grows hs hc) _) hplain _)
    (by rw [size_place]; exact Nat.le_succ_of_le hn) (alive_place h hn _ _)
  rw [whileExit, hc]
  exact alive_clause_left hdone c (some s)

theorem alive_while : Alive k0.size (whileLoop t V s k0) P := by
  have hP' : Promised t s k0 fun x => P x ∨ x = k0.next := hp.weaken fun _ hy => .inl hy
  have hrounds := alive_while_rounds hg hk hB hs hP' (.inr rfl)
  have hG := grown_while_asked hg hk hB.grows hs
  obtain ⟨x, hx, hread⟩ := while_head hg hk hB hs
  have hw := hread.walk
  have hxlive := (hG.cursor_live x hx).1
  have hle := later_while_rounds hg hk hB.grows hs
  rw [while_eq hg hk hB.grows hs]
  cases hc : t.elsePart s with
  | none =>
    have hpends := while_skips hg hk hB hs hc hx
    have hexit : whileExit t V s k0 = whileRounds t V s k0 := by rw [whileExit, hc]; rfl
    have hloose : ((whileRounds t V s k0).moved none).Loose x := .inr ⟨_, hpends, rfl⟩
    rw [hexit]
    refine Alive.discharge (alive_parked hrounds (fun y hy => ?_) none) ?_
    · obtain rfl : x = y := Option.some.inj (hx.symm.trans hy)
      exact ⟨_, hpends, rfl⟩
    · rintro y (hy | rfl)
      · exact lives_of_mem hy
      · exact (lives_of_loose hxlive.1 hloose).back (hw.later (hle.moved none))
  | some c =>
    have hwhole := alive_while_else hg hk hB hs hP' hc
      (Nat.le_trans hG.later.size_le hle.size_le) hrounds
    -- The clause by itself does not count on the header.
    have hclause := alive_while_else hg hk hB hs hp hc (Nat.le_refl _)
      (alive_start ((whileRounds t V s k0).moved (whileAsked t V s k0).cursor) P)
    refine hwhole.discharge ?_
    rintro y (hy | rfl)
    · exact lives_of_mem hy
    · obtain ⟨hd, hplain⟩ := else_part hg hc
      have hf := fresh_entry hg.ordered (fresh_moved (fresh_while_else_start hg hk hB.grows hs hc)
        (whileAsked t V s k0).cursor) hplain (.conditional (t.condition s) false)
      have hv := (hB.grows c hd.1 _ hf).later
      have hlast : Later (((whileRounds t V s k0).moved (whileAsked t V s k0).cursor).place t (some c)
          (.conditional (t.condition s) false)) ((whileExit t V s k0).moved none) := by
        rw [whileExit, hc]
        exact ((hv.drained c).pended _ _).moved none
      have hentry : (whileRounds t V s k0).size < ((whileExit t V s k0).moved none).size := by
        have hsize := hlast.size_le
        rw [size_place] at hsize
        exact hsize
      refine ((hclause _ (Nat.le_refl _) hentry).lower ?_).back
        (Relation.ReflTransGen.trans (hw.later (hle.trans ?_)) (walk_edge (hlast.edge ?_)))
      · exact Nat.le_trans hG.later.size_le hle.size_le
      · exact (((Later.refl _).moved _).place _ _).trans hlast
      · exact (edge_place _ t (some c) _ x _).2
          (.inr ⟨(mem_arrivals _ t (some c) x).2 (.inl hx), rfl⟩)

end whileLoop

theorem pends_closed (h : k.Pends (some s) x) (first : InstructionId) (exits : List InstructionId) :
    (closeRound t s first exits k).1.Pends (some s) x := by
  unfold closeRound
  split
  · exact h
  · exact pends_pended (k := k.linked first exits) h _ _

/-- A round that is closed keeps what is alive, given the ways out that it returns. -/
theorem alive_closed (h : Alive n k P) (c : NodeId) (first : InstructionId)
    (o : Option InstructionId) :
    Alive n ((closeRound t s first (k.exits t c) (k.drained t c)).1.moved o)
      fun y => P y ∨ y ∈ (closeRound t s first (k.exits t c) (k.drained t c)).2 := by
  unfold closeRound
  split
  · exact alive_linked (alive_drained h c o) _ _
  · refine Alive.weaken (P := P) ?_ fun y hy => .inl hy
    exact alive_linked (alive_parked (alive_left h c (some s)) (parked_pended (k := k.drained t c)
      (fun x hx => (mem_exits k t c x).2 (.inl hx)) _) o) _ _

section forLoop
variable (hg : t.Grammatical) (hk : t.kind s = .forLoop) (hB : Below t V s) (hs : Fresh t s k0)
include hg hk hB hs

omit hB hs in
theorem quiet_for_iterable {c : NodeId} (hc : c ∈ (t.iterable s).toList) :
    (t.kind c).isQuiet = true :=
  SyntaxTree.is_quiet_of_term (hg.term_iterable (.inl hk) (Option.mem_toList.1 hc))

omit hB hs in
theorem quiet_for_target {c : NodeId} (hc : c ∈ t.targets s) : (t.kind c).isQuiet = true :=
  SyntaxTree.is_quiet_of_term (hg.term_target (.inl hk) hc)

/-- Flow gets from the header to where another round may begin. -/
theorem for_head : ∃ x, (forAsked t V s k0).cursor = some x ∧
    Reads t (forAsked t V s k0) k0.next [] x := by
  have hin : ∀ c ∈ (t.iterable s).toList, t.Inside c s := fun c hc =>
    inside_of_mem hg.ordered (mem_iterable_list hc).1
  exact forwards_each hg (fun c hc => hB.grows c (hin c hc))
    (fun c hc => hB.steady c (hin c hc) (quiet_for_iterable hg hk hc))
    (apart_children hg.ordered (nodup_option _) fun c hc => (mem_iterable_list hc).1)
    (fun _ hc => fresh_for_iterable hg hs hc) k0.next rfl

theorem for_skips (he : t.elsePart s = none) {x : InstructionId}
    (hx : (forAsked t V s k0).cursor = some x) : (forRounds t V s k0).1.Pends (some s) x := by
  have hskipped := pends_skipped (k := forAsked t V s k0) he hx
  unfold forRounds forBody
  cases hb : t.body s with
  | none => exact hskipped
  | some b =>
    have hd := (loop_body hg (by rw [hk]; rfl) hb).1
    have hft : ∀ c ∈ t.targets s, Fresh t c
        (skipped t s (forAsked t V s k0).cursor (forAsked t V s k0)) := fun c hc =>
      fresh_for_target_start hg hk hB.grows hs hc
    have hin : ∀ c ∈ t.targets s, c ∈ t.children s := fun c hc => (SyntaxTree.mem_targets.1 hc).1
    have hbound : (each V (t.targets s) ((skipped t s (forAsked t V s k0).cursor
        (forAsked t V s k0)).start t b)).Pends (some s) x :=
      each_keeps hg.ordered (fun c hc => hB.grows c (inside_of_mem hg.ordered (hin c hc)))
        (apart_children hg.ordered (nodup_targets hg.ordered s) hin)
        (fun c hc => fresh_for_targets hg hb hc (hft c hc))
        (P := fun k => k.Pends (some s) x) (pends_place hskipped hd.1.1 .plain)
        fun c hc k hk hf => pends_visited hk (inside_of_mem hg.ordered (hin c hc)).1
          (hB.grows c (inside_of_mem hg.ordered (hin c hc)) k hf)
    have hround := pends_drained hg.ordered (pends_visited hbound hd.1.1 (hB.grows b hd.1 _
      (fresh_for_bound hg hk hB.grows hb (fresh_for_body_start hg hk hB.grows hs hb) hft))) hd.1
    exact pends_closed hround _ _

variable (hp : Promised t s k0 P)
include hp

theorem alive_for_rounds (hself : P k0.next) :
    Alive k0.size ((forRounds t V s k0).1.moved (forAsked t V s k0).cursor)
      fun y => P y ∨ y ∈ (forRounds t V s k0).2 := by
  have hstart : Alive k0.size (k0.start t s) P :=
    alive_place (alive_start k0 P) (Nat.le_refl _) _ _
  have hasked : Alive k0.size (forAsked t V s k0) P :=
    alive_each_quiet hg hB (nodup_option _) (fun c hc => (mem_iterable_list hc).1)
      (fun _ hc => quiet_for_iterable hg hk hc) (fun _ hc => fresh_for_iterable hg hs hc)
      (by rw [start, size_place]; exact Nat.le_succ _) hstart
  have hskipped := alive_skipped (t := t) (s := s) hasked (forAsked t V s k0).cursor
  have hG := grown_skipped (grown_for_asked hg hk hB.grows hs)
    (grown_for_asked hg hk hB.grows hs).cursor_live
  unfold forRounds forBody
  cases hb : t.body s with
  | none =>
    refine Alive.weaken (P := P) ?_ fun y hy => .inl hy
    refine alive_moved hskipped fun x hn hx => lives_of_loose hn (.inl ?_)
    unfold skipped at hx
    split at hx <;> exact hx
  | some b =>
    obtain ⟨hd, hplain⟩ := loop_body hg (by rw [hk]; rfl) hb
    have hfb := fresh_for_body_start hg hk hB.grows hs hb
    have hft := fun c hc => fresh_for_target_start (c := c) hg hk hB.grows hs hc
    have hin : ∀ c ∈ t.targets s, c ∈ t.children s := fun c hc => (SyntaxTree.mem_targets.1 hc).1
    have hplaced := grown_place hG hg.ordered hd hplain .plain
    have hbound := grown_each_role hg hB.grows hs hplaced (nodup_targets hg.ordered s) hin
      fun c hc => fresh_for_targets hg hb hc (hft c hc)
    have hdone := alive_direct hg hB hd (.inr hbound) hs hp (fun _ _ _ _ => hself)
      (fresh_for_bound hg hk hB.grows hb hfb hft) hbound.later.size_le
      (alive_each_quiet hg hB (nodup_targets hg.ordered s) hin
        (fun _ hc => quiet_for_target hg hk hc)
        (fun c hc => fresh_for_targets hg hb hc (hft c hc)) hplaced.later.size_le
        (alive_place hskipped hG.later.size_le _ _))
    exact alive_closed hdone b _ _

/-- The `else` clause, of all that is alive from some point on. -/
theorem alive_for_else {c : NodeId} (hc : t.elsePart s = some c)
    (hn : n ≤ (forRounds t V s k0).1.size)
    (h : Alive n ((forRounds t V s k0).1.moved (forAsked t V s k0).cursor) P) :
    Alive n ((forExit t V s k0).moved none) P := by
  obtain ⟨hd, hplain⟩ := else_part hg hc
  obtain ⟨hrounds, hexhausted⟩ := grown_for_rounds hg hk hB.grows hs
  have hmoved := grown_moved hrounds fun x hx =>
    ((grown_for_asked hg hk hB.grows hs).cursor_live x hx).later
      (later_for_rounds hg hk hB.grows hs)
  have hplaced := grown_place hmoved hg.ordered hd hplain .plain
  have hlinked := grown_linked hplaced (hplaced.cursor_live _ rfl).1 fun a ha =>
    (hexhausted a ha).later (((Later.refl _).moved _).place (some c) .plain)
  have hmem := SyntaxTree.mem_else_part hc
  have hdone := alive_direct hg hB hd (.inr hlinked) hs hp
    (fun x hx _ hl => absurd hl
      (hg.ordered.enclosing_loop_in_else (hg.ordered.parent_of_mem hmem.1) hmem.2 hx))
    (fresh_linked (fresh_entry hg.ordered (fresh_for_else_start hg hk hB.grows hs hc) hplain .plain)
      _ _)
    (by rw [size_linked, size_place]; exact Nat.le_succ_of_le hn)
    (alive_linked (alive_place h hn _ _) _ _)
  rw [forExit, hc]
  exact alive_clause_left hdone c (some s)

omit hp in
/-- The entry of the `else` clause, which leads on without the header. -/
theorem for_else_entry {c : NodeId} (hc : t.elsePart s = some c) {y : InstructionId}
    (hy : (forAsked t V s k0).cursor = some y ∨ y ∈ (forRounds t V s k0).2) :
    Later (forRounds t V s k0).1 ((forExit t V s k0).moved none) ∧
      (forRounds t V s k0).1.size < ((forExit t V s k0).moved none).size ∧
      ((forExit t V s k0).moved none).Edge y (forRounds t V s k0).1.next := by
  obtain ⟨hd, hplain⟩ := else_part hg hc
  have hf := fresh_linked (fresh_entry hg.ordered
    (fresh_for_else_start hg hk hB.grows hs hc) hplain .plain)
    (forRounds t V s k0).1.next (forRounds t V s k0).2
  have hlast : Later (((((forRounds t V s k0).1.moved (forAsked t V s k0).cursor).start t c).linked
      (forRounds t V s k0).1.next (forRounds t V s k0).2)) ((forExit t V s k0).moved none) := by
    rw [forExit, hc]
    exact (((hB.grows c hd.1 _ hf).later.drained c).pended _ _).moved none
  refine ⟨((((Later.refl _).moved _).place _ _).linked _ _).trans hlast, ?_, hlast.edge ?_⟩
  · have hsize := hlast.size_le
    rw [size_linked, start, size_place] at hsize
    exact hsize
  · refine (edge_linked _ y _ _ _).2 ?_
    rcases hy with hy | hy
    · exact .inl ((edge_place _ t (some c) _ y _).2
        (.inr ⟨(mem_arrivals _ t (some c) y).2 (.inl hy), rfl⟩))
    · exact .inr ⟨hy, rfl⟩

theorem alive_for : Alive k0.size (forLoop t V s k0) P := by
  have hP' : Promised t s k0 fun x => P x ∨ x = k0.next := hp.weaken fun _ hy => .inl hy
  have hrounds := alive_for_rounds hg hk hB hs hP' (.inr rfl)
  have hG := grown_for_asked hg hk hB.grows hs
  obtain ⟨x, hx, hread⟩ := for_head hg hk hB hs
  have hw := hread.walk
  have hxlive := (hG.cursor_live x hx).1
  have hle := later_for_rounds hg hk hB.grows hs
  have hn := Nat.le_trans hG.later.size_le hle.size_le
  cases hc : t.elsePart s with
  | none =>
    have hpends := for_skips hg hk hB hs hc hx
    have hloose : ((forRounds t V s k0).1.moved none).Loose x := .inr ⟨_, hpends, rfl⟩
    have hexit : forLoop t V s k0 = (forRounds t V s k0).1.moved none := by
      rw [forLoop, forExit, hc]
      rfl
    have hnone : (forRounds t V s k0).2 = [] := by
      unfold forRounds forBody closeRound
      cases t.body s with
      | none => rfl
      | some b => simp [hc]
    rw [hexit]
    refine Alive.discharge (alive_parked hrounds (fun y hy => ?_) none) ?_
    · obtain rfl : x = y := Option.some.inj (hx.symm.trans hy)
      exact ⟨_, hpends, rfl⟩
    · rintro y ((hy | rfl) | hy)
      · exact lives_of_mem hy
      · exact (lives_of_loose hxlive.1 hloose).back (hw.later (hle.moved none))
      · rw [hnone] at hy
        cases hy
  | some c =>
    have hwhole := alive_for_else hg hk hB hs (P := fun y => (P y ∨ y = k0.next) ∨
      y ∈ (forRounds t V s k0).2) (hp.weaken fun _ hy => .inl (.inl hy)) hc hn hrounds
    -- The clause by itself counts neither on the header nor on the ways out of the body.
    have hclause := alive_for_else hg hk hB hs hp hc (Nat.le_refl _)
      (alive_start ((forRounds t V s k0).1.moved (forAsked t V s k0).cursor) P)
    have hentry : ∀ y, (forAsked t V s k0).cursor = some y ∨ y ∈ (forRounds t V s k0).2 →
        Lives k0.size ((forExit t V s k0).moved none) P y := fun y hy => by
      obtain ⟨-, hlt, hedge⟩ := for_else_entry hg hk hB hs hc hy
      exact ((hclause _ (Nat.le_refl _) hlt).lower hn).back (walk_edge hedge)
    refine hwhole.discharge ?_
    rintro y ((hy | rfl) | hy)
    · exact lives_of_mem hy
    · exact (hentry x (.inl hx)).back
        (hw.later (hle.trans (for_else_entry hg hk hB hs hc (.inl hx)).1))
    · exact hentry y (.inr hy)

end forLoop
end PythonFlow.Sketch
