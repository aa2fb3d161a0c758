import PythonFlow.Proofs.Reach.Loops

/-!
# A `try` statement keeps instructions alive

Each clause may count on the ways out of the body, which lead to the `else` clause or are pending.
What the settling of the pending edges gives up it links to a handler or to the `finally` clause.
The clause keeps its own pending edges, so that it lives by itself; then the handlers live, whose
edges are kept or go through the clause, and then the whole.
-/

set_option autoImplicit false

namespace PythonFlow.Sketch
variable {t : SyntaxTree} {s : NodeId} {V : Visitor} {k k' k0 k1 : Sketch} {n : Nat}
  {P : InstructionId → Prop}

/-- What is entered by `c` is made for nodes at or below `c`. -/
theorem entered_below {c : NodeId} {id : InstructionId} (hv : Visited t c k1 k')
    (hsize : k1.size = k.size + 1) (hel : k1.element k.next = some c) (hid : New k k' id) :
    ∃ el, k'.element id = some el ∧ t.Below el c := by
  by_cases hold : id.index < k1.size
  · obtain rfl : id = k.next := by
      obtain ⟨i⟩ := id
      exact congrArg InstructionId.mk (Nat.le_antisymm (by simp only at hold; omega) hid.1)
    exact ⟨c, by rw [hv.later.element hold, hel], t.below_refl c⟩
  · rcases hv with rfl | ⟨hv, -⟩
    · exact absurd hid.2 hold
    · exact hv.element_new id ⟨Nat.le_of_not_lt hold, hid.2⟩

section settle
variable {fate : PendingEdge → Fate} {e : PendingEdge}

theorem lives_of_kept (he : e ∈ k.pending) (hn : n ≤ e.source.index) (h : fate e = keep e) :
    Lives n ((k.settled fate).moved none) P e.source := by
  refine lives_of_loose hn (.inr ⟨e, (mem_pending_settled k e fate).2 ⟨e, he, ?_⟩, rfl⟩)
  rw [h]
  exact List.mem_singleton.2 rfl

theorem lives_of_fated (he : e ∈ k.pending) {b : InstructionId} (hb : b ∈ (fate e).targets)
    (h : Lives n ((k.settled fate).moved none) P b) :
    Lives n ((k.settled fate).moved none) P e.source :=
  h.back (walk_edge ((edge_settled k _ b fate).2 (.inr ⟨e, he, rfl, hb⟩)))

/-- Settling keeps alive what it finds a place for. -/
theorem alive_settled (h : Alive n (k.moved none) P)
    (hfate : ∀ e ∈ k.pending, n ≤ e.source.index →
      Lives n ((k.settled fate).moved none) P e.source) :
    Alive n ((k.settled fate).moved none) P := by
  refine h.step ((Later.refl (k.moved none)).settled fate) rfl (fun _ hy => lives_of_mem hy) ?_
  rintro y hn (hy | ⟨e, he, rfl⟩)
  · cases hy
  · exact hfate e he hn

end settle

section clause
variable (hg : t.Grammatical) (hB : Below t V s) (hloop : (t.kind s).isLoop = false)
  (hs : Fresh t s k0) (hp : Promised t s k0 P) {c : NodeId} (hc : c ∈ t.children s)
include hg hB hloop hs hp hc

/-- A clause that is entered, visited and left. -/
theorem alive_clause (hG : Grown t s k0 k1) (hf : Fresh t c k1) (hn : n ≤ k1.size)
    (h : Alive n k1 P) (o : Option NodeId) :
    Alive n ((((V c k1).drained t c).pended o ((V c k1).exits t c)).moved none) P :=
  alive_clause_left (alive_direct hg hB (direct_child hg.ordered hc) (.inr hG) hs hp
    (fun _ _ _ hl => not_loop_of_jump hg hloop hl) hf hn h) c o

end clause

section tryStatement
variable (hg : t.Grammatical) (hk : t.kind s = .tryStatement) (hB : Below t V s)
  (hs : Fresh t s k0)
include hg hk

omit hg in
theorem not_loop_of_try : (t.kind s).isLoop = false := by rw [hk]; rfl

include hB hs

theorem alive_tried (hp : Promised t s k0 P) (o : Option InstructionId) :
    Alive k0.size ((tryTried t V s k0).1.moved o) fun y => P y ∨ y ∈ (tryTried t V s k0).2.2 := by
  have hstart : Alive k0.size (k0.start t s) P :=
    alive_place (alive_start k0 P) (Nat.le_refl _) _ _
  have hG : Grown t s k0 (k0.start t s) := grown_begin hg.ordered (by simp [hk]) .plain
  unfold tryTried
  cases hc : t.tryPart s with
  | none =>
    refine alive_moved (hstart.weaken fun y hy => .inl hy) fun x _ hx => lives_of_mem (.inr ?_)
    exact List.mem_singleton.2 (Option.some.inj hx).symm
  | some c =>
    obtain ⟨hmem, -, hplain⟩ := try_part hc
    have hd := direct_child hg.ordered hmem
    exact alive_drained (alive_direct hg hB hd (.inr (grown_place hG hg.ordered hd hplain .plain))
      hs hp (fun _ _ _ hl => not_loop_of_jump hg (not_loop_of_try hk) hl)
      (fresh_entry hg.ordered (fresh_child hg.ordered hs hmem) hplain .plain)
      (by simp only [start, size_place]; omega) (alive_place hstart hG.later.size_le _ _)) c o

section others
variable (hp : Promised t s k0 P) (hn : n ≤ (tryTried t V s k0).1.size)
include hp hn

theorem alive_try_else {c : NodeId} (hc : t.elsePart s = some c)
    (h : Alive n ((tryTried t V s k0).1.moved none) P) :
    Alive n ((tryOthers t V s k0).moved none) P := by
  obtain ⟨hd, hplain⟩ := else_part hg hc
  obtain ⟨htried, -, hexits⟩ := grown_tried hg hB.grows hk hs
  have hmem := (SyntaxTree.mem_else_part hc).1
  have hstart := grown_clause_start hg hmem hplain htried none (by simp)
  have hle := ((Later.refl (tryTried t V s k0).1).moved none).place (t := t) (some c) .plain
  rw [tryOthers, hc]
  exact alive_clause hg hB (not_loop_of_try hk) hs hp hmem
    (grown_linked hstart (hstart.cursor_live _ rfl).1 fun a ha => (hexits a ha).later hle)
    (fresh_linked (fresh_clause_start hg hplain (fresh_tried_else hg hB.grows hs hc) none) _ _)
    (by rw [size_linked, start, size_place]; exact Nat.le_succ_of_le hn)
    (alive_linked (alive_place h hn _ _) _ _) (some s)

end others

omit hk in
/-- The ways out of the body lead to the `else` clause. -/
theorem try_else_entry {c : NodeId} (hc : t.elsePart s = some c) {y : InstructionId}
    (hy : y ∈ (tryTried t V s k0).2.2) :
    (tryTried t V s k0).1.size < (tryOthers t V s k0).size ∧
      (tryOthers t V s k0).Edge y (tryTried t V s k0).1.next := by
  obtain ⟨hd, hplain⟩ := else_part hg hc
  have hf := fresh_linked (fresh_clause_start hg hplain (fresh_tried_else hg hB.grows hs hc) none)
    (tryTried t V s k0).1.next (tryTried t V s k0).2.2
  have hlast : Later ((((tryTried t V s k0).1.moved none).start t c).linked
      (tryTried t V s k0).1.next (tryTried t V s k0).2.2) (tryOthers t V s k0) := by
    rw [tryOthers, hc]
    exact ((hB.grows c hd.1 _ hf).later.drained c).pended _ _
  have hsize := hlast.size_le
  rw [size_linked, start, size_place] at hsize
  exact ⟨hsize, hlast.edge ((edge_linked _ y _ _ _).2 (.inr ⟨hy, rfl⟩))⟩

theorem alive_others (hp : Promised t s k0 P) : Alive k0.size ((tryOthers t V s k0).moved none) P := by
  have hn := (grown_tried hg hB.grows hk hs).1.later.size_le
  cases hc : t.elsePart s with
  | none =>
    have htried := alive_tried hg hk hB hs hp none
    rw [tryOthers, hc]
    refine Alive.discharge (alive_pended htried (some s) (tryTried t V s k0).2.2) ?_
    rintro y (hy | hy)
    · exact lives_of_mem hy
    · exact lives_of_loose ((grown_tried hg hB.grows hk hs).2.2 y hy).1.1
        (loose_of_pended (k := (tryTried t V s k0).1.moved none) hy (some s))
  | some c =>
    have hwhole := alive_try_else hg hk hB hs
      (P := fun y => P y ∨ y ∈ (tryTried t V s k0).2.2) (hp.weaken fun _ hy => .inl hy) hn hc
      (alive_tried hg hk hB hs hp none)
    -- The clause by itself does not count on the ways out of the body.
    have hclause := alive_try_else hg hk hB hs hp (Nat.le_refl _) hc
      (alive_start ((tryTried t V s k0).1.moved none) P)
    refine hwhole.discharge ?_
    rintro y (hy | hy)
    · exact lives_of_mem hy
    · obtain ⟨hlt, hedge⟩ := try_else_entry hg hB hs hc hy
      exact ((hclause _ (Nat.le_refl _) hlt).lower hn).back (walk_edge hedge)

section caught
variable (hp : Promised t s k0 P)
include hp

theorem alive_caught (hn : n ≤ (tryOthers t V s k0).size)
    (h : Alive n ((tryOthers t V s k0).moved none) P) :
    Alive n ((tryCaught t V s k0).1.moved none) P := by
  obtain ⟨htried, hentry, hexits⟩ := grown_tried hg hB.grows hk hs
  obtain ⟨-, -, -, halive⟩ := handlers_keeps hg hB.grows (tryTried t V s k0).2.1
    (tryTried t V s k0).2.2 (M := fun k => Grown t s k0 k ∧ Later (tryTried t V s k0).1 k ∧
      n ≤ k.size ∧ Alive n (k.moved none) P)
    (fun p k hpart hf ⟨hG, hle, hn, h⟩ => by
      obtain ⟨hmem, -, hplain⟩ := except_part hpart
      have hlater := later_handler hg hB.grows (tryTried t V s k0).2.1 (tryTried t V s k0).2.2 hpart hf
      refine ⟨grown_handler hg hB.grows _ _ hs hG (hentry.later hle)
        (fun a ha => (hexits a ha).later hle) hpart hf, hle.trans hlater,
        Nat.le_trans hn hlater.size_le, ?_⟩
      have hstart := grown_clause_start hg hmem hplain hG none (by simp)
      have hentered := hle.trans (((Later.refl k).moved none).place (t := t) (some p) .plain)
      have hlinked := grown_linked hstart (hstart.cursor_live _ rfl).1 (l := [(tryTried t V s k0).2.1])
        fun a ha => List.mem_singleton.1 ha ▸ hentry.later hentered
      exact alive_clause hg hB (not_loop_of_try hk) hs hp hmem
        (grown_linked hlinked (hstart.cursor_live _ rfl).1 fun a ha =>
          (hexits a ha).later (hentered.linked _ _))
        (fresh_handler_start hg _ _ hpart hf)
        (by rw [size_linked, size_linked, start, size_place]; exact Nat.le_succ_of_le hn)
        (alive_linked (alive_linked (alive_place h hn _ _) _ _) _ _) (some s))
    (fun _ h => h) (nodup_except_parts hg s)
    (fun _ hpart => fresh_others_handler hg hB.grows hk hs hpart)
    ⟨grown_others hg hB.grows hk hs, later_others hg hB.grows hs, hn, h⟩
  exact halive

theorem alive_last (hn : n ≤ (tryCaught t V s k0).1.size)
    (h : Alive n ((tryCaught t V s k0).1.moved none) P) :
    Alive n ((tryLast t V s k0).1.moved none) P := by
  have hcaught := grown_caught hg hB.grows hk hs
  unfold tryLast
  cases hc : t.finallyPart s with
  | none => exact h
  | some c =>
    obtain ⟨hmem, -, hplain⟩ := finally_part hc
    exact alive_clause hg hB (not_loop_of_try hk) hs hp hmem
      (grown_clause_start hg hmem hplain hcaught none (by simp))
      (fresh_clause_start hg hplain (fresh_caught hg hB.grows hk hs hc) none)
      (by rw [start, size_place]; exact Nat.le_succ_of_le hn) (alive_place h hn _ _) (some c)

end caught

/-- Handlers are made for the handlers. -/
theorem caught_below {id : InstructionId} (hid : New (tryOthers t V s k0) (tryCaught t V s k0).1 id) :
    ∃ el p, (tryCaught t V s k0).1.element id = some el ∧ p ∈ t.exceptParts s ∧ t.Below el p := by
  refine handlers_keeps hg hB.grows (tryTried t V s k0).2.1 (tryTried t V s k0).2.2
    (M := fun k => ∀ id, New (tryOthers t V s k0) k id →
      ∃ el p, k.element id = some el ∧ p ∈ t.exceptParts s ∧ t.Below el p)
    (fun p k hpart hf hold id hid => ?_) (fun _ h => h) (nodup_except_parts hg s)
    (fun _ hpart => fresh_others_handler hg hB.grows hk hs hpart)
    (fun id hid => absurd hid.2 (Nat.not_lt_of_le hid.1)) id hid
  have hlater := later_handler hg hB.grows (tryTried t V s k0).2.1 (tryTried t V s k0).2.2 hpart hf
  by_cases hlt : id.index < k.size
  · obtain ⟨el, q, hel, hq⟩ := hold id ⟨hid.1, hlt⟩
    exact ⟨el, q, by rw [hlater.element hlt, hel], hq⟩
  · have hv := hB.grows p (inside_of_mem hg.ordered (except_part hpart).1) _
      (fresh_handler_start hg (tryTried t V s k0).2.1 (tryTried t V s k0).2.2 hpart hf)
    obtain ⟨el, hel, hb⟩ := entered_below (k := k) hv (size_place (k.moved none) t (some p) .plain)
      (element_place_next (t := t) (k := k.moved none)) ⟨Nat.le_of_not_lt hlt, hid.2⟩
    exact ⟨el, p, hel, hpart, hb⟩

theorem last_below {id : InstructionId} (hid : New (tryCaught t V s k0).1 (tryLast t V s k0).1 id) :
    ∃ el c, (tryLast t V s k0).1.element id = some el ∧ t.finallyPart s = some c ∧ t.Below el c := by
  unfold tryLast at hid ⊢
  cases hc : t.finallyPart s with
  | none =>
    rw [hc] at hid
    exact absurd hid.2 (Nat.not_lt_of_le hid.1)
  | some c =>
    rw [hc] at hid
    obtain ⟨hmem, -, hplain⟩ := finally_part hc
    have hv := hB.grows c (inside_of_mem hg.ordered hmem) _
      (fresh_clause_start hg hplain (fresh_caught hg hB.grows hk hs hc) none)
    obtain ⟨el, hel, hb⟩ := entered_below (k := (tryCaught t V s k0).1) hv
      (size_place ((tryCaught t V s k0).1.moved none) t (some c) .plain)
      (element_place_next (t := t) (k := (tryCaught t V s k0).1.moved none)) hid
    exact ⟨el, c, hel, rfl, hb⟩

omit hg hk hB hs in
/-- A raise in the body is made for a node of the body. -/
theorem below_of_raised {el : NodeId} (h : Visit.raisedInBody t (t.tryPart s) el = true) :
    ∃ c, t.tryPart s = some c ∧ t.Below el c := by
  unfold Visit.raisedInBody at h
  cases hc : t.tryPart s with
  | none => simp [hc] at h
  | some c =>
    simp only [hc, Bool.and_eq_true] at h
    exact ⟨c, rfl, (SyntaxTree.is_descendant_of_iff t el c).1 h.2⟩

omit hk hB hs in
/-- What is made for another clause is not raised in the body. -/
theorem not_raised {el c : NodeId} (hc : c ∈ t.children s) (hkind : t.kind c ≠ .tryPart)
    (hel : t.Below el c) : Visit.raisedInBody t (t.tryPart s) el ≠ true := by
  intro hraised
  obtain ⟨b, hb, hbelow⟩ := below_of_raised hraised
  obtain ⟨hmem, hbk, -⟩ := try_part hb
  exact apart_of_kind hg.ordered hc hmem (by rwa [hbk]) el hel hbelow

/-- Nothing that is made after the body and the `else` clause is raised in the body. -/
theorem unraised_since {id : InstructionId} {el : NodeId}
    (hid : (tryOthers t V s k0).size ≤ id.index) (hel : (tryLast t V s k0).1.element id = some el) :
    Visit.raisedInBody t (t.tryPart s) el ≠ true := by
  by_cases hcaught : id.index < (tryCaught t V s k0).1.size
  · obtain ⟨y, p, hy, hp, hb⟩ := caught_below hg hk hB hs ⟨hid, hcaught⟩
    rw [(later_last hg hB.grows hk hs).element hcaught, hy] at hel
    obtain ⟨hmem, hpk, -⟩ := except_part hp
    exact Option.some.inj hel ▸ not_raised hg hmem (by simp [hpk]) hb
  · obtain ⟨y, c, hy, hc, hb⟩ := last_below hg hk hB hs
      ⟨Nat.le_of_not_lt hcaught, lt_size_of_element hel⟩
    obtain ⟨hmem, hck, -⟩ := finally_part hc
    exact Option.some.inj (hy.symm.trans hel) ▸ not_raised hg hmem (by simp [hck]) hb

/-- The entry of the `finally` clause is the first instruction after the handlers. -/
theorem last_entry {f : Visit.Finally} (hf : (tryLast t V s k0).2 = some f) :
    New (tryCaught t V s k0).1 (tryLast t V s k0).1 f.entry := by
  unfold tryLast at hf ⊢
  cases hc : t.finallyPart s with
  | none =>
    rw [hc] at hf
    cases hf
  | some c =>
    rw [hc] at hf
    obtain rfl : _ = f := Option.some.inj hf
    obtain ⟨hmem, -, hplain⟩ := finally_part hc
    have hsize := (hB.grows c (inside_of_mem hg.ordered hmem) _
      (fresh_clause_start hg hplain (fresh_caught hg hB.grows hk hs hc) none)).later.size_le
    rw [start, size_place] at hsize
    exact ⟨Nat.le_refl _, hsize⟩

/-- The `finally` clause keeps its edges. -/
theorem settle_last {e : PendingEdge} (h : New (tryCaught t V s k0).1 (tryLast t V s k0).1 e.source) :
    settle t s (tryCaught t V s k0).2 (tryLast t V s k0).2 (tryLast t V s k0).1 e = keep e := by
  obtain ⟨el, c, hel, hc, hb⟩ := last_below hg hk hB hs h
  obtain ⟨hmem, hckind, -⟩ := finally_part hc
  obtain ⟨f, hf, rfl⟩ := last_finally V k0 hc
  rw [hf, settle_of_finally t hel (hg.ordered.below_trans hb (inside_of_mem hg.ordered hmem).1)
    (fun h => not_raised hg hmem (by simp [hckind]) hb h.1) f, if_neg fun h => h.2 hb]

section settled
variable (hp : Promised t s k0 P)
include hp

theorem alive_final : Alive (tryCaught t V s k0).1.size (tryStatement t V s k0) P := by
  have hlast := alive_last hg hk hB hs hp (Nat.le_refl _)
    (alive_start ((tryCaught t V s k0).1.moved none) P)
  refine alive_settled hlast fun e he hn => lives_of_kept he hn ?_
  exact settle_last hg hk hB hs ⟨hn, pending_ranged hs (grown_last hg hB.grows hk hs).1 e he⟩

/-- Where an edge goes that is not raised to a handler. -/
theorem lives_unraised {e : PendingEdge} (he : e ∈ (tryLast t V s k0).1.pending) {m : ℕ}
    (hm : m ≤ (tryCaught t V s k0).1.size) (hn : m ≤ e.source.index)
    (h : settle t s (tryCaught t V s k0).2 (tryLast t V s k0).2 (tryLast t V s k0).1 e = keep e ∨
      ∃ f, (tryLast t V s k0).2 = some f ∧
        settle t s (tryCaught t V s k0).2 (tryLast t V s k0).2 (tryLast t V s k0).1 e = through t s f e) :
    Lives m (tryStatement t V s k0) P e.source := by
  rcases h with h | ⟨f, hf, h⟩
  · exact lives_of_kept he hn h
  · obtain ⟨hentry, hlt⟩ := last_entry hg hk hB hs hf
    refine lives_of_fated he (b := f.entry) (by rw [h]; exact List.mem_singleton.2 rfl) ?_
    exact (alive_final hg hk hB hs hp f.entry hentry hlt).lower hm

/-- The handlers keep their edges, or send them through the `finally` clause. -/
theorem alive_handled : Alive (tryOthers t V s k0).size (tryStatement t V s k0) P := by
  obtain ⟨hle, -⟩ := caught_entries hg hB.grows hk hs
  have hlast := alive_last hg hk hB hs hp hle.size_le
    (alive_caught hg hk hB hs hp (Nat.le_refl _) (alive_start ((tryOthers t V s k0).moved none) P))
  refine alive_settled hlast fun e he hn => ?_
  rcases settle_cases t s (tryCaught t V s k0).2 (tryLast t V s k0).2 (tryLast t V s k0).1 e with
    h | ⟨-, -, el, hel, hraised⟩ | h
  · exact lives_unraised hg hk hB hs hp he hle.size_le hn (.inl h)
  · exact absurd hraised (unraised_since hg hk hB hs hn hel)
  · exact lives_unraised hg hk hB hs hp he hle.size_le hn (.inr h)

theorem alive_try : Alive k0.size (tryStatement t V s k0) P := by
  obtain ⟨hle, hentries⟩ := caught_entries hg hB.grows hk hs
  have hn := (grown_others hg hB.grows hk hs).later.size_le
  have hlast := alive_last hg hk hB hs hp (Nat.le_trans hn hle.size_le)
    (alive_caught hg hk hB hs hp hn (alive_others hg hk hB hs hp))
  refine alive_settled hlast fun e he hsource => ?_
  rcases settle_cases t s (tryCaught t V s k0).2 (tryLast t V s k0).2 (tryLast t V s k0).1 e with
    h | ⟨hne, h, -⟩ | h
  · exact lives_unraised hg hk hB hs hp he (Nat.le_trans hn hle.size_le) hsource (.inl h)
  · obtain ⟨b, hb⟩ := List.exists_mem_of_ne_nil _ hne
    have hnew := (hentries b hb)
    refine lives_of_fated he (b := b) (by rw [h]; exact hb) ?_
    exact (alive_handled hg hk hB hs hp b hnew.1 (Nat.lt_of_lt_of_le hnew.2
      (later_last hg hB.grows hk hs).size_le)).lower hn
  · exact lives_unraised hg hk hB hs hp he (Nat.le_trans hn hle.size_le) hsource (.inr h)

end settled
end tryStatement
end PythonFlow.Sketch
