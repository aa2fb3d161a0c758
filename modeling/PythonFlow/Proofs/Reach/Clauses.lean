import PythonFlow.Proofs.Reach.Visit
import PythonFlow.Proofs.Course.Located

/-!
# From a `try` statement to its clauses

A `try` statement leads to each of its handlers, by way of the entry of its body. To its `finally`
clause leads what is made in the statement before the clause, unless a `continue` goes back to a loop
outside the statement: what is made is alive, nothing goes back to what was there before, and whatever
is pending when the clause begins lands on it, is sent through it, or is sent to a handler first.
-/

set_option autoImplicit false

namespace PythonFlow.Sketch
variable {t : SyntaxTree} {s : NodeId} {V : Visitor} {k k' k0 : Sketch} {x y : InstructionId}

theorem Walk.trans {z : InstructionId} (h : k.Walk x y) (h' : k.Walk y z) : k.Walk x z :=
  Relation.ReflTransGen.trans h h'

section handlers
variable (hg : t.Grammatical) (hV : ∀ c, t.Inside c s → Grows t V c)
include hg hV

/-- The entry of a handler, to which the entry of the body and the ways out of it lead. -/
theorem handler_entered (entry : InstructionId) (exits : List InstructionId) {p : NodeId}
    (hp : p ∈ t.exceptParts s) (hf : Fresh t p k) :
    (handler t V s entry exits p k).element k.next = some p ∧
      ∀ x, x = entry ∨ x ∈ exits → (handler t V s entry exits p k).Edge x k.next := by
  have hv := hV p (inside_of_mem hg.ordered (except_part hp).1) _
    (fresh_handler_start hg entry exits hp hf)
  have hstart : Later (handlerStart t entry exits p k) (handler t V s entry exits p k) :=
    (hv.later.drained p).pended _ _
  have hlt : k.next.index < (handlerStart t entry exits p k).size :=
    next_lt_place t (k.moved none) (some p) .plain
  refine ⟨(hstart.element hlt).trans (element_place_next (t := t) (k := k.moved none)), fun x hx => ?_⟩
  refine hstart.edge ((edge_linked _ _ _ _ exits).2 (hx.imp (fun hx => ?_) fun hx => ⟨hx, rfl⟩))
  exact (edge_linked _ _ _ _ [entry]).2 (.inr ⟨by simp [hx], rfl⟩)

variable (hk : t.kind s = .tryStatement) (hs : Fresh t s k0)
include hs

/-- The statement leads to the entry of its body. -/
theorem walk_to_body : (tryTried t V s k0).1.Walk k0.next (tryTried t V s k0).2.1 := by
  unfold tryTried tryBody
  split
  · next part hpart =>
    obtain ⟨hmem, -, hplain⟩ := try_part hpart
    have hf := fresh_entry hg.ordered (fresh_child hg.ordered hs hmem) hplain .plain
    have hle := (hV part (inside_of_mem hg.ordered hmem) _ hf).later.drained (t := t) part
    exact walk_edge (hle.edge ((edge_place _ t (some part) .plain _ _).2
      (.inr ⟨(mem_arrivals _ t (some part) _).2 (.inl rfl), rfl⟩)))
  · exact walk_refl _ _

include hk

theorem later_try : Later (tryCaught t V s k0).1 (tryStatement t V s k0) :=
  ((later_last hg hV hk hs).settled _).moved none

/-- The statement leads to each of its handlers. -/
theorem walk_to_handler {p : NodeId} (hp : p ∈ t.exceptParts s) :
    ∃ h ∈ (tryCaught t V s k0).2, (tryStatement t V s k0).element h = some p ∧
      (tryStatement t V s k0).Walk k0.next h := by
  obtain ⟨k1, rest, -, hf1, hh, heq, hrest, hnodup, hfresh⟩ := handlers_at hg hV (tryTried t V s k0).2.1
    (tryTried t V s k0).2.2 (M := fun _ => True) (fun _ _ _ _ _ => trivial) (fun _ hp => hp)
    (nodup_except_parts hg s) (fun _ hp => fresh_others_handler hg hV hk hs hp) trivial hp
  obtain ⟨hel, hedge⟩ := handler_entered hg hV (tryTried t V s k0).2.1 (tryTried t V s k0).2.2 hp hf1
  have hle := (later_others hg hV hs).trans (caught_entries hg hV hk hs).1
  have hbody := (walk_to_body hg hV hs).later hle
  have hdone : Later (handler t V s (tryTried t V s k0).2.1 (tryTried t V s k0).2.2 p k1)
      (tryCaught t V s k0).1 := by
    rw [tryCaught, heq]
    exact (handlers_entries hg hV _ _ hrest hnodup hfresh).1
  refine ⟨k1.next, hh, ?_, ?_⟩
  · exact ((hdone.trans (later_try hg hV hk hs)).element (lt_size_of_element hel)).trans hel
  · exact (hbody.trans (walk_edge (hdone.edge (hedge _ (.inl rfl))))).later (later_try hg hV hk hs)

end handlers

/-- What is new stays among what is new, where every `continue` goes back to a loop inside. -/
theorem new_of_walk (ho : t.Ordered) (hG : Framed t s k0 k) (hs : Fresh t s k0) (hk0 : Sourced k0)
    (hjump : ∀ a c l, New k0 k a → k.element a = some c → t.kind c = .continueJump →
      t.enclosingLoop c = some l → t.Below l s)
    (hx : New k0 k x) (h : k.Walk x y) : New k0 k y := by
  induction h with
  | refl => exact hx
  | @tail a b _ hab ih =>
    rcases hG.origin a b hab with hold | ⟨-, rfl⟩ | ⟨-, hb, -⟩ | ⟨-, c, l, hc, hk, hl, hlatest⟩
    · exact absurd (hk0 a b hold) (Nat.not_lt_of_le ih.1)
    · exact new_next (Nat.le_refl _) hG.size_lt
    · exact hb
    · obtain ⟨-, hel⟩ := latest_some hlatest
      have hloop := (ho.enclosing_loop_above hl).2.1
      exact absurd (t.below_refl l)
        (hs.bare l (hjump a c l ih hc hk hl) (isStatement_of_loop hloop) b l hel)

section elements
variable (hg : t.Grammatical) (hV : ∀ c, t.Inside c s → Grows t V c)
  (hs : Fresh t s k0) {id : InstructionId} {el : NodeId}
include hg hV hs

/-- Up to the end of the body there are instructions for the statement and in the body. -/
theorem tried_below (hid : New k0 (tryTried t V s k0).1 id)
    (hel : (tryTried t V s k0).1.element id = some el) :
    el = s ∨ ∃ c, t.tryPart s = some c ∧ t.Below el c := by
  unfold tryTried tryBody at hid hel
  cases hc : t.tryPart s with
  | none =>
    simp only [hc] at hid hel
    rcases eq_next_of_new hid with rfl | hid
    · exact .inl (Option.some.inj (element_place_next.symm.trans hel)).symm
    · exact absurd hid.2 (Nat.not_lt_of_le hid.1)
  | some c =>
    simp only [hc] at hid hel
    obtain ⟨hmem, -, hplain⟩ := try_part hc
    have hv := hV c (inside_of_mem hg.ordered hmem) _
      (fresh_entry hg.ordered (fresh_child hg.ordered hs hmem) hplain .plain)
    have hle : Later (k0.start t s) (V c ((k0.start t s).start t c)) :=
      ((Later.refl _).place _ _).trans hv.later
    by_cases hold : id.index < (k0.start t s).size
    · rw [element_drained, hle.element hold] at hel
      rcases eq_next_of_new (⟨hid.1, hold⟩ : New k0 (k0.start t s) id) with rfl | hid
      · exact .inl (Option.some.inj (element_place_next.symm.trans hel)).symm
      · exact absurd hid.2 (Nat.not_lt_of_le hid.1)
    · obtain ⟨y, hy, hb⟩ := entered_below (k := k0.start t s) hv
        (size_place (k0.start t s) t (some c) .plain) element_place_next
        ⟨Nat.le_of_not_lt hold, hid.2⟩
      rw [element_drained] at hel
      exact .inr ⟨c, rfl, Option.some.inj (hel.symm.trans hy) ▸ hb⟩

/-- The `else` clause makes instructions in itself. -/
theorem others_below (hid : New (tryTried t V s k0).1 (tryOthers t V s k0) id)
    (hel : (tryOthers t V s k0).element id = some el) :
    ∃ c, t.elsePart s = some c ∧ t.Below el c := by
  unfold tryOthers tryElse at hid hel
  cases hc : t.elsePart s with
  | none =>
    rw [hc] at hid
    exact absurd hid.2 (Nat.not_lt_of_le hid.1)
  | some c =>
    simp only [hc] at hid hel
    have hf := fresh_linked (fresh_clause_start hg (else_part hg hc).2
      (fresh_tried_else hg hV hs hc) none) (tryTried t V s k0).1.next (tryTried t V s k0).2.2
    obtain ⟨y, hy, hb⟩ := entered_below (k := (tryTried t V s k0).1)
      (hV c (else_part hg hc).1.1 _ hf)
      (size_place ((tryTried t V s k0).1.moved none) t (some c) .plain)
      (element_place_next (t := t) (k := (tryTried t V s k0).1.moved none)) hid
    rw [element_pended, element_drained] at hel
    exact ⟨c, rfl, Option.some.inj (hel.symm.trans hy) ▸ hb⟩

end elements

section finallyClause
variable (hg : t.Grammatical) (hk : t.kind s = .tryStatement) (hB : Below t V s)
  (hs : Fresh t s k0) {c : NodeId} (hc : t.finallyPart s = some c)
include hg hk hB hs hc

/-- Nothing is made for the `finally` clause before it begins. -/
theorem caught_outside
    {id : InstructionId} {el : NodeId} (hid : New k0 (tryCaught t V s k0).1 id)
    (hel : (tryCaught t V s k0).1.element id = some el) :
    ¬ t.Below el c := by
  obtain ⟨hmem, hck, -⟩ := finally_part hc
  have hapart : ∀ d ∈ t.children s, t.kind d ≠ .finallyPart → t.Below el d → ¬ t.Below el c :=
    fun d hd hdk hb => apart_of_kind hg.ordered hd hmem (by rwa [hck]) el hb
  have hle := (caught_entries hg hB.grows hk hs).1
  by_cases hothers : id.index < (tryOthers t V s k0).size
  · rw [hle.element hothers] at hel
    have hle' := later_others hg hB.grows hs
    by_cases htried : id.index < (tryTried t V s k0).1.size
    · rw [hle'.element htried] at hel
      rcases tried_below hg hB.grows hs ⟨hid.1, htried⟩ hel with rfl | ⟨d, hd, hb⟩
      · exact hg.ordered.not_below_of_inside (inside_of_mem hg.ordered hmem)
      · obtain ⟨hdmem, hdk, -⟩ := try_part hd
        exact hapart d hdmem (by simp [hdk]) hb
    · obtain ⟨d, hd, hb⟩ := others_below hg hB.grows hs ⟨Nat.le_of_not_lt htried, hothers⟩ hel
      obtain ⟨hdmem, hdk⟩ := SyntaxTree.mem_else_part hd
      exact hapart d hdmem (by simp [hdk]) hb
  · obtain ⟨y, p, hy, hp, hb⟩ := caught_below hg hk hB hs ⟨Nat.le_of_not_lt hothers, hid.2⟩
    obtain ⟨hpmem, hpk, -⟩ := except_part hp
    exact hapart p hpmem (by simp [hpk]) (Option.some.inj (hy.symm.trans hel) ▸ hb)

variable {f : Visit.Finally} (hf : (tryLast t V s k0).2 = some f)
include hf

/-- The entry of the clause is made for the clause. -/
theorem element_finally : (tryStatement t V s k0).element f.entry = some c := by
  obtain ⟨hmem, -, hplain⟩ := finally_part hc
  have hv := hB.grows c (inside_of_mem hg.ordered hmem) _
    (fresh_clause_start hg hplain (fresh_caught hg hB.grows hk hs hc) none)
  have hlast : (tryLast t V s k0).1.element f.entry = some c := by
    unfold tryLast finallyClause at hf ⊢
    rw [hc] at hf ⊢
    obtain rfl := Option.some.inj hf
    have hnext := hv.later.element
      (next_lt_place t ((tryCaught t V s k0).1.moved none) (some c) .plain)
    exact hnext.trans (element_place_next (t := t) (k := (tryCaught t V s k0).1.moved none))
  exact hlast

/-- An edge that is pending when the clause begins lands on it or is still pending when it ends. -/
theorem edge_or_pending {e : PendingEdge} (he : e ∈ (tryCaught t V s k0).1.pending) :
    (tryLast t V s k0).1.Edge e.source f.entry ∨ e ∈ (tryLast t V s k0).1.pending := by
  obtain ⟨hmem, -, hplain⟩ := finally_part hc
  have hfresh := fresh_caught hg hB.grows hk hs hc
  have hv := hB.grows c (inside_of_mem hg.ordered hmem) _ (fresh_clause_start hg hplain hfresh none)
  unfold tryLast finallyClause at hf ⊢
  rw [hc] at hf ⊢
  obtain rfl := Option.some.inj hf
  cases hl : e.lands t (some c) with
  | true =>
    refine .inl (hv.later.edge ((edge_place _ t (some c) .plain _ _).2 (.inr ⟨?_, rfl⟩)))
    exact (mem_arrivals _ t (some c) _).2 (.inr ⟨e, he, hl, rfl⟩)
  | false =>
    have hplaced := (mem_pending_place ((tryCaught t V s k0).1.moved none) t (some c) .plain e).2
      ⟨he, hl⟩
    have hvisited : e ∈ (V c (((tryCaught t V s k0).1.moved none).start t c)).pending := by
      rcases hv with heq | ⟨hG, -⟩
      · rw [heq]
        exact hplaced
      · exact hG.kept e hplaced hl
    have hbeyond : e.within t c = false := beyond_iff.2 (hfresh.unscoped e he)
    exact .inr ((mem_pending_pended _ e _ _).2 (.inl ((mem_pending_drained _ t e c).2
      ⟨hvisited, hbeyond⟩)))

/-- What is pending when the clause begins goes to the clause, or to the handlers if it is raised in
the body. -/
theorem pending_goes_on {e : PendingEdge} (he : e ∈ (tryCaught t V s k0).1.pending)
    (hnew : New k0 (tryCaught t V s k0).1 e.source) :
    (tryStatement t V s k0).Edge e.source f.entry ∨
      ∃ el, (tryCaught t V s k0).1.element e.source = some el ∧
        Visit.raisedInBody t (t.tryPart s) el = true ∧
        ∃ h ∈ (tryCaught t V s k0).2, (tryStatement t V s k0).Edge e.source h := by
  have hcaught := grown_caught hg hB.grows hk hs
  obtain ⟨el, hel, hb⟩ := hcaught.element_new e.source hnew
  have hout := caught_outside hg hk hB hs hc hnew hel
  have hlast := later_last hg hB.grows hk hs
  have hel' := (hlast.element hnew.2).trans hel
  rcases edge_or_pending hg hk hB hs hc hf he with hedge | he'
  · exact .inl ((edge_settled _ _ _ _).2 (.inl hedge))
  obtain ⟨g, hgf, hpart⟩ := last_finally V k0 hc
  obtain rfl : f = g := Option.some.inj (hf.symm.trans hgf)
  have hscope : e.scope ≠ some f.part := fun heq =>
    (fresh_caught hg hB.grows hk hs hc).unscoped e he f.part heq (hpart ▸ t.below_refl c)
  by_cases hraised : Visit.raisedInBody t (t.tryPart s) el = true ∧ (tryCaught t V s k0).2 ≠ []
  · right
    obtain ⟨h, hh⟩ := List.exists_mem_of_ne_nil _ hraised.2
    refine ⟨el, hel, hraised.1, h, hh, (edge_settled _ _ _ _).2 (.inr ⟨e, he', rfl, ?_⟩)⟩
    rw [settle_of_raised t hel' hb hraised.1 hraised.2]
    exact hh
  · refine .inl ((edge_settled _ _ _ _).2 (.inr ⟨e, he', rfl, ?_⟩))
    rw [hf, settle_of_finally t hel' hb hraised f, if_pos ⟨hscope, hpart ▸ hout⟩]
    exact List.mem_singleton.2 rfl

section contained
variable (hk0 : Sourced k0) (hcontained : ∀ j, t.Below j s → ¬ t.Below j c →
  t.kind j = .continueJump → ∀ l, t.enclosingLoop j = some l → t.Below l s)
include hk0 hcontained

omit hf in
/-- What is made before the clause leads to what is pending when the clause begins. -/
theorem walk_to_pending {n : Nat} (hn : k0.size ≤ n)
    (h : Alive n ((tryCaught t V s k0).1.moved none) fun y => y.index < k0.size)
    (hx : n ≤ x.index) (hlt : x.index < (tryCaught t V s k0).1.size) :
    ∃ e ∈ (tryCaught t V s k0).1.pending, n ≤ e.source.index ∧
      New k0 (tryCaught t V s k0).1 e.source ∧ (tryStatement t V s k0).Walk x e.source := by
  have hcaught := grown_caught hg hB.grows hk hs
  have hstays : ∀ {y}, (tryCaught t V s k0).1.Walk x y → New k0 (tryCaught t V s k0).1 y := by
    refine new_of_walk hg.ordered hcaught.toFramed hs hk0 (fun a j l ha hj hkj hl => ?_)
      ⟨Nat.le_trans hn hx, hlt⟩
    obtain ⟨z, hz, hb⟩ := hcaught.element_new a ha
    obtain rfl : j = z := Option.some.inj (hj.symm.trans hz)
    exact hcontained j hb (caught_outside hg hk hB hs hc ha hj) hkj l hl
  obtain ⟨y, hw, hold | ⟨hny, hy | ⟨e, he, rfl⟩⟩⟩ := h x hx hlt
  · exact absurd (hstays hw).1 (Nat.not_le_of_lt hold)
  · cases hy
  · exact ⟨e, he, hny, hstays hw, Walk.later (k := (tryCaught t V s k0).1) hw (later_try hg hB.grows hk hs)⟩

theorem walk_to_finally (hx : New k0 (tryCaught t V s k0).1 x) :
    (tryStatement t V s k0).Walk x f.entry := by
  have hp : Promised t s k0 fun y => y.index < k0.size := fun _ _ _ _ _ _ _ hl => (latest_some hl).1
  obtain ⟨hle, hentries⟩ := caught_entries hg hB.grows hk hs
  have hn := (grown_others hg hB.grows hk hs).later.size_le
  have hhandled : ∀ y : InstructionId, (tryOthers t V s k0).size ≤ y.index →
      y.index < (tryCaught t V s k0).1.size → (tryStatement t V s k0).Walk y f.entry := by
    intro y hy hlt
    obtain ⟨e, he, hsource, hnew, hw⟩ := walk_to_pending hg hk hB hs hc hk0 hcontained hn
      (alive_caught hg hk hB hs hp (Nat.le_refl _) (alive_start ((tryOthers t V s k0).moved none) _))
      hy hlt
    rcases pending_goes_on hg hk hB hs hc hf he hnew with hedge | ⟨el, hel, hraised, -⟩
    · exact hw.trans (walk_edge hedge)
    · have hel' := ((later_last hg hB.grows hk hs).element hnew.2).trans hel
      exact absurd hraised (unraised_since hg hk hB hs hsource hel')
  obtain ⟨e, he, -, hnew, hw⟩ := walk_to_pending hg hk hB hs hc hk0 hcontained (Nat.le_refl _)
    (alive_caught hg hk hB hs hp hn (alive_others hg hk hB hs hp)) hx.1 hx.2
  rcases pending_goes_on hg hk hB hs hc hf he hnew with hedge | ⟨-, -, -, h, hh, hedge⟩
  · exact hw.trans (walk_edge hedge)
  · exact (hw.trans (walk_edge hedge)).trans (hhandled h (hentries h hh).1 (hentries h hh).2)

end contained
end finallyClause
end PythonFlow.Sketch
