import PythonFlow.Proofs.Frame.Basic

/-!
# The steps of a visit

Every step of a rule preserves `Grown`, and so does a visit further below. The sources of the edges
that a step adds are instructions from which flow may go on; what is placed, or visited, has no
statement between itself and the node whose rule it is. A rule that visits a list keeps what each of
the visits keeps.
-/

set_option autoImplicit false

namespace PythonFlow.Sketch

section calm
variable {t : SyntaxTree} (ho : t.Ordered) {cut : List NodeId} {s c a b : NodeId}
include ho

theorem calm_self (cut : List NodeId) (s : NodeId) : Calm t cut s s := fun _ _ _ hin hb =>
  absurd hb (ho.not_below_of_inside hin)

theorem direct_child (hc : c ∈ t.children s) : Direct t s c := by
  have hp := ho.parent_of_mem hc
  refine ⟨ho.inside_parent hp, fun m hcm hms => ?_⟩
  exact absurd (ho.below_of_inside_parent hp hcm) (ho.not_below_of_inside hms)

theorem direct_grandchild (hc : c ∈ t.children s) (hk : (t.kind c).isStatement = false)
    (ha : a ∈ t.children c) : Direct t s a := by
  have hpa := ho.parent_of_mem ha
  have hpc := ho.parent_of_mem hc
  refine ⟨ho.inside_of_inside_below (ho.inside_parent hpa) (ho.below_parent hpc), fun m ham hms => ?_⟩
  have hcm := ho.below_of_inside_parent hpa ham
  rcases SyntaxTree.below_iff_eq_or_inside.1 hcm with rfl | hcm
  · exact hk
  · exact absurd (ho.below_of_inside_parent hpc hcm) (ho.not_below_of_inside hms)

omit ho in
/-- What is no statement itself is below none that is inside `s`. -/
theorem calm_of_direct (hd : Direct t s c) (hk : (t.kind c).isStatement = false) : Calm t cut s c := by
  intro T F hT hin hb
  have hstatement : (t.kind T).isStatement = true := by rw [hT.1]; rfl
  rcases SyntaxTree.below_iff_eq_or_inside.1 hb with rfl | hb
  · rw [hk] at hstatement
    cases hstatement
  · rw [hd.2 T hb hin] at hstatement
    cases hstatement

omit ho in
theorem not_guards_above (hd : Direct t s c) {T F : NodeId} (hT : Guards t cut T F)
    (hin : t.Inside T s) : ¬ t.Inside c T := by
  intro h
  have hfree := hd.2 T h hin
  rw [hT.1] at hfree
  cases hfree

theorem calm_above (hd : Direct t s c) (ha : t.Below a c) (hcalm : Calm t cut c a)
    (hsealed : ∀ F, Guards t cut c F → t.Below a F) : Calm t cut s a := by
  intro T F hT hin hb
  rcases ho.below_total ha hb with hcT | hTc
  · rcases SyntaxTree.below_iff_eq_or_inside.1 hcT with rfl | hcT
    · exact hsealed F hT
    · exact absurd hcT (not_guards_above hd hT hin)
  · rcases SyntaxTree.below_iff_eq_or_inside.1 hTc with rfl | hTc
    · exact hsealed F hT
    · exact hcalm T F hT hTc hb

theorem gated_above (hd : Direct t s c) (ha : t.Below a c) (hb : t.Below b c)
    (hgate : Gated t cut c a b) : Gated t cut s a b := by
  rcases hgate with hjump | hgate
  · exact .inl hjump
  refine .inr fun T F hT hin haT => ?_
  rcases ho.below_total ha haT with hcT | hTc
  · rcases SyntaxTree.below_iff_eq_or_inside.1 hcT with rfl | hcT
    · exact .inr hb
    · exact absurd hcT (not_guards_above hd hT hin)
  · rcases SyntaxTree.below_iff_eq_or_inside.1 hTc with rfl | hTc
    · exact .inr hb
    · exact hgate T F hT hTc haT

theorem scoped_above (hc : t.Below c s) {o : Option NodeId} (h : Scoped t c o) : Scoped t s o := by
  cases o with
  | none =>
    obtain ⟨x, hx, hk⟩ := h
    exact ⟨x, ho.below_trans hx hc, hk⟩
  | some sc =>
    rcases h with h | ⟨hin, b, hb, hk, hl⟩
    · exact .inl (ho.below_trans h hc)
    · by_cases hsc : t.Below sc s
      · exact .inl hsc
      · refine .inr ⟨⟨(ho.below_total hin.1 hc).resolve_left hsc, ?_⟩, b, ho.below_trans hb hc, hk, hl⟩
        rintro rfl
        exact hsc (t.below_refl _)

end calm

theorem sealed_of_kind {t : SyntaxTree} {s : NodeId} (k k' : Sketch)
    (hk : t.kind s ≠ .tryStatement) : Sealed t s k k' := fun _ hF => absurd hF.1 hk

theorem isStatement_of_loop {k : SyntaxKind} (h : k.isLoop = true) : k.isStatement = true := by
  revert h
  cases k <;> simp [SyntaxKind.isLoop, SyntaxKind.isStatement]

/-- A loop above a node is the node whose rule visits it, or above that one. -/
theorem Direct.loop_above {t : SyntaxTree} (ho : t.Ordered) {s c l : NodeId} (hd : Direct t s c)
    (hloop : (t.kind l).isLoop = true) (hin : t.Inside c l) : s = l ∨ t.Inside s l := by
  rcases ho.below_total hd.1.1 hin.1 with hsl | hls
  · exact SyntaxTree.below_iff_eq_or_inside.1 hsl
  · rcases SyntaxTree.below_iff_eq_or_inside.1 hls with rfl | hls
    · exact .inl rfl
    · have hfree := hd.2 l hin hls
      rw [isStatement_of_loop hloop] at hfree
      cases hfree

section grown
variable {t : SyntaxTree} {s : NodeId} {k k1 : Sketch}

theorem framed_start (ho : t.Ordered) (kind : InstructionKind) :
    Framed t s k (k.place t (some s) kind) where
  size_lt := by
    rw [size_place]
    omega
  element_old := fun id hid => element_place_of_lt hid
  element_new := by
    intro id hid
    rcases eq_next_of_new hid with rfl | hid
    · exact ⟨s, element_place_next, t.below_refl s⟩
    · exact absurd hid.2 (Nat.not_lt_of_le hid.1)
  edge_old := fun a b h => (edge_place k t (some s) kind a b).2 (.inl h)
  entered := fun a h => (edge_place k t (some s) kind a k.next).2 (.inr ⟨h, rfl⟩)
  origin := by
    intro a b h
    rcases (edge_place k t (some s) kind a b).1 h with h | h
    · exact .old h
    · exact .entering h.1 h.2
  cursor_live := by
    intro x hx
    obtain rfl : k.next = x := Option.some.inj hx
    refine ⟨new_next (Nat.le_refl _) (by rw [size_place]; omega), fun el hel => ?_⟩
    obtain rfl : s = el := Option.some.inj (element_place_next.symm.trans hel)
    exact calm_self ho _ s
  left := ⟨[], (List.append_nil _).symm, fun _ he => by cases he⟩
  truncated_old := fun c hc => hc
  headed := fun _ => element_place_next
  first := by
    intro id hid _
    rcases eq_next_of_new hid with rfl | hid
    · rfl
    · exact absurd hid.2 (Nat.not_lt_of_le hid.1)

/-- The only new instruction after the start of `s` is the one for `s`. -/
theorem wired_start {k' : Sketch} {kind : InstructionKind}
    (hmade : k'.made = (k.place t (some s) kind).made)
    (h : ∀ l, t.kind s = .continueJump → t.enclosingLoop s = some l → Wired t s k k' k.next s l) :
    ∀ a, New k k' a → ∀ c l, k'.element a = some c → t.kind c = .continueJump →
      t.enclosingLoop c = some l → Wired t s k k' a c l := by
  intro a ha c l hc hk hl
  have helement : k'.element = (k.place t (some s) kind).element := by
    funext id
    rw [element, element, hmade]
  have ha' : New k (k.place t (some s) kind) a := ⟨ha.1, by rw [size, ← hmade]; exact ha.2⟩
  rcases eq_next_of_new ha' with rfl | ha'
  · rw [helement, element_place_next] at hc
    obtain rfl : s = c := Option.some.inj hc
    exact h l hk hl
  · exact absurd ha'.2 (Nat.not_lt_of_le ha'.1)

/-- The start of a node that is no `continue`. -/
theorem grown_begin (ho : t.Ordered) (hk : t.kind s ≠ .continueJump) (kind : InstructionKind) :
    Grown t s k (k.place t (some s) kind) :=
  { framed_start ho kind with wired := wired_start rfl fun _ h => absurd h hk }

variable (hG : Grown t s k k1)
include hG

/-- What still waits for a place at or below `s` was made since the visit began. -/
theorem arrivals_live (ho : t.Ordered) {el : NodeId} (hel : t.Below el s) :
    ∀ a ∈ k1.arrivals t (some el), Live t s k k1 a := by
  intro a ha
  rcases (mem_arrivals k1 t (some el) a).1 ha with ha | ⟨e, he, hl, rfl⟩
  · exact hG.cursor_live a ha
  · rcases hG.waits e he with ⟨-, hs⟩ | ⟨hlive, -⟩
    · obtain ⟨sc, hsc, hnot⟩ := lands_iff.1 hl
      exact absurd (ho.below_trans hel (stays_iff.1 hs sc hsc)) hnot
    · exact hlive

theorem exits_live (ho : t.Ordered) {c : NodeId} (hc : t.Inside c s) :
    ∀ a ∈ k1.exits t c, Live t s k k1 a := by
  intro a ha
  rcases (mem_exits k1 t c a).1 ha with ha | ⟨e, he, rfl⟩
  · exact hG.cursor_live a ha
  · obtain ⟨he, hw⟩ := (mem_inner k1 t e c).1 he
    obtain ⟨sc, hsc, hin⟩ := within_iff.1 hw
    rcases hG.waits e he with ⟨-, hs⟩ | ⟨hlive, -⟩
    · exact absurd (ho.below_trans (stays_iff.1 hs sc hsc) hin) (ho.not_below_of_inside hc)
    · exact hlive

theorem grown_place (ho : t.Ordered) {el : NodeId} (hd : Direct t s el)
    (hk : (t.kind el).isStatement = false) (kind : InstructionKind) :
    Grown t s k (k1.place t (some el) kind) := by
  have hlt := hG.size_lt
  have hle := (Later.refl k1).place (t := t) (some el) kind
  have hsize := hle.size_le
  have hnext : New k (k1.place t (some el) kind) k1.next :=
    new_next (Nat.le_of_lt hlt) (by rw [size_place]; omega)
  refine ⟨⟨?_, ?_, ?_, ?_, ?_, ?_, ?_, ?_, ?_, ?_, ?_⟩, ?_⟩
  · omega
  · intro id hid
    rw [hle.element (by omega), hG.element_old id hid]
  · intro id hid
    rcases eq_next_of_new hid with rfl | hid
    · exact ⟨el, element_place_next, hd.1.1⟩
    · rw [hle.element hid.2]
      exact hG.element_new id hid
  · exact fun a b h => (edge_place k1 t (some el) kind a b).2 (.inl (hG.edge_old a b h))
  · exact fun a h => (edge_place k1 t (some el) kind a k.next).2 (.inl (hG.entered a h))
  · intro a b h
    rcases (edge_place k1 t (some el) kind a b).1 h with h | h
    · exact (hG.origin a b h).later hle
    · have hlive := (arrivals_live hG ho hd.1.1 a h.1).later hle
      exact hlive.inside (h.2 ▸ hnext)
  · intro x hx
    obtain rfl : k1.next = x := Option.some.inj hx
    refine ⟨hnext, fun y hy => ?_⟩
    obtain rfl : el = y := Option.some.inj (element_place_next.symm.trans hy)
    exact calm_of_direct hd hk
  · exact hG.left.filter hle (staying_below ho hd.1.1) rfl
  · exact hG.truncated_old
  · exact fun hloop => (hle.element hlt).trans (hG.headed hloop)
  · intro id hid hs
    rcases eq_next_of_new hid with rfl | hid
    · exact absurd (Option.some.inj (element_place_next.symm.trans hs)) hd.1.2
    · exact hG.first id hid ((hle.element hid.2).symm.trans hs)
  · intro a ha c l hc hck hl
    rcases eq_next_of_new ha with rfl | ha
    · obtain rfl : el = c := Option.some.inj (element_place_next.symm.trans hc)
      rw [hck] at hk
      cases hk
    · rw [hle.element ha.2] at hc
      exact (hG.wired a ha c l hc hck hl).later hle

theorem grown_moved {c : Option InstructionId} (hc : ∀ x, c = some x → Live t s k k1 x) :
    Grown t s k (k1.moved c) :=
  { hG with
    origin := fun a b h => (hG.origin a b h).later ((Later.refl k1).moved c)
    left := hG.left.same ((Later.refl k1).moved c) rfl
    cursor_live := hc
    wired := fun a ha x l hx hk hl => (hG.wired a ha x l hx hk hl).later ((Later.refl k1).moved c) }

theorem grown_linked {x : InstructionId} (hx : New k k1 x) {l : List InstructionId}
    (hl : ∀ a ∈ l, Live t s k k1 a) : Grown t s k (k1.linked x l) :=
  { hG with
    edge_old := fun a b h => (edge_linked k1 a b x l).2 (.inl (hG.edge_old a b h))
    entered := fun a h => (edge_linked k1 a k.next x l).2 (.inl (hG.entered a h))
    origin := by
      intro a b h
      rcases (edge_linked k1 a b x l).1 h with h | h
      · exact (hG.origin a b h).later ((Later.refl k1).linked x l)
      · have hlive : Live t s k (k1.linked x l) a := hl a h.1
        exact hlive.inside (h.2 ▸ hx)
    left := hG.left.same ((Later.refl k1).linked x l) rfl
    wired := fun a ha c loop hc hk hloop => (hG.wired a ha c loop hc hk hloop).later ((Later.refl k1).linked x l) }

theorem grown_pended {n : Option NodeId} (hn : Scoped t s n) {l : List InstructionId}
    (hl : ∀ a ∈ l, Live t s k k1 a) : Grown t s k (k1.pended n l) :=
  { hG with
    origin := fun a b h => (hG.origin a b h).later ((Later.refl k1).pended n l)
    left := by
      refine hG.left.append ((Later.refl k1).pended n l) (fun e he => ?_) rfl
      obtain ⟨a, ha, rfl⟩ := List.mem_map.1 he
      exact ⟨hl a ha, hn⟩
    wired := fun a ha c x hc hk hx => (hG.wired a ha c x hc hk hx).later ((Later.refl k1).pended n l) }

theorem grown_drained (ho : t.Ordered) {n : NodeId} (hn : t.Inside n s) :
    Grown t s k (k1.drained t n) :=
  { hG with
    origin := fun a b h => (hG.origin a b h).later ((Later.refl k1).drained n)
    left := by
      refine hG.left.filter ((Later.refl k1).drained n) (p := fun e => !e.within t n) (fun e he => ?_) rfl
      rw [Bool.not_eq_true']
      exact beyond_iff.2 fun sc hsc hb =>
        ho.not_below_of_inside hn (ho.below_trans (stays_iff.1 (mem_staying.1 he).2 sc hsc) hb)
    wired := fun a ha c l hc hk hl => (hG.wired a ha c l hc hk hl).later ((Later.refl k1).drained n) }

theorem grown_rescoped {n : NodeId} {m : Option NodeId} (hm : Scoped t s m)
    (hold : ∀ e ∈ k.pending, e.lands t (some s) = false → e.within t n = false) :
    Grown t s k (k1.rescoped t n m) :=
  { hG with
    origin := fun a b h => (hG.origin a b h).later ((Later.refl k1).rescoped n m)
    left := by
      refine hG.left.flatMap ((Later.refl k1).rescoped n m) (f := fun e => [rescope t n m e])
        (fun e he hs => ?_) (fun e _ hlive hscoped e' he' => ?_) List.map_eq_flatMap
      · rw [rescope, hold e he hs, if_neg Bool.false_ne_true]
      · rw [List.mem_singleton.1 he']
        unfold rescope
        split
        · exact ⟨hlive, hm⟩
        · exact ⟨hlive, hscoped⟩
    wired := fun a ha c l hc hk hl => (hG.wired a ha c l hc hk hl).later ((Later.refl k1).rescoped n m) }

omit hG in
/-- An edge that is pending after a visit was so before, or has been added by it. -/
theorem pending_since {c : NodeId} (hv : Visited t c k k1) {e : PendingEdge} (he : e ∈ k1.pending) :
    e ∈ k.pending ∨ New k k1 e.source ∧ Scoped t c e.scope := by
  rcases hv with rfl | ⟨hG, -⟩
  · exact .inl he
  · rcases hG.waits e he with ⟨hold, -⟩ | ⟨hlive, hscoped⟩
    · exact .inl hold
    · exact .inr ⟨hlive.1, hscoped⟩

omit hG in
/-- What is pending from before a visit of `s` has no scope strictly below `s`. -/
theorem old_not_within (ho : t.Ordered) {n : NodeId} (hn : t.Inside n s) (e : PendingEdge)
    (hs : e.lands t (some s) = false) : e.within t n = false :=
  beyond_iff.2 fun sc hsc hb =>
    ho.not_below_of_inside hn (ho.below_trans (stays_iff.1 hs sc hsc) hb)

theorem grown_settled {fate : PendingEdge → Fate}
    (hold : ∀ e ∈ k.pending, e.lands t (some s) = false → fate e = keep e)
    (htargets : ∀ e ∈ k1.pending, New k k1 e.source → ∀ b ∈ (fate e).targets, New k k1 b)
    (hleft : ∀ e ∈ k1.pending, Live t s k k1 e.source → Scoped t s e.scope →
      ∀ e' ∈ (fate e).left, Live t s k k1 e'.source ∧ Scoped t s e'.scope) :
    Grown t s k (k1.settled fate) :=
  { hG with
    edge_old := fun a b h => (edge_settled k1 a b fate).2 (.inl (hG.edge_old a b h))
    entered := fun a h => (edge_settled k1 a k.next fate).2 (.inl (hG.entered a h))
    origin := by
      intro a b h
      rcases (edge_settled k1 a b fate).1 h with h | ⟨e, he, rfl, hb⟩
      · exact (hG.origin a b h).later ((Later.refl k1).settled fate)
      · rcases hG.waits e he with ⟨h, hs⟩ | ⟨h, -⟩
        · rw [hold e h hs] at hb
          simp [keep] at hb
        · have hlive : Live t s k (k1.settled fate) e.source := h
          exact hlive.inside (htargets e he h.1 b hb)
    left := hG.left.flatMap ((Later.refl k1).settled fate) (f := fun e => (fate e).left)
      (fun e he hs => by rw [hold e he hs, keep]) hleft rfl
    wired := fun a ha c l hc hk hl => (hG.wired a ha c l hc hk hl).later ((Later.refl k1).settled fate) }

/-- A `continue` to a loop at or below `s` stays among the new instructions. -/
theorem jump_inside (hf : Fresh t s k) {l : NodeId} (hloop : (t.kind l).isLoop = true)
    (hin : t.Below l s) {h : InstructionId} (hl : k1.latest l = some h) : New k k1 h := by
  obtain ⟨hlt, hel⟩ := latest_some hl
  refine ⟨Nat.le_of_not_lt fun hold => ?_, hlt⟩
  have hel' := (hG.element_old h hold).symm.trans hel
  exact absurd (t.below_refl l) (hf.bare l hin (isStatement_of_loop hloop) h l hel')

section visited
variable (ho : t.Ordered) {c : NodeId} {k2 : Sketch} (hf : Fresh t s k) (hd : Direct t s c)
include ho hf hd

/-- Where an edge comes from that a visit below `s` has left. -/
theorem origin_visited (hv : Grown t c k1 k2) {a b : InstructionId}
    (h : k2.Edge a b) : Origin t s k k2 a b := by
  have hc := hd.1
  have hle : k.size ≤ k1.size := Nat.le_of_lt hG.size_lt
  have hbelow : ∀ {x el}, New k1 k2 x → k2.element x = some el → t.Below el c := by
    intro x el hx hel
    obtain ⟨y, hy, hb⟩ := hv.element_new x hx
    exact Option.some.inj (hel.symm.trans hy) ▸ hb
  rcases hv.origin a b h with h | ⟨h, hb⟩ | ⟨ha, hb, hgate⟩ | ⟨ha, x, l, hx, hk, hl, hlatest⟩
  · exact (hG.origin a b h).later hv.later
  · have hlive := (arrivals_live hG ho hc.1 a h).later hv.later
    exact hlive.inside (hb ▸ new_next hle hv.size_lt)
  · exact .inside (ha.earlier hle) (hb.earlier hle) fun x y hx hy =>
      gated_above ho hd (hbelow ha hx) (hbelow hb hy) (hgate x y hx hy)
  -- A `continue` goes back to a loop at or below `s`, or to one that was there before.
  · have ha' := ha.earlier hle
    have hel := latest_some hlatest
    obtain ⟨-, hloop, -⟩ := ho.enclosing_loop_above hl
    by_cases hin : t.Below l s
    · refine .inside ha' ((jump_inside hG hf hloop hin hlatest).later hv.later.size_le) fun y z hy hz => ?_
      obtain rfl : x = y := Option.some.inj (hx.symm.trans hy)
      rw [hv.element_old b hel.1, hel.2] at hz
      exact .inl ⟨hk, hl.trans hz⟩
    · refine .jump ha' ⟨x, l, hx, hk, hl, ?_⟩
      rw [← hlatest]
      refine (latest_congr hG.element_old fun id h1 h2 hid => ?_).symm
      obtain ⟨y, hy, hys⟩ := hG.element_new id ⟨h1, h2⟩
      obtain rfl : y = l := Option.some.inj (hy.symm.trans hid)
      exact hin hys

omit hf in
theorem wired_visited (hv : Grown t c k1 k2) {a : InstructionId} (ha : New k k2 a) {x l : NodeId}
    (hx : k2.element a = some x) (hk : t.kind x = .continueJump) (hl : t.enclosingLoop x = some l) :
    Wired t s k k2 a x l := by
  by_cases hold : a.index < k1.size
  · rw [hv.element_old a hold] at hx
    exact (hG.wired a ⟨ha.1, hold⟩ x l hx hk hl).later hv.later
  · have ha' : New k1 k2 a := ⟨Nat.le_of_not_lt hold, ha.2⟩
    rcases hv.wired a ha' x l hx hk hl with h | ⟨header, hel, h⟩ | ⟨hcl, hnot⟩
    · exact .truncated h
    · exact .linked header hel h
    · obtain ⟨hxl, hloop, -⟩ := ho.enclosing_loop_above hl
      have hnot' : ¬ k.Has l := fun h => hnot (hG.later.has h)
      refine .unmade ?_ hnot'
      refine (hd.loop_above ho hloop hcl).resolve_left ?_
      rintro rfl
      exact hnot ⟨k.next, hG.headed hloop⟩

/-- A visit below `s` in the course of a visit of `s`. -/
theorem grown_visited (hv : Visited t c k1 k2) : Grown t s k k2 := by
  rcases hv with rfl | ⟨hv, hsealed⟩
  · exact hG
  have hc := hd.1
  have hlt := hG.size_lt
  have hlt' := hv.size_lt
  have hle : k.size ≤ k1.size := Nat.le_of_lt hlt
  have hbelow : ∀ {x el}, New k1 k2 x → k2.element x = some el → t.Below el c := by
    intro x el hx hel
    obtain ⟨y, hy, hb⟩ := hv.element_new x hx
    exact Option.some.inj (hel.symm.trans hy) ▸ hb
  have hlive : ∀ x, k2.Loose x → Live t c k1 k2 x → Live t s k k2 x := by
    intro x hx hlive
    refine ⟨hlive.1.earlier hle, fun el hel => ?_⟩
    exact calm_above ho hd (hbelow hlive.1 hel) (hlive.2 el hel) fun F hF =>
      hsealed F hF x el hx hlive.1 hel
  exact {
    size_lt := Nat.lt_trans hlt hlt'
    element_old := fun id hid => by rw [hv.element_old id (by omega), hG.element_old id hid]
    element_new := by
      intro id hid
      by_cases h : id.index < k1.size
      · rw [hv.element_old id h]
        exact hG.element_new id ⟨hid.1, h⟩
      · obtain ⟨el, hel, hb⟩ := hv.element_new id ⟨Nat.le_of_not_lt h, hid.2⟩
        exact ⟨el, hel, ho.below_trans hb hc.1⟩
    edge_old := fun a b h => hv.edge_old a b (hG.edge_old a b h)
    entered := fun a h => hv.edge_old a k.next (hG.entered a h)
    origin := fun a b h => origin_visited hG ho hf hd hv h
    cursor_live := fun x hx => hlive x (.inl hx) (hv.cursor_live x hx)
    left := by
      obtain ⟨added, hpending, hadded⟩ := hv.left
      refine hG.left.step hv.later (staying_below ho hc.1) (fun e he => ?_) hpending
      obtain ⟨h, hscoped⟩ := hadded e he
      have hmem : e ∈ k2.pending := hpending ▸ List.mem_append_right _ he
      exact ⟨hlive e.source (.inr ⟨e, hmem, rfl⟩) h, scoped_above ho hc.1 hscoped⟩
    truncated_old := fun x hx => hv.truncated_old x (hG.truncated_old x hx)
    headed := fun hloop => (hv.later.element hlt).trans (hG.headed hloop)
    first := by
      intro id hid hel
      by_cases hold : id.index < k1.size
      · exact hG.first id ⟨hid.1, hold⟩ ((hv.element_old id hold).symm.trans hel)
      · have hb := hbelow ⟨Nat.le_of_not_lt hold, hid.2⟩ hel
        exact absurd hb (ho.not_below_of_inside hc)
    wired := fun a ha x l hx hk hl => wired_visited hG ho hd hv ha hx hk hl }

end visited

/-- The header of a loop is the instruction made last for it. -/
theorem latest_header (hf : Fresh t s k) (hloop : (t.kind s).isLoop = true) :
    k1.latest s = some k.next := by
  cases h : k1.latest s with
  | none => exact absurd ⟨k.next, hG.headed hloop⟩ (not_has_of_latest h)
  | some x =>
    have hnew := jump_inside hG hf hloop (t.below_refl s) h
    rw [hG.first x hnew (latest_some h).2]

end grown

section visits
variable {t : SyntaxTree} (ho : t.Ordered) {s c : NodeId} {k k1 k2 : Sketch}
include ho

/-- Under a fresh node the same lands everywhere. -/
theorem lands_below (hf : Fresh t s k) (hc : t.Below c s) {e : PendingEdge} (he : e ∈ k.pending) :
    e.lands t (some c) = e.lands t (some s) := by
  rw [Bool.eq_iff_iff, lands_iff, lands_iff]
  constructor
  · rintro ⟨sc, hsc, hb⟩
    exact ⟨sc, hsc, fun h => hb (ho.below_trans hc h)⟩
  · rintro ⟨sc, hsc, hb⟩
    refine ⟨sc, hsc, fun h => ?_⟩
    rcases ho.below_total hc h with h | h
    · exact hb h
    · exact hf.unscoped e he sc hsc h

theorem arrivals_below (hf : Fresh t s k) (hc : t.Below c s) (a : InstructionId) :
    a ∈ k.arrivals t (some c) ↔ a ∈ k.arrivals t (some s) := by
  rw [mem_arrivals, mem_arrivals]
  refine or_congr .rfl (exists_congr fun e => and_congr_right fun he => ?_)
  rw [lands_below ho hf hc he]

/-- A visit of a node is a visit of every node directly above it on which nothing has been done. -/
theorem visited_above (hf : Fresh t s k) (hd : Direct t s c)
    (hs : Open t s) (hv : Visited t c k k1) : Visited t s k k1 := by
  rcases hv with rfl | ⟨hv, hsealed⟩
  · exact .inl rfl
  have hc := hd.1.1
  have hbelow : ∀ {x el}, New k k1 x → k1.element x = some el → t.Below el c := by
    intro x el hx hel
    obtain ⟨y, hy, hb⟩ := hv.element_new x hx
    exact Option.some.inj (hel.symm.trans hy) ▸ hb
  have hlive : ∀ x, k1.Loose x → Live t c k k1 x → Live t s k k1 x := fun x hx hlive =>
    ⟨hlive.1, fun el hel => calm_above ho hd (hbelow hlive.1 hel) (hlive.2 el hel) fun F hF =>
      hsealed F hF x el hx hlive.1 hel⟩
  refine .inr ⟨{ hv with
    element_new := ?_, entered := ?_, origin := ?_, cursor_live := ?_, left := ?_,
    headed := ?_, first := ?_, wired := ?_ }, sealed_of_kind k k1 hs.2⟩
  · intro id hid
    obtain ⟨el, hel, hb⟩ := hv.element_new id hid
    exact ⟨el, hel, ho.below_trans hb hc⟩
  · exact fun a ha => hv.entered a ((arrivals_below ho hf hc a).2 ha)
  · intro a b h
    rcases hv.origin a b h with h | ⟨h, hb⟩ | ⟨ha, hb, hgate⟩ | ⟨ha, hj⟩
    · exact .old h
    · exact .entering ((arrivals_below ho hf hc a).1 h) hb
    · exact .inside ha hb fun x y hx hy =>
        gated_above ho hd (hbelow ha hx) (hbelow hb hy) (hgate x y hx hy)
    · exact .jump ha hj
  · exact fun x hx => hlive x (.inl hx) (hv.cursor_live x hx)
  · obtain ⟨added, hpending, hadded⟩ := hv.left
    have hstay : k.staying t c = k.staying t s :=
      List.filter_congr fun e he => congrArg not (lands_below ho hf hc he)
    refine ⟨added, hstay ▸ hpending, fun e he => ?_⟩
    have hmem : e ∈ k1.pending := hpending ▸ List.mem_append_right _ he
    exact ⟨hlive e.source (.inr ⟨e, hmem, rfl⟩) (hadded e he).1, scoped_above ho hc (hadded e he).2⟩
  · intro hloop
    rw [hs.1] at hloop
    cases hloop
  · exact fun id hid hel => absurd (hbelow hid hel) (ho.not_below_of_inside hd.1)
  · intro a ha x l hx hk hl
    rcases hv.wired a ha x l hx hk hl with h | ⟨header, hel, h⟩ | ⟨hcl, hnot⟩
    · exact .truncated h
    · exact .linked header hel h
    · obtain ⟨-, hloop, -⟩ := ho.enclosing_loop_above hl
      refine .unmade ?_ hnot
      refine (hd.loop_above ho hloop hcl).resolve_left ?_
      rintro rfl
      rw [hs.1] at hloop
      cases hloop

theorem Visited.step (hf : Fresh t s k) (hd : Direct t s c) (hs : Open t s)
    (hk : Visited t s k k1) (hv : Visited t c k1 k2) : Visited t s k k2 := by
  rcases hk with rfl | ⟨hk, -⟩
  · exact visited_above ho hf hd hs hv
  · exact .inr ⟨grown_visited hk ho hf hd hv, sealed_of_kind k k2 hs.2⟩

end visits

def Grows (t : SyntaxTree) (V : Visitor) (s : NodeId) : Prop :=
  ∀ k, Fresh t s k → Visited t s k (V s k)

section each
variable {t : SyntaxTree} (ho : t.Ordered) {s : NodeId} {V : Visitor} {k : Sketch}
  {cs : List NodeId} (hV : ∀ c ∈ cs, Grows t V c) (hapart : cs.Pairwise (Apart t))
  (hfresh : ∀ c ∈ cs, Fresh t c k)
include ho hV hapart hfresh

/-- What every visit of a list keeps, the visits of the whole list keep. The nodes of the list lie
apart from each other, so that each is still fresh when its turn comes. -/
theorem each_keeps {P : Sketch → Prop} (hk : P k)
    (hstep : ∀ c ∈ cs, ∀ k, P k → Fresh t c k → P (V c k)) : P (each V cs k) := by
  induction cs generalizing k with
  | nil => exact hk
  | cons c cs ih =>
    obtain ⟨hc, hcs⟩ := List.pairwise_cons.1 hapart
    have hfc := hfresh c (by simp)
    have hv := hV c (by simp) k hfc
    refine ih (fun c' h => hV c' (by simp [h])) hcs (fun c' h => ?_) (hstep c (by simp) k hk hfc)
      fun c' h => hstep c' (by simp [h])
    exact fresh_visited (hfresh c' (by simp [h])) ho hv (apart_symm (hc c' h))

theorem fresh_each {d : NodeId} (hd : Fresh t d k) (haway : ∀ c ∈ cs, Apart t d c) :
    Fresh t d (each V cs k) :=
  each_keeps ho hV hapart hfresh (P := Fresh t d) hd fun c hc k hk hf =>
    fresh_visited hk ho (hV c hc k hf) (haway c hc)

theorem visited_each {k0 : Sketch} (hd : ∀ c ∈ cs, Direct t s c) (hs : Fresh t s k0)
    (hk : Open t s) (hv : Visited t s k0 k) : Visited t s k0 (each V cs k) :=
  each_keeps ho hV hapart hfresh (P := Visited t s k0) hv fun c hc _ hv hf =>
    hv.step ho hs (hd c hc) hk (hV c hc _ hf)

theorem grown_each {k0 : Sketch} (hd : ∀ c ∈ cs, Direct t s c) (hs : Fresh t s k0)
    (hG : Grown t s k0 k) : Grown t s k0 (each V cs k) :=
  each_keeps ho hV hapart hfresh (P := Grown t s k0) hG fun c hc _ hG hf =>
    grown_visited hG ho hs (hd c hc) (hV c hc _ hf)

end each
end PythonFlow.Sketch
