import PythonFlow.Proofs.Frame.Steps

/-!
# The frame of the rules

Each rule leaves a frame if the visits below the node do. A rule visits parts that lie apart from
each other, so that every part is still fresh when its turn comes; what the rule does itself between
these visits is done at the node, at a part about to be visited, or at a clause.
-/

set_option autoImplicit false

namespace PythonFlow.Sketch
variable {t : SyntaxTree} {s : NodeId} {V : Visitor} {k k0 : Sketch}

section parts
variable (ho : t.Ordered) {c d : NodeId}
include ho

theorem inside_of_mem (hc : c ∈ t.children s) : t.Inside c s := ho.inside_parent (ho.parent_of_mem hc)

theorem apart_of_ne (hc : c ∈ t.children s) (hd : d ∈ t.children s) (hne : c ≠ d) : Apart t c d :=
  apart_of_siblings ho (ho.parent_of_mem hc) (ho.parent_of_mem hd) hne

theorem apart_children {cs : List NodeId} (hnodup : cs.Nodup) (hcs : ∀ c ∈ cs, c ∈ t.children s) :
    cs.Pairwise (Apart t) :=
  List.Pairwise.imp_of_mem (fun ha hb hne => apart_of_ne ho (hcs _ ha) (hcs _ hb) hne) hnodup

omit ho in
theorem not_below_of_apart (h : Apart t d c) : ¬ t.Below c d := fun hb => h c hb (t.below_refl c)

theorem fresh_elsewhere {el : NodeId} (hf : Fresh t d k) (h : ¬ t.Below el d)
    (kind : InstructionKind) : Fresh t d (k.place t (some el) kind) :=
  fresh_place hf fun _ hT _ hb => h (ho.below_trans hb hT)

theorem fresh_entry (hf : Fresh t d k) (h : (t.kind d).isStatement = false)
    (kind : InstructionKind) : Fresh t d (k.place t (some d) kind) := by
  refine fresh_place hf fun T hT hstatement hb => ?_
  rw [ho.below_antisymm hT hb, h] at hstatement
  cases hstatement

theorem fresh_started (hf : Fresh t s k) (hd : t.Inside d s) (kind : InstructionKind) :
    Fresh t d (k.place t (some s) kind) :=
  fresh_elsewhere ho (fresh_below ho hf hd.1) (ho.not_below_of_inside hd) kind

/-- A child is fresh when the statement itself has been placed. -/
theorem fresh_child (hf : Fresh t s k) (hc : c ∈ t.children s) : Fresh t c (k.start t s) :=
  fresh_started ho hf (inside_of_mem ho hc) .plain

end parts

theorem cursor_lt {c : NodeId} (hv : Visited t c k k0)
    (hk : ∀ x, k.cursor = some x → x.index < k.size) : ∀ a ∈ k0.cursor.toList, a.index < k0.size := by
  intro a ha
  rw [Option.mem_toList] at ha
  rcases hv with rfl | ⟨hv, -⟩
  · exact hk a ha
  · exact (hv.cursor_live a ha).1.2

theorem scoped_self (t : SyntaxTree) (s : NodeId) : Scoped t s (some s) := .inl (t.below_refl s)

theorem live_cursor (hG : Grown t s k0 k) : ∀ a ∈ k.cursor.toList, Live t s k0 k a := fun a ha =>
  hG.cursor_live a (Option.mem_toList.1 ha)

/-- The entry of a clause and the visit of it. -/
theorem grown_entered (ho : t.Ordered) (hs : Fresh t s k0) (hG : Grown t s k0 k) {c : NodeId}
    (hd : Direct t s c) (hk : (t.kind c).isStatement = false) (hf : Fresh t c k)
    (hV : Grows t V c) (kind : InstructionKind) :
    Grown t s k0 (V c (k.place t (some c) kind)) :=
  grown_visited (grown_place hG ho hd hk kind) ho hs hd (hV _ (fresh_entry ho hf hk kind))

/-- A rule that does not end in a `try` statement keeps nothing back. -/
theorem visited_of_grown (hk : t.kind s ≠ .tryStatement) (hG : Grown t s k0 k) :
    Visited t s k0 k := .inr ⟨hG, sealed_of_kind k0 k hk⟩

section simple
variable (hg : t.Grammatical)
include hg

theorem grown_definition (hk : t.kind s ≠ .continueJump) : Grown t s k (definition t s k) := by
  unfold definition
  cases t.name s with
  | none => exact grown_begin hg.ordered hk .plain
  | some name => exact grown_begin hg.ordered hk (.write name)

theorem visited_children (hf : Fresh t s k) (hV : ∀ c, t.Inside c s → Grows t V c)
    (hk : Open t s) {cs : List NodeId} (hnodup : cs.Nodup)
    (hcs : ∀ c ∈ cs, c ∈ t.children s) : Visited t s k (each V cs k) := by
  have hin : ∀ c ∈ cs, t.Inside c s := fun c hc => inside_of_mem hg.ordered (hcs c hc)
  exact visited_each hg.ordered (fun c hc => hV c (hin c hc))
    (apart_children hg.ordered hnodup hcs) (fun c hc => fresh_below hg.ordered hf (hin c hc).1)
    (fun c hc => direct_child hg.ordered (hcs c hc)) hf hk (.inl rfl)

theorem grown_sequence (hf : Fresh t s k) (hV : ∀ c, t.Inside c s → Grows t V c)
    (hk : t.kind s ≠ .continueJump) {cs : List NodeId} (hnodup : cs.Nodup)
    (hcs : ∀ c ∈ cs, c ∈ t.children s) : Grown t s k (sequence t V s cs k) := by
  have hin : ∀ c ∈ cs, t.Inside c s := fun c hc => inside_of_mem hg.ordered (hcs c hc)
  exact grown_each hg.ordered (fun c hc => hV c (hin c hc))
    (apart_children hg.ordered hnodup hcs) (fun c hc => fresh_started hg.ordered hf (hin c hc) .plain)
    (fun c hc => direct_child hg.ordered (hcs c hc)) hf (grown_begin hg.ordered hk .plain)

theorem visited_binding (hf : Fresh t s k) (hV : ∀ c, t.Inside c s → Grows t V c)
    (hk : (t.kind s).isStatement = false) : Visited t s k (binding t V s k) := by
  unfold binding
  cases t.name s with
  | none => exact visited_children hg hf hV (open_of_plain hk) (hg.ordered.children_nodup s) fun c hc => hc
  | some name =>
    have hstart := grown_begin (k := k) hg.ordered (s := s) ?_ (.write name)
    · refine visited_of_grown ?_ hstart
      intro h
      rw [h] at hk
      cases hk
    · intro h
      rw [h] at hk
      cases hk

theorem grown_leaving (hf : Fresh t s k) (hV : ∀ c, t.Inside c s → Grows t V c)
    (hk : t.kind s = .returnExit ∨ t.kind s = .raiseExit) : Grown t s k (leaving t V s k) := by
  have hjump : t.kind s ≠ .continueJump := by
    intro h
    rw [h] at hk
    rcases hk with hk | hk <;> cases hk
  have hG := grown_sequence hg hf hV hjump (hg.ordered.children_nodup s) fun c hc => hc
  have hnone : Scoped t s none := ⟨s, t.below_refl s, hk⟩
  have hrescoped := grown_rescoped hG hnone fun e he hs => beyond_iff.2 fun sc hsc =>
    hf.unscoped e he sc hsc
  exact grown_moved (grown_pended hrescoped hnone (live_cursor hrescoped)) (by simp)

theorem grown_break (hk : t.kind s = .breakJump) : Grown t s k (breakJump t s k) := by
  have hG := grown_begin (k := k) hg.ordered (s := s) (by simp [hk]) .plain
  unfold breakJump
  cases h : t.enclosingLoop s with
  | none => exact hG
  | some l =>
    have habove := (hg.ordered.enclosing_loop_above h).1
    have hscoped : Scoped t s (some l) := .inr ⟨habove, s, t.below_refl s, hk, h⟩
    exact grown_moved (grown_pended hG hscoped fun a ha =>
      List.mem_singleton.1 ha ▸ hG.cursor_live k.next rfl) (by simp)

omit hg in
theorem latest_started {l : NodeId} (hl : t.Inside s l) (kind : InstructionKind) :
    (k.place t (some s) kind).latest l = k.latest l := by
  refine latest_congr (fun id hid => element_place_of_lt hid)
    fun id h1 h2 hid => ?_
  rcases eq_next_of_new ⟨h1, h2⟩ with rfl | hnew
  · have heq : s = l := Option.some.inj (element_place_next.symm.trans hid)
    exact hl.2 heq
  · exact absurd hnew.2 (Nat.not_lt_of_le h1)

theorem grown_continue (hk : t.kind s = .continueJump) : Grown t s k (continueJump t s k) := by
  have hstart := framed_start (k := k) hg.ordered (s := s) .plain
  unfold continueJump
  cases h : (t.enclosingLoop s).bind (k.start t s).latest with
  | none =>
    refine { hstart with wired := wired_start rfl fun l _ hl => ?_ }
    have hin := (hg.ordered.enclosing_loop_above hl).1
    rw [hl, Option.bind_some, start, latest_started hin] at h
    exact .unmade hin (not_has_of_latest h)
  | some header =>
    obtain ⟨l, hl, hlatest⟩ := Option.bind_eq_some_iff.1 h
    have hheader := latest_some hlatest
    have hself : (k.start t s).element k.next = some s := element_place_next
    rw [start, latest_started (hg.ordered.enclosing_loop_above hl).1] at hlatest
    have hedge : ∀ {a b}, ((k.start t s).linked header [k.next]).Edge a b ↔
        (k.start t s).Edge a b ∨ a = k.next ∧ b = header := by
      simp
    have horigin : ∀ a b, ((k.start t s).linked header [k.next]).Edge a b →
        Origin t s k ((k.start t s).linked header [k.next]) a b := by
      intro a b hab
      rcases hedge.1 hab with hab | ⟨rfl, rfl⟩
      · exact (hstart.origin a b hab).later ((Later.refl _).linked _ _)
      · exact .jump (hstart.cursor_live k.next rfl).1 ⟨s, l, hself, hk, hl, hlatest⟩
    have hlinked : Grown t s k ((k.start t s).linked header [k.next]) := { hstart with
      edge_old := fun a b h => hedge.2 (.inl (hstart.edge_old a b h))
      entered := fun a h => hedge.2 (.inl (hstart.entered a h))
      origin := horigin
      left := hstart.left.same ((Later.refl _).linked _ _) rfl
      wired := wired_start rfl fun l' _ hl' => by
        obtain rfl : l = l' := Option.some.inj (hl.symm.trans hl')
        exact .linked header hheader.2 (hedge.2 (.inr ⟨rfl, rfl⟩)) }
    exact grown_moved hlinked (by simp)

end simple
end PythonFlow.Sketch
