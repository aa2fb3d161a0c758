import PythonFlow.Proofs.Arrival.Pause
import PythonFlow.Proofs.Course.Located

/-!
# Every state in which a node is visited has a sound sketch

The build that sets a mark is never stopped, so it has a sketch, and the mark is in it. Only a visit sets
it, and a visit begins on a sound sketch. So a build that can be stopped just before a visit can be stopped
in a state that a sound sketch describes, and nowhere else.
-/

set_option autoImplicit false

namespace PythonFlow.Sketch
open Build Visit

structure Pictures (t : SyntaxTree) (raised : Bool) (st : BuildState) (k : Sketch) : Prop where
  draws : Draws k st
  in_range : k.InRange t
  raised : st.raised = raised

def cutOff (t : SyntaxTree) (m : NodeId) (noted : List NodeId) (k : Sketch) : Sketch :=
  { k with truncated := m :: noted ++ k.truncated }.start t m

open Classical in
noncomputable def watched (t : SyntaxTree) (n : NodeId) (raised : Bool) (st0 : BuildState) : Nat → Visitor
  | 0, m, k =>
    if m = n ∧ Pictures t raised st0 k then cutOff t m [markNode t] k else cutOff t m [] k
  | levels + 1, m, k =>
    if m = n ∧ Pictures t raised st0 k then cutOff t m [markNode t] k
    else dispatch t (watched t n raised st0 levels) m k

section yields
variable {t : SyntaxTree} {n m : NodeId} {r : Bool} {st st0 : BuildState} {k : Sketch}

theorem looks_iff (hd : Draws k st) (hin : k.InRange t) (hr : st.raised = r) :
    Looks st st0 ↔ Pictures t r st0 k := by
  constructor
  · intro h
    exact ⟨⟨h.labels.symm.trans hd.labels, fun a => (h.successors a).symm.trans (hd.successors a),
      fun b => (h.predecessors b).symm.trans (hd.predecessors b), h.pending.symm.trans hd.pending,
      h.cursor.symm.trans hd.cursor, h.truncated.symm.trans hd.truncated⟩, hin, h.raised.symm.trans hr⟩
  · intro h
    exact ⟨hd.labels.trans h.draws.labels.symm, fun a => (hd.successors a).trans (h.draws.successors a).symm,
      fun b => (hd.predecessors b).trans (h.draws.predecessors b).symm,
      hd.pending.trans h.draws.pending.symm, hd.cursor.trans h.draws.cursor.symm,
      hd.truncated.trans h.draws.truncated.symm, hr.trans h.raised.symm⟩

theorem yields_marking (hm : m.index < t.size) :
    Yields t r (marking t m) k () (cutOff t m [markNode t] k) :=
  Yields.bind (yields_recorded (markNode t)) fun _ _ _ => yields_truncate hm

/-- The build notices where its sketch does. -/
theorem yields_noticing_hit (hm : m.index < t.size) {p : Build Unit} (h : m = n ∧ Pictures t r st0 k) :
    Yields t r (noticing t n st0 m p) k () (cutOff t m [markNode t] k) := by
  intro hin
  obtain ⟨hkept, hrun⟩ := yields_marking (r := r) hm hin
  refine ⟨hkept, fun st hd hr => ?_⟩
  rw [run_noticing_hit st0 ⟨h.1, (looks_iff hd hin hr).2 h.2⟩]
  exact hrun st hd hr

theorem yields_noticing_miss {p : Build Unit} {k' : Sketch} (h : ¬ (m = n ∧ Pictures t r st0 k))
    (hp : Yields t r p k () k') : Yields t r (noticing t n st0 m p) k () k' := by
  intro hin
  obtain ⟨hkept, hrun⟩ := hp hin
  refine ⟨hkept, fun st hd hr => ?_⟩
  rw [run_noticing_miss st0 fun hhit => h ⟨hhit.1, (looks_iff hd hin hr).1 hhit.2⟩]
  exact hrun st hd hr

/-- The build that notices does what its sketch says, at every depth. -/
theorem follows_watch (ho : t.Ordered) (s : Setting) (ht : s.tree = t)
    (hr : (s.cancellable && r) = false) (levels : Nat) :
    Follows t r (watch s n st0 levels) (watched t n r st0 levels) := by
  classical
  subst ht
  induction levels with
  | zero =>
    intro m hm k
    rw [watch, watched]
    split
    · next hhit => exact yields_noticing_hit hm hhit
    · next hmiss =>
      exact yields_noticing_miss hmiss (Yields.bind (yields_enter s hr hm) fun _ _ _ => yields_truncate hm)
  | succ levels ih =>
    intro m hm k
    rw [watch, watched]
    split
    · next hhit => exact yields_noticing_hit hm hhit
    · next hmiss =>
      exact yields_noticing_miss hmiss
        (Yields.bind (yields_enter s hr hm) fun _ _ _ => yields_dispatch ho ih hm)

end yields

section marks
variable {t : SyntaxTree} {V : Visitor} {s : NodeId} {plan R : List NodeId} {k k1 : Sketch} {a : NodeId}
  {P : Prop}

/-- Only the visits of a course record what is cut off. -/
theorem Course.recorded (hr : Ready t V s plan k) (hk : Sourced k)
    (hV : ∀ c ∈ plan, ∀ k, Sound t c k → a ∈ (V c k).truncated → a ∈ k.truncated ∨ P)
    (h : Course t V s plan k R k1) (ha : a ∈ k1.truncated) : a ∈ k.truncated ∨ P := by
  induction h with
  | start => exact .inl ha
  | visit h ih =>
    rcases hV _ h.head_mem _ (h.sound hr hk) ha with hold | hP
    · exact ih hold
    · exact .inr hP
  | place h hsite ih => exact ih ha
  | moved h hc ih => exact ih ha
  | linked h hl hx hat ih => exact ih ha
  | pended h ho hl ih => exact ih ha
  | drained h hn ih => exact ih ha
  | rescoped h hn ho ih => exact ih ha

variable (hg : t.Grammatical) {n m : NodeId} {r : Bool} {st0 : BuildState}
include hg

theorem grows_watched (levels : Nat) (m : NodeId) : Grows t (watched t n r st0 levels) m := by
  classical
  have hcut : ∀ noted m k, Visited t m k (cutOff t m noted k) := fun noted m k =>
    visited_cut hg m k List.mem_cons_self fun c hc => List.mem_append_right _ hc
  induction levels generalizing m with
  | zero =>
    intro k _
    rw [watched]
    split
    · exact hcut _ m k
    · exact hcut _ m k
  | succ levels ih =>
    intro k hf
    rw [watched]
    split
    · exact hcut _ m k
    · exact grows_dispatch hg (fun c _ => ih c) k hf

omit hg in
theorem mark_ne (hm : m.index < t.size) : markNode t ≠ m := by
  rintro rfl
  exact Nat.lt_irrefl _ hm

theorem index_lt_of_followed {c : NodeId} (hc : c ∈ t.followed s) : c.index < t.size := by
  rcases SyntaxTree.followed_cases hc with hc | ⟨p, -, -, hc⟩
  · exact hg.ordered.index_lt_size_of_mem hc
  · exact hg.ordered.index_lt_size_of_mem hc

/-- Where the mark is set, `n` is visited on a sketch that describes the state. -/
theorem mark_watched (levels : Nat) (hm : m.index < t.size) (hk : Sound t m k)
    (h : markNode t ∈ (watched t n r st0 levels m k).truncated) :
    markNode t ∈ k.truncated ∨ ∃ k0, Sound t n k0 ∧ Pictures t r st0 k0 := by
  classical
  induction levels generalizing m k with
  | zero =>
    rw [watched] at h
    split at h
    · next hhit => exact .inr ⟨k, hhit.1 ▸ hk, hhit.2⟩
    · exact .inl ((List.mem_cons.1 h).resolve_left (mark_ne hm))
  | succ levels ih =>
    rw [watched] at h
    split at h
    · next hhit => exact .inr ⟨k, hhit.1 ▸ hk, hhit.2⟩
    · have hV : ∀ c, t.Inside c m → Grows t (watched t n r st0 levels) c := fun c _ =>
        grows_watched hg levels c
      obtain ⟨k1, hcourse, -, htruncated, -⟩ := course_dispatch hg hV hk
      rw [htruncated] at h
      exact hcourse.recorded (ready_of_grows hg hV hk) hk.sourced
        (fun c hc k' hk' => ih (index_lt_of_followed hg hc) hk') h

end marks

section owner
variable {s : Setting} {owner n : NodeId} {r : Bool} {st : BuildState}

noncomputable def watchedOwner (s : Setting) (owner n : NodeId) (r : Bool) (st0 : BuildState) : Sketch :=
  each (watched s.tree n r st0 s.maxDepth) (s.tree.children owner) (opening s.tree)

theorem mark_watched_owner (hg : s.tree.Grammatical)
    (h : markNode s.tree ∈ (watchedOwner s owner n r st).truncated) :
    ∃ k, Sound s.tree n k ∧ Pictures s.tree r st k := by
  have hr : Ready s.tree (watched s.tree n r st s.maxDepth) owner (s.tree.children owner) (opening s.tree) :=
    ready_opening_of_grows hg fun c _ => grows_watched hg s.maxDepth c
  have hcourse : Course s.tree (watched s.tree n r st s.maxDepth) owner (s.tree.children owner)
      (opening s.tree) [] (watchedOwner s owner n r st) := Course.all .start
  rcases hcourse.recorded hr (sourced_opening s.tree) (fun c hc k hk =>
    mark_watched hg s.maxDepth (hg.ordered.index_lt_size_of_mem hc) hk) h with hold | hmet
  · cases hold
  · exact hmet

theorem run_follow_owner {entering : Visit.Visitor} (hin : owner.index < s.tree.size)
    (howner : (s.tree.kind owner).isOwner = true) (st : BuildState) :
    (followOwner s entering owner).run st =
      (visitChildren s.tree (follow s entering s.maxDepth) owner).run st := by
  rw [followOwner, run_bind, (SyntaxTree.require_ok _ _).2 hin, run_check, if_pos howner]
  rfl

/-- The end of a build is not cancelled. -/
theorem run_finish_ne {k : Sketch} {t : SyntaxTree} (entry : InstructionId) (hin : k.InRange t)
    (hd : Draws k st) : ((finish t owner entry).run st).1 ≠ .error .cancelled := by
  have hfinish : Yields t st.raised (addNode t none .plain) k k.next (k.place t none .plain) :=
    yields_add_node fun x hx => by cases hx
  obtain ⟨st', hrun, -⟩ := (hfinish hin).2 st hd rfl
  rw [finish, run_bind_ok _ hrun]
  exact fun h => by cases h

/-- A state in which a build comes to a node is described by a sketch on which a visit may begin. -/
theorem pictured_of_reached (hg : s.tree.Grammatical) (hr : (s.cancellable && r) = false)
    (hin : owner.index < s.tree.size) (howner : (s.tree.kind owner).isOwner = true)
    (h : Reached s owner n r st) : ∃ k, Sound s.tree n k ∧ Pictures s.tree r st k := by
  obtain ⟨stop, hstop⟩ := h
  have hopening : Yields s.tree r (addNode s.tree none .plain) blank blank.next (opening s.tree) :=
    yields_add_node fun x hx => by cases hx
  have howned : Yields s.tree r (visitChildren s.tree (watch s n st s.maxDepth) owner) (opening s.tree) ()
      (watchedOwner s owner n r st) :=
    yields_children hg.ordered (follows_watch hg.ordered s rfl hr s.maxDepth)
  obtain ⟨⟨hin1, -⟩, hrun1⟩ := hopening (in_range_blank s.tree)
  obtain ⟨st1, h1, hd1, hr1⟩ := hrun1 (BuildState.initial r).cleared (draws_blank r) rfl
  obtain ⟨⟨hin2, -⟩, hrun2⟩ := howned hin1
  obtain ⟨st2, h2, hd2, -⟩ := hrun2 st1 hd1 hr1
  have hshadows : Shadows (markNode s.tree) st
      (visitChildren s.tree (follow s (pausing s n stop) s.maxDepth) owner)
      (visitChildren s.tree (watch s n st s.maxDepth) owner) :=
    (respects_shadows _ st).children (shadows_follow stop st s.maxDepth) owner
  have hfirst := hshadows.either st1
  rw [run_build, afterClear, run_bind_ok _ h1, run_bind, run_visit_owner_with (at_level_pausing s n stop),
    run_follow_owner hin howner] at hstop
  rw [h2] at hfirst
  rcases hfirst with hmark | heq | ⟨hcut, hother⟩
  · rw [hd2.truncated] at hmark
    exact mark_watched_owner hg hmark
  · -- The build that stops would have come to its end.
    rw [← heq] at hstop
    have hcounted : Draws (watchedOwner s owner n r st) { st2 with depth := 0 } :=
      ⟨hd2.labels, hd2.successors, hd2.predecessors, hd2.pending, hd2.cursor, hd2.truncated⟩
    exact absurd (congrArg Prod.fst hstop) (run_finish_ne _ hin2 hcounted)
  · -- It was stopped in the very state that is asked for.
    cases hrun : (visitChildren s.tree (follow s (pausing s n stop) s.maxDepth) owner).run st1 with
    | mk outcome st' =>
      rw [hrun] at hstop hcut hother
      obtain rfl : outcome = .error .cancelled := hcut
      obtain rfl : { st' with depth := 0 } = st := congrArg Prod.snd hstop
      exact absurd ⟨rfl, fun _ => rfl, fun _ => rfl, rfl, rfl, rfl, rfl⟩ hother

end owner
end PythonFlow.Sketch
