import PythonFlow.Proofs.Build.History

/-!
# The states in which a node is visited

A build that is stopped on the way into a node shows the state in which the node would have been visited.
What is known of a build that runs to its end has to be carried over to one that is stopped. For that it is
laid beside a build that goes the same way and is never stopped: where the other one may stop, it sets a
mark and goes no deeper. Once it has set the mark the two may part, and until then they do the same.
-/

set_option autoImplicit false

namespace PythonFlow
open Build

namespace Build
variable {α β : Type} {P : BuildState → Prop}

def Keeps (P : BuildState → Prop) (p : Build α) : Prop := ∀ st, P st → P (p.run st).2

theorem Keeps.bind {p : Build α} {f : α → Build β} (hp : Keeps P p) (hf : ∀ a, Keeps P (f a)) :
    Keeps P (p >>= f) := by
  intro st h
  have hfirst := hp st h
  rw [run_bind]
  cases hrun : p.run st with
  | mk outcome st' =>
    rw [hrun] at hfirst
    cases outcome with
    | error e => exact hfirst
    | ok a => exact hf a st' hfirst

/-- The rules keep what is said of the flag and of the records of truncated subtrees. -/
theorem respects_keeps (hP : ∀ st st' : BuildState, st'.raised = st.raised →
    st'.truncated = st.truncated → P st → P st') : Respects fun _ p _ => Keeps P p := by
  have hlocal : ∀ {α : Type} {p : Build α}, Local p → Keeps P p := fun h st =>
    hP st _ (h.raised st) (h.truncated st)
  exact {
    pure := fun a => hlocal (respects_local.pure a)
    bind := Keeps.bind
    fail := fun e => hlocal (respects_local.fail e)
    cursor := hlocal respects_local.cursor
    set_cursor := fun c => hlocal (respects_local.set_cursor c)
    create := fun el kind => hlocal (respects_local.create el kind)
    add_edge := fun a b => hlocal (respects_local.add_edge a b)
    add_pending := fun n c => hlocal (respects_local.add_pending n c)
    take_part := fun f => hlocal (respects_local.take_part f)
    take_all := hlocal respects_local.take_all
    element_of := fun id => hlocal (respects_local.element_of id)
    latest := fun el => hlocal (respects_local.latest el) }

/-- The mark: a node that is not in the tree. -/
def markNode (t : SyntaxTree) : NodeId := ⟨t.size⟩

/-- The states differ at most in what the visitor counts. -/
structure Looks (st st' : BuildState) : Prop where
  labels : st.graph.labels = st'.graph.labels
  successors : ∀ a, st.graph.successors a = st'.graph.successors a
  predecessors : ∀ b, st.graph.predecessors b = st'.graph.predecessors b
  pending : st.pending = st'.pending
  cursor : st.cursor = st'.cursor
  truncated : st.truncated = st'.truncated
  raised : st.raised = st'.raised

/-- The second step ends with the mark, or it does what the first does, or the first was cancelled in
another state than `st0`. -/
structure Shadows (a : NodeId) (st0 : BuildState) (p q : Build α) : Prop where
  keeps : Keeps (fun st => a ∈ st.truncated) q
  either : ∀ st, a ∈ (q.run st).2.truncated ∨ q.run st = p.run st ∨
    (p.run st).1 = .error .cancelled ∧ ¬ Looks (p.run st).2 st0

variable {a : NodeId} {st0 : BuildState}

theorem Shadows.bind {p q : Build α} {f g : α → Build β} (hp : Shadows a st0 p q)
    (hf : ∀ x, Shadows a st0 (f x) (g x)) : Shadows a st0 (p >>= f) (q >>= g) := by
  refine ⟨hp.keeps.bind fun x => (hf x).keeps, fun st => ?_⟩
  rw [run_bind, run_bind]
  have hfirst := hp.either st
  cases hq : q.run st with
  | mk outcome st' =>
    rw [hq] at hfirst
    rcases hfirst with hmark | heq | ⟨hcut, hother⟩
    · refine .inl ?_
      cases outcome with
      | error e => exact hmark
      | ok x => exact (hf x).keeps st' hmark
    · rw [← heq]
      cases outcome with
      | error e => exact .inr (.inl rfl)
      | ok x => exact (hf x).either st'
    · refine .inr (.inr ?_)
      cases hrun : p.run st with
      | mk outcome' st'' =>
        rw [hrun] at hcut hother
        obtain rfl : outcome' = .error .cancelled := hcut
        exact ⟨rfl, hother⟩

/-- A step that keeps the mark goes with itself. -/
theorem Keeps.shadows {p : Build α} (h : Keeps (fun st => a ∈ st.truncated) p) : Shadows a st0 p p :=
  ⟨h, fun _ => .inr (.inl rfl)⟩

theorem respects_marked (a : NodeId) : Respects fun _ p _ => Keeps (fun st => a ∈ st.truncated) p :=
  respects_keeps fun _ _ _ htruncated h => htruncated ▸ h

theorem respects_shadows (a : NodeId) (st0 : BuildState) : Respects fun _ => Shadows a st0 where
  pure x := ((respects_marked a).pure x).shadows
  bind := Shadows.bind
  fail e := ((respects_marked a).fail e).shadows
  cursor := (respects_marked a).cursor.shadows
  set_cursor c := ((respects_marked a).set_cursor c).shadows
  create el kind := ((respects_marked a).create el kind).shadows
  add_edge x y := ((respects_marked a).add_edge x y).shadows
  add_pending n c := ((respects_marked a).add_pending n c).shadows
  take_part f := ((respects_marked a).take_part f).shadows
  take_all := (respects_marked a).take_all.shadows
  element_of id := ((respects_marked a).element_of id).shadows
  latest el := ((respects_marked a).latest el).shadows

end Build

namespace Visit

/-- Stops the build on the way into `n`, in the states in which it is told to. What the visitor counts is
left out of what it is told. -/
def pausing (s : Setting) (n : NodeId) (stop : BuildState → Bool) (m : NodeId) : Build Unit := do
  let st ← get
  if m == n && stop { st with depth := 0 } then throw .cancelled
  enter s m

/-- In the build of the owner the state comes up just before `n` is visited: the build can be stopped
there in this state. Its count of levels has been taken back to zero. -/
def Reached (s : Setting) (owner n : NodeId) (raised : Bool) (st : BuildState) : Prop :=
  ∃ stop, (Build.build s.tree (visitOwnerWith s (pausing s n stop)) owner).run (.initial raised) =
    (.error .cancelled, st)

def marking (t : SyntaxTree) (m : NodeId) : Build Unit := do
  modify fun st => { st with truncated := markNode t :: st.truncated }
  truncate t m

open Classical in
noncomputable def noticing (t : SyntaxTree) (n : NodeId) (st0 : BuildState) (m : NodeId) (p : Build Unit) :
    Build Unit := do
  let st ← get
  if m = n ∧ Looks st st0 then marking t m else p

/-- Visits as `follow` does, but notices where `n` is visited in a state that looks as `st0`. -/
noncomputable def watch (s : Setting) (n : NodeId) (st0 : BuildState) : Nat → NodeId → Build Unit
  | 0, m => noticing s.tree n st0 m do
    enter s m
    truncate s.tree m
  | levels + 1, m => noticing s.tree n st0 m do
    enter s m
    dispatch s.tree (watch s n st0 levels) m

variable (s : Setting) (n : NodeId) (stop : BuildState → Bool) (st0 : BuildState)

theorem run_pausing (m : NodeId) (st : BuildState) : (pausing s n stop m).run st =
    if m == n && stop { st with depth := 0 } then (.error .cancelled, st) else (enter s m).run st := by
  have hrun : (pausing s n stop m).run st = (if m == n && stop { st with depth := 0 } then
      throw .cancelled >>= fun _ : Unit => enter s m else enter s m : Build Unit).run st := rfl
  rw [hrun]
  split <;> rfl

theorem pausing_never : pausing s n (fun _ => false) = enter s := by
  funext m
  refine ExceptT.ext (funext fun st => ?_)
  have hrun := run_pausing s n (fun _ => false) m st
  rw [Bool.and_false, if_neg Bool.false_ne_true] at hrun
  exact hrun

theorem at_level_pausing (d : Nat) (m : NodeId) :
    AtLevel d (pausing s n stop m) (pausing s n stop m) := by
  intro st
  rw [run_pausing, run_pausing]
  split
  · rfl
  · exact at_level_enter s d m st

section keeps
variable {s} {P : BuildState → Prop} {m : NodeId}

/-- Entering a node changes nothing. -/
theorem keeps_enter : Keeps P (enter s m) := by
  refine Keeps.bind (fun st h => ?_) fun _ => ?_
  · rw [run_check]
    exact h
  · split
    · intro st h
      rw [run_checkpoint]
      exact h
    · exact fun _ h => h

theorem keeps_pausing : Keeps P (pausing s n stop m) := by
  intro st h
  rw [run_pausing]
  split
  · exact h
  · exact keeps_enter st h

theorem keeps_truncate (hP : ∀ st st' : BuildState, st'.raised = st.raised →
    st.truncated ⊆ st'.truncated → P st → P st') (t : SyntaxTree) (m : NodeId) :
    Keeps P (truncate t m) := by
  have hnote : Keeps P (modify fun st => { st with truncated := m :: st.truncated } : Build Unit) :=
    fun st => hP st _ rfl (List.subset_cons_self m _)
  have hrules : Respects fun _ p _ => Keeps P p := respects_keeps fun st st' hraised htruncated =>
    hP st st' hraised (htruncated ▸ List.Subset.refl _)
  exact hnote.bind fun _ => Keeps.bind (hrules.start_node m) fun _ => hrules.unit

/-- The flag stays as it is in a build that is stopped. -/
theorem Reached.raised {owner : NodeId} {raised : Bool} {st : BuildState}
    (h : Reached s owner n raised st) : st.raised = raised := by
  obtain ⟨stop, hrun⟩ := h
  have hrules : Respects fun _ p _ => Keeps (fun st => st.raised = raised) p :=
    respects_keeps fun _ _ hraised _ h => hraised.trans h
  have hfollow : Keeps (fun st => st.raised = raised) (followOwner s (pausing s n stop) owner) :=
    @follow_owner_respects _ hrules s s rfl rfl (pausing s n stop) (pausing s n stop)
      (fun m => keeps_pausing n stop)
      (fun m => keeps_truncate (fun _ _ hraised _ h => hraised.trans h) s.tree m) owner
  have hvisit : Keeps (fun st => st.raised = raised) (visitOwnerWith s (pausing s n stop) owner) := by
    intro st h
    rw [run_visit_owner_with (at_level_pausing s n stop)]
    exact hfollow st h
  have hafter : Keeps (fun st => st.raised = raised)
      (afterClear s.tree (visitOwnerWith s (pausing s n stop)) owner) := by
    have hnode : Keeps (fun st => st.raised = raised) (addNode s.tree none .plain) :=
      hrules.add_node s.tree none .plain
    refine hnode.bind fun entry => hvisit.bind fun _ => hnode.bind fun exit => ?_
    exact fun _ h => h
  have hend := hafter (BuildState.initial raised).cleared rfl
  rw [← run_build, hrun] at hend
  exact hend

end keeps

section shadows
variable {s n}

theorem run_noticing_hit {t : SyntaxTree} {m : NodeId} {p : Build Unit} {st : BuildState}
    (h : m = n ∧ Looks st st0) : (noticing t n st0 m p).run st = (marking t m).run st := by
  classical
  have hrun : (noticing t n st0 m p).run st =
      (if m = n ∧ Looks st st0 then marking t m else p : Build Unit).run st := rfl
  rw [hrun, if_pos h]

theorem run_noticing_miss {t : SyntaxTree} {m : NodeId} {p : Build Unit} {st : BuildState}
    (h : ¬ (m = n ∧ Looks st st0)) : (noticing t n st0 m p).run st = p.run st := by
  classical
  have hrun : (noticing t n st0 m p).run st =
      (if m = n ∧ Looks st st0 then marking t m else p : Build Unit).run st := rfl
  rw [hrun, if_neg h]

theorem mem_truncated_marking (t : SyntaxTree) (m : NodeId) (st : BuildState) :
    markNode t ∈ ((marking t m).run st).2.truncated :=
  keeps_truncate (P := fun st => markNode t ∈ st.truncated) (fun _ _ _ hsub h => hsub h) t m
    { st with truncated := markNode t :: st.truncated } List.mem_cons_self

/-- Where the one may stop, the other sets its mark or goes on in another state. -/
theorem shadows_noticing {t : SyntaxTree} {m : NodeId} {p q : Build Unit}
    (h : Shadows (markNode t) st0 p q) : Shadows (markNode t) st0
      (do pausing s n stop m; p) (noticing t n st0 m do enter s m; q) := by
  have hgoes : Shadows (markNode t) st0 (do enter s m; p) (do enter s m; q) :=
    Shadows.bind keeps_enter.shadows fun _ => h
  refine ⟨fun st hst => ?_, fun st => ?_⟩
  · by_cases hhit : m = n ∧ Looks st st0
    · rw [run_noticing_hit st0 hhit]
      exact mem_truncated_marking t m st
    · rw [run_noticing_miss st0 hhit]
      exact hgoes.keeps st hst
  · by_cases hhit : m = n ∧ Looks st st0
    · rw [run_noticing_hit st0 hhit]
      exact .inl (mem_truncated_marking t m st)
    · rw [run_noticing_miss st0 hhit]
      by_cases hstop : m == n && stop { st with depth := 0 }
      · have hrun : (do pausing s n stop m; p).run st = (.error .cancelled, st) := by
          rw [run_bind, run_pausing, if_pos hstop]
        rw [hrun]
        have hm : m = n := eq_of_beq (Bool.and_eq_true_iff.1 hstop).1
        exact .inr (.inr ⟨rfl, fun hlooks => hhit ⟨hm, hlooks⟩⟩)
      · have hrun : (do pausing s n stop m; p).run st = (do enter s m; p).run st := by
          rw [run_bind, run_pausing, if_neg hstop, run_bind]
        rw [hrun]
        exact hgoes.either st

theorem shadows_follow (levels : Nat) (m : NodeId) : Shadows (markNode s.tree) st0
    (follow s (pausing s n stop) levels m) (watch s n st0 levels m) := by
  induction levels generalizing m with
  | zero =>
    exact shadows_noticing stop st0
      (keeps_truncate (fun _ _ _ hsub h => hsub h) s.tree m).shadows
  | succ levels ih => exact shadows_noticing stop st0 ((respects_shadows _ st0).rule ih m)

end shadows
end Visit
end PythonFlow
