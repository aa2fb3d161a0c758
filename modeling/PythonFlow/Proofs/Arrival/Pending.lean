import PythonFlow.Proofs.Arrival.Entry
import PythonFlow.Proofs.Arrival.Watch

/-!
# What the visit of a statement does to what is pending

When a build comes to a statement some edges are pending. Those that leave the owner, or wait for the
end of a node around the statement, are pending afterwards as they were. All others lead to the first
instruction for the statement. What the visit adds comes from inside the statement, and waits for the end
of a node inside it or of a loop around it, or leaves the owner.
-/

set_option autoImplicit false

namespace PythonFlow

/-- The edge leaves the owner, or waits for the end of a node around `s`. -/
def PendingEdge.outlasts (t : SyntaxTree) (s : NodeId) (e : PendingEdge) : Bool :=
  e.scope.all fun n => decide (t.Inside s n)

theorem PendingEdge.outlasts_iff {t : SyntaxTree} {s : NodeId} {e : PendingEdge} :
    e.outlasts t s = true ↔ ∀ n, e.scope = some n → t.Inside s n := by
  simp [outlasts, Option.all_eq_true]

/-- What a visit of `s` makes of the edges that were pending before it. The first instruction for `s` is
the one that is numbered by the size of the graph before. -/
structure FramesPending (t : SyntaxTree) (s : NodeId) (st st' : BuildState) : Prop where
  entry : (st'.graph.instruction ⟨st.graph.size⟩).element = some s
  first : ∀ id, (st'.graph.instruction id).element = some s → st.graph.size ≤ id.index
  landed : ∀ e ∈ st.pending, e.outlasts t s = false → st'.graph.Edge e.source ⟨st.graph.size⟩
  left : ∃ added, st'.pending = st.pending.filter (·.outlasts t s) ++ added ∧ ∀ e ∈ added,
    (∃ el, (st'.graph.instruction e.source).element = some el ∧ t.Below el s) ∧
      ∀ n, e.scope = some n → t.Below n s ∨ (t.kind n).isLoop = true ∧ t.Inside s n

theorem SyntaxTree.lt_size_of_statement {t : SyntaxTree} {s : NodeId} (h : (t.kind s).isStatement = true) :
    s.index < t.size := by
  by_contra hlt
  have hblank : t.node s = .blank := by
    rw [SyntaxTree.node, Array.getD_eq_getD_getElem?, Array.getElem?_eq_none (Nat.le_of_not_lt hlt)]
    rfl
  rw [SyntaxTree.kind, hblank] at h
  cases h

namespace Sketch
variable {t : SyntaxTree} {s : NodeId} {k k' : Sketch} {st st' : BuildState}

/-- Of what is pending when `s` is visited, that lands on `s` which does not outlast it. -/
theorem lands_eq (hf : Fresh t s k) {e : PendingEdge} (he : e ∈ k.pending) :
    e.lands t (some s) = !e.outlasts t s := by
  cases hout : e.outlasts t s with
  | true => exact stays_iff.2 fun sc hsc => (PendingEdge.outlasts_iff.1 hout sc hsc).1
  | false =>
    refine eq_true_of_ne_false fun hstays => ?_
    have houtlasts : e.outlasts t s = true := PendingEdge.outlasts_iff.2 fun sc hsc =>
      ⟨stays_iff.1 hstays sc hsc, fun heq => hf.unscoped e he sc hsc (heq ▸ t.below_refl s)⟩
    rw [hout] at houtlasts
    cases houtlasts

theorem scoped_near (ho : t.Ordered) {sc : Option NodeId} (h : Scoped t s sc) {n : NodeId}
    (hn : sc = some n) : t.Below n s ∨ (t.kind n).isLoop = true ∧ t.Inside s n := by
  subst hn
  rcases h with hb | ⟨hin, b, -, -, hloop⟩
  · exact .inl hb
  · exact .inr ⟨(ho.enclosing_loop_above hloop).2.1, hin⟩

theorem frames_pending (hg : t.Grammatical) (hs : (t.kind s).isStatement = true) (hk : Sound t s k)
    (depth : Nat) (hd : Draws k st) (hd' : Draws (visit t depth s k) st') : FramesPending t s st st' := by
  have hG := grown_statement hg hs depth hk
  have hnext : (⟨st.graph.size⟩ : InstructionId) = k.next := by rw [hd.size_eq]; rfl
  have hstaying : k.staying t s = st.pending.filter (·.outlasts t s) := by
    rw [staying, hd.pending]
    refine List.filter_congr fun e he => ?_
    rw [lands_eq hk.fresh he, Bool.not_not]
  refine ⟨?_, fun id hid => ?_, fun e he hout => ?_, ?_⟩
  · rw [hd'.element_eq, hnext]
    exact entered_statement hg hs depth hk
  · rw [hd'.element_eq] at hid
    rw [hd.size_eq]
    refine Nat.le_of_not_lt fun hlt => ?_
    rw [hG.element_old id hlt] at hid
    exact hk.fresh.bare s (t.below_refl s) hs id s hid (t.below_refl s)
  · rw [hd.pending] at he
    rw [hd'.edge_iff, hnext]
    refine hG.entered _ ((mem_arrivals k t (some s) _).2 (.inr ⟨e, he, ?_, rfl⟩))
    rw [lands_eq hk.fresh he, hout]
    rfl
  · obtain ⟨added, hpending, hadded⟩ := hG.left
    refine ⟨added, by rw [hd'.pending, hpending, hstaying], fun e he => ⟨?_, fun n hn => ?_⟩⟩
    · obtain ⟨el, hel, hb⟩ := hG.element_new e.source (hadded e he).1.1
      exact ⟨el, by rw [hd'.element_eq, hel], hb⟩
    · exact scoped_near hg.ordered (hadded e he).2 hn

end Sketch

namespace Visit
open Build
variable {s : Setting} {n : NodeId} {st : BuildState}

/-- A statement is not entered while the flag is raised and looked at. -/
theorem enter_raised (hs : (s.tree.kind n).isStatement = true) (hlook : s.cancellable = true)
    (hraised : st.raised = true) : ∃ e, (enter s n).run st = (.error e, st) := by
  rw [enter, run_bind, run_check]
  cases s.tree.require n with
  | error e => exact ⟨_, rfl⟩
  | ok _ =>
    refine ⟨.cancelled, ?_⟩
    show (if (s.tree.kind n).isStatement then checkpoint s else pure () : Build Unit).run st = _
    rw [if_pos hs, run_checkpoint, hlook, hraised]
    rfl

theorem visit_raised (hs : (s.tree.kind n).isStatement = true) (hlook : s.cancellable = true)
    (hraised : st.raised = true) (bound : Nat) : ((visitWith s (enter s) bound n).run st).1 ≠ .ok () := by
  obtain ⟨e, henter⟩ := enter_raised hs hlook hraised
  have hstops : ∀ p : Build Unit, ((do enter s n; p).run st).1 ≠ .ok () := by
    intro p
    rw [run_bind, henter]
    exact fun h => by cases h
  cases bound with
  | zero => exact hstops _
  | succ bound => exact hstops _

/-- A visit at any level, from a state in which the build can be stopped, leaves the state that a sketch
of it describes. -/
theorem run_visit_with {t : SyntaxTree} (ho : t.Ordered) (hr : (s.cancellable && st.raised) = false)
    (ht : s.tree = t) (hn : n.index < t.size) {k : Sketch} (hin : k.InRange t) (hdraws : k.Draws st)
    {d : Nat} (hd : d ≤ s.maxDepth) :
    ∃ st', (visitWith s (enter s) (s.maxDepth + 1 - d) n).run { st with depth := d } = (.ok (), st') ∧
      (Sketch.visit t (s.maxDepth - d) n k).Draws st' := by
  obtain ⟨st1, hrun, hdraws1, -⟩ :=
    (Sketch.follows_visit ho s ht hr (s.maxDepth - d) n hn k hin).2 st hdraws rfl
  have hlevel : AtLevel d (visitWith s (enter s) (s.maxDepth + 1 - d) n)
      (follow s (enter s) (s.maxDepth - d) n) :=
    at_level_visit (at_level_enter s) (by omega) (by omega) n
  refine ⟨{ st1 with depth := d }, ?_, hdraws1.labels, hdraws1.successors, hdraws1.predecessors,
    hdraws1.pending, hdraws1.cursor, hdraws1.truncated⟩
  rw [hlevel st, hrun]

end Visit

/-- The visit of a statement frames what is pending, in every state in which a build comes to it. -/
theorem statement_visit_frames_pending (source : String) (root : Concrete) (c : Config)
    (cancel : Option Bool) {owner s : NodeId} (ho : owner ∈ (Lowering.tree source root).owners)
    (hs : ((Lowering.tree source root).kind s).isStatement = true) {st : BuildState}
    (h : Visit.Reached (.ofConfig (Lowering.tree source root) c cancel) owner s (cancel.getD false) st)
    {d : Nat} (hd : d ≤ c.depth) :
    let setting := Setting.ofConfig (Lowering.tree source root) c cancel
    let run := (Visit.visitWith setting (Visit.enter setting) (c.depth + 1 - d) s).run { st with depth := d }
    (cancel ≠ some true → run.1 = .ok ()) ∧
      (run.1 = .ok () → FramesPending (Lowering.tree source root) s st run.2) := by
  intro setting run
  have hg := Lowering.tree_grammatical source root
  have hflag := h.raised
  by_cases hc : cancel = some true
  · subst hc
    have hraised : ({ st with depth := d } : BuildState).raised = true := hflag
    exact ⟨fun hne => absurd rfl hne, fun hok => absurd hok (Visit.visit_raised hs rfl hraised _)⟩
  · have hquiet : (setting.cancellable && cancel.getD false) = false := by
      rcases cancel with _ | _ | _ <;> simp_all [setting, Setting.ofConfig]
    obtain ⟨k, hk, hpictures⟩ := Sketch.pictured_of_reached hg hquiet (SyntaxTree.lt_of_mem_owners ho)
      (List.mem_filter.1 ho).2 h
    obtain ⟨st', hrun, hdraws⟩ := Visit.run_visit_with hg.ordered (hflag ▸ hquiet) rfl
      (SyntaxTree.lt_size_of_statement hs) hpictures.in_range hpictures.draws hd
    have hresult : run = (.ok (), st') := hrun
    rw [hresult]
    exact ⟨fun _ => rfl, fun _ => Sketch.frames_pending hg hs hk _ hpictures.draws hdraws⟩

/-- The concrete tree of a `while` loop around `if x: break`, `if x: return` and `if x: break`, without its
positions. -/
def guardedJumps : Concrete :=
  let guard (jump : String) : Concrete :=
    .node "if_statement" true none default
      [.node "identifier" true (some "condition") default [],
        .node "block" true (some "consequence") default [.node jump true none default []]]
  .node "module" true none default
    [.node "while_statement" true none default
      [.node "identifier" true (some "condition") default [],
        .node "block" true (some "body") default
          [guard "break_statement", guard "return_statement", guard "break_statement"]]]

namespace Setting

def guardedJumps : Setting := .ofConfig (Lowering.tree "" PythonFlow.guardedJumps) .standard none

end Setting

/-- The build as it is stopped on the way into the last `if` statement. -/
def stoppedBuild : Except Stop ControlFlow × BuildState :=
  (Build.build Setting.guardedJumps.tree (Visit.visitOwnerWith .guardedJumps
    (Visit.pausing .guardedJumps ⟨14⟩ fun _ => true)) ⟨0⟩).run (.initial false)

def resumedVisit : Except Stop Unit × BuildState :=
  (Visit.visitWith .guardedJumps (Visit.enter .guardedJumps) (Config.standard.depth + 1 - 2) ⟨14⟩).run
    { stoppedBuild.2 with depth := 2 }

/-- Before the visit two ways out of the loop, a `return` and the way past the second `if` are pending.
The last one ends, and the visit adds its own two. -/
theorem last_guard_frames_pending :
    Visit.Reached .guardedJumps ⟨0⟩ ⟨14⟩ false stoppedBuild.2 ∧ resumedVisit.1 = .ok () ∧
      FramesPending Setting.guardedJumps.tree ⟨14⟩ stoppedBuild.2 resumedVisit.2 ∧
      stoppedBuild.2.pending = [⟨some ⟨1⟩, ⟨1⟩⟩, ⟨some ⟨1⟩, ⟨5⟩⟩, ⟨none, ⟨8⟩⟩, ⟨some ⟨9⟩, ⟨6⟩⟩] ∧
      resumedVisit.2.pending =
        [⟨some ⟨1⟩, ⟨1⟩⟩, ⟨some ⟨1⟩, ⟨5⟩⟩, ⟨none, ⟨8⟩⟩, ⟨some ⟨1⟩, ⟨11⟩⟩, ⟨some ⟨14⟩, ⟨9⟩⟩] := by
  have hstopped : stoppedBuild.1.map (fun _ => ()) = .error .cancelled := by decide +kernel
  have hcancelled : stoppedBuild.1 = .error .cancelled := by
    cases hrun : stoppedBuild.1 with
    | ok f =>
      rw [hrun] at hstopped
      cases hstopped
    | error e =>
      rw [hrun] at hstopped
      exact congrArg _ (Except.error.inj hstopped)
  have hrun : stoppedBuild = (.error .cancelled, stoppedBuild.2) := by rw [← hcancelled]
  have hreached : Visit.Reached .guardedJumps ⟨0⟩ ⟨14⟩ false stoppedBuild.2 := ⟨fun _ => true, hrun⟩
  have ho : (⟨0⟩ : NodeId) ∈ (Lowering.tree "" guardedJumps).owners := by decide +kernel
  have hs : ((Lowering.tree "" guardedJumps).kind ⟨14⟩).isStatement = true := by decide +kernel
  have hlevel : 2 ≤ Config.standard.depth := by decide
  obtain ⟨hok, hframes⟩ :=
    statement_visit_frames_pending "" guardedJumps .standard none ho hs hreached hlevel
  have hdone : resumedVisit.1 = .ok () := hok (by decide)
  exact ⟨hreached, hdone, hframes hdone, by decide +kernel, by decide +kernel⟩

end PythonFlow
