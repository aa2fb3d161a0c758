import PythonFlow.Flow.Script
import PythonFlow.Proofs.Graph.Construction

/-!
# Scripts that end in a fault

A script is played as far as the first step that meets a fault, and the exit is made all the same. Up to
that step the graph is tidy, whatever the steps were. An edge that finds no source leaves it so. An edge
that finds no target is lost: its source has recorded it, nothing else has, and no later step mends this,
not even the creation of the exit, which may get the very number that was out of range before.
-/

set_option autoImplicit false

namespace PythonFlow
open Build

namespace BuildStep

theorem tidies_act (t : SyntaxTree) (within : NodeId) (action : EdgeAction) (e : PendingEdge) :
    Tidies (act t within action e) := by
  have hR := respects_tidies
  refine Tidies.bind (hR.check _) fun inside => ?_
  cases inside with
  | false => exact hR.add_pending _ _
  | true =>
    cases action with
    | drop => exact hR.unit
    | rescope scope => exact hR.add_pending _ _
    | requeue => exact hR.add_pending _ _
    | land target =>
      cases target with
      | none => exact hR.unit
      | some target => exact hR.add_edge _ _

/-- No step that passes spoils the graph, whatever it is. -/
theorem tidies (s : Setting) (step : BuildStep) : Tidies (step.perform s) := by
  have hR := respects_tidies
  have hget : Tidies (get : Build BuildState) := tidies_of_kept fun _ => rfl
  have reply {α : Type} {p : Build α} (hp : Tidies p) (f : α → Reply) :
      Tidies (p >>= fun a => pure (f a)) := hp.bind fun a => hR.pure (f a)
  cases step with
  | node element => exact reply (hR.start_node element) _
  | conditional element condition outcome => exact reply (hR.start_conditional element condition outcome) _
  | write element name => exact reply (hR.add_node s.tree _ _) _
  | abrupt => exact reply hR.abrupt _
  | setCursor target => exact reply (hR.set_cursor target) _
  | edge source target => exact reply (hR.add_edge source target) _
  | pending scope source => exact reply (hR.add_pending scope source) _
  | checkPending instruction => exact reply (hR.check_pending s.tree instruction) _
  | process within action => exact hget.bind fun _ => reply (hR.process (tidies_act s.tree within action)) _
  | fallthrough within => exact reply (hR.fallthrough s.tree within) _
  | drain within => exact reply (hR.drain s.tree within) _
  | find element => exact reply hget _
  | elementOf instruction => exact reply (hR.element_of instruction) _
  | cancel => exact reply (tidies_of_kept fun _ => rfl : Tidies raiseFlag) _
  | checkpoint =>
    refine tidies_of_kept fun st => ?_
    have hlook := run_checkpoint s st
    simp only [perform, ExceptT.run] at hlook ⊢
    rw [hlook]
    cases s.cancellable && st.raised <;> rfl
  | visit n => exact (Visit.tidies_owner s n).bind fun _ => reply hget _

theorem run_edge (s : Setting) (a b : InstructionId) (st : BuildState) :
    ((BuildStep.edge a b).perform s).run st =
      ((checked (st.graph.addEdge a b).2).map fun _ => .nothing,
        { st with graph := (st.graph.addEdge a b).1 }) := by
  show (addEdge a b >>= fun _ => pure Reply.nothing).run st = _
  rw [run_bind, run_add_edge]
  cases (st.graph.addEdge a b).2 <;> rfl

end BuildStep

namespace Build

/-- To a target within range, edges are refused for their sources only. Nothing else changes. -/
theorem run_add_edges {b : InstructionId} (l : List InstructionId) (st : BuildState)
    (hb : b.index < st.graph.size) :
    ((∃ u, ((addEdges b l).run st).1 = .ok u) ↔ ∀ a ∈ l, a.index < st.graph.size) ∧
      ((addEdges b l).run st).2.graph.labels = st.graph.labels ∧
      ((addEdges b l).run st).2.pending = st.pending := by
  induction l generalizing st with
  | nil => exact ⟨iff_of_true ⟨(), rfl⟩ fun a ha => (List.not_mem_nil ha).elim, rfl, rfl⟩
  | cons a l ih =>
    have hsize := st.graph.size_add_edge a b
    have hrun : (addEdges b (a :: l)).run st = (addEdge a b >>= fun _ => addEdges b l).run st := rfl
    rw [hrun, run_bind, run_add_edge, List.forall_mem_cons]
    by_cases ha : a.index < st.graph.size
    · obtain ⟨⟨fresh, hok⟩, hlabels⟩ := InstructionGraph.add_edge_ok ha hb
      have hrest := ih { st with graph := (st.graph.addEdge a b).1 } (by simpa only [hsize] using hb)
      simp only [hsize, hlabels] at hrest
      simpa only [hok, checked, Except.map, ha, true_and] using hrest
    · simp [InstructionGraph.add_edge_of_no_source ha, checked, Except.map, ha]

/-- Every pending edge lands on an instruction that was made for no node. -/
theorem run_check_pending (t : SyntaxTree) {id : InstructionId} {st : BuildState}
    (hid : id.index < st.graph.size) (hel : (st.graph.instruction id).element = none) :
    (checkPending t id).run st =
      (addEdges id (st.pending.map (·.source))).run { st with pending := [] } := by
  have hhere : (elementOf id).run st = (.ok none, st) := by
    rw [run_element_of, (st.graph.require_ok id).2 hid, hel]
    rfl
  show (elementOf id >>= fun el => takePart (·.resolve t el) >>= fun landed =>
    addEdges id (landed.map (·.source))).run st = _
  rw [run_bind, hhere]
  dsimp only
  rw [run_bind, run_take_part, PendingEdges.resolve_exit]

theorem add_node_eq (t : SyntaxTree) (el : Option NodeId) (kind : InstructionKind) :
    addNode t el kind = do
      let id ← create el kind
      addEdges id (← cursor).toList
      checkPending t id
      setCursor (some id)
      return id := by
  unfold addNode
  refine bind_congr fun id => bind_congr fun c => ?_
  cases c with
  | none => simp [addEdges]
  | some a => simp [addEdges]

/-- What is left of a build once its exit has been created. -/
def closing (t : SyntaxTree) (owner : NodeId) (entry exit : InstructionId) : Build ControlFlow := do
  checkPending t exit
  setCursor (some exit)
  return ⟨owner, entry, exit, (← get).graph⟩

theorem run_finish (t : SyntaxTree) (owner : NodeId) (entry : InstructionId) (st : BuildState) :
    (finish t owner entry).run st =
      (addEdges ⟨st.graph.size⟩ st.cursor.toList >>= fun _ => closing t owner entry ⟨st.graph.size⟩).run
        { st with graph := (st.graph.create none .plain).1 } := by
  simp only [finish, add_node_eq, bind_assoc, pure_bind, closing]
  rfl

section exit
variable (t : SyntaxTree) (owner : NodeId) (entry : InstructionId)

theorem closing_ok (exit : InstructionId) {st : BuildState} (hlast : st.graph.size = exit.index + 1)
    (hel : (st.graph.instruction exit).element = none) :
    ((∃ f, ((closing t owner entry exit).run st).1 = .ok f) ↔
      ∀ a ∈ st.pending.map (·.source), a.index ≤ exit.index) ∧
    ∀ f, ((closing t owner entry exit).run st).1 = .ok f →
      f.exit = exit ∧ f.graph.size = exit.index + 1 := by
  have hexit : exit.index < st.graph.size := by omega
  obtain ⟨hall, hlabels, -⟩ :=
    run_add_edges (st.pending.map (·.source)) { st with pending := [] } hexit
  have hsize := congrArg List.length hlabels
  rw [InstructionGraph.length_labels, InstructionGraph.length_labels, hlast] at hsize
  simp only [hlast, Nat.lt_succ_iff] at hall
  rw [closing, run_bind, run_check_pending t hexit hel, ← hall]
  cases hrun : (addEdges exit (st.pending.map (·.source))).run { st with pending := [] } with
  | mk outcome st' =>
    rw [hrun] at hsize
    cases outcome with
    | error e => simp
    | ok u =>
      have hend : ((setCursor (some exit) >>= fun _ => get >>= fun here =>
          pure ⟨owner, entry, exit, here.graph⟩ : Build ControlFlow).run st').1 =
        .ok ⟨owner, entry, exit, st'.graph⟩ := rfl
      refine ⟨iff_of_true ⟨_, hend⟩ ⟨u, rfl⟩, fun f hf => ?_⟩
      obtain rfl := Except.ok.inj (hend.symm.trans hf)
      exact ⟨rfl, hsize⟩

/-- The exit is linked from everything that is still open, and the build comes to its end unless one of
these sources is missing. -/
theorem finish_ok (st : BuildState) :
    ((∃ f, ((finish t owner entry).run st).1 = .ok f) ↔
      ∀ a ∈ st.cursor.toList ++ st.pending.map (·.source), a.index ≤ st.graph.size) ∧
    ∀ f, ((finish t owner entry).run st).1 = .ok f →
      f.exit = ⟨st.graph.size⟩ ∧ f.graph.size = st.graph.size + 1 := by
  have hcreated := st.graph.size_create none .plain
  have hexit : st.graph.size < (st.graph.create none .plain).1.size := by omega
  obtain ⟨hall, hlabels, hpending⟩ := run_add_edges (b := ⟨st.graph.size⟩) st.cursor.toList
    { st with graph := (st.graph.create none .plain).1 } hexit
  simp only [hcreated, Nat.lt_succ_iff] at hall
  rw [run_finish, run_bind, List.forall_mem_append, ← hall]
  cases hrun : (addEdges ⟨st.graph.size⟩ st.cursor.toList).run
      { st with graph := (st.graph.create none .plain).1 } with
  | mk outcome st' =>
    rw [hrun] at hlabels hpending
    cases outcome with
    | error e => simp
    | ok u =>
      have hsize := congrArg List.length hlabels
      rw [InstructionGraph.length_labels, InstructionGraph.length_labels, hcreated] at hsize
      have hel : (st'.graph.instruction ⟨st.graph.size⟩).element = none := by
        rw [InstructionGraph.element_eq, hlabels, InstructionGraph.labels_create,
          ← InstructionGraph.length_labels, List.getElem?_concat_length]
        rfl
      have hclosed := closing_ok t owner entry ⟨st.graph.size⟩ hsize hel
      rw [hpending] at hclosed
      simpa using hclosed

theorem tidy_but_of_finish {lost : List (InstructionId × InstructionId)} {st : BuildState} {f : ControlFlow}
    (h : st.graph.TidyBut lost) (hf : ((finish t owner entry).run st).1 = .ok f) :
    f.graph.TidyBut lost := by
  have hnode := (respects_tidies_but lost).add_node t none .plain
  obtain ⟨st', hrun⟩ : ∃ st', (finish t owner entry).run st = (.ok f, st') := ⟨_, Prod.ext hf rfl⟩
  obtain ⟨exit, st1, hexit, hrun⟩ := ok_of_bind hrun
  have hmade := hnode st h exit
  rw [hexit] at hmade
  cases hrun
  exact hmade rfl

end exit
end Build

namespace Script
variable {s : Setting} {owner : NodeId} {st : BuildState} {a b : InstructionId} {e : Fault}
  {before rest : List BuildStep} {played : List Played} {last : Played} {stop : Option Stop}
  {outcome : Except Stop ControlFlow}

def reached (s : Setting) (steps : List BuildStep) (st : BuildState) : BuildState :=
  ((play s steps).run ((start s.tree).run st).2).2

theorem run_play_cons (s : Setting) (step : BuildStep) (rest : List BuildStep) (st : BuildState) :
    (play s (step :: rest)).run st = match (step.perform s).run st with
      | (.ok reply, st') =>
        ((⟨reply, st'.cursor, st'.pending⟩ :: ((play s rest).run st').1.1, ((play s rest).run st').1.2),
          ((play s rest).run st').2)
      | (.error (.fault e), st') => (([⟨.stopped (.fault e), st'.cursor, st'.pending⟩], none), st')
      | (.error .cancelled, st') =>
        (([⟨.stopped .cancelled, st'.cursor, st'.pending⟩], some .cancelled), st') := by
  cases h : (step.perform s).run st with
  | mk o st' =>
    have hstep : StateT.run (step.perform s).run st = pure (o, st') := h
    rw [play, StateT.run_bind, hstep, pure_bind]
    cases o with
    | ok reply => rfl
    | error stop => cases stop <;> rfl

theorem run_build_script (s : Setting) (owner : NodeId) (steps : List BuildStep) (st : BuildState) :
    (build s owner steps).run st = match (start s.tree).run st with
      | (.error stop, st') => (([], .error stop), st')
      | (.ok entry, st') => match (play s steps).run st' with
        | ((played, some stop), st') => ((played, .error stop), st')
        | ((played, none), st') =>
          ((played, ((finish s.tree owner entry).run st').1), ((finish s.tree owner entry).run st').2) := by
  cases h : (start s.tree).run st with
  | mk o st' =>
    have hstart : StateT.run (start s.tree).run st = pure (o, st') := h
    rw [build, StateT.run_bind, hstart, pure_bind]
    cases o with
    | error stop => rfl
    | ok entry =>
      dsimp only
      rw [StateT.run_bind]
      cases hplay : (play s steps).run st' with
      | mk r st2 =>
        obtain ⟨played, stop⟩ := r
        cases stop <;> rfl

/-- The steps before an edge that is refused have all passed, and the refused edge is the end. -/
theorem play_to_edge
    (hrun : ((play s (before ++ .edge a b :: rest)).run st).1 = (played ++ [last], stop))
    (hcount : played.length = before.length) (hlast : last.reply = .stopped (.fault e))
    (ht : st.graph.Tidy) :
    let here := ((play s before).run st).2
    here.graph.Tidy ∧ (here.graph.addEdge a b).2 = .error e ∧ last.cursor = here.cursor ∧
      last.pending = here.pending ∧
      (play s (before ++ .edge a b :: rest)).run st =
        ((played ++ [last], none), { here with graph := (here.graph.addEdge a b).1 }) := by
  induction before generalizing st played with
  | nil =>
    obtain rfl := List.eq_nil_of_length_eq_zero hcount
    rw [List.nil_append, run_play_cons, BuildStep.run_edge] at hrun ⊢
    cases hadd : (st.graph.addEdge a b).2 with
    | ok fresh =>
      rw [hadd] at hrun
      have hhead := (List.cons.inj (Prod.mk.inj hrun).1).1
      rw [← hhead] at hlast
      cases hlast
    | error e' =>
      rw [hadd] at hrun
      have hhead := (List.cons.inj (Prod.mk.inj hrun).1).1
      subst hhead
      cases hlast
      exact ⟨ht, hadd, rfl, rfl, rfl⟩
  | cons step before ih =>
    have hstep := step.tidies s st ht
    rw [List.cons_append, run_play_cons] at hrun ⊢
    rw [run_play_cons]
    cases hhere : (step.perform s).run st with
    | mk o st' =>
      rw [hhere] at hrun hstep
      have hshort {x : Played} (hx : [x] = played ++ [last]) : False := by
        have hlength := congrArg List.length hx
        rw [List.length_append, hcount] at hlength
        simp at hlength
      cases o with
      | error stop' =>
        cases stop' with
        | fault e' => exact (hshort (Prod.mk.inj hrun).1).elim
        | cancelled => exact (hshort (Prod.mk.inj hrun).1).elim
      | ok reply =>
        obtain ⟨hplayed, hstop⟩ := Prod.mk.inj hrun
        cases played with
        | nil => simp at hcount
        | cons first played =>
          obtain ⟨rfl, htail⟩ := List.cons.inj hplayed
          obtain ⟨htidy, hadd, hcursor, hpending, hwhole⟩ :=
            ih (Prod.ext htail hstop) (Nat.succ.inj hcount) (hstep reply rfl)
          refine ⟨htidy, hadd, hcursor, hpending, ?_⟩
          dsimp only
          rw [hwhole]
          rfl

/-- What a script that ends in a refused edge leaves to be finished. -/
theorem build_to_edge
    (hrun : ((build s owner (before ++ .edge a b :: rest)).run st).1 = (played ++ [last], outcome))
    (hcount : played.length = before.length) (hlast : last.reply = .stopped (.fault e)) :
    let here := reached s before st
    here.graph.Tidy ∧ (here.graph.addEdge a b).2 = .error e ∧ last.cursor = here.cursor ∧
      last.pending = here.pending ∧ ∃ entry, outcome = ((finish s.tree owner entry).run
        { here with graph := (here.graph.addEdge a b).1 }).1 := by
  rw [run_build_script] at hrun
  have hentry : Tidies (addNode s.tree none .plain) := respects_tidies.add_node s.tree none .plain
  have hopened := hentry st.cleared InstructionGraph.tidy_empty
  have hstart : (start s.tree).run st = (addNode s.tree none .plain).run st.cleared := rfl
  rw [← hstart] at hopened
  unfold reached
  cases hst : (start s.tree).run st with
  | mk o st' =>
    rw [hst] at hrun hopened
    cases o with
    | error stop => simp at hrun
    | ok entry =>
      dsimp only at hrun
      cases hplay : (play s (before ++ .edge a b :: rest)).run st' with
      | mk r st2 =>
        obtain ⟨ps, stop⟩ := r
        have hps : ps = played ++ [last] := by
          rw [hplay] at hrun
          cases stop <;> exact (Prod.mk.inj hrun).1
        subst hps
        obtain ⟨htidy, hadd, hcursor, hpending, hwhole⟩ :=
          play_to_edge (congrArg Prod.fst hplay) hcount hlast (hopened entry rfl)
        rw [hwhole] at hrun
        refine ⟨htidy, hadd, hcursor, hpending, entry, (Prod.mk.inj hrun).2.symm⟩

end Script

/-- An addition of an edge is refused for its source, or for its target unless the edge is there; only in the
first case is the graph as it was, in the second the source has its end. A script whose last step is so
refused has a tidy graph until then. It still gets its graph, unless control or a pending edge stands at a
missing instruction, with the exit as one instruction more. The graph is tidy if the source was missing.
Otherwise it has lost exactly this edge, which is out of range unless its target is the exit. -/
theorem refused_edge_lost (g : InstructionGraph) (a b : InstructionId) :
    (((∃ e, (g.addEdge a b).2 = .error e) ↔
        ¬ a.index < g.size ∨ ¬ b.index < g.size ∧ b ∉ g.successors a) ∧
      (¬ a.index < g.size → g.addEdge a b = (g, .error (.outOfRange g.size a.index))) ∧
      (a.index < g.size → ¬ b.index < g.size → b ∉ g.successors a →
        g.addEdge a b = (g.addSuccessor a b, .error (.outOfRange g.size b.index)) ∧
          g.addSuccessor a b ≠ g)) ∧
    ∀ (s : Setting) (owner : NodeId) (before rest : List BuildStep) (st : BuildState)
      (played : List Played) (last : Played) (e : Fault) (outcome : Except Stop ControlFlow),
      ((Script.build s owner (before ++ .edge a b :: rest)).run st).1 = (played ++ [last], outcome) →
      played.length = before.length → last.reply = .stopped (.fault e) →
      let here := (Script.reached s before st).graph
      here.Tidy ∧ e = .outOfRange here.size (if a.index < here.size then b.index else a.index) ∧
      ((∃ f, outcome = .ok f) ↔
        ∀ c ∈ last.cursor.toList ++ last.pending.map (·.source), c.index ≤ here.size) ∧
      ∀ f, outcome = .ok f → f.exit = ⟨here.size⟩ ∧ f.graph.size = here.size + 1 ∧
        f.graph.TidyBut (if a.index < here.size then [(a, b)] else []) ∧
        (f.graph.Tidy ↔ ¬ a.index < here.size) ∧
        ((∀ x y, f.graph.Edge x y → x.index < f.graph.size ∧ y.index < f.graph.size) ↔
          ¬ a.index < here.size ∨ b = f.exit) := by
  constructor
  · refine ⟨InstructionGraph.add_edge_faults, InstructionGraph.add_edge_of_no_source, ?_⟩
    intro ha hb hnew
    refine ⟨InstructionGraph.add_edge_of_no_target ha hb hnew, fun heq => ?_⟩
    have hlonger := InstructionGraph.successors_add_successor (b := b) ha a
    rw [heq, if_pos rfl] at hlonger
    simp at hlonger
  · intro s owner before rest st played last e outcome hrun hcount hlast
    obtain ⟨htidy, hadd, hcursor, hpending, entry, rfl⟩ := Script.build_to_edge hrun hcount hlast
    obtain ⟨hfault, htarget, hlost⟩ := htidy.refuse hadd
    have hsize := InstructionGraph.size_add_edge (Script.reached s before st).graph a b
    obtain ⟨hok, hend⟩ := finish_ok s.tree owner entry
      { Script.reached s before st with graph := ((Script.reached s before st).graph.addEdge a b).1 }
    simp only [hsize] at hok hend
    rw [hcursor, hpending]
    refine ⟨htidy, hfault, hok, fun f hf => ?_⟩
    obtain ⟨hexit, hgrown⟩ := hend f hf
    have hkept := tidy_but_of_finish s.tree owner entry hlost hf
    refine ⟨hexit, hgrown, hkept, ?_, ?_⟩
    · rw [hkept.tidy_iff_nil]
      simp
    · refine hkept.edges_in_range.trans ?_
      rw [hexit, hgrown]
      by_cases ha : a.index < (Script.reached s before st).graph.size
      · have hout := htarget ha
        rw [if_pos ha, List.forall_mem_singleton]
        constructor
        · intro (hb : b.index < _)
          exact .inr (congrArg InstructionId.mk (by omega))
        · rintro (hno | rfl)
          · exact absurd ha hno
          · exact Nat.lt_succ_self _
      · rw [if_neg ha]
        exact iff_of_true (fun _ hnone => (List.not_mem_nil hnone).elim) (.inl ha)

/-- An edge from the entry, the only instruction so far, to the one that comes next, which is the exit. -/
theorem edge_to_next_lost :
    let s : Setting := ⟨.singleton .module .zero, 100, false⟩
    ∃ f, ((Script.build s ⟨0⟩ [.edge ⟨0⟩ ⟨1⟩]).run (.initial false)).1 =
        ([⟨.stopped (.fault (.outOfRange 1 1)), some ⟨0⟩, []⟩], .ok f) ∧
      f.exit = ⟨1⟩ ∧ f.graph.TidyBut [(⟨0⟩, ⟨1⟩)] ∧ ¬ f.graph.Tidy ∧
      (∀ x y, f.graph.Edge x y → x.index < f.graph.size ∧ y.index < f.graph.size) ∧
      f.graph.successors ⟨0⟩ = [⟨1⟩] ∧ f.graph.predecessors ⟨1⟩ = [] ∧ f.graph.edgeCount = 0 := by
  intro s
  obtain ⟨f, hf, hlists⟩ : ∃ f, ((Script.build s ⟨0⟩ [.edge ⟨0⟩ ⟨1⟩]).run (.initial false)).1 =
        ([⟨.stopped (.fault (.outOfRange 1 1)), some ⟨0⟩, []⟩], .ok f) ∧
      f.graph.successors ⟨0⟩ = [⟨1⟩] ∧ f.graph.predecessors ⟨1⟩ = [] ∧ f.graph.edgeCount = 0 :=
    ⟨_, rfl, rfl, rfl, rfl⟩
  obtain ⟨-, -, -, hend⟩ :=
    (refused_edge_lost .empty ⟨0⟩ ⟨1⟩).2 s ⟨0⟩ [] [] (.initial false) [] _ _ _ hf rfl rfl
  obtain ⟨hexit, -, hkept, htidy, hrange⟩ := hend f rfl
  exact ⟨f, hf, hexit, hkept, fun ht => htidy.1 ht Nat.zero_lt_one, hrange.2 (.inr hexit.symm), hlists⟩

end PythonFlow
