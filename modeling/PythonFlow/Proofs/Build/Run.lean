import PythonFlow.Flow.Build

/-!
# Runs of the primitive steps

What each primitive step of a build gives and leaves, as an equation about its run. A sequence goes on
with what its first step gave, and stops where that one stopped.
-/

set_option autoImplicit false

namespace PythonFlow.Build

theorem run_bind {α β : Type} (p : Build α) (f : α → Build β) (st : BuildState) :
    (p >>= f).run st = match p.run st with
      | (.ok a, st') => (f a).run st'
      | (.error e, st') => (.error e, st') := by
  rw [ExceptT.run_bind]
  change StateT.bind p.run _ st = _
  unfold StateT.bind
  cases p.run st with
  | mk outcome st' => cases outcome <;> rfl

/-- A sequence that is not stopped has come through both of its parts. -/
theorem ok_of_bind {α β : Type} {p : Build α} {f : α → Build β} {st st' : BuildState} {b : β}
    (h : (p >>= f).run st = (.ok b, st')) :
    ∃ a st1, p.run st = (.ok a, st1) ∧ (f a).run st1 = (.ok b, st') := by
  rw [run_bind] at h
  cases hrun : p.run st with
  | mk outcome st1 =>
    rw [hrun] at h
    cases outcome with
    | error e => cases h
    | ok a => exact ⟨a, st1, rfl, h⟩

def checked {α : Type} : Except Fault α → Except Stop α
  | .ok a => .ok a
  | .error e => .error (.fault e)

theorem run_check {α : Type} (e : Except Fault α) (st : BuildState) :
    (check e).run st = (checked e, st) := by
  cases e <;> rfl

theorem run_discard {α : Type} (p : Build α) (st : BuildState) :
    (discard p).run st = ((p.run st).1.map fun _ => (), (p.run st).2) := by
  unfold Functor.discard
  change (p >>= fun _ => pure ()).run st = _
  rw [run_bind]
  cases p.run st with
  | mk outcome st' => cases outcome <;> rfl

theorem run_add_edge (a b : InstructionId) (st : BuildState) :
    (addEdge a b).run st = ((checked (st.graph.addEdge a b).2).map fun _ => (),
      { st with graph := (st.graph.addEdge a b).1 }) := by
  have hrun : (addEdge a b).run st = (discard (check (st.graph.addEdge a b).2)).run
      { st with graph := (st.graph.addEdge a b).1 } := rfl
  rw [hrun, run_discard, run_check]

theorem run_take_part (f : PendingEdges → Parting) (st : BuildState) :
    (takePart f).run st = (match (f st.pending).fault with
      | some e => .error (.fault e)
      | none => .ok (f st.pending).taken, { st with pending := (f st.pending).kept }) := by
  have hrun : (takePart f).run st = (match (f st.pending).fault with
      | some e => fail e
      | none => pure (f st.pending).taken : Build (List PendingEdge)).run
        { st with pending := (f st.pending).kept } := rfl
  rw [hrun]
  cases (f st.pending).fault <;> rfl

theorem run_element_of (id : InstructionId) (st : BuildState) :
    (elementOf id).run st =
      ((checked (st.graph.require id)).map fun _ => (st.graph.instruction id).element, st) := by
  have hrun : (elementOf id).run st = (check (st.graph.require id) >>= fun _ =>
      pure (st.graph.instruction id).element : Build (Option NodeId)).run st := rfl
  rw [hrun, run_bind, run_check]
  cases st.graph.require id <;> rfl

theorem run_checkpoint (s : Setting) (st : BuildState) : (checkpoint s).run st =
    (if s.cancellable && st.raised then .error .cancelled else .ok (), st) := by
  have hrun : (checkpoint s).run st =
      (if s.cancellable && st.raised then throw .cancelled else pure () : Build Unit).run st := rfl
  rw [hrun]
  split <;> rfl

end PythonFlow.Build
