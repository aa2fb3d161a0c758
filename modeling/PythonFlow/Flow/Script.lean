import PythonFlow.Flow.Visit

/-!
# Scripted builds

A script is a list of building steps. It is played between the entry and the exit of a graph, and
each step leaves a record of what it answered and of where the build then stood. A fault ends the
script and the exit is still made; a build that is cancelled inside a visit has no graph.
-/

set_option autoImplicit false

namespace PythonFlow

inductive EdgeAction where
  | drop
  | rescope (scope : Option NodeId)
  | land (target : Option InstructionId)
  | requeue
deriving DecidableEq, Repr

inductive BuildStep where
  | node (element : NodeId)
  | conditional (element : NodeId) (condition : Option NodeId) (outcome : Bool)
  | write (element : NodeId) (name : String)
  | abrupt
  | setCursor (cursor : Option InstructionId)
  | edge (source target : InstructionId)
  | pending (scope : Option NodeId) (source : Option InstructionId)
  | checkPending (instruction : InstructionId)
  | process (within : NodeId) (action : EdgeAction)
  | fallthrough (within : NodeId)
  | drain (within : NodeId)
  | find (element : NodeId)
  | elementOf (instruction : InstructionId)
  | cancel
  | checkpoint
  | visit (node : NodeId)
deriving DecidableEq, Repr

inductive Reply where
  | nothing
  | created (id : InstructionId)
  | edges (edges : List PendingEdge)
  | instructions (ids : List InstructionId)
  | found (id : Option InstructionId)
  | element (id : Option NodeId)
  | raised
  | clear
  | truncated (count : Nat)
  | stopped (stop : Stop)
deriving DecidableEq, Repr

structure Played where
  reply : Reply
  cursor : Option InstructionId
  pending : PendingEdges
deriving DecidableEq, Repr

namespace BuildStep
open Build

def act (t : SyntaxTree) (within : NodeId) (action : EdgeAction) (e : PendingEdge) :
    Build Unit := do
  let back := addPending e.scope (some e.source)
  if ← check (e.scopedWithin t within) then
    match action with
    | .drop => pure ()
    | .rescope scope => addPending scope (some e.source)
    | .land (some target) => addEdge e.source target
    | .land none => pure ()
    | .requeue => back
  else back

def perform (s : Setting) : BuildStep → Build Reply
  | node element => return .created (← startNode s.tree element)
  | conditional element condition outcome =>
    return .created (← startConditional s.tree element condition outcome)
  | write element name => return .created (← startWrite s.tree element name)
  | abrupt => do
    Build.abrupt
    return .nothing
  | setCursor target => do
    Build.setCursor target
    return .nothing
  | edge source target => do
    addEdge source target
    return .nothing
  | pending scope source => do
    addPending scope source
    return .nothing
  | checkPending instruction => do
    Build.checkPending s.tree instruction
    return .nothing
  | process within action => do
    let edges := (← get).pending
    processPending (act s.tree within action)
    return .edges edges
  | fallthrough within => return .instructions (← takeFallthrough s.tree within)
  | drain within => return .edges (← drainPendingWithin s.tree within)
  | find element => return .found ((← get).graph.latestFor element)
  | elementOf instruction => return .element (← Build.elementOf instruction)
  | cancel => do
    raiseFlag
    return .raised
  | checkpoint => fun st =>
    match (Build.checkpoint s).run st with
    | (.ok (), st) => (.ok .clear, st)
    | (.error stop, st) => (.ok (.stopped stop), st)
  | visit id => do
    Visit.visitOwner s id
    return .truncated (← get).truncated.length

end BuildStep

namespace Script

/-- Plays the steps; the second part is the reason why the build as a whole must end. -/
def play (s : Setting) : List BuildStep → StateM BuildState (List Played × Option Stop)
  | [] => return ([], none)
  | step :: rest => do
    let outcome ← (step.perform s).run
    let st ← get
    match outcome with
    | .ok reply =>
      let (played, stop) ← play s rest
      return (⟨reply, st.cursor, st.pending⟩ :: played, stop)
    | .error stop =>
      let last : Played := ⟨.stopped stop, st.cursor, st.pending⟩
      match stop with
      | .fault _ => return ([last], none)
      | .cancelled => return ([last], some stop)

def build (s : Setting) (owner : NodeId) (steps : List BuildStep) :
    StateM BuildState (List Played × Except Stop ControlFlow) := do
  match ← (Build.start s.tree).run with
  | .error stop => return ([], .error stop)
  | .ok entry =>
    match ← play s steps with
    | (played, some stop) => return (played, .error stop)
    | (played, none) => return (played, ← (Build.finish s.tree owner entry).run)

end Script
end PythonFlow
