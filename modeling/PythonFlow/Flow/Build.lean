import PythonFlow.Flow.Pending

/-!
# Building a graph

A build keeps a cursor, the instruction that control has just left, and the pending edges. A new
instruction is linked from the cursor and from every pending edge that lands on it, and becomes the
cursor. A build that stops, because it was cancelled or met a fault, keeps what it had done.
-/

set_option autoImplicit false

namespace PythonFlow

inductive Stop where
  | cancelled
  | fault (f : Fault)
deriving DecidableEq, Repr

structure Setting where
  tree : SyntaxTree
  /-- Levels of syntax that are followed below an owner. -/
  maxDepth : Nat
  /-- Whether the build looks at the cancellation flag. -/
  cancellable : Bool

structure BuildState where
  graph : InstructionGraph
  pending : PendingEdges
  cursor : Option InstructionId
  /-- Subtrees recorded by one instruction because they lie too deep, latest first. -/
  truncated : List NodeId
  /-- The cancellation flag. -/
  raised : Bool
  /-- Levels of syntax that the visitor has gone down. -/
  depth : Nat
deriving DecidableEq, Repr

namespace BuildState

def initial (raised : Bool) : BuildState := ⟨.empty, [], none, [], raised, 0⟩

/-- The state in which the next owner's build starts. What the visitor counts stays as it is. -/
def cleared (s : BuildState) : BuildState :=
  { s with graph := .empty, pending := [], cursor := none }

end BuildState

abbrev Build := ExceptT Stop (StateM BuildState)

namespace Build

def fail {α : Type} (f : Fault) : Build α := throw (.fault f)

def check {α : Type} : Except Fault α → Build α
  | .ok a => pure a
  | .error f => fail f

def checkpoint (s : Setting) : Build Unit := do
  if s.cancellable && (← get).raised then throw .cancelled

def raiseFlag : Build Unit := modify fun st => { st with raised := true }

def cursor : Build (Option InstructionId) := return (← get).cursor

def setCursor (c : Option InstructionId) : Build Unit := modify fun st => { st with cursor := c }

def abrupt : Build Unit := setCursor none

def create (element : Option NodeId) (kind : InstructionKind) : Build InstructionId := do
  modifyGet fun st =>
    let (g, id) := st.graph.create element kind
    (id, { st with graph := g })

def addEdge (source target : InstructionId) : Build Unit := do
  let result ← modifyGet fun st =>
    let (g, result) := st.graph.addEdge source target
    (result, { st with graph := g })
  discard (check result)

def addEdges (target : InstructionId) : List InstructionId → Build Unit
  | [] => pure ()
  | source :: rest => do
    addEdge source target
    addEdges target rest

def addPending (scope : Option NodeId) (source : Option InstructionId) : Build Unit :=
  modify fun st => { st with pending := st.pending.add scope source }

def addPendings (scope : Option NodeId) : List InstructionId → Build Unit
  | [] => pure ()
  | source :: rest => do
    addPending scope (some source)
    addPendings scope rest

def takePart (f : PendingEdges → Parting) : Build (List PendingEdge) := do
  let p ← modifyGet fun st =>
    let p := f st.pending
    (p, { st with pending := p.kept })
  match p.fault with
  | some e => fail e
  | none => return p.taken

def elementOf (id : InstructionId) : Build (Option NodeId) := do
  let g := (← get).graph
  check (g.require id)
  return (g.instruction id).element

def latest (element : Option NodeId) : Build (Option InstructionId) :=
  return element.bind (← get).graph.latestFor

def checkPending (t : SyntaxTree) (id : InstructionId) : Build Unit := do
  let element ← elementOf id
  let landed ← takePart (·.resolve t element)
  addEdges id (landed.map (·.source))

def addNode (t : SyntaxTree) (element : Option NodeId) (kind : InstructionKind) :
    Build InstructionId := do
  let id ← create element kind
  match ← cursor with
  | some before => addEdge before id
  | none => pure ()
  checkPending t id
  setCursor (some id)
  return id

def startNode (t : SyntaxTree) (element : NodeId) : Build InstructionId :=
  addNode t (some element) .plain

def startConditional (t : SyntaxTree) (element : NodeId) (condition : Option NodeId)
    (outcome : Bool) : Build InstructionId :=
  addNode t (some element) (.conditional condition outcome)

def startWrite (t : SyntaxTree) (element : NodeId) (name : String) : Build InstructionId :=
  addNode t (some element) (.write name)

def forEach {α : Type} (f : α → Build Unit) : List α → Build Unit
  | [] => pure ()
  | a :: rest => do
    f a
    forEach f rest

/-- Empties the list of pending edges through `handler`, oldest first. What the handler adds goes
behind whatever is still to come. -/
def processPending (handler : PendingEdge → Build Unit) : Build Unit := do
  let edges ← modifyGet fun st => (st.pending, { st with pending := [] })
  forEach handler edges

/-- Instructions from which flow leaves a construct that has just ended: the cursor and the
sources of the edges scoped within it, each once. -/
def takeFallthrough (t : SyntaxTree) (within : NodeId) : Build (List InstructionId) := do
  let first := (← cursor).toList
  let drained ← takePart (·.drainWithin t within)
  return drained.foldl
    (fun exits e => if exits.contains e.source then exits else exits ++ [e.source]) first

def drainPendingWithin (t : SyntaxTree) (within : NodeId) : Build (List PendingEdge) :=
  takePart (·.drainWithin t within)

def start (t : SyntaxTree) : Build InstructionId := do
  modify BuildState.cleared
  addNode t none .plain

def finish (t : SyntaxTree) (owner : NodeId) (entry : InstructionId) : Build ControlFlow := do
  let exit ← addNode t none .plain
  return ⟨owner, entry, exit, (← get).graph⟩

/-- Builds the graph of `owner`: an entry, what `visit` adds, and an exit. -/
def build (t : SyntaxTree) (visit : NodeId → Build Unit) (owner : NodeId) :
    Build ControlFlow := do
  let entry ← start t
  visit owner
  finish t owner entry

end Build
end PythonFlow
