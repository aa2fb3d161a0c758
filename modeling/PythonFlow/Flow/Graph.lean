import PythonFlow.Flow.Instruction

/-!
# Instruction graphs

Instructions are numbered in order of creation and never removed; edges are only added. Both ends
of an edge are recorded, each at the end of its list, and `edgeCount` counts the edges whose both
ends were recorded. An index keeps the latest instruction of each node.
-/

set_option autoImplicit false

namespace PythonFlow

structure InstructionGraph where
  instructions : Array Instruction
  byElement : ElementIndex
  edgeCount : Nat
  numbered : Numbered instructions
  indexed : byElement = .ofList instructions.toList
deriving DecidableEq, Repr

namespace InstructionGraph

def empty : InstructionGraph := ⟨#[], [], 0, fun _ h => absurd h (Nat.not_lt_zero _), rfl⟩

def size (g : InstructionGraph) : Nat := g.instructions.size

def isEmpty (g : InstructionGraph) : Bool := g.size == 0

def ids (g : InstructionGraph) : List InstructionId := g.instructions.toList.map Instruction.id

def positions (g : InstructionGraph) : List InstructionId := (List.range g.size).map InstructionId.mk

def instruction (g : InstructionGraph) (id : InstructionId) : Instruction :=
  g.instructions.getD id.index .blank

def successors (g : InstructionGraph) (id : InstructionId) : List InstructionId :=
  (g.instruction id).successors

def predecessors (g : InstructionGraph) (id : InstructionId) : List InstructionId :=
  (g.instruction id).predecessors

def require (g : InstructionGraph) (id : InstructionId) : Except Fault Unit :=
  if id.index < g.size then .ok () else .error (.outOfRange g.size id.index)

theorem require_ok (g : InstructionGraph) (id : InstructionId) :
    g.require id = .ok () ↔ id.index < g.size := by
  unfold require
  split <;> simp_all

def create (g : InstructionGraph) (element : Option NodeId) (kind : InstructionKind) :
    InstructionGraph × InstructionId :=
  let id : InstructionId := ⟨g.size⟩
  let i : Instruction := ⟨id, element, kind, [], []⟩
  ({ g with
    instructions := g.instructions.push i
    byElement := g.byElement.enter i
    numbered := g.numbered.push rfl
    indexed := by rw [Array.toList_push, ElementIndex.of_list_concat, g.indexed] }, id)

theorem size_create (g : InstructionGraph) (e : Option NodeId) (k : InstructionKind) :
    (g.create e k).1.size = g.size + 1 := by simp [create, size]

def modify (g : InstructionGraph) (id : InstructionId) (f : Instruction → Instruction)
    (hid : ∀ i, (f i).id = i.id) (helement : ∀ i, (f i).element = i.element) : InstructionGraph :=
  { g with
    instructions := g.instructions.modify id.index f
    numbered := g.numbered.modify hid id.index
    indexed := by rw [Array.toList_modify, ElementIndex.of_list_modify hid helement, g.indexed] }

def addSuccessor (g : InstructionGraph) (source target : InstructionId) : InstructionGraph :=
  g.modify source (fun i => { i with successors := i.successors ++ [target] }) (fun _ => rfl)
    fun _ => rfl

def addPredecessor (g : InstructionGraph) (source target : InstructionId) : InstructionGraph :=
  g.modify target (fun i => { i with predecessors := i.predecessors ++ [source] }) (fun _ => rfl)
    fun _ => rfl

/-- Records the edge from `source` to `target` unless it is there, and says whether it was new.
The source's end is recorded first, and stays when there is no such target. -/
def addEdge (g : InstructionGraph) (source target : InstructionId) :
    InstructionGraph × Except Fault Bool :=
  match g.require source with
  | .error e => (g, .error e)
  | .ok () =>
    if (g.successors source).contains target then (g, .ok false)
    else
      let half := g.addSuccessor source target
      match g.require target with
      | .error e => (half, .error e)
      | .ok () =>
        ({ half.addPredecessor source target with edgeCount := g.edgeCount + 1 }, .ok true)

theorem size_add_edge (g : InstructionGraph) (a b : InstructionId) :
    (g.addEdge a b).1.size = g.size := by
  unfold addEdge
  split
  · rfl
  · split
    · rfl
    · dsimp only
      split <;> simp [size, addSuccessor, addPredecessor, modify]

def latestFor (g : InstructionGraph) (element : NodeId) : Option InstructionId :=
  g.byElement.lookup element

/-- Every edge, by source in order of creation and then in order of addition. -/
def edges (g : InstructionGraph) : List (InstructionId × InstructionId) :=
  g.instructions.toList.flatMap fun i => i.successors.map fun target => (i.id, target)

end InstructionGraph

structure ControlFlow where
  owner : NodeId
  entry : InstructionId
  exit : InstructionId
  graph : InstructionGraph
deriving DecidableEq, Repr

namespace ControlFlow

def instructionsFor (f : ControlFlow) (element : NodeId) : List InstructionId :=
  (f.graph.instructions.toList.filter fun i => i.element == some element).map Instruction.id

def hasEdge (f : ControlFlow) (source target : InstructionId) : Except Fault Bool :=
  match f.graph.require source with
  | .ok () => .ok ((f.graph.successors source).contains target)
  | .error e => .error e

end ControlFlow
end PythonFlow
