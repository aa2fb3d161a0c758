import PythonFlow.Flow.Graph
import PythonFlow.Syntax.Ancestry

/-!
# Reachability

Which instructions the entry of a graph reaches, which of them reach the exit, and which statements
have no reachable instruction. A search reads the edges off the successor lists, in both directions: a
predecessor list that lacks an end of an edge does not hide the edge.
-/

set_option autoImplicit false

namespace PythonFlow

/-- The edges of a graph as a search reads them. The order in which they come does not matter. -/
structure Neighbours where
  /-- Where the edges from an instruction lead. -/
  outgoing : InstructionId → List InstructionId
  /-- Where the edges to an instruction come from. -/
  incoming : InstructionId → List InstructionId

namespace InstructionGraph

/-- For each instruction, where the edges from it lead, the latest edge first. -/
def departures (g : InstructionGraph) (edges : List (InstructionId × InstructionId)) :
    Array (List InstructionId) :=
  edges.foldl (fun out e => out.modify e.1.index (e.2 :: ·)) (Array.replicate g.size [])

def neighbours (g : InstructionGraph) : Neighbours :=
  let out := g.departures g.edges
  let into := g.departures (g.edges.map Prod.swap)
  ⟨fun id => out.getD id.index [], fun id => into.getD id.index []⟩

end InstructionGraph

namespace ControlFlow

def mark : List InstructionId → Array Bool → List InstructionId → Array Bool × List InstructionId
  | [], seen, queue => (seen, queue)
  | id :: rest, seen, queue =>
    if seen.getD id.index true then mark rest seen queue
    else mark rest (seen.set! id.index true) (id :: queue)

/-- Follows `next` from every instruction on the queue. Each step takes one instruction off it, and
none is put on twice, so that one step for each instruction of the graph is enough. -/
def explore (next : InstructionId → List InstructionId) :
    Nat → Array Bool → List InstructionId → Array Bool
  | 0, seen, _ => seen
  | _ + 1, seen, [] => seen
  | steps + 1, seen, id :: queue =>
    let (seen, queue) := mark (next id) seen queue
    explore next steps seen queue

def closure (g : InstructionGraph) (next : InstructionId → List InstructionId)
    (start : InstructionId) : Array Bool :=
  let (seen, queue) := mark [start] (Array.replicate g.size false) []
  explore next g.size seen queue

end ControlFlow

namespace Neighbours
variable (n : Neighbours) (f : ControlFlow)

def fromEntry : Array Bool := ControlFlow.closure f.graph n.outgoing f.entry

def toExit : Array Bool := ControlFlow.closure f.graph n.incoming f.exit

def reachable : List InstructionId :=
  let seen := n.fromEntry f
  f.graph.positions.filter fun id => seen.getD id.index false

def unreachable : List InstructionId :=
  let seen := n.fromEntry f
  f.graph.positions.filter fun id => !seen.getD id.index false

/-- Reachable instructions from which no path leads to the exit. -/
def dangling : List InstructionId :=
  let seen := n.fromEntry f
  let leaving := n.toExit f
  f.graph.positions.filter fun id => seen.getD id.index false && !leaving.getD id.index false

end Neighbours

namespace ControlFlow

def fromEntry (f : ControlFlow) : Array Bool := f.graph.neighbours.fromEntry f

def toExit (f : ControlFlow) : Array Bool := f.graph.neighbours.toExit f

def reachable (f : ControlFlow) : List InstructionId := f.graph.neighbours.reachable f

def unreachable (f : ControlFlow) : List InstructionId := f.graph.neighbours.unreachable f

def dangling (f : ControlFlow) : List InstructionId := f.graph.neighbours.dangling f

/-- The nodes from `id` up to, not including, the owner of the graph. -/
def within (f : ControlFlow) (t : SyntaxTree) (ids : List NodeId) : List NodeId :=
  (ids.takeWhile (· != f.owner)).filter fun id => (t.kind id).isStatement

def markStatements (f : ControlFlow) (t : SyntaxTree) (test : InstructionId → Bool) :
    List Instruction → Array Bool → Array Bool
  | [], marks => marks
  | i :: rest, marks =>
    let marks :=
      if test i.id then
        match i.element with
        | some element =>
          (f.within t (t.lineage element)).foldl (fun m n => m.set! n.index true) marks
        | none => marks
      else marks
    markStatements f t test rest marks

end ControlFlow

/-- The outermost statements of the owner that have instructions, none of them reachable. -/
def Neighbours.deadStatements (n : Neighbours) (f : ControlFlow) (t : SyntaxTree) : List NodeId :=
  let seen := n.fromEntry f
  let blank := Array.replicate t.size false
  let instructions := f.graph.instructions.toList
  let present := f.markStatements t (fun _ => true) instructions blank
  let live := f.markStatements t (fun id => seen.getD id.index false) instructions blank
  let dead (id : NodeId) : Bool := present.getD id.index false && !live.getD id.index false
  t.ids.filter fun id =>
    dead id && !((t.above id).takeWhile (· != f.owner)).any dead

def ControlFlow.deadStatements (f : ControlFlow) (t : SyntaxTree) : List NodeId :=
  f.graph.neighbours.deadStatements f t

end PythonFlow
