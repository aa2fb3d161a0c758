import PythonFlow.Flow.Reachability
import PythonFlow.Syntax.Access

/-!
# Labels of instructions

The words that every written form of a graph shares.
-/

set_option autoImplicit false

namespace PythonFlow.ControlFlow

/-- Name of the graph's owner, or its kind if it has none. -/
def ownerName (f : ControlFlow) (t : SyntaxTree) : String :=
  (t.name f.owner).getD (t.kind f.owner).name

/-- The entry and the exit have labels of their own. A write is labelled with its name, a branch
with its outcome and condition, and everything else with its syntax. -/
def label (f : ControlFlow) (t : SyntaxTree) (id : InstructionId) : String :=
  if id = f.entry then "entry"
  else if id = f.exit then "exit"
  else
    let i := f.graph.instruction id
    let element := (i.element.map t.label).getD ""
    match i.kind with
    | .plain => element
    | .write name => "write " ++ name
    | .conditional condition outcome =>
      (if outcome then "true: " else "false: ") ++ (condition.map t.label).getD element

/-- First line of the instruction's syntax; the entry and the exit have none. -/
def line (f : ControlFlow) (t : SyntaxTree) (id : InstructionId) : Option Nat :=
  (f.graph.instruction id).element.map fun e => (t.span e).startLine

def requireNode (t : SyntaxTree) : Option NodeId → Except Fault Unit
  | some id => t.require id
  | none => .ok ()

def requireLabel (f : ControlFlow) (t : SyntaxTree) (id : InstructionId) : Except Fault Unit :=
  if id = f.entry ∨ id = f.exit then .ok ()
  else
    let i := f.graph.instruction id
    match requireNode t i.element with
    | .error e => .error e
    | .ok () =>
      match i.kind with
      | .conditional condition _ => requireNode t condition
      | _ => .ok ()

def requireLabels (f : ControlFlow) (t : SyntaxTree) : List InstructionId → Except Fault Unit
  | [] => .ok ()
  | id :: rest =>
    match f.requireLabel t id with
    | .error e => .error e
    | .ok () => f.requireLabels t rest

/-- Refuses a graph that cannot be written: the owner, the nodes of the labels and the ends of the
edges must be there. -/
def requireWritable (f : ControlFlow) (t : SyntaxTree) : Except Fault Unit :=
  match t.require f.owner with
  | .error e => .error e
  | .ok () =>
    match f.requireLabels t f.graph.ids with
    | .error e => .error e
    | .ok () =>
      if f.graph.edges.all fun e => e.1.index < f.graph.size && e.2.index < f.graph.size then .ok ()
      else .error .edgeOutOfRange

end PythonFlow.ControlFlow
