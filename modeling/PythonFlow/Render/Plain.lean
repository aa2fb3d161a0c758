import PythonFlow.Render.Label

/-!
# Graphs as plain text

A heading and then one line for each instruction: its number, its source line, its label and the
numbers it leads to.
-/

set_option autoImplicit false

namespace PythonFlow.ControlFlow

def showId (id : InstructionId) : String := toString id.index

def padLeft (width : Nat) (s : String) : String :=
  String.ofList (List.replicate (width - s.length) ' ') ++ s

def plainLine (f : ControlFlow) (t : SyntaxTree) (i : Instruction) : String :=
  let line := match f.line t i.id with
    | some n => "L" ++ toString n
    | none => "-"
  "  " ++ showId i.id ++ " " ++ padLeft 5 line ++ "  " ++ f.label t i.id ++ " -> [" ++
    String.intercalate ", " (i.successors.map showId) ++ "]\n"

def toPlain (f : ControlFlow) (t : SyntaxTree) : String :=
  f.ownerName t ++ " (entry " ++ showId f.entry ++ ", exit " ++ showId f.exit ++ ")\n" ++
    String.join (f.graph.instructions.toList.map (f.plainLine t))

end PythonFlow.ControlFlow
