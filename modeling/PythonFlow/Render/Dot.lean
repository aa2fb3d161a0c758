import PythonFlow.Render.Plain
import PythonFlow.Unicode.Classes

/-!
# Graphs for Graphviz

A directed graph with one box for each instruction. Its name is the owner's name with every
character that is no letter, number or underscore replaced by an underscore.
-/

set_option autoImplicit false

namespace PythonFlow.Dot

/-- Backslashes and quotes are escaped, a line feed becomes an escape, a carriage return is left
out. -/
def escapeChar : Char → List Char
  | '\\' => ['\\', '\\']
  | '"' => ['\\', '"']
  | '\n' => ['\\', 'n']
  | '\r' => []
  | c => [c]

def escapeLabel (s : String) : String := String.ofList (s.toList.flatMap escapeChar)

def idChar (c : Char) : Char := if Unicode.isAlphanumeric c || c == '_' then c else '_'

def idChars (cs : List Char) : List Char :=
  match cs.map idChar with
  | [] => "_anonymous".toList
  | c :: rest => if '0' ≤ c ∧ c ≤ '9' then '_' :: c :: rest else c :: rest

/-- An identifier for the graph. It is never empty and never starts with a digit. -/
def identifier (s : String) : String := String.ofList (idChars s.toList)

theorem id_chars_ne_nil (cs : List Char) : idChars cs ≠ [] := by
  cases cs with
  | nil => decide
  | cons c rest =>
    simp only [idChars, List.map_cons]
    split <;> simp

end PythonFlow.Dot

namespace PythonFlow.ControlFlow

def dotNode (f : ControlFlow) (t : SyntaxTree) (id : InstructionId) : String :=
  "    I" ++ showId id ++ " [label=\"" ++ showId id ++ ": " ++ Dot.escapeLabel (f.label t id) ++
    "\"];\n"

def dotEdge (e : InstructionId × InstructionId) : String :=
  "    I" ++ showId e.1 ++ " -> I" ++ showId e.2 ++ ";\n"

def toDot (f : ControlFlow) (t : SyntaxTree) : String :=
  "digraph " ++ Dot.identifier (f.ownerName t) ++ " \x7b\n" ++
    "    node [shape=box, fontname=\"monospace\"];\n" ++
    "    I" ++ showId f.entry ++ " [style=filled, fillcolor=lightgreen];\n" ++
    "    I" ++ showId f.exit ++ " [style=filled, fillcolor=lightcoral];\n" ++
    "\n" ++ String.join (f.graph.ids.map (f.dotNode t)) ++
    "\n" ++ String.join (f.graph.edges.map dotEdge) ++ "\x7d\n"

end PythonFlow.ControlFlow
