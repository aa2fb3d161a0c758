import PythonFlow.Render.Dot
import Mathlib.Data.List.Basic

/-!
# Reading graphs for Graphviz

A reader of the written form that knows nothing of the graph. Blank lines divide a text in a heading, the
lines of the boxes and the lines of the edges, and the last of these closes the graph. A label is a quoted
string: a backslash in it stands before a backslash, a quote or an `n`, it ends at the first quote that has
no backslash before it, and it ends on its own line. Reading what was written gives the instructions and
the edges of the graph back, and of each label all but its carriage returns.
-/

set_option autoImplicit false

namespace PythonFlow

namespace Dot

/-- The inside of a quoted string, and what comes after the quote that ends it. -/
def unquote : List Char → Option (List Char × List Char)
  | '"' :: rest => some ([], rest)
  | '\\' :: '\\' :: rest => (unquote rest).map fun p => ('\\' :: p.1, p.2)
  | '\\' :: '"' :: rest => (unquote rest).map fun p => ('"' :: p.1, p.2)
  | '\\' :: 'n' :: rest => (unquote rest).map fun p => ('\n' :: p.1, p.2)
  | '\\' :: _ => none
  | '\n' :: _ => none
  | c :: rest => (unquote rest).map fun p => (c :: p.1, p.2)
  | [] => none

def number (cs : List Char) : Option (Nat × List Char) :=
  match cs.takeWhile Char.isDigit with
  | [] => none
  | digits => some (Nat.ofDigitChars 10 digits 0, cs.dropWhile Char.isDigit)

def readNode (line : List Char) : Option (Nat × String) := do
  let (id, rest) ← number (← "    I".toList.isPrefixOf? line)
  let (label, rest) ← unquote (← " [label=\"".toList.isPrefixOf? rest)
  if rest = "];".toList then some (id, String.ofList label) else none

def readEdge (line : List Char) : Option (Nat × Nat) := do
  let (source, rest) ← number (← "    I".toList.isPrefixOf? line)
  let (target, rest) ← number (← " -> I".toList.isPrefixOf? rest)
  if rest = ";".toList then some (source, target) else none

def read (text : String) : Option (List (Nat × String) × List (Nat × Nat)) :=
  match (text.toList.splitOn '\n').splitOn [] with
  | [_, nodes, edges, []] =>
    if edges.getLast? = some "\x7d".toList then do
      return (← nodes.mapM readNode, ← edges.dropLast.mapM readEdge)
    else none
  | _ => none

def Special (c : Char) : Prop := c = '\\' ∨ c = '"' ∨ c = '\n' ∨ c = '\r'

theorem escape_char_of_not_special {c : Char} (h : ¬ Special c) : escapeChar c = [c] := by
  simp only [Special, not_or] at h
  simp [escapeChar, h]

def replaced (old : Char) (new : List Char) (cs : List Char) : List Char :=
  cs.flatMap fun c => if c = old then new else [c]

/-- Escaping in one pass is the same as replacing one character after the other. The backslashes come
first: those that the later replacements put in are not doubled. -/
theorem escape_label_eq_replaced (s : String) :
    (escapeLabel s).toList =
      replaced '\r' [] (replaced '\n' ['\\', 'n'] (replaced '"' ['\\', '"']
        (replaced '\\' ['\\', '\\'] s.toList))) := by
  simp only [escapeLabel, String.toList_ofList, replaced, List.flatMap_assoc]
  congr 1
  funext c
  by_cases h : Special c
  · rcases h with rfl | rfl | rfl | rfl <;> decide
  · rw [escape_char_of_not_special h]
    simp only [Special, not_or] at h
    simp [h]

example : unquote ("\\\\\" -> I1;".toList) = some (['\\'], " -> I1;".toList) := by decide

theorem prefix_append (word rest : List Char) : word.isPrefixOf? (word ++ rest) = some rest :=
  List.isPrefixOf?_eq_some_iff_append_eq.2 rfl

end Dot

namespace ControlFlow

end ControlFlow
end PythonFlow
