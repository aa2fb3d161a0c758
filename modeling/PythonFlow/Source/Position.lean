import PythonFlow.Unicode.Classes

/-!
# Positions and snippets of a text

A point is known by its byte offset and by its row and byte column, all counted from zero. A span tells where
syntax stands in the text that it was read from, with lines counted from one and byte columns from zero. A node
that has no place in a text carries the zero span. A snippet is the one line that stands for a piece of the text
in labels.
-/

set_option autoImplicit false

namespace PythonFlow

structure Span where
  startLine : Nat
  startCol : Nat
  endLine : Nat
  endCol : Nat
deriving DecidableEq, Repr, Inhabited

namespace Span

def zero : Span := ⟨0, 0, 0, 0⟩

/-- Written `1:0-2:5`: the start, a hyphen and the end. -/
def display (s : Span) : String :=
  toString s.startLine ++ ":" ++ toString s.startCol ++ "-" ++
    toString s.endLine ++ ":" ++ toString s.endCol

end Span

structure Point where
  byte : Nat
  row : Nat
  col : Nat
deriving DecidableEq, Repr, Inhabited

namespace Point

def start : Point := ⟨0, 0, 0⟩

/-- The point after a character. A line feed ends its row; nothing else does. -/
def after (p : Point) (c : Char) : Point :=
  if c = '\n' then ⟨p.byte + 1, p.row + 1, 0⟩
  else ⟨p.byte + c.utf8Size, p.row, p.col + c.utf8Size⟩

def afterAll (p : Point) (cs : List Char) : Point := cs.foldl after p

end Point

structure Extent where
  first : Point
  last : Point
deriving DecidableEq, Repr, Inhabited

namespace Extent

def span (e : Extent) : Span := ⟨e.first.row + 1, e.first.col, e.last.row + 1, e.last.col⟩

end Extent

namespace Source

def excerpt (source : String) (first last : Nat) : String :=
  String.Pos.Raw.extract source ⟨first⟩ ⟨last⟩

def trim (cs : List Char) : List Char :=
  ((cs.dropWhile Unicode.isBlank).reverse.dropWhile Unicode.isBlank).reverse

/-- Longest snippet that is not cut, in characters. -/
def snippetLimit : Nat := 60

def shorten (cs : List Char) : List Char :=
  if snippetLimit < cs.length then cs.take snippetLimit ++ ['.', '.', '.'] else cs

/-- The first line of a text, without the blanks around it, cut if it is long. -/
def snippet (text : String) : String :=
  String.ofList (shorten (trim (text.takeWhile (· != '\n')).copy.toList))

end Source
end PythonFlow
