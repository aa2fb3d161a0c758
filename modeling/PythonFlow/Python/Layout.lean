import PythonFlow.Concrete.Node
import PythonFlow.Python.Lexeme

/-!
# Layout of Python

Line ends and indentation become tokens of their own, and comments vanish. These tokens have no
width. The end of a logical line, and the start of a suite after it, lie where the last token of the
line or the comment behind it ends. A suite ends there too, or where the last comment below it ends
that is still indented like the suite: comments are given to the innermost suite that they are
indented for, as long as no comment before them has already left it.
-/

set_option autoImplicit false

namespace PythonFlow.Python

inductive TokenKind where
  | name | number | operator
  | stringStart | stringEnd
  | fieldStart | fieldEnd | conversion | formatStart
  | newline | indent | dedent
deriving DecidableEq, Repr

structure Token where
  kind : TokenKind
  text : String
  extent : Extent
  /-- The line continuations in front of it. -/
  continuations : List Extent
deriving DecidableEq, Repr

def LexemeKind.tokenKind? : LexemeKind → Option TokenKind
  | .name => some .name
  | .number => some .number
  | .operator => some .operator
  | .stringStart => some .stringStart
  | .stringEnd => some .stringEnd
  | .fieldStart => some .fieldStart
  | .fieldEnd => some .fieldEnd
  | .conversion => some .conversion
  | .formatStart => some .formatStart
  | .comment | .continuation | .lineEnd _ => none

/-- Indentation of the next line with a token on it, given that of the line that is reached. The
end of the text counts as indentation zero. -/
def nextIndent : Nat → List Lexeme → Nat
  | _, [] => 0
  | n, l :: rest =>
    match l.kind with
    | .lineEnd m => nextIndent m rest
    | .comment | .continuation => nextIndent n rest
    | _ => n

structure LayoutState where
  /-- Indentations of the open suites, innermost first; the module's own is left out. -/
  indents : List Nat
  /-- End of the last token or comment. -/
  last : Point
  /-- Whether the logical line has a token. -/
  inLine : Bool
  /-- Indentation of the line that is reached. -/
  indent : Nat
  continuations : List Extent
  /-- The tokens so far, latest first. -/
  tokens : List Token

namespace LayoutState

def initial : LayoutState := ⟨[], .start, false, 0, [], []⟩

/-- A token without width at the end of what came last. -/
def mark (s : LayoutState) (kind : TokenKind) : LayoutState :=
  { s with tokens := ⟨kind, "", ⟨s.last, s.last⟩, []⟩ :: s.tokens }

def current (s : LayoutState) : Nat := s.indents.head?.getD 0

/-- Closes the suites, at most as many as given, that `closes` says are left. -/
def close (closes : Nat → Bool) : Nat → LayoutState → LayoutState
  | 0, s => s
  | n + 1, s =>
    match s.indents with
    | [] => s
    | indent :: rest => if closes indent then close closes n { s.mark .dedent with indents := rest }
      else s

def closeAll (s : LayoutState) (closes : Nat → Bool) : LayoutState :=
  s.close closes s.indents.length

def endLine (s : LayoutState) (indent : Nat) : LayoutState :=
  let ended := { s.mark .newline with inLine := false }
  if s.current < indent then { ended.mark .indent with indents := indent :: s.indents } else ended

/-- A comment between two lines leaves the suites that neither it nor the next line is indented
for. -/
def comment (s : LayoutState) (l : Lexeme) (indent : Nat) : LayoutState :=
  let s := if s.inLine then s else s.closeAll fun i => indent < i && s.indent < i
  { s with last := l.extent.last }

/-- The first token of a line leaves the suites that it is not indented for. Line continuations
in front of a literal are no part of the tree. -/
def token (s : LayoutState) (l : Lexeme) (kind : TokenKind) : LayoutState :=
  let s := if s.inLine then s else s.closeAll fun i => s.indent < i
  let before := if kind = .stringStart then [] else s.continuations
  { s with
    inLine := true
    last := l.extent.last
    continuations := []
    tokens := ⟨kind, l.text, l.extent, before⟩ :: s.tokens }

def finish (s : LayoutState) : LayoutState :=
  let s := if s.inLine then s.mark .newline else s
  s.closeAll fun _ => true

end LayoutState

def layOut : LayoutState → List Lexeme → LayoutState
  | s, [] => s.finish
  | s, l :: rest =>
    match l.kind with
    | .lineEnd n =>
      let indent := nextIndent n rest
      layOut { (if s.inLine then s.endLine indent else s) with indent := n } rest
    | .comment => layOut (s.comment l (nextIndent s.indent rest)) rest
    | .continuation =>
      layOut { s with continuations := s.continuations ++ [l.extent], last := l.extent.last } rest
    | k =>
      match k.tokenKind? with
      | some kind => layOut (s.token l kind) rest
      | none => layOut s rest

def tokens (lexemes : List Lexeme) : List Token :=
  (layOut .initial lexemes).tokens.reverse

end PythonFlow.Python
