import PythonFlow.Yaml.Library

/-!
# Reading YAML text

A cursor is the rest of a text and the place where it begins. Everything that is read moves a cursor
over characters one at a time, so that a place is always the start moved over what was read.
-/

set_option autoImplicit false

namespace PythonFlow.Yaml

def isBlank (c : Char) : Bool := c == ' ' || c == '\t'

def isNameChar (c : Char) : Bool := c.isAlphanum || c == '_' || c == '-'

def isHex (c : Char) : Bool := c.isDigit || ('a' ≤ c && c ≤ 'f') || ('A' ≤ c && c ≤ 'F')

def hexValue (c : Char) : Nat :=
  if c.isDigit then c.toNat - '0'.toNat
  else if 'a' ≤ c then c.toNat - 'a'.toNat + 10
  else c.toNat - 'A'.toNat + 10

def hexNumber (cs : List Char) : Nat := cs.foldl (fun n c => 16 * n + hexValue c) 0

/-- A line feed stands for every way to end a line but the two separators of Unicode. A line feed
behind a carriage return belongs to it. -/
def unifyBreaks (afterReturn : Bool) : List Char → List Char
  | [] => []
  | c :: rest =>
    if c = '\n' ∧ afterReturn then unifyBreaks false rest
    else if c = '\r' then '\n' :: unifyBreaks true rest
    else if c = '\u0085' then '\n' :: unifyBreaks false rest
    else c :: unifyBreaks false rest

def isAllowed (c : Char) : Bool :=
  c == '\t' || c == '\n' || c == '\r' || (' ' ≤ c && c ≤ '~') || c == '\u0085' ||
    ('\u00a0' ≤ c && c ≤ '\ud7ff') || ('\ue000' ≤ c && c ≤ '\ufffd') || 0x10000 ≤ c.toNat

def forbiddenOffset : Nat → List Char → Option Nat
  | _, [] => none
  | n, c :: rest => if isAllowed c then forbiddenOffset (n + c.utf8Size) rest else some n

structure Cursor where
  rest : List Char
  mark : Mark
deriving DecidableEq, Repr

namespace Cursor

def ofText (cs : List Char) : Cursor := ⟨cs, .start⟩

def next (c : Cursor) : Option Char := c.rest.head?

def peek (c : Cursor) (n : Nat) : Option Char := c.rest[n]?

def isAt (c : Cursor) (x : Char) : Bool := c.next == some x

def skip (c : Cursor) (n : Nat) : Cursor := ⟨c.rest.drop n, c.mark.afterAll (c.rest.take n)⟩

def taken (c : Cursor) (p : Char → Bool) : List Char := c.rest.takeWhile p

def past (c : Cursor) (p : Char → Bool) : Cursor :=
  ⟨c.rest.dropWhile p, c.mark.afterAll (c.rest.takeWhile p)⟩

end Cursor

/-- The end of a text counts as the end of a line. -/
def endsLine : Option Char → Bool
  | none => true
  | some c => isBreak c

/-- The end of a text counts as a blank. -/
def endsWord : Option Char → Bool
  | none => true
  | some c => isBlank c || isBreak c

namespace Cursor

def pastComment (c : Cursor) : Cursor :=
  let c := c.past isBlank
  if c.isAt '#' then c.past (!isBreak ·) else c

def pastBreak (c : Cursor) : Cursor := if c.next.any isBreak then c.skip 1 else c

/-- Whether a line begins here with three of `x` as a word. -/
def atIndicator (c : Cursor) (x : Char) : Bool :=
  c.mark.column == 0 && c.isAt x && c.peek 1 == some x && c.peek 2 == some x && endsWord (c.peek 3)

def atDocument (c : Cursor) : Bool := c.atIndicator '-' || c.atIndicator '.'

end Cursor
end PythonFlow.Yaml
