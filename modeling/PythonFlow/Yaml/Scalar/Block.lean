import PythonFlow.Yaml.Scalar.Plain

/-!
# Block scalars

A block scalar is a run of lines below its header, all indented alike. The header says whether the
ends of lines are folded, what becomes of the last of them, and how far the lines are indented if
the first of them does not show it.
-/

set_option autoImplicit false

namespace PythonFlow.Yaml

inductive Chomping where
  | strip | clip | keep
deriving DecidableEq, Repr

structure BlockHeader where
  chomping : Chomping
  /-- Columns beyond the indentation around, if the header gives them. -/
  columns : Option Nat
  last : Cursor

def chompingMark (c : Cursor) : Option Chomping :=
  if c.isAt '+' then some .keep else if c.isAt '-' then some .strip else none

/-- The digit of a header, if there is one. Nought is refused. -/
def headerDigit (start : Mark) (c : Cursor) : Except Problem (Option Nat) :=
  match c.next with
  | none => .ok none
  | some d =>
    if d = '0' then .error (.during .blockScalar start .noIndentation c.mark)
    else if d.isDigit then .ok (some (d.toNat - '0'.toNat))
    else .ok none

/-- The two indicators of a header may come in either order. -/
def blockHeader (start : Mark) (c : Cursor) : Except Problem BlockHeader :=
  match chompingMark c with
  | some chomping =>
    let c := c.skip 1
    match headerDigit start c with
    | .error e => .error e
    | .ok columns => .ok ⟨chomping, columns, if columns.isSome then c.skip 1 else c⟩
  | none =>
    match headerDigit start c with
    | .error e => .error e
    | .ok none => .ok ⟨.clip, none, c⟩
    | .ok columns =>
      let c := c.skip 1
      match chompingMark c with
      | some chomping => .ok ⟨chomping, columns, c.skip 1⟩
      | none => .ok ⟨.clip, columns, c⟩

structure EmptyLines where
  breaks : List Char
  widest : Nat
  last : Cursor

/-- Skips empty lines, and the indentation of the line behind them. Without an indentation that is
known, all blanks of a line belong to it. -/
def emptyLines (start : Mark) (indent : Option Nat) :
    Nat → List Char → Mark → Except Problem EmptyLines
  | widest, [], m => .ok ⟨[], max widest m.column, ⟨[], m⟩⟩
  | widest, c :: rest, m =>
    let inIndent := indent.all (m.column < ·)
    if inIndent && c == ' ' then emptyLines start indent widest rest (m.after c)
    else if inIndent && c == '\t' then .error (.during .blockScalar start .tabInBlock m)
    else if isBreak c then
      match emptyLines start indent (max widest m.column) rest (m.after c) with
      | .error e => .error e
      | .ok more => .ok { more with breaks := c :: more.breaks }
    else .ok ⟨[], max widest m.column, ⟨c :: rest, m⟩⟩

structure BlockLines where
  text : List Char
  /-- End of the last line of content. -/
  lastBreak : List Char
  /-- Ends of the empty lines behind it. -/
  breaks : List Char
  last : Cursor

/-- What stands between two lines of content. A line end is folded only between two lines that begin
with no blank. -/
def betweenLines (folded : Bool) (lastBreak breaks : List Char) (blankAround : Bool) : List Char :=
  if folded && lastBreak == ['\n'] && !blankAround then (if breaks.isEmpty then [' '] else breaks)
  else lastBreak ++ breaks

/-- Reads lines of content as long as they are indented by `indent`. Every line takes a character at
least, so that one line more than there are characters is enough. -/
def blockLines (folded : Bool) (start : Mark) (indent : Nat) :
    Nat → List Char → List Char → Bool → Cursor → Except Problem BlockLines
  | 0, lastBreak, breaks, _, c => .ok ⟨[], lastBreak, breaks, c⟩
  | lines + 1, lastBreak, breaks, lastBlank, c =>
    match c.next with
    | none => .ok ⟨[], lastBreak, breaks, c⟩
    | some x =>
      if c.mark.column ≠ indent then .ok ⟨[], lastBreak, breaks, c⟩
      else
        let between := betweenLines folded lastBreak breaks (lastBlank || isBlank x)
        let line := c.taken (!isBreak ·)
        let c := c.past (!isBreak ·)
        let lastBreak := c.rest.take 1
        let c := c.skip 1
        match emptyLines start (some indent) 0 c.rest c.mark with
        | .error e => .error e
        | .ok gap =>
          match blockLines folded start indent lines lastBreak gap.breaks (isBlank x) gap.last with
          | .error e => .error e
          | .ok more => .ok { more with text := between ++ line ++ more.text }

def chomped (chomping : Chomping) (b : BlockLines) : List Char :=
  match chomping with
  | .strip => b.text
  | .clip => b.text ++ b.lastBreak
  | .keep => b.text ++ b.lastBreak ++ b.breaks

/-- The block scalar at the cursor. `indent` is the indentation around it, if there is any. -/
def blockScalar (folded : Bool) (indent : Option Nat) (c : Cursor) :
    Except Problem (List Char × Cursor) :=
  let start := c.mark
  match blockHeader start (c.skip 1) with
  | .error e => .error e
  | .ok header =>
    let c := header.last.pastComment
    if !endsLine c.next then .error (.during .blockScalar start .textAfterHeader c.mark)
    else
      let c := c.pastBreak
      let given := header.columns.map (indent.getD 0 + ·)
      match emptyLines start given 0 c.rest c.mark with
      | .error e => .error e
      | .ok gap =>
        let own := match given with
          | some n => n
          | none => max gap.widest (max (indent.elim 0 (· + 1)) 1)
        match blockLines folded start own (c.rest.length + 1) [] gap.breaks false gap.last with
        | .error e => .error e
        | .ok lines => .ok (chomped header.chomping lines, lines.last)

end PythonFlow.Yaml
