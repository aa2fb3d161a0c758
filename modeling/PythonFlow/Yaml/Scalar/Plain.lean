import PythonFlow.Yaml.Cursor

/-!
# Plain scalars

A scalar without quotes is a row of words. It ends in front of a comment, a colon that ends a word
and a mark of a document; within brackets also in front of an indicator of theirs, and outside of
them at a line that is indented too little. Where a scalar goes on in another line, the end of its line is read
as a blank. Empty lines between the two are kept, and then no blank is read. Only line feeds are folded.
-/

set_option autoImplicit false

namespace PythonFlow.Yaml

def isGap (c : Char) : Bool := isBlank c || isBreak c

def foldBreaks : List Char → List Char
  | [] => []
  | b :: more => if b = '\n' then (if more.isEmpty then [' '] else more) else b :: more

/-- What the gap between two words is read as. The blanks around the end of a line do not count. -/
def foldGap (gap : List Char) : List Char :=
  if gap.any isBreak then foldBreaks (gap.filter isBreak) else gap

theorem fold_gap_nil : foldGap [] = [] := rfl

def isFlowIndicator (c : Char) : Bool :=
  c == ',' || c == '[' || c == ']' || c == '\x7b' || c == '\x7d'

def plainWord (inFlow : Bool) (start : Mark) :
    List Char → Mark → Except Problem (List Char × Cursor)
  | [], m => .ok ([], ⟨[], m⟩)
  | c :: rest, m =>
    if isGap c then .ok ([], ⟨c :: rest, m⟩)
    else if inFlow && c == ':' && rest.head?.any (fun d => isFlowIndicator d || d == '?') then
      .error (.during .plainScalar start .colonInFlow m)
    else if (c == ':' && endsWord rest.head?) || (inFlow && isFlowIndicator c) then
      .ok ([], ⟨c :: rest, m⟩)
    else
      match plainWord inFlow start rest (m.after c) with
      | .error e => .error e
      | .ok (word, last) => .ok (c :: word, last)

def tabInGap (indent : Nat) : Bool → List Char → Mark → Option Mark
  | _, [], _ => none
  | broken, c :: rest, m =>
    if broken && c == '\t' && m.column < indent then some m
    else tabInGap indent (broken || isBreak c) rest (m.after c)

structure PlainScalar where
  text : List Char
  last : Cursor
  /-- Whether lines end between its last word and the cursor. -/
  lineEnded : Bool

/-- Reads words as long as there are any. `gap` lies in front of the cursor, and becomes part of the
text only if a word follows. Each word is shorter than the text that is left, so that one word more
than there are characters is enough. -/
def plainWords (inFlow : Bool) (indent : Nat) (start : Mark) :
    Nat → List Char → Cursor → Except Problem PlainScalar
  | 0, _, c => .ok ⟨[], c, false⟩
  | words + 1, gap, c =>
    if c.atDocument || c.isAt '#' then .ok ⟨[], c, gap.any isBreak⟩
    else
      match plainWord inFlow start c.rest c.mark with
      | .error e => .error e
      | .ok ([], _) => .ok ⟨[], c, gap.any isBreak⟩
      | .ok (word, c) =>
        let text := foldGap gap ++ word
        let gap := c.taken isGap
        if gap.isEmpty then .ok ⟨text, c, false⟩
        else
          match tabInGap indent false gap c.mark with
          | some m => .error (.during .plainScalar start .tabInIndentation m)
          | none =>
            let c := c.past isGap
            if !inFlow && c.mark.column < indent then .ok ⟨text, c, gap.any isBreak⟩
            else
              match plainWords inFlow indent start words gap c with
              | .error e => .error e
              | .ok more => .ok { more with text := text ++ more.text }

/-- The plain scalar at the cursor. Outside of brackets its further lines are indented by `indent`
at least. -/
def plainScalar (inFlow : Bool) (indent : Nat) (c : Cursor) : Except Problem PlainScalar :=
  plainWords inFlow indent c.mark (c.rest.length + 1) [] c

end PythonFlow.Yaml
