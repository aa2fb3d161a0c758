import PythonFlow.Yaml.Scalar.Plain

/-!
# Quoted scalars

Between single quotes only the quote itself is special, and stands for itself where it is doubled.
Between double quotes a backslash begins an escape, and hides the end of a line.
-/

set_option autoImplicit false

namespace PythonFlow.Yaml

def QuoteStyle.mark : QuoteStyle → Char
  | single => '\''
  | double => '"'

def shortEscapes : List (Char × Char) :=
  [('0', '\x00'), ('a', '\x07'), ('b', '\x08'), ('t', '\t'), ('\t', '\t'), ('n', '\n'),
    ('v', '\x0b'), ('f', '\x0c'), ('r', '\r'), ('e', '\x1b'), (' ', ' '), ('"', '"'), ('/', '/'),
    ('\\', '\\'), ('N', '\u0085'), ('_', '\u00a0'), ('L', '\u2028'), ('P', '\u2029')]

def escapeWidth : Char → Option Nat
  | 'x' => some 2
  | 'u' => some 4
  | 'U' => some 8
  | _ => none

def escapeAt (start : Mark) (c : Cursor) : Except Problem (Char × Cursor) :=
  match c.peek 1 with
  | none => .error (.during .escape start .unknownEscape c.mark)
  | some letter =>
    match shortEscapes.lookup letter with
    | some value => .ok (value, c.skip 2)
    | none =>
      match escapeWidth letter with
      | none => .error (.during .escape start .unknownEscape c.mark)
      | some width =>
        let c := c.skip 2
        let digits := c.rest.take width
        if digits.length < width || !digits.all isHex then
          .error (.during .escape start .noHexadecimal c.mark)
        else if h : (hexNumber digits).isValidChar then
          .ok (Char.ofNatAux (hexNumber digits) h, c.skip width)
        else .error (.during .escape start .escapeOutOfRange c.mark)

/-- Reads up to the closing quote. Every step takes a character at least, so that one step more than
there are characters is enough. -/
def quotedText (style : QuoteStyle) (start : Mark) :
    Nat → Cursor → Except Problem (List Char × Cursor)
  | 0, c => .ok ([], c)
  | steps + 1, c =>
    let andThen (text : List Char) (c : Cursor) : Except Problem (List Char × Cursor) :=
      match quotedText style start steps c with
      | .error e => .error e
      | .ok (more, last) => .ok (text ++ more, last)
    if c.atDocument then .error (.during .quotedScalar start .documentInQuotes c.mark)
    else
      match c.next with
      | none => .error (.during .quotedScalar start .endInQuotes c.mark)
      | some x =>
        if x = style.mark then
          if style = .single ∧ c.peek 1 = some x then andThen [x] (c.skip 2) else .ok ([], c.skip 1)
        else if x = '\\' ∧ style = .double then
          if (c.peek 1).any isBreak then
            let c := c.skip 2
            andThen ((c.taken isGap).filter isBreak) (c.past isGap)
          else
            match escapeAt start c with
            | .error e => .error e
            | .ok (value, c) => andThen [value] c
        else if isGap x then andThen (foldGap (c.taken isGap)) (c.past isGap)
        else andThen [x] (c.skip 1)

def quotedScalar (style : QuoteStyle) (c : Cursor) : Except Problem (List Char × Cursor) :=
  quotedText style c.mark (c.rest.length + 1) (c.skip 1)

end PythonFlow.Yaml
