import PythonFlow.Source.Position

/-!
# Lexemes of Python

The text is cut into lexemes from left to right. Blanks vanish, and so do line ends inside
brackets. A line end outside brackets is kept, with the indentation of the line after it: a blank
counts one, a tab eight, and a form feed or carriage return starts the count again.

A literal is one lexeme where it opens and one where it closes. In a formatted literal the
expressions in braces are cut like any other code; what stands between them leaves no lexeme.
-/

set_option autoImplicit false

namespace PythonFlow.Python

inductive LexemeKind where
  | name | number | operator
  | stringStart | stringEnd
  /-- The braces around an expression in a formatted literal. -/
  | fieldStart | fieldEnd
  /-- A conversion such as `!r` behind such an expression. -/
  | conversion
  /-- The colon before its format. -/
  | formatStart
  | comment
  /-- A backslash at the end of a line. -/
  | continuation
  | lineEnd (indent : Nat)
deriving DecidableEq, Repr

structure Lexeme where
  kind : LexemeKind
  text : String
  extent : Extent
deriving DecidableEq, Repr

structure Quote where
  mark : Char
  triple : Bool
  raw : Bool
deriving DecidableEq, Repr

inductive Mode where
  | bracket
  /-- An expression in a formatted literal. -/
  | field
  /-- The fixed parts of a formatted literal. -/
  | literal (quote : Quote)
  /-- The format behind such an expression. -/
  | format
deriving DecidableEq, Repr

/-- Unread text, where it begins, what encloses it, and the lexemes so far, latest first. -/
structure Reading where
  chars : List Char
  point : Point
  modes : List Mode
  lexemes : List Lexeme

namespace Reading

def start (cs : List Char) : Reading := ⟨cs, .start, [], []⟩

def skip (r : Reading) (n : Nat) : Reading :=
  { r with chars := r.chars.drop n, point := r.point.afterAll (r.chars.take n) }

def take (r : Reading) (kind : LexemeKind) (n : Nat) : Reading :=
  let next := r.skip n
  { next with lexemes := ⟨kind, String.ofList (r.chars.take n), r.point, next.point⟩ :: r.lexemes }

def enter (r : Reading) (m : Mode) : Reading := { r with modes := m :: r.modes }

def leave (r : Reading) : Reading := { r with modes := r.modes.tail }

end Reading

def isBlank (c : Char) : Bool :=
  c == ' ' || c == '\t' || c == '\r' || c.toNat == 12 || c.toNat == 0xFEFF

def isDigit (c : Char) : Bool := '0' ≤ c && c ≤ '9'

/-- Letters, underscores, and every character beyond ASCII. -/
def startsName (c : Char) : Bool :=
  ('a' ≤ c && c ≤ 'z') || ('A' ≤ c && c ≤ 'Z') || c == '_' || 128 ≤ c.toNat

def inName (c : Char) : Bool := startsName c || isDigit c

def indentation : Nat → List Char → Nat
  | n, ' ' :: rest => indentation (n + 1) rest
  | n, '\t' :: rest => indentation (n + 8) rest
  | n, c :: rest => if isBlank c && c.toNat != 0xFEFF then indentation 0 rest else n
  | n, [] => n

def operators : List String :=
  ["**=", "//=", ">>=", "<<=", "...", "!=", "->", ":=", "==", "<=", ">=", "**", "//", "<<", ">>",
    "+=", "-=", "*=", "/=", "%=", "@=", "&=", "|=", "^=", "(", ")", "[", "]", "\x7b", "\x7d", "+",
    "-", "*", "/", "%", "@", "&", "|", "^", "~", "<", ">", "=", ".", ",", ":", ";"]

/-- The longest operator at the head of a text; the list gives the longer ones first. -/
def operatorAt (cs : List Char) : Option String :=
  operators.find? fun op => op.toList.isPrefixOf cs

def digitsLength (isIn : Char → Bool) (cs : List Char) : Nat :=
  (cs.takeWhile fun c => isIn c || c == '_').length

def fractionLength : List Char → Nat
  | '.' :: rest => 1 + digitsLength isDigit rest
  | _ => 0

def exponentLength : List Char → Nat
  | e :: sign :: rest =>
    if e != 'e' && e != 'E' then 0
    else if isDigit sign then 1 + digitsLength isDigit (sign :: rest)
    else if (sign == '+' || sign == '-') && (rest.head?.map isDigit).getD false then
      2 + digitsLength isDigit rest
    else 0
  | _ => 0

def imaginaryLength : List Char → Nat
  | c :: _ => if c == 'j' || c == 'J' then 1 else 0
  | [] => 0

def decimalLength (cs : List Char) : Nat :=
  let whole := digitsLength isDigit cs
  let fraction := whole + fractionLength (cs.drop whole)
  let scaled := fraction + exponentLength (cs.drop fraction)
  scaled + imaginaryLength (cs.drop scaled)

def isHexDigit (c : Char) : Bool :=
  isDigit c || ('a' ≤ c && c ≤ 'f') || ('A' ≤ c && c ≤ 'F')

def numberLength : List Char → Nat
  | '0' :: radix :: rest =>
    if radix == 'x' || radix == 'X' then 2 + digitsLength isHexDigit rest
    else if radix == 'o' || radix == 'O' || radix == 'b' || radix == 'B' then
      2 + digitsLength isDigit rest
    else decimalLength ('0' :: radix :: rest)
  | cs => decimalLength cs

def isLiteralPrefix (name : List Char) : Bool :=
  ["", "r", "u", "b", "f", "br", "rb", "fr", "rf"].contains
    (String.ofList (name.map Char.toLower))

def isFormatted (name : List Char) : Bool := name.any fun c => c == 'f' || c == 'F'
def isRaw (name : List Char) : Bool := name.any fun c => c == 'r' || c == 'R'

def quoteAt (raw : Bool) : List Char → Option Quote
  | c :: rest =>
    if c = '"' ∨ c = '\'' then some ⟨c, [c, c].isPrefixOf rest, raw⟩ else none
  | [] => none

namespace Quote

def chars (q : Quote) : List Char := List.replicate (if q.triple then 3 else 1) q.mark

def closes (q : Quote) (cs : List Char) : Bool := q.chars.isPrefixOf cs

end Quote

/-- Length of the body of a literal that is not formatted. A backslash takes the character after
it along. -/
def bodyLength (q : Quote) : List Char → Nat
  | [] => 0
  | [_] => if q.closes [q.mark] then 0 else 1
  | c :: d :: rest =>
    if q.closes (c :: d :: rest) then 0
    else if c = '\\' then 2 + bodyLength q rest
    else 1 + bodyLength q (d :: rest)

/-- Length of the fixed part of a formatted literal up to its end or to a brace that opens an
expression. Doubled braces and the braces of a named character belong to the fixed part. -/
def fixedLength (q : Quote) (named : Bool) : List Char → Nat
  | [] => 0
  | [c] => if q.closes [c] || c == '{' then 0 else 1
  | c :: d :: rest =>
    if named then 1 + fixedLength q (c != '}') (d :: rest)
    else if q.closes (c :: d :: rest) then 0
    else if c = '\\' then
      if d = '{' ∨ d = '}' then 1 + fixedLength q false (d :: rest)
      else 2 + fixedLength q (d == 'N' && !q.raw && rest.head? == some '{') rest
    else if (c = '{' ∧ d = '{') ∨ (c = '}' ∧ d = '}') then 2 + fixedLength q false rest
    else if c = '{' then 0
    else 1 + fixedLength q false (d :: rest)

/-- Opens a literal whose prefix has `n` characters, and reads on to its first expression or
past its end. -/
def openLiteral (r : Reading) (n : Nat) (formatted : Bool) (q : Quote) : Reading :=
  let opened := r.take .stringStart (n + q.chars.length)
  if formatted then opened.enter (.literal q)
  else (opened.skip (bodyLength q opened.chars)).take .stringEnd q.chars.length

/-- Whether `:=` binds the name that an expression in a formatted literal consists of so far. -/
def bindsField : List Lexeme → Bool
  | ⟨.name, text, _⟩ :: ⟨.fieldStart, _, _⟩ :: _ => !(["None", "True", "False"].contains text)
  | _ => false

def stepOperator (r : Reading) (op : String) : Reading :=
  let taken := r.take .operator op.length
  match op with
  | "(" | "[" | "\x7b" => taken.enter .bracket
  | ")" | "]" | "\x7d" => taken.leave
  | _ => taken

def stepField (r : Reading) : Option Reading :=
  match r.chars with
  | '}' :: _ => some (r.take .fieldEnd 1).leave
  | ':' :: '=' :: _ =>
    if bindsField r.lexemes then none
    else some ((r.take .formatStart 1).leave.enter .format)
  | ':' :: _ => some ((r.take .formatStart 1).leave.enter .format)
  | '!' :: '=' :: _ => none
  | '!' :: rest => some (r.take .conversion (1 + (rest.takeWhile inName).length))
  | _ => none

def stepCode (r : Reading) : Option Reading :=
  match (if r.modes.head? = some .field then stepField r else none) with
  | some next => some next
  | none =>
    match r.chars with
    | [] => none
    | '\n' :: rest =>
      if r.modes.isEmpty then some (r.take (.lineEnd (indentation 0 rest)) 1) else some (r.skip 1)
    | '#' :: rest => some (r.take .comment (1 + (rest.takeWhile (· != '\n')).length))
    | '\\' :: '\n' :: _ => some (r.take .continuation 2)
    | '\\' :: '\r' :: '\n' :: _ => some (r.take .continuation 3)
    | c :: rest =>
      if isBlank c then some (r.skip 1)
      else if isDigit c || (c == '.' && (rest.head?.map isDigit).getD false) then
        some (r.take .number (numberLength (c :: rest)))
      else
        let name := (c :: rest).takeWhile inName
        match (if isLiteralPrefix name then
            quoteAt (isRaw name) ((c :: rest).drop name.length) else none) with
        | some q => some (openLiteral r name.length (isFormatted name) q)
        | none =>
          if startsName c then some (r.take .name name.length)
          else (operatorAt (c :: rest)).map (stepOperator r)

def stepLiteral (q : Quote) (r : Reading) : Option Reading :=
  let next := r.skip (fixedLength q false r.chars)
  if q.closes next.chars then some (next.take .stringEnd q.chars.length).leave
  else match next.chars with
    | '{' :: _ => some ((next.take .fieldStart 1).enter .field)
    | _ => none

def stepFormat (r : Reading) : Option Reading :=
  let next := r.skip (r.chars.takeWhile fun c => c != '{' && c != '}').length
  match next.chars with
  | '{' :: _ => some ((next.take .fieldStart 1).enter .field)
  | '}' :: _ => some (next.take .fieldEnd 1).leave
  | _ => none

def step (r : Reading) : Option Reading :=
  match r.modes with
  | .literal q :: _ => stepLiteral q r
  | .format :: _ => stepFormat r
  | _ => stepCode r

/-- Reads on for at most the given number of steps. Each step but a last one in a literal takes a
character, so that two steps for each character are more than enough. -/
def readAll : Nat → Reading → Reading
  | 0, r => r
  | n + 1, r =>
    match step r with
    | some next => readAll n next
    | none => r

structure Lexemes where
  lexemes : List Lexeme
  last : Point
  complete : Bool

def lexemes (source : String) : Lexemes :=
  let cs := source.toList
  let r := readAll (2 * cs.length + 1) (.start cs)
  ⟨r.lexemes.reverse, Point.start.afterAll cs, r.chars.isEmpty && r.modes.isEmpty⟩

end PythonFlow.Python
