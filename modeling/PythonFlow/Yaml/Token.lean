import PythonFlow.Yaml.Directive
import PythonFlow.Yaml.Scalar.Block
import PythonFlow.Yaml.Scalar.Plain
import PythonFlow.Yaml.Scalar.Quoted

/-!
# Tokens of YAML

Each token is a piece of the text, but for the marks that show where a block collection begins and
ends. Those, and the mark of a key whose end shows that it is one, have no width.
-/

set_option autoImplicit false

namespace PythonFlow.Yaml

inductive TokenKind where
  | textEnd
  | directive (directive : Directive)
  | documentStart | documentEnd
  | blockSequenceStart | blockMappingStart | blockEnd
  | flowSequenceStart | flowSequenceEnd | flowMappingStart | flowMappingEnd
  | blockEntry | flowEntry | key | value
  | reference (name : List Char)
  | anchor (name : List Char)
  | tag (tag : TagText)
  | scalar (style : ScalarStyle) (text : List Char)
deriving DecidableEq, Repr

structure Token where
  kind : TokenKind
  start : Mark
  last : Mark
deriving DecidableEq, Repr

/-- A token without width. -/
def Token.at (kind : TokenKind) (m : Mark) : Token := ⟨kind, m, m⟩

structure KeyStart where
  /-- Whether nothing but a key can stand there. -/
  required : Bool
  /-- How many tokens lie before it. -/
  number : Nat
  mark : Mark
deriving DecidableEq, Repr

/-- A key stands in one line, and takes no more than 1024 characters. -/
def KeyStart.stale (k : KeyStart) (m : Mark) : Bool :=
  k.mark.line < m.line || k.mark.index + 1024 < m.index

structure TokenStream where
  cursor : Cursor
  /-- The tokens that are read but not yet taken, in order. -/
  queue : List Token
  /-- How many tokens have been taken. -/
  taken : Nat
  /-- Columns of the open block collections, innermost first. -/
  indents : List Nat
  /-- Where a key may begin in the innermost collection. -/
  key : Option KeyStart
  /-- The same for each collection around it; there is one for every open bracket. -/
  outerKeys : List (Option KeyStart)
  /-- Whether a key may begin at the next token. -/
  keyAllowed : Bool

namespace TokenStream

def ofText (cs : List Char) : TokenStream := ⟨.ofText cs, [], 0, [], none, [], true⟩

def mark (s : TokenStream) : Mark := s.cursor.mark

def inFlow (s : TokenStream) : Bool := !s.outerKeys.isEmpty

def push (s : TokenStream) (t : Token) : TokenStream := { s with queue := s.queue ++ [t] }

def insert (s : TokenStream) (number : Nat) (t : Token) : TokenStream :=
  { s with queue := s.queue.insertIdx (number - s.taken) t }

def pushChars (s : TokenStream) (kind : TokenKind) (n : Nat) : TokenStream :=
  let last := s.cursor.skip n
  { s.push ⟨kind, s.mark, last.mark⟩ with cursor := last }

def pushTo (s : TokenStream) (kind : TokenKind) (last : Cursor) : TokenStream :=
  { s.push ⟨kind, s.mark, last.mark⟩ with cursor := last }

/-! ## Keys -/

/-- Gives up a place of a key that lies too far back. -/
def freshKey (m : Mark) : Option KeyStart → Except Problem (Option KeyStart)
  | none => .ok none
  | some k =>
    if !k.stale m then .ok (some k)
    else if k.required then .error (.during .simpleKey k.mark .keyWithoutValue m)
    else .ok none

def dropStaleKeys (s : TokenStream) : Except Problem TokenStream := do
  return { s with
    outerKeys := ← s.outerKeys.mapM (freshKey s.mark)
    key := ← freshKey s.mark s.key }

def dropKey (s : TokenStream) : Except Problem TokenStream :=
  match s.key with
  | none => .ok s
  | some k =>
    if k.required then .error (.during .simpleKey k.mark .keyWithoutValue s.mark)
    else .ok { s with key := none }

def saveKey (s : TokenStream) : Except Problem TokenStream :=
  if s.keyAllowed then do
    let cleared ← s.dropKey
    let required := !s.inFlow && s.indents.head? == some s.mark.column
    return { cleared with key := some ⟨required, s.taken + s.queue.length, s.mark⟩ }
  else .ok s

/-! ## Indentation -/

/-- Whether `column` lies beyond the indentation of the innermost block collection. -/
def indentsTo (s : TokenStream) (column : Nat) : Bool := s.indents.head?.all (· < column)

/-- Opens a block collection at `m` if that lies beyond the one around it. `add` puts its token in
place. -/
def openBlock (s : TokenStream) (kind : TokenKind) (m : Mark)
    (add : TokenStream → Token → TokenStream) : TokenStream :=
  if s.inFlow then s
  else if s.indentsTo m.column then
    { add s (.at kind m) with indents := m.column :: s.indents }
  else s

def closeBlocks (s : TokenStream) (closes : Nat → Bool) : TokenStream :=
  if s.inFlow then s
  else
    let closed := s.indents.takeWhile closes
    { s with
      queue := s.queue ++ closed.map fun _ => .at .blockEnd s.mark
      indents := s.indents.dropWhile closes }

/-! ## Single tokens -/

/-- The text ends in a line of its own. -/
def readEnd (s : TokenStream) : Except Problem TokenStream := do
  let m := s.mark
  let m := if m.column = 0 then m else ⟨m.index, m.line + 1, 0⟩
  let s := { s with cursor := ⟨[], m⟩ }
  let s ← (s.closeBlocks fun _ => true).dropKey
  return { s with keyAllowed := false }.push (.at .textEnd m)

def readDirective (s : TokenStream) : Except Problem TokenStream := do
  let s ← (s.closeBlocks fun _ => true).dropKey
  let (directive, last, c) ← scanDirective s.cursor
  return { s.push ⟨.directive directive, s.mark, last⟩ with cursor := c, keyAllowed := false }

def readDocumentMark (s : TokenStream) (kind : TokenKind) : Except Problem TokenStream := do
  let s ← (s.closeBlocks fun _ => true).dropKey
  return { s with keyAllowed := false }.pushChars kind 3

def openBracket (s : TokenStream) (kind : TokenKind) : Except Problem TokenStream := do
  let s ← s.saveKey
  let opened := { s with key := none, outerKeys := s.key :: s.outerKeys, keyAllowed := true }
  return opened.pushChars kind 1

def closeBracket (s : TokenStream) (kind : TokenKind) : Except Problem TokenStream := do
  let s ← s.dropKey
  let s := match s.outerKeys with
    | [] => s
    | key :: outer => { s with key := key, outerKeys := outer }
  return { s with keyAllowed := false }.pushChars kind 1

def readFlowEntry (s : TokenStream) : Except Problem TokenStream := do
  let s ← s.dropKey
  return { s with keyAllowed := true }.pushChars .flowEntry 1

def readBlockEntry (s : TokenStream) : Except Problem TokenStream := do
  if !s.inFlow && !s.keyAllowed then throw (.plain .entryNotAllowed s.mark)
  let s ← (s.openBlock .blockSequenceStart s.mark push).dropKey
  return { s with keyAllowed := true }.pushChars .blockEntry 1

def readKey (s : TokenStream) : Except Problem TokenStream := do
  if !s.inFlow && !s.keyAllowed then throw (.plain .keyNotAllowed s.mark)
  let s ← (s.openBlock .blockMappingStart s.mark push).dropKey
  return { s with keyAllowed := !s.inFlow }.pushChars .key 1

/-- A colon makes a key of what was read since the place that was remembered. -/
def readValue (s : TokenStream) : Except Problem TokenStream :=
  match s.key with
  | some k =>
    let s := s.insert k.number (.at .key k.mark)
    let s := s.openBlock .blockMappingStart k.mark fun s t => s.insert k.number t
    .ok ({ s with key := none, keyAllowed := false }.pushChars .value 1)
  | none =>
    if !s.inFlow && !s.keyAllowed then .error (.plain .valueNotAllowed s.mark)
    else
      let s := s.openBlock .blockMappingStart s.mark push
      .ok ({ s with keyAllowed := !s.inFlow }.pushChars .value 1)

def readAnchor (s : TokenStream) (activity : Activity) (kind : List Char → TokenKind) :
    Except Problem TokenStream := do
  let s ← s.saveKey
  let (name, c) ← scanAnchor activity s.cursor
  return { s with keyAllowed := false }.pushTo (kind name) c

def readTag (s : TokenStream) : Except Problem TokenStream := do
  let s ← s.saveKey
  let (tag, c) ← scanTag s.inFlow s.cursor
  return { s with keyAllowed := false }.pushTo (.tag tag) c

def readBlockScalar (s : TokenStream) (style : ScalarStyle) : Except Problem TokenStream := do
  let s ← s.dropKey
  let (text, c) ← blockScalar (style == .folded) s.indents.head? s.cursor
  return { s with keyAllowed := true }.pushTo (.scalar style text) c

def readQuoted (s : TokenStream) (style : QuoteStyle) : Except Problem TokenStream := do
  let s ← s.saveKey
  let (text, c) ← quotedScalar style s.cursor
  return { s with keyAllowed := false }.pushTo (.scalar (.quoted style) text) c

/-- After a plain scalar a key may begin only if a line has ended behind it. -/
def readPlain (s : TokenStream) : Except Problem TokenStream := do
  let s ← s.saveKey
  let scalar ← plainScalar s.inFlow (s.indents.head?.elim 0 (· + 1)) s.cursor
  return { s with keyAllowed := scalar.lineEnded }.pushTo (.scalar .plain scalar.text) scalar.last

/-! ## The next token -/

/-- Skips what lies in front of a token, and says whether a key may begin there. Tabs are no part of
an indentation. In block collections a key may begin in any new line. -/
def skipToToken (inFlow : Bool) : Bool → Bool → List Char → Mark → Bool × Cursor
  | keyAllowed, _, [], m => (keyAllowed, ⟨[], m⟩)
  | keyAllowed, inComment, c :: rest, m =>
    if isBreak c then skipToToken inFlow (keyAllowed || !inFlow) false rest (m.after c)
    else if inComment || c == '#' then skipToToken inFlow keyAllowed true rest (m.after c)
    else if c == ' ' || (c == '\t' && (inFlow || !keyAllowed)) ||
        (c == '\ufeff' && m.index == 0) then
      skipToToken inFlow keyAllowed false rest (m.after c)
    else (keyAllowed, ⟨c :: rest, m⟩)

def isIndicator (c : Char) : Bool := "-?:,[]\x7b\x7d#&*!|>'\"%@`".toList.contains c

def startsPlain (s : TokenStream) (c : Char) (next : Option Char) : Bool :=
  !(isGap c || isIndicator c) || (c == '-' && !next.any isBlank) ||
    (!s.inFlow && (c == '?' || c == ':') && !endsWord next)

def readToken (s : TokenStream) : Except Problem TokenStream :=
  match s.cursor.rest with
  | [] => s.readEnd
  | c :: rest =>
    let next := rest.head?
    if s.mark.column == 0 && c == '%' then s.readDirective
    else if s.cursor.atIndicator '-' then s.readDocumentMark .documentStart
    else if s.cursor.atIndicator '.' then s.readDocumentMark .documentEnd
    else if c == '[' then s.openBracket .flowSequenceStart
    else if c == '\x7b' then s.openBracket .flowMappingStart
    else if c == ']' then s.closeBracket .flowSequenceEnd
    else if c == '\x7d' then s.closeBracket .flowMappingEnd
    else if c == ',' then s.readFlowEntry
    else if c == '-' && endsWord next then s.readBlockEntry
    else if c == '?' && (s.inFlow || endsWord next) then s.readKey
    else if c == ':' && (s.inFlow || endsWord next) then s.readValue
    else if c == '*' then s.readAnchor .aliasName .reference
    else if c == '&' then s.readAnchor .anchor .anchor
    else if c == '!' then s.readTag
    else if c == '|' && !s.inFlow then s.readBlockScalar .literal
    else if c == '>' && !s.inFlow then s.readBlockScalar .folded
    else if c == '\'' then s.readQuoted .single
    else if c == '"' then s.readQuoted .double
    else if s.startsPlain c next then s.readPlain
    else .error (.during .nextToken s.mark .noToken s.mark)

/-- Reads one more token, behind the ends of the block collections that it leaves. -/
def advance (s : TokenStream) : Except Problem TokenStream := do
  let (keyAllowed, c) := skipToToken s.inFlow s.keyAllowed false s.cursor.rest s.mark
  let s ← { s with cursor := c, keyAllowed := keyAllowed }.dropStaleKeys
  (s.closeBlocks (s.mark.column < ·)).readToken

def undecided (s : TokenStream) : Bool :=
  (s.key :: s.outerKeys).any fun k => k.any (·.number == s.taken)

def fillUpTo : Nat → TokenStream → Except Problem TokenStream
  | 0, s => .ok s
  | tokens + 1, s => do
    if s.queue.isEmpty then fillUpTo tokens (← s.advance)
    else
      let s ← s.dropStaleKeys
      if s.undecided then fillUpTo tokens (← s.advance) else return s

/-- Reads until it is known which token comes first. Every token but the last takes a character at
least. -/
def fill (s : TokenStream) : Except Problem TokenStream := fillUpTo (s.cursor.rest.length + 2) s

/-- The next token, and the stream in front of it. -/
def peek (s : TokenStream) : Except Problem (Token × TokenStream) := do
  let s ← s.fill
  match s.queue with
  | t :: _ => return (t, s)
  | [] => return (.at .textEnd s.mark, s)

def drop (s : TokenStream) : TokenStream := { s with queue := s.queue.drop 1, taken := s.taken + 1 }

end TokenStream
end PythonFlow.Yaml
