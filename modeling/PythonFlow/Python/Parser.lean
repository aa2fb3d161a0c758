import PythonFlow.Python.Layout

/-!
# Parsing tokens

A parser takes tokens from the front of a list, or fails and takes none. What it makes is a piece: a
concrete node, with the line continuations in front of it. When pieces are gathered into a node,
the continuations in front of the first stay in front of the whole, and all others become children.
-/

set_option autoImplicit false

namespace PythonFlow.Python

structure Piece where
  node : Concrete
  before : List Extent

namespace Piece

def extent (p : Piece) : Extent := p.node.extent

def continuation (e : Extent) : Concrete := .node "line_continuation" true none e []

def gather : List Piece → List Concrete
  | [] => []
  | p :: rest => p.node :: rest.flatMap fun q => q.before.map continuation ++ [q.node]

def branchTo (kind : String) (pieces : List Piece) (last : Point) : Piece :=
  match pieces with
  | [] => ⟨.node kind true none ⟨last, last⟩ [], []⟩
  | p :: _ => ⟨.node kind true none ⟨p.extent.first, last⟩ (gather pieces), p.before⟩

def lastPoint (pieces : List Piece) : Point :=
  match pieces.getLast? with
  | some p => p.extent.last
  | none => .start

def branch (kind : String) (pieces : List Piece) : Piece :=
  branchTo kind pieces (lastPoint pieces)

def filling (p : Piece) (field : String) : Piece :=
  match p.node with
  | .node kind named _ extent children => ⟨.node kind named (some field) extent children, p.before⟩

def oneOr (kind : String) : List Piece → Piece
  | [p] => p
  | pieces => branch kind pieces

end Piece

namespace Token

def leaf (t : Token) (kind : String) (named : Bool) : Piece :=
  ⟨.node kind named none t.extent [], t.continuations⟩

def word (t : Token) : Piece := t.leaf t.text false

def spells (t : Token) (text : String) : Bool :=
  (t.kind == .name || t.kind == .operator) && t.text == text

end Token

abbrev Parser := StateT (List Token) Option

namespace Parser

def peek : Parser (Option Token) := return (← get).head?

def satisfy (test : Token → Bool) : Parser Token := fun ts =>
  match ts with
  | t :: rest => if test t then some (t, rest) else none
  | [] => none

def ofKind (kind : TokenKind) : Parser Token := satisfy fun t => t.kind == kind

def word (text : String) : Parser Piece := return (← satisfy (·.spells text)).word

def anyWord (texts : List String) : Parser Piece :=
  return (← satisfy fun t => texts.any t.spells).word

def sees (text : String) : Parser Bool := return ((← get).head?.map (·.spells text)).getD false

def seesAny (texts : List String) : Parser Bool :=
  return ((← get).head?.map fun t => texts.any t.spells).getD false

def seesKind (kind : TokenKind) : Parser Bool :=
  return ((← get).head?.map (·.kind == kind)).getD false

/-- Repeats a parser for as long as it succeeds, at most once for each token on the first list. -/
def manyFor {α : Type} (p : Parser α) : List Token → List α → Parser (List α)
  | [], done => pure done.reverse
  | _ :: fuel, done => fun ts =>
    match p ts with
    | some (a, rest) => manyFor p fuel (a :: done) rest
    | none => some (done.reverse, ts)

def many {α : Type} (p : Parser α) : Parser (List α) := fun ts => manyFor p ts [] ts

def manyPieces (p : Parser (List Piece)) : Parser (List Piece) := return (← many p).flatten

def maybe (p : Parser (List Piece)) : Parser (List Piece) := p <|> pure []

def optionalWord (text : String) : Parser (List Piece) := maybe (return [← word text])

def commaRest (item : Parser Piece) : Parser (List Piece) := do
  let rest ← manyPieces do return [← word ",", ← item]
  return rest ++ (← optionalWord ",")

def commaList (item : Parser Piece) : Parser (List Piece) := do
  let first ← item
  return first :: (← commaRest item)

def leftChain (kind : String) (operators : List String) (item : Parser Piece) : Parser Piece := do
  let first ← item
  let rest ← many do return (← anyWord operators, ← item)
  return rest.foldl (fun left r => .branch kind [left, r.1, r.2]) first

end Parser

inductive Nonterminal where
  | expression
  /-- An expression without a conditional outside of brackets. -/
  | disjunction
  | unary
  /-- An expression in braces inside a formatted literal. -/
  | interpolation
  | suite
  | pattern
deriving DecidableEq, Repr

/-- How to parse each of these parts one level further in. -/
abbrev Grammar := Nonterminal → Parser Piece

end PythonFlow.Python
