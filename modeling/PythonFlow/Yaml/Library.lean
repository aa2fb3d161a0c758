import PythonFlow.Yaml.Problem

/-!
# What a YAML library offers

A library reads the first document of a text and writes mappings of numbers and truth values. A document
is known as the row of its parts. A text that goes wrong still has the parts in front of the problem, and
an alias knows where the node begins that it stands for. What a scalar stands for is left to a schema.
-/

set_option autoImplicit false

namespace PythonFlow.Yaml

/-! ## Documents -/

inductive QuoteStyle where
  | single
  | double
deriving DecidableEq, Repr

inductive ScalarStyle where
  | plain
  | quoted (style : QuoteStyle)
  | literal
  | folded
deriving DecidableEq, Repr

inductive Part where
  /-- Stands for the node of the given number. -/
  | reference (number : Nat)
  | scalar (tag : Option (List Char)) (style : ScalarStyle) (text : List Char)
  | sequenceStart | sequenceEnd | mappingStart | mappingEnd
  /-- All that there is in a text without a document. -/
  | nothing
deriving DecidableEq, Repr

structure Placed where
  part : Part
  mark : Mark
deriving DecidableEq, Repr

inductive Flaw where
  | problem (problem : Problem)
  | unknownAnchor (mark : Mark)
deriving DecidableEq, Repr

inductive Value where
  | unit
  | bool (value : Bool)
  | integer (value : Int)
  /-- A number with a point, an exponent or no finite value, or one too large for an integer, as it
  is shown. -/
  | float (text : String)
  | text (value : String)
deriving DecidableEq, Repr

structure Schema where
  isNull : String → Bool
  readBool : String → Option Bool
  readNat : String → Option UInt64
  readInteger : String → Option Int
  readFloat : String → Option String
  /-- What a plain scalar without a tag stands for. -/
  plainValue : String → Value

structure Document where
  parts : List Placed
  /-- Where the node of a number begins, latest first. -/
  places : List (Nat × Nat)
  flaw : Option Flaw
  /-- Whether another document follows. -/
  followed : Bool
  schema : Schema

/-- The parts from the node on that an alias stands for. -/
def Document.target (d : Document) (number : Nat) : List Placed :=
  match d.places.lookup number with
  | some place => d.parts.drop place
  | none => []

/-! ## Mappings -/

def isWordChar (c : Char) : Bool := c.isAlphanum || c == '_'

structure Word where
  chars : List Char
  ne_nil : chars ≠ []
  allowed : ∀ c ∈ chars, isWordChar c = true
  /-- A key takes no more characters. -/
  short : chars.length ≤ 1024

def Word.ofString (s : String)
    (h : s.toList ≠ [] ∧ s.toList.all isWordChar = true ∧ s.toList.length ≤ 1024) : Word :=
  ⟨s.toList, h.1, List.all_eq_true.1 h.2.1, h.2.2⟩

mutual

inductive Plain where
  | number (n : UInt64)
  | truth (b : Bool)
  | mapping (m : Mapping)

inductive Mapping where
  | one (key : Word) (value : Plain)
  | more (key : Word) (value : Plain) (rest : Mapping)

end

structure Library where
  load : String → Document
  dump : Mapping → Except Problem String

end PythonFlow.Yaml
