import PythonFlow.Decimal.Shortest
import PythonFlow.Text.Quoted
import PythonFlow.Yaml.Cursor

/-!
# Values of plain scalars

What a plain scalar stands for: nothing, a truth value, a number or a text. Digits behind a leading
nought are no number, and neither is a number with anything around it.
-/

set_option autoImplicit false

namespace PythonFlow.Yaml

/-! ## Words -/

def isNull (s : String) : Bool := ["null", "Null", "NULL", "~"].contains s

def readBool (s : String) : Option Bool :=
  if ["true", "True", "TRUE"].contains s then some true
  else if ["false", "False", "FALSE"].contains s then some false
  else none

/-! ## Whole numbers -/

def digitValue (c : Char) : Nat :=
  if c.isDigit then c.toNat - '0'.toNat else c.toLower.toNat - 'a'.toNat + 10

def isDigitOf (base : Nat) (c : Char) : Bool :=
  (c.isDigit || c.isAlpha) && digitValue c < base

def readDigits (base : Nat) (cs : List Char) : Option Nat :=
  if cs.isEmpty || !cs.all (isDigitOf base) then none
  else some (cs.foldl (fun n c => base * n + digitValue c) 0)

def namedBase : List Char → Option (Nat × List Char)
  | '0' :: 'x' :: rest => some (16, rest)
  | '0' :: 'o' :: rest => some (8, rest)
  | '0' :: 'b' :: rest => some (2, rest)
  | _ => none

def isSign (c : Char) : Bool := c == '+' || c == '-'

def hasLeadingNought (cs : List Char) : Bool :=
  match cs with
  | '0' :: c :: rest => (c :: rest).all Char.isDigit
  | _ => false

def readUnsigned (cs : List Char) : Option Nat :=
  match namedBase cs with
  | some (base, digits) => readDigits base digits
  | none => if hasLeadingNought cs then none else readDigits 10 cs

/-- A whole number with one sign at most. -/
def readSigned : List Char → Option Int
  | '+' :: rest => (readUnsigned rest).map Int.ofNat
  | '-' :: rest => (readUnsigned rest).map fun n => -(n : Int)
  | cs => (readUnsigned cs).map Int.ofNat

/-- A whole number that 128 bits hold, with or without a sign. -/
def readInteger (cs : List Char) : Option Int :=
  (readSigned cs).filter fun n => -Int.ofNat (Nat.pow 2 127) ≤ n && n < Int.ofNat (Nat.pow 2 128)

/-- A whole number that is written without a minus sign and that 64 bits hold. -/
def readNat (s : String) : Option Nat :=
  let found := match s.toList with
    | '+' :: rest => readUnsigned rest
    | cs => readUnsigned cs
  found.filter (· < Nat.pow 2 64)

/-! ## Other numbers -/

/-- A number in decimal notation: its digits, and the power of ten of the last of them. -/
structure DecimalNotation where
  digits : List Char
  power : Int

def readExponent : List Char → Option Int
  | '+' :: rest => (readDigits 10 rest).map Int.ofNat
  | '-' :: rest => (readDigits 10 rest).map fun n => -(n : Int)
  | cs => (readDigits 10 cs).map Int.ofNat

def readDecimal (cs : List Char) : Option DecimalNotation :=
  let whole := cs.takeWhile Char.isDigit
  let cs := cs.dropWhile Char.isDigit
  let places := if cs.head? = some '.' then (cs.drop 1).takeWhile Char.isDigit else []
  let cs := if cs.head? = some '.' then (cs.drop 1).dropWhile Char.isDigit else cs
  let digits := whole ++ places
  if digits.isEmpty then none
  else
    match cs with
    | [] => some ⟨digits, -(places.length : Int)⟩
    | e :: rest =>
      if e = 'e' ∨ e = 'E' then (readExponent rest).map fun n => ⟨digits, n - places.length⟩
      else none

/-- The magnitude of a number written with a point, or nothing if it is out of range. Numbers far
out of range, on either side, are told by the place of their first digit. -/
def DecimalNotation.magnitude (d : DecimalNotation) : Option String :=
  let digits := d.digits.dropWhile (· == '0')
  let first : Int := digits.length + d.power
  if digits.isEmpty || first < -400 then some "0.0"
  else if 400 < first then none
  else
    let n := digits.foldl (fun n c => 10 * n + digitValue c) 0
    match Decimal.nearestDouble (n * Nat.pow 10 d.power.toNat) (Nat.pow 10 (-d.power).toNat) with
    | none => none
    | some x =>
      let (digits, power) := x.shortest
      some (Decimal.positional digits power)

def isInfinityWord (s : String) : Bool := [".inf", ".Inf", ".INF"].contains s

def readFloat (s : String) : Option String :=
  let (plus, body) := match s.toList with
    | '+' :: rest => (true, rest)
    | cs => (false, cs)
  if plus && body.head?.any isSign then none
  else if isInfinityWord (String.ofList body) then some "inf"
  else if [".nan", ".NaN", ".NAN"].contains s then some "NaN"
  else
    match body with
    | '-' :: rest =>
      if !plus && isInfinityWord (String.ofList rest) then some "-inf"
      else ((readDecimal rest).bind DecimalNotation.magnitude).map ("-" ++ ·)
    | cs => (readDecimal cs).bind DecimalNotation.magnitude

/-! ## Plain scalars -/

def unsignedOf (cs : List Char) : List Char :=
  match cs with
  | c :: rest => if isSign c then rest else cs
  | [] => []

def plainValue (s : String) : Value :=
  if s.isEmpty || isNull s then .unit
  else
    match readBool s with
    | some b => .bool b
    | none =>
      match readInteger s.toList with
      | some n => .integer n
      | none =>
        if hasLeadingNought (unsignedOf s.toList) then .text s
        else
          match readFloat s with
          | some f => .float f
          | none => .text s

def Schema.core : Schema where
  isNull := Yaml.isNull
  readBool := Yaml.readBool
  readNat s := (Yaml.readNat s).map UInt64.ofNat
  readInteger s := Yaml.readInteger s.toList
  readFloat := Yaml.readFloat
  plainValue := Yaml.plainValue

end PythonFlow.Yaml
