import PythonFlow.Text.Quoted
import PythonFlow.Yaml.Library

/-!
# Configurations that do not fit

YAML that is no configuration, and what is said about it. A mismatch names the field it is about by
the fields around it, and the place of the value at fault.
-/

set_option autoImplicit false

namespace PythonFlow

inductive Expected where
  | file | options | version | depth | truth | fieldName | integer | float | null
deriving DecidableEq, Repr

def Expected.display : Expected → String
  | file => "struct ConfigExportV1"
  | options => "struct FlowConfig"
  | version => "u32"
  | depth => "usize"
  | truth => "a boolean"
  | fieldName => "field identifier"
  | integer => "an integer"
  | float => "a float"
  | null => "null"

inductive Found where
  | value (value : Yaml.Value)
  | sequence
  | mapping
deriving DecidableEq, Repr

namespace Found

/-- An integer that 64 bits do not hold is said to be a wider one. -/
def displayInteger (n : Int) : String :=
  let shown := "integer `" ++ toString n ++ "`"
  if n < -Int.ofNat (Nat.pow 2 63) then shown ++ " as i128"
  else if Int.ofNat (Nat.pow 2 64) ≤ n then shown ++ " as u128"
  else shown

def display : Found → String
  | value .unit => "unit value"
  | value (.bool b) => "boolean `" ++ toString b ++ "`"
  | value (.integer n) => displayInteger n
  | value (.float text) => "floating point `" ++ text ++ "`"
  | value (.text s) => "string " ++ Text.quoted s
  | sequence => "sequence"
  | mapping => "map"

end Found

inductive Mismatch where
  | wrongType (found : Found) (expected : Expected)
  | wrongValue (found : Found) (expected : Expected)
  | unknownField (name : String) (known : List String)
  | repeatedField (name : String)
deriving DecidableEq, Repr

namespace Mismatch

def fieldNames (names : List String) : List String := names.map fun n => "`" ++ n ++ "`"

def displayNames (names : List String) : String :=
  match fieldNames names with
  | [a, b] => a ++ " or " ++ b
  | shown => "one of " ++ ", ".intercalate shown

def message : Mismatch → String
  | wrongType found expected =>
    "invalid type: " ++ found.display ++ ", expected " ++ expected.display
  | wrongValue found expected =>
    "invalid value: " ++ found.display ++ ", expected " ++ expected.display
  | unknownField name known => "unknown field `" ++ name ++ "`, expected " ++ displayNames known
  | repeatedField name => "duplicate field `" ++ name ++ "`"

end Mismatch

inductive YamlError where
  /-- A mismatch below the fields of the path, outermost first. -/
  | mismatch (mismatch : Mismatch) (mark : Yaml.Mark) (path : List String)
  | problem (problem : Yaml.Problem)
  | unknownAnchor (mark : Yaml.Mark)
  | noValue
  | severalDocuments
deriving DecidableEq, Repr

namespace YamlError

def ofFlaw : Yaml.Flaw → YamlError
  | .problem p => problem p
  | .unknownAnchor m => unknownAnchor m

def text : YamlError → String
  | mismatch m _ path => (if path.isEmpty then "" else ".".intercalate path ++ ": ") ++ m.message
  | problem p => p.message
  | unknownAnchor _ => "unknown anchor"
  | noValue => "EOF while parsing a value"
  | severalDocuments =>
    "deserializing from YAML containing more than one document is not supported"

def mark? : YamlError → Option Yaml.Mark
  | mismatch _ m _ => some m
  | unknownAnchor m => some m
  | _ => none

def message (e : YamlError) : String :=
  match e.mark? with
  | some m => e.text ++ if m.shown then " at " ++ m.display else ""
  | none => e.text

def debug : YamlError → String
  | problem p => p.debug
  | e =>
    let place := match e.mark? with
      | some m =>
        ", line: " ++ toString (m.line + 1) ++ ", column: " ++ toString (m.column + 1)
      | none => ""
    "Error(" ++ Text.quoted e.text ++ place ++ ")"

end YamlError
end PythonFlow
