import PythonFlow.Render.Label
import PythonFlow.Text.Quoted

/-!
# Graphs as JSON

Documents are indented by two blanks a level. Members keep the order in which they are given, an
empty array stands on one line, and only quotes, backslashes and control characters are escaped.
-/

set_option autoImplicit false

namespace PythonFlow

inductive JsonDocument where
  | null
  | bool (value : Bool)
  | number (value : Nat)
  | string (value : String)
  | array (items : List JsonDocument)
  | object (members : List (String × JsonDocument))

namespace JsonDocument

def escapeChar : Char → List Char
  | '"' => ['\\', '"']
  | '\\' => ['\\', '\\']
  | '\n' => ['\\', 'n']
  | '\r' => ['\\', 'r']
  | '\t' => ['\\', 't']
  | c =>
    if c.toNat = 8 then ['\\', 'b']
    else if c.toNat = 12 then ['\\', 'f']
    else if c.toNat < 32 then '\\' :: 'u' :: Text.hexPadded 4 c.toNat
    else [c]

def quote (s : String) : String :=
  "\"" ++ String.ofList (s.toList.flatMap escapeChar) ++ "\""

def indent (depth : Nat) : String := String.ofList (List.replicate (2 * depth) ' ')

mutual

def write (depth : Nat) : JsonDocument → String
  | null => "null"
  | bool true => "true"
  | bool false => "false"
  | number n => toString n
  | string s => quote s
  | array [] => "[]"
  | array (item :: rest) =>
    "[\n" ++ indent (depth + 1) ++ item.write (depth + 1) ++ writeItems (depth + 1) rest ++
      "\n" ++ indent depth ++ "]"
  | object [] => "\x7b\x7d"
  | object ((key, value) :: rest) =>
    "\x7b\n" ++ indent (depth + 1) ++ quote key ++ ": " ++ value.write (depth + 1) ++
      writeMembers (depth + 1) rest ++ "\n" ++ indent depth ++ "\x7d"

def writeItems (depth : Nat) : List JsonDocument → String
  | [] => ""
  | item :: rest => ",\n" ++ indent depth ++ item.write depth ++ writeItems depth rest

def writeMembers (depth : Nat) : List (String × JsonDocument) → String
  | [] => ""
  | (key, value) :: rest =>
    ",\n" ++ indent depth ++ quote key ++ ": " ++ value.write depth ++ writeMembers depth rest

end

end JsonDocument

namespace InstructionKind

def members : InstructionKind → List (String × JsonDocument)
  | plain => [("type", .string "plain")]
  | write name => [("type", .string "write"), ("name", .string name)]
  | conditional condition outcome =>
    [("type", .string "conditional"),
      ("condition", match condition with
        | some c => .number c.index
        | none => .null),
      ("outcome", .bool outcome)]

end InstructionKind

namespace ControlFlow

def instructionDocument (f : ControlFlow) (t : SyntaxTree) (i : Instruction) : JsonDocument :=
  let line := match f.line t i.id with
    | some n => .number n
    | none => .null
  .object ([("id", .number i.id.index), ("line", line), ("label", .string (f.label t i.id))] ++
    i.kind.members ++ [("successors", .array (i.successors.map fun s => .number s.index))])

def document (f : ControlFlow) (t : SyntaxTree) : JsonDocument :=
  .object [("owner", .string (f.ownerName t)), ("owner_kind", .string (t.kind f.owner).name),
    ("entry", .number f.entry.index), ("exit", .number f.exit.index),
    ("instructions", .array (f.graph.instructions.toList.map (f.instructionDocument t)))]

def toJson (f : ControlFlow) (t : SyntaxTree) : String := (f.document t).write 0

end ControlFlow
end PythonFlow
