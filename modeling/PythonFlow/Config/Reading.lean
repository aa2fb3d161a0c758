import PythonFlow.Config.Error

/-!
# Reading configurations

A configuration file is a mapping with a version and a mapping of options. Options that are left out
keep their standard values, and a field that is not known, or comes twice, is an error. A file is
read from its beginning, so that of several errors the first is told; that the text is no YAML at
all, or holds another document, is told only if nothing is wrong with what comes before. Which library
reads the YAML is open.
-/

set_option autoImplicit false

namespace PythonFlow

open Yaml (Placed Part Mark Document ScalarStyle Schema)

namespace Reading

abbrev Result (α : Type) := Except YamlError (α × List Placed)

def runOut (d : Document) : YamlError :=
  match d.flaw with
  | some f => .ofFlaw f
  | none => .noValue

def followed {α : Type} (d : Document) (read : List Placed → Result α) (parts : List Placed) :
    Result α :=
  match parts with
  | ⟨.reference number, _⟩ :: rest =>
    match read (d.target number) with
    | .error e => .error e
    | .ok (a, _) => .ok (a, rest)
  | _ => read parts

def standardTag (name : String) : List Char := ("tag:yaml.org,2002:" ++ name).toList

/-- Says what a scalar is where something else was asked for. A scalar whose tag it does not fit is
at fault by itself. -/
def scalarMismatch (schema : Schema) (tag : Option (List Char)) (style : ScalarStyle) (text : String)
    (expected : Expected) : Mismatch :=
  let is (v : Yaml.Value) : Mismatch := .wrongType (.value v) expected
  let isNot (e : Expected) : Mismatch := .wrongValue (.value (.text text)) e
  let untagged := if style = .plain then is (schema.plainValue text) else is (.text text)
  match tag with
  | none => untagged
  | some t =>
    if t = standardTag "bool" then
      match schema.readBool text with
      | some b => is (.bool b)
      | none => isNot .truth
    else if t = standardTag "int" then
      match schema.readInteger text with
      | some n => is (.integer n)
      | none => isNot .integer
    else if t = standardTag "float" then
      match schema.readFloat text with
      | some f => is (.float f)
      | none => isNot .float
    else if t = standardTag "null" then
      if schema.isNull text then is .unit else isNot .null
    else if t.head? = some '!' then untagged
    else is (.text text)

def mismatchOf (schema : Schema) (expected : Expected) : Part → Option Mismatch
  | .scalar tag style text => some (scalarMismatch schema tag style (String.ofList text) expected)
  | .sequenceStart => some (.wrongType .sequence expected)
  | .mappingStart => some (.wrongType .mapping expected)
  | .reference _ | .sequenceEnd | .mappingEnd | .nothing => none

def refuse (d : Document) (expected : Expected) (path : List String) (p : Placed) : YamlError :=
  match mismatchOf d.schema expected p.part with
  | some m => .mismatch m p.mark path
  | none => runOut d

/-- A scalar may be read as a number or a truth value if it is plain, or if it is literal and has
the tag of that type. -/
def convertible (tag : Option (List Char)) (style : ScalarStyle) (type : String) : Bool :=
  match style with
  | .plain => true
  | .literal => tag == some (standardTag type)
  | _ => false

def readScalar {α : Type} (d : Document) (type : String) (read : String → Option α)
    (expected : Expected) (path : List String) : List Placed → Result α
  | [] => .error (runOut d)
  | p :: rest =>
    match p.part with
    | .scalar tag style text =>
      match if convertible tag style type then read (String.ofList text) else none with
      | some a => .ok (a, rest)
      | none => .error (refuse d expected path p)
    | _ => .error (refuse d expected path p)

def readTruth (d : Document) (path : List String) (parts : List Placed) : Result Bool :=
  followed d (readScalar d "bool" d.schema.readBool .truth path) parts

def readDepth (d : Document) (path : List String) (parts : List Placed) : Result UInt64 :=
  followed d (readScalar d "int" d.schema.readNat .depth path) parts

def readVersionNumber (d : Document) (path : List String) (parts : List Placed) : Result Nat :=
  match readScalar d "int" d.schema.readNat .version path parts with
  | .error e => .error e
  | .ok (n, rest) =>
    if n.toNat < Nat.pow 2 32 then .ok (n.toNat, rest)
    else
      let mark := (parts.head?.map Placed.mark).getD .start
      .error (.mismatch (.wrongValue (.value (.integer n.toNat)) .version) mark path)

structure Around where
  mark : Mark
  path : List String

/-- A version may be left empty, or null. A plain scalar that has the tag of null, but is none, is
told as an error of the mapping around it. -/
def readVersionHere (d : Document) (around : Around) (path : List String) (parts : List Placed) :
    Result (Option Nat) :=
  let number : Result (Option Nat) :=
    match readVersionNumber d path parts with
    | .error e => .error e
    | .ok (n, rest) => .ok (some n, rest)
  match parts with
  | ⟨.nothing, _⟩ :: rest => .ok (none, rest)
  | ⟨.scalar tag .plain text, _⟩ :: rest =>
    let s := String.ofList text
    match tag with
    | none => if s.isEmpty || d.schema.isNull s then .ok (none, rest) else number
    | some t =>
      if t ≠ standardTag "null" then number
      else if d.schema.isNull s then .ok (none, rest)
      else
        .error (.mismatch (.wrongValue (.value (.text s)) .null) around.mark around.path)
  | _ => number

def readVersion (d : Document) (around : Around) (path : List String) (parts : List Placed) :
    Result (Option Nat) :=
  followed d (readVersionHere d around path) parts

/-! ## Mappings -/

/-- A field of a mapping that makes a value of type `σ`. -/
structure Field (σ : Type) where
  name : String
  /-- Reads the field's value into what is made so far. -/
  read : Around → List String → σ → List Placed → Result σ

def fieldNamed {σ : Type} (fields : List (Field σ)) (name : String) : Option (Field σ) :=
  fields.find? (·.name == name)

def readFieldHere {σ : Type} (d : Document) (fields : List (Field σ)) (path : List String) :
    List Placed → Result (Field σ)
  | [] => .error (runOut d)
  | p :: rest =>
    match p.part with
    | .scalar _ _ text =>
      let name := String.ofList text
      match fieldNamed fields name with
      | some f => .ok (f, rest)
      | none => .error (.mismatch (.unknownField name (fields.map Field.name)) p.mark path)
    | _ => .error (refuse d .fieldName path p)

/-- How a path names the field of a key. Only a scalar has a name there. -/
def pathName (key : Part) : String :=
  match key with
  | .scalar _ _ text => String.ofList text
  | _ => "?"

/-- Reads fields up to the end of a mapping. A field comes once at most, so that a mapping ends
after as many of them as there are. -/
def readFields {σ : Type} (d : Document) (fields : List (Field σ)) (around : Around) :
    Nat → List String → σ → List Placed → Result σ
  | 0, _, _, _ => .error (runOut d)
  | _, _, _, [] => .error (runOut d)
  | count + 1, seen, made, p :: rest =>
    if p.part = .mappingEnd then .ok (made, rest)
    else
      match followed d (readFieldHere d fields around.path) (p :: rest) with
      | .error e => .error e
      | .ok (field, rest) =>
        if seen.contains field.name then
          .error (.mismatch (.repeatedField field.name) around.mark around.path)
        else
          match field.read around (around.path ++ [pathName p.part]) made rest with
          | .error e => .error e
          | .ok (made, rest) => readFields d fields around count (field.name :: seen) made rest

/-- An empty plain scalar, and a text without a document, are mappings without fields. -/
def readMappingHere {σ : Type} (d : Document) (fields : List (Field σ)) (expected : Expected)
    (standard : σ) (path : List String) : List Placed → Result σ
  | [] => .error (runOut d)
  | p :: rest =>
    match p.part with
    | .mappingStart => readFields d fields ⟨p.mark, path⟩ (fields.length + 1) [] standard rest
    | .nothing => .ok (standard, rest)
    | .scalar _ .plain [] => .ok (standard, rest)
    | _ => .error (refuse d expected path p)

def readMapping {σ : Type} (d : Document) (fields : List (Field σ)) (expected : Expected)
    (standard : σ) (path : List String) (parts : List Placed) : Result σ :=
  followed d (readMappingHere d fields expected standard path) parts

/-- A field whose value is read without regard to the mapping around it. -/
def field {σ α : Type} (name : String) (read : List String → List Placed → Result α)
    (set : σ → α → σ) : Field σ :=
  ⟨name, fun _ path made parts =>
    match read path parts with
    | .error e => .error e
    | .ok (a, rest) => .ok (set made a, rest)⟩

/-! ## Files -/

def optionFields (d : Document) : List (Field Config) :=
  [field "max_depth" (readDepth d) fun c n => { c with maxDepth := n },
    field "include_classes" (readTruth d) fun c b => { c with includeClasses := b },
    field "include_lambdas" (readTruth d) fun c b => { c with includeLambdas := b },
    field "parallel" (readTruth d) fun c b => { c with parallel := b }]

structure ConfigFile where
  version : Option Nat
  config : Config

def versionField (d : Document) : Field ConfigFile :=
  ⟨"version", fun around path made parts =>
    match readVersion d around path parts with
    | .error e => .error e
    | .ok (v, rest) => .ok ({ made with version := v }, rest)⟩

def fileFields (d : Document) : List (Field ConfigFile) :=
  [versionField d,
    field "flow" (readMapping d (optionFields d) .options .standard) fun f c =>
      { f with config := c }]

def readFile (d : Document) : Except YamlError ConfigFile :=
  match readMapping d (fileFields d) .file ⟨none, .standard⟩ [] d.parts with
  | .error e => .error e
  | .ok (file, _) =>
    match d.flaw with
    | some f => .error (.ofFlaw f)
    | none => if d.followed then .error .severalDocuments else .ok file

end Reading

namespace Config

def ofFile (file : Reading.ConfigFile) : Except ConfigError Config :=
  match file.version with
  | none => .error .missingVersion
  | some v =>
    if v ≠ fileVersion then .error (.unsupportedVersion v)
    else
      match file.config.validate with
      | .error e => .error e
      | .ok () => .ok file.config

theorem of_file_valid {file : Reading.ConfigFile} {c : Config} (h : ofFile file = .ok c) :
    c.Valid := by
  unfold ofFile at h
  split at h
  · exact absurd h (by simp)
  · split at h
    · exact absurd h (by simp)
    · split at h
      · exact absurd h (by simp)
      · next hv =>
        obtain rfl := Except.ok.inj h
        exact (validate_eq_ok_iff _).mp hv

def decode (yaml : Yaml.Library) (text : String) : Except ConfigError Config :=
  match Reading.readFile (yaml.load text) with
  | .error e => .error (.yaml e)
  | .ok file => ofFile file

end Config
end PythonFlow
