import PythonFlow.Config.Basic
import PythonFlow.Config.Mismatch
import PythonFlow.FileError

/-!
# Errors of configurations
-/

set_option autoImplicit false

namespace PythonFlow

inductive ConfigError where
  | depthOutOfRange (depth : Nat)
  | missingVersion
  | unsupportedVersion (found : Nat)
  | unreadable (error : FileError)
  | yaml (error : YamlError)
deriving DecidableEq, Repr

def Config.fileVersion : Nat := 1

namespace ConfigError

def depthHint : String := "Nesting depth must be at least 1"

def message : ConfigError → String
  | depthOutOfRange depth =>
    "Invalid range for field 'max_depth': " ++ toString depth ++ " not in 1..=" ++
      toString Config.depthLimit ++ ". " ++ depthHint
  | missingVersion =>
    "Missing 'version' field in configuration file. " ++
      "Add 'version: 1' to the top of your YAML file."
  | unsupportedVersion found =>
    "Unsupported configuration version " ++ toString found ++ ". Supported versions: " ++
      toString Config.fileVersion
  | unreadable error => "IO error: " ++ error.message
  | yaml error => "YAML parsing error: " ++ error.message

def debug : ConfigError → String
  | depthOutOfRange depth =>
    "Range \x7b field: \"max_depth\", value: \"" ++ toString depth ++ "\", min: \"1\", max: \"" ++
      toString Config.depthLimit ++ "\", hint: \"" ++ depthHint ++ "\" \x7d"
  | missingVersion => "MissingVersion"
  | unsupportedVersion found =>
    "UnsupportedVersion \x7b found: " ++ toString found ++ ", supported: [" ++
      toString Config.fileVersion ++ "] \x7d"
  | unreadable error => "Io(" ++ error.debug ++ ")"
  | yaml error => "Yaml(" ++ error.debug ++ ")"

end ConfigError

def Config.validate (c : Config) : Except ConfigError Unit :=
  if c.Valid then .ok () else .error (.depthOutOfRange c.depth)

theorem Config.validate_eq_ok_iff (c : Config) : c.validate = .ok () ↔ c.Valid := by
  unfold Config.validate
  split <;> simp_all

end PythonFlow
