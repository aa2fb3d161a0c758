import PythonFlow.Config.Reading
import PythonFlow.Yaml.Document

/-!
# Writing configurations

A file names its version, if it has one, and then every option. Which library writes the YAML is open; with
the one that reads and writes here, a configuration always has a text.
-/

set_option autoImplicit false

namespace PythonFlow

open Yaml (Mapping Word)

def Config.entries (c : Config) : Mapping :=
  .more (.ofString "max_depth" (by decide)) (.number c.maxDepth) <|
  .more (.ofString "include_classes" (by decide)) (.truth c.includeClasses) <|
  .more (.ofString "include_lambdas" (by decide)) (.truth c.includeLambdas) <|
  .one (.ofString "parallel" (by decide)) (.truth c.parallel)

def Reading.ConfigFile.entries (f : Reading.ConfigFile) : Mapping :=
  let options : Mapping := .one (.ofString "flow" (by decide)) (.mapping f.config.entries)
  match f.version with
  | some v => .more (.ofString "version" (by decide)) (.number (.ofNat v)) options
  | none => options

namespace Config

def encode (yaml : Yaml.Library) (c : Config) : Except ConfigError String :=
  match yaml.dump (Reading.ConfigFile.entries ⟨some fileVersion, c⟩) with
  | .error p => .error (.yaml (.problem p))
  | .ok text => .ok text

def toYaml (c : Config) : String :=
  String.ofList ((Reading.ConfigFile.entries ⟨some fileVersion, c⟩).text 0)

theorem encode_core (c : Config) : c.encode .core = .ok c.toYaml := rfl

def ofYaml (text : String) : Except ConfigError Config := decode .core text

end Config
end PythonFlow
