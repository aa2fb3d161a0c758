import PythonFlow.Command.Arguments
import PythonFlow.Command.Help
import PythonFlow.Command.Report
import PythonFlow.Config.Writing
import PythonFlow.Python.Statement

/-!
# The command

From the arguments to what is written and how the command ends. It ends well unless its arguments or
what it reads are at fault, or it has found dead statements. Any parser and any YAML library will do; the
command that runs takes those that are defined here.
-/

set_option autoImplicit false

namespace PythonFlow.Command

structure Libraries where
  parse : Parser
  yaml : Yaml.Library

section Requests
variable {m : Type → Type} [Monad m]

def loadConfig (yaml : Yaml.Library) (files : Files m) :
    Option String → m (Except ConfigError Config)
  | none => return .ok .standard
  | some path => do
    match ← files.read path with
    | .error e => return .error (.unreadable e)
    | .ok text => return Config.decode yaml text

def runRequest (l : Libraries) (files : Files m) (r : Request) : m Answer := do
  match ← loadConfig l.yaml files r.config with
  | .error e => return .failed e.debug []
  | .ok c =>
    match r.task with
    | .graph file owner format => runGraph l.parse files c file owner format
    | .unreachable paths => runUnreachable l.parse files c paths

/-- Runs a command line. The second part of the answer is the log that is shown. -/
def runWith (l : Libraries) (files : Files m) (args : List String) : m (Answer × List String) := do
  match readRequest args with
  | .error (.help scope) => return (⟨0, helpText scope, none, []⟩, [])
  | .error .usage => return (⟨2, "", none, []⟩, [])
  | .ok r =>
    let a ← runRequest l files r
    return (a, a.shownLog r.verbosity)

def run (files : Files m) (args : List String) : m (Answer × List String) :=
  runWith ⟨Python.parseModule, .core⟩ files args

end Requests
end PythonFlow.Command
