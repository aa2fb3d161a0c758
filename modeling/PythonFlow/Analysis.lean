import PythonFlow.Config.Error
import PythonFlow.Owner.Build
import PythonFlow.Text.Quoted

/-!
# Analysis of a tree

The graphs of a tree under a configuration, which must be valid, and what keeps an analysis from
giving them.
-/

set_option autoImplicit false

namespace PythonFlow

inductive AnalysisError where
  | unreadable (error : FileError)
  | config (error : ConfigError)
  | stopped (stop : Stop)
  | ownerNotFound (name : String)

namespace AnalysisError

def message : AnalysisError → String
  | unreadable error => "IO error: " ++ error.message
  | config error => "Configuration error: " ++ error.message
  | stopped .cancelled => "Control-flow construction cancelled"
  | stopped (.fault fault) => fault.message
  | ownerNotFound name => "Control-flow owner '" ++ name ++ "' not found"

def debug : AnalysisError → String
  | unreadable error => "Io(" ++ error.debug ++ ")"
  | config error => "Config(" ++ error.debug ++ ")"
  | stopped .cancelled => "Cancelled"
  | stopped (.fault fault) => fault.message
  | ownerNotFound name => "OwnerNotFound(" ++ Text.quoted name ++ ")"

end AnalysisError

def SyntaxTree.ownerNamed (t : SyntaxTree) : Option String → Except AnalysisError NodeId
  | none => .ok SyntaxTree.root
  | some name =>
    match t.findOwner name with
    | some id => .ok id
    | none => .error (.ownerNotFound name)

def analyze (t : SyntaxTree) (c : Config) (cancel : Option Bool) :
    Except AnalysisError (List OwnerFlow) :=
  match c.validate with
  | .error e => .error (.config e)
  | .ok () =>
    match buildFlows t c cancel with
    | .error s => .error (.stopped s)
    | .ok flows => .ok flows

end PythonFlow
