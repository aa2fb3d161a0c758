import PythonFlow.Render.Dot
import PythonFlow.Render.Json

/-!
# Output formats
-/

set_option autoImplicit false

namespace PythonFlow

inductive OutputFormat where
  | plain | dot | json
deriving DecidableEq, Repr

namespace OutputFormat

def all : List OutputFormat := [plain, dot, json]

def name : OutputFormat → String
  | plain => "text"
  | dot => "dot"
  | json => "json"

def ofName? (s : String) : Option OutputFormat := all.find? fun f => f.name == s

theorem ofName_name (f : OutputFormat) : ofName? f.name = some f := by cases f <;> decide

end OutputFormat

def ControlFlow.render (f : ControlFlow) (t : SyntaxTree) : OutputFormat → String
  | .plain => f.toPlain t
  | .dot => f.toDot t
  | .json => f.toJson t

end PythonFlow
