import PythonFlow.Concrete.Node
import PythonFlow.Lowering.Shape

/-!
# Bindings of imports and parameters

These bind names and hold nothing else that matters: neither the annotation nor the default of a
parameter is looked into.
-/

set_option autoImplicit false

namespace PythonFlow.Lowering

/-- A shape over the whole of an extent, with its snippet for a text. -/
def shape (source : String) (kind : SyntaxKind) (role : Role) (extent : Extent)
    (name : Option String) (children : List Shape) : Shape :=
  .node kind role extent.span name
    (Source.snippet (Source.excerpt source extent.first.byte extent.last.byte)) children

/-- The name that an imported name binds: its alias, else the whole name when it is taken from a
module, else the name's first part. -/
def importedName (source : String) (fromModule : Bool) (c : Concrete) : Option String :=
  if c.kind = "aliased_import" then (c.child? "alias").map (·.text source)
  else if c.kind = "dotted_name" then
    if fromModule then some (c.text source)
    else (c.childOfKind? "identifier").map (·.text source)
  else none

def importBinding (source : String) (fromModule : Bool) (c : Concrete) : Option Shape :=
  (importedName source fromModule c).map fun name =>
    shape source .importBinding .plain c.extent (some name) []

def parameterNode (c : Concrete) : Option Concrete :=
  match c.kind with
  | "identifier" => some c
  | "default_parameter" | "typed_default_parameter" => c.child? "name"
  | "typed_parameter" => c.properChildren.head?
  | "list_splat_pattern" | "dictionary_splat_pattern" => c.childOfKind? "identifier"
  | _ => none

def parameterName (source : String) (c : Concrete) : Option String :=
  match parameterNode c with
  | none => none
  | some d =>
    if d.kind = "identifier" then some (d.text source)
    else (d.childOfKind? "identifier").map (·.text source)

def parameterBinding (source : String) (c : Concrete) : Option Shape :=
  (parameterName source c).map fun name => shape source .parameter .plain c.extent (some name) []

end PythonFlow.Lowering
