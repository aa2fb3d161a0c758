import PythonFlow.Config.Basic
import PythonFlow.Syntax.Ancestry

/-!
# Owners and their names

An owner is a scope with a graph of its own: the module, a function, a class or a lambda. Its
qualified name joins the names of the owners around it, the module left out, with dots.
-/

set_option autoImplicit false

namespace PythonFlow.SyntaxTree

def owners (t : SyntaxTree) : List NodeId := t.ids.filter fun id => (t.kind id).isOwner

/-- Names of the owners on the list up to the first module. -/
def ownerNames (t : SyntaxTree) : List NodeId → List String
  | [] => []
  | id :: rest =>
    if t.kind id = .module then []
    else if (t.kind id).isOwner then (t.name id).getD (t.kind id).name :: t.ownerNames rest
    else t.ownerNames rest

def qualifiedName (t : SyntaxTree) (owner : NodeId) : String :=
  if t.kind owner = .module then (t.name owner).getD "<module>"
  else String.intercalate "." (t.ownerNames (t.lineage owner)).reverse

def selects (c : Config) : SyntaxKind → Bool
  | .classDef => c.includeClasses
  | .lambda => c.includeLambdas
  | _ => true

def selectOwners (t : SyntaxTree) (c : Config) : List NodeId :=
  t.owners.filter fun id => selects c (t.kind id)

/-- The first owner with this qualified name, else the first with this plain name. -/
def findOwner (t : SyntaxTree) (name : String) : Option NodeId :=
  (t.owners.find? fun id => t.qualifiedName id == name).or
    (t.owners.find? fun id => t.name id == some name)

end PythonFlow.SyntaxTree
