import PythonFlow.Syntax.Tree

/-!
# Access to the parts of a construct

A part of a statement is found among its children by role or by kind. Where one part is meant, the
first child that fits is taken.
-/

set_option autoImplicit false

namespace PythonFlow.SyntaxTree

def childrenWithRole (t : SyntaxTree) (id : NodeId) (role : Role) : List NodeId :=
  (t.children id).filter fun c => t.role c == role

def childWithRole (t : SyntaxTree) (id : NodeId) (role : Role) : Option NodeId :=
  (t.children id).find? fun c => t.role c == role

def childrenOfKind (t : SyntaxTree) (id : NodeId) (kind : SyntaxKind) : List NodeId :=
  (t.children id).filter fun c => t.kind c == kind

def firstChildOfKind (t : SyntaxTree) (id : NodeId) (kind : SyntaxKind) : Option NodeId :=
  (t.children id).find? fun c => t.kind c == kind

def condition (t : SyntaxTree) (id : NodeId) : Option NodeId := t.childWithRole id .condition

def body (t : SyntaxTree) (id : NodeId) : Option NodeId := t.childWithRole id .body

def iterable (t : SyntaxTree) (id : NodeId) : Option NodeId := t.childWithRole id .iterable

def loopTarget (t : SyntaxTree) (id : NodeId) : Option NodeId := t.childWithRole id .target

def assignedValue (t : SyntaxTree) (id : NodeId) : Option NodeId := t.childWithRole id .value

def comprehensionResult (t : SyntaxTree) (id : NodeId) : Option NodeId :=
  t.childWithRole id .result

def targets (t : SyntaxTree) (id : NodeId) : List NodeId := t.childrenWithRole id .target

def ifParts (t : SyntaxTree) (id : NodeId) : List NodeId :=
  (t.children id).filter fun c => t.kind c == .ifPart || t.kind c == .elifPart

def elsePart (t : SyntaxTree) (id : NodeId) : Option NodeId := t.firstChildOfKind id .elsePart

def tryPart (t : SyntaxTree) (id : NodeId) : Option NodeId := t.firstChildOfKind id .tryPart

def exceptParts (t : SyntaxTree) (id : NodeId) : List NodeId := t.childrenOfKind id .exceptPart

def finallyPart (t : SyntaxTree) (id : NodeId) : Option NodeId :=
  t.firstChildOfKind id .finallyPart

def comprehensionFors (t : SyntaxTree) (id : NodeId) : List NodeId :=
  t.childrenOfKind id .comprehensionFor

def comprehensionIfs (t : SyntaxTree) (id : NodeId) : List NodeId :=
  t.childrenOfKind id .comprehensionIf

/-- Short text for a reader: the node's text, else its name, else its kind. -/
def label (t : SyntaxTree) (id : NodeId) : String :=
  let n := t.node id
  if n.text ≠ "" then n.text else n.name.getD n.kind.name

end PythonFlow.SyntaxTree
