import PythonFlow.Source.Position

/-!
# Concrete syntax

The tree of a source text with all its punctuation and comments, by the names that the grammar
gives to its nodes. A node may fill a field of its parent, is named or mere punctuation, and covers
a part of the text, known by byte offsets and by rows and byte columns, both counted from zero.
-/

set_option autoImplicit false

namespace PythonFlow

inductive Concrete where
  | node (kind : String) (named : Bool) (field : Option String) (extent : Extent)
      (children : List Concrete)
deriving Repr, Inhabited

namespace Concrete

def kind : Concrete → String
  | node k _ _ _ _ => k

def named : Concrete → Bool
  | node _ n _ _ _ => n

def field : Concrete → Option String
  | node _ _ f _ _ => f

def extent : Concrete → Extent
  | node _ _ _ e _ => e

def children : Concrete → List Concrete
  | node _ _ _ _ cs => cs

def span (c : Concrete) : Span := c.extent.span

def text (source : String) (c : Concrete) : String :=
  Source.excerpt source c.extent.first.byte c.extent.last.byte

def isProper (c : Concrete) : Bool := c.named && c.kind != "comment"

def properChildren (c : Concrete) : List Concrete := c.children.filter isProper

def child? (c : Concrete) (field : String) : Option Concrete :=
  c.children.find? fun d => d.field == some field

def childrenIn (c : Concrete) (field : String) : List Concrete :=
  c.children.filter fun d => d.field == some field

def childOfKind? (c : Concrete) (kind : String) : Option Concrete :=
  c.children.find? fun d => d.named && d.kind == kind

mutual

def hasError : Concrete → Bool
  | node kind _ _ _ children => kind == "ERROR" || anyHasError children

def anyHasError : List Concrete → Bool
  | [] => false
  | c :: rest => c.hasError || anyHasError rest

end

end Concrete
end PythonFlow
