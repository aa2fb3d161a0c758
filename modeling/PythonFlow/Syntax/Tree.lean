import PythonFlow.Fault
import PythonFlow.Source.Position
import PythonFlow.Syntax.Kind

/-!
# Syntax trees

A tree is an array of nodes. A node is named by its index, and the nodes of a tree that was read
from source stand in pre-order. Node `0` is the root. Reading a node that is not there gives a
blank node; operations that must refuse such an index go through `require`.
-/

set_option autoImplicit false

namespace PythonFlow

/-- The index of a node. It is an unbounded number: an index of 32 bits, taken from the number of nodes
that are there, is the same as long as a tree has fewer than `2 ^ 32` nodes. -/
structure NodeId where
  index : Nat
deriving DecidableEq, Repr, Inhabited

namespace NodeId

def display (id : NodeId) : String := "n" ++ toString id.index

end NodeId

structure SyntaxNode where
  kind : SyntaxKind
  role : Role
  parent : Option NodeId
  children : List NodeId
  span : Span
  /-- The name that the node binds or defines. -/
  name : Option String
  /-- One line of source that stands for the node in labels; empty where there is none. -/
  text : String
deriving DecidableEq, Repr

namespace SyntaxNode

def fresh (parent : Option NodeId) (kind : SyntaxKind) (role : Role) (span : Span) : SyntaxNode :=
  ⟨kind, role, parent, [], span, none, ""⟩

def blank : SyntaxNode := fresh none .expression .plain .zero

end SyntaxNode

structure SyntaxTree where
  nodes : Array SyntaxNode
deriving DecidableEq, Repr

namespace SyntaxTree

def singleton (kind : SyntaxKind) (span : Span) : SyntaxTree :=
  ⟨#[.fresh none kind .plain span]⟩

def root : NodeId := ⟨0⟩

def size (t : SyntaxTree) : Nat := t.nodes.size

def isEmpty (t : SyntaxTree) : Bool := t.size == 0

def ids (t : SyntaxTree) : List NodeId := (List.range t.size).map NodeId.mk

def require (t : SyntaxTree) (id : NodeId) : Except Fault Unit :=
  if id.index < t.size then .ok () else .error (.outOfRange t.size id.index)

theorem require_ok (t : SyntaxTree) (id : NodeId) :
    t.require id = .ok () ↔ id.index < t.size := by
  unfold require
  split <;> simp_all

def node (t : SyntaxTree) (id : NodeId) : SyntaxNode := t.nodes.getD id.index .blank

def kind (t : SyntaxTree) (id : NodeId) : SyntaxKind := (t.node id).kind
def role (t : SyntaxTree) (id : NodeId) : Role := (t.node id).role
def parent (t : SyntaxTree) (id : NodeId) : Option NodeId := (t.node id).parent
def children (t : SyntaxTree) (id : NodeId) : List NodeId := (t.node id).children
def span (t : SyntaxTree) (id : NodeId) : Span := (t.node id).span
def name (t : SyntaxTree) (id : NodeId) : Option String := (t.node id).name
def text (t : SyntaxTree) (id : NodeId) : String := (t.node id).text

/-- Changes the node at `id`, or nothing where there is none. -/
def update (t : SyntaxTree) (id : NodeId) (f : SyntaxNode → SyntaxNode) : SyntaxTree :=
  ⟨t.nodes.modify id.index f⟩

theorem size_update (t : SyntaxTree) (id : NodeId) (f : SyntaxNode → SyntaxNode) :
    (t.update id f).size = t.size := by simp [update, size]

/-- Appends a node and enters it as the last child of `parent`. The node is there even when its
parent is not; a parent index equal to the new node's own is accepted. -/
def push (t : SyntaxTree) (parent : NodeId) (kind : SyntaxKind) (role : Role) (span : Span) :
    SyntaxTree × Except Fault NodeId :=
  let id : NodeId := ⟨t.size⟩
  let grown : SyntaxTree := ⟨t.nodes.push (.fresh (some parent) kind role span)⟩
  match grown.require parent with
  | .ok () =>
    (grown.update parent fun n => { n with children := n.children ++ [id] }, .ok id)
  | .error e => (grown, .error e)

theorem size_push (t : SyntaxTree) (p : NodeId) (k : SyntaxKind) (r : Role) (s : Span) :
    (t.push p k r s).1.size = t.size + 1 := by
  unfold push
  dsimp only
  split <;> simp [size, update]

def setName (t : SyntaxTree) (id : NodeId) (name : String) : SyntaxTree :=
  t.update id fun n => { n with name := some name }

def setText (t : SyntaxTree) (id : NodeId) (text : String) : SyntaxTree :=
  t.update id fun n => { n with text := text }

def setSpan (t : SyntaxTree) (id : NodeId) (span : Span) : SyntaxTree :=
  t.update id fun n => { n with span := span }

end SyntaxTree
end PythonFlow
