import PythonFlow.Syntax.Tree

/-!
# Shapes

A tree with its nodes inside one another. Laying a shape out puts its nodes into an array in
pre-order, so that a node's index is the number of nodes before it.
-/

set_option autoImplicit false

namespace PythonFlow

inductive Shape where
  | node (kind : SyntaxKind) (role : Role) (span : Span) (name : Option String) (text : String)
      (children : List Shape)
deriving Repr, Inhabited

namespace Shape

mutual

def size : Shape → Nat
  | node _ _ _ _ _ children => sizeAll children + 1

def sizeAll : List Shape → Nat
  | [] => 0
  | s :: rest => s.size + sizeAll rest

end

/-- Indices of the shapes of a list that is laid out from index `next` on. -/
def indices (next : Nat) : List Shape → List NodeId
  | [] => []
  | s :: rest => ⟨next⟩ :: indices (next + s.size) rest

mutual

def layOut (parent : Option NodeId) (nodes : Array SyntaxNode) : Shape → Array SyntaxNode
  | node kind role span name text children =>
    layOutAll ⟨nodes.size⟩
      (nodes.push ⟨kind, role, parent, indices (nodes.size + 1) children, span, name, text⟩)
      children

def layOutAll (parent : NodeId) (nodes : Array SyntaxNode) : List Shape → Array SyntaxNode
  | [] => nodes
  | s :: rest => layOutAll parent (s.layOut (some parent) nodes) rest

end

def toTree (s : Shape) : SyntaxTree := ⟨s.layOut none #[]⟩

mutual

theorem size_lay_out (parent : Option NodeId) (nodes : Array SyntaxNode) (s : Shape) :
    (s.layOut parent nodes).size = nodes.size + s.size := by
  cases s with
  | node k r sp n t cs => simp [layOut, size, size_lay_out_all]; omega

theorem size_lay_out_all (parent : NodeId) (nodes : Array SyntaxNode) (ss : List Shape) :
    (layOutAll parent nodes ss).size = nodes.size + sizeAll ss := by
  cases ss with
  | nil => simp [layOutAll, sizeAll]
  | cons s rest => simp [layOutAll, sizeAll, size_lay_out_all, size_lay_out]; omega

end

theorem size_to_tree (s : Shape) : s.toTree.size = s.size := by
  simp [toTree, SyntaxTree.size, size_lay_out]

end Shape
end PythonFlow
