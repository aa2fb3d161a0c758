import PythonFlow.Proofs.Tree.Preorder

/-!
# Shapes pushed below a node of a tree

When shapes are pushed below a node they become its last children and stand behind all nodes that were
there, of which no other changes. One list after another is the same as both at once. A new node without a name
needs no text if that is empty.
-/

set_option autoImplicit false

namespace PythonFlow.Shape

theorem push_all_to_append (t : SyntaxTree) (parent : NodeId) (ss rest : List Shape) :
    pushAllTo (pushAllTo t parent ss) parent rest = pushAllTo t parent (ss ++ rest) := by
  induction ss generalizing t with
  | nil => rw [pushAllTo, List.nil_append]
  | cons s ss ih => rw [pushAllTo, List.cons_append, pushAllTo, ih]

section adopted
variable {t : SyntaxTree} {parent : NodeId} (hp : parent.index < t.size) (ss : List Shape)
include hp

theorem size_push_all_to : (pushAllTo t parent ss).size = t.size + sizeAll ss := by
  rw [SyntaxTree.size, push_all_to_nodes ss t hp, size_lay_out_all, Array.size_modify]
  rfl

/-- Of the nodes that were there, only the parent has changed. -/
theorem node_push_all_to {x : NodeId} (hx : x.index < t.size) : (pushAllTo t parent ss).node x =
    if x = parent then adopt (indices t.size ss) (t.node x) else t.node x := by
  have hlt : x.index < (t.nodes.modify parent.index (adopt (indices t.size ss))).size := by
    rw [Array.size_modify]
    exact hx
  have hat : t.nodes[x.index]? = some (t.node x) := by
    rw [SyntaxTree.node, Array.getD_eq_getD_getElem?, Array.getElem?_eq_getElem hx]
    rfl
  rw [SyntaxTree.node, Array.getD_eq_getD_getElem?, push_all_to_nodes ss t hp,
    lay_out_all_keeps _ _ ss _ hlt, Array.getElem?_modify, hat]
  by_cases heq : x = parent
  · rw [if_pos heq, if_pos (congrArg NodeId.index heq.symm)]
    rfl
  · rw [if_neg heq, if_neg fun hi => heq (congrArg NodeId.mk hi.symm)]
    rfl

theorem children_push_all_to :
    (pushAllTo t parent ss).children parent = t.children parent ++ indices t.size ss := by
  rw [SyntaxTree.children, node_push_all_to hp ss hp, if_pos rfl]
  rfl

theorem laid_push_all_to : LaidAll (pushAllTo t parent ss) parent t.size ss := by
  have hsize : (t.nodes.modify parent.index (adopt (indices t.size ss))).size = t.size := Array.size_modify
  have hlaid := laid_all_of_agree parent (t.nodes.modify parent.index (adopt (indices t.size ss))) ss
    (pushAllTo t parent ss) fun _ _ => by rw [push_all_to_nodes ss t hp]
  rwa [hsize] at hlaid

/-- A node without a name and with an empty text is dressed when it is pushed. -/
theorem dress_push (k : SyntaxKind) (r : Role) (s : Span) :
    dress (t.push parent k r s).1 ⟨t.size⟩ none "" = (t.push parent k r s).1 := by
  refine congrArg SyntaxTree.mk ?_
  rw [nodes_push_fresh t hp]
  exact modify_push_last _ (by rw [Array.size_modify]; rfl) _

end adopted

end PythonFlow.Shape
