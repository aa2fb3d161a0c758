import PythonFlow.Lowering.Shape
import PythonFlow.Owner.Name

/-!
# The owners of a shape

A shape is laid out in pre-order, so the owners of its tree are the owners among the nodes of the shape,
in the same order.
-/

set_option autoImplicit false

namespace PythonFlow

namespace Shape

mutual

def owners : Shape → List (SyntaxKind × Span)
  | node kind _ span _ _ children =>
    (if kind.isOwner then [(kind, span)] else []) ++ ownersAll children

def ownersAll : List Shape → List (SyntaxKind × Span)
  | [] => []
  | s :: rest => s.owners ++ ownersAll rest

end

@[simp] theorem owners_all_nil : ownersAll [] = [] := by rw [ownersAll]

theorem owners_all_append (ss rest : List Shape) :
    ownersAll (ss ++ rest) = ownersAll ss ++ ownersAll rest := by
  induction ss with
  | nil => rw [List.nil_append, owners_all_nil, List.nil_append]
  | cons s ss ih => rw [List.cons_append, ownersAll, ownersAll, ih, List.append_assoc]

theorem owners_all_single (s : Shape) : ownersAll [s] = s.owners := by
  rw [ownersAll, owners_all_nil, List.append_nil]

/-- A node that is no owner has the owners below it. -/
theorem owners_of_other {k : SyntaxKind} (hk : k.isOwner = false) (r : Role) (sp : Span)
    (n : Option String) (tx : String) (children : List Shape) :
    ownersAll [.node k r sp n tx children] = ownersAll children := by
  rw [owners_all_single, owners, hk, if_neg Bool.false_ne_true, List.nil_append]

theorem owners_of_owner {k : SyntaxKind} (hk : k.isOwner = true) (r : Role) (sp : Span)
    (n : Option String) (tx : String) (children : List Shape) :
    ownersAll [.node k r sp n tx children] = (k, sp) :: ownersAll children := by
  rw [owners_all_single, owners, hk, if_pos rfl]
  rfl

end Shape

def SyntaxNode.owned (n : SyntaxNode) : Option (SyntaxKind × Span) :=
  if n.kind.isOwner then some (n.kind, n.span) else none

namespace SyntaxTree

theorem nodes_eq (t : SyntaxTree) : t.nodes.toList = t.ids.map t.node := by
  refine List.ext_getElem (by simp [ids, size]) fun i hi hi' => ?_
  have hlt : i < t.nodes.size := by simpa using hi
  simp [ids, node, Array.getD, hlt]

theorem owners_eq (t : SyntaxTree) :
    t.owners.map (fun o => (t.kind o, t.span o)) = t.nodes.toList.filterMap (·.owned) := by
  rw [nodes_eq, owners]
  induction t.ids with
  | nil => rfl
  | cons id ids ih =>
    by_cases hk : (t.kind id).isOwner = true
    · have hown : (t.node id).owned = some (t.kind id, t.span id) := if_pos hk
      rw [List.filter_cons_of_pos (by simpa using hk), List.map_cons, List.map_cons,
        List.filterMap_cons_some hown, ih]
    · have hown : (t.node id).owned = none := if_neg hk
      rw [List.filter_cons_of_neg (by simpa using hk), List.map_cons,
        List.filterMap_cons_none hown, ih]

end SyntaxTree

namespace Shape

mutual

theorem owned_lay_out (parent : Option NodeId) (nodes : Array SyntaxNode) (s : Shape) :
    (s.layOut parent nodes).toList.filterMap (·.owned) =
      nodes.toList.filterMap (·.owned) ++ s.owners := by
  cases s with
  | node k r sp n tx cs =>
    rw [layOut, owned_lay_out_all, owners, Array.toList_push, List.filterMap_append,
      List.append_assoc]
    refine congrArg _ (congrArg (· ++ _) ?_)
    cases hk : k.isOwner <;> simp [SyntaxNode.owned, hk]

theorem owned_lay_out_all (parent : NodeId) (nodes : Array SyntaxNode) (ss : List Shape) :
    (layOutAll parent nodes ss).toList.filterMap (·.owned) =
      nodes.toList.filterMap (·.owned) ++ ownersAll ss := by
  cases ss with
  | nil => rw [layOutAll, owners_all_nil, List.append_nil]
  | cons s rest =>
    rw [layOutAll, owned_lay_out_all, owned_lay_out, ownersAll, List.append_assoc]

end

/-- The owners of the tree are those of the shape. -/
theorem owners_to_tree (s : Shape) :
    s.toTree.owners.map (fun o => (s.toTree.kind o, s.toTree.span o)) = s.owners := by
  rw [SyntaxTree.owners_eq]
  exact (owned_lay_out none #[] s).trans (List.nil_append _)

end Shape
end PythonFlow
