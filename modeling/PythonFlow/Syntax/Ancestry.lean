import PythonFlow.Syntax.Tree

/-!
# Ancestry

Questions about the nodes above a node. They are all answered on `lineage`, the list of nodes from
a node up to the root. A node's parent stands before it in every tree that can be searched, so a
walk takes at most as many steps as the node's index, and the walk here takes no more than that.
-/

set_option autoImplicit false

namespace PythonFlow.SyntaxTree

def climb (t : SyntaxTree) : Nat → NodeId → List NodeId
  | 0, _ => []
  | steps + 1, id =>
    id :: match t.parent id with
      | some p => t.climb steps p
      | none => []

def lineage (t : SyntaxTree) (id : NodeId) : List NodeId := t.climb (id.index + 1) id

/-- The nodes strictly above `id`, innermost first. -/
def above (t : SyntaxTree) (id : NodeId) : List NodeId := (t.lineage id).tail

theorem lineage_eq_cons (t : SyntaxTree) (id : NodeId) :
    t.lineage id = id :: t.above id := by
  simp [lineage, above, climb]

def isDescendantOf (t : SyntaxTree) (node ancestor : NodeId) : Bool :=
  (t.lineage node).contains ancestor

theorem is_descendant_of_self (t : SyntaxTree) (id : NodeId) : t.isDescendantOf id id = true := by
  simp [isDescendantOf, lineage_eq_cons]

/-- `isDescendantOf` for indices that may be out of range: a node is its own descendant wherever
it is, and nothing else is known of a node that is not there. -/
def descends (t : SyntaxTree) (node ancestor : NodeId) : Except Fault Bool :=
  if node = ancestor then .ok true
  else match t.require node with
    | .ok () => .ok (t.isDescendantOf node ancestor)
    | .error e => .error e

theorem descends_of_lt (t : SyntaxTree) (node ancestor : NodeId) (h : node.index < t.size) :
    t.descends node ancestor = .ok (t.isDescendantOf node ancestor) := by
  unfold descends
  split
  · simp_all [is_descendant_of_self]
  · simp [(require_ok t node).2 h]

/-- The first node of `kind` on the list, looking no further than `boundary`. -/
def firstOfKind (t : SyntaxTree) (kind : SyntaxKind) (boundary : Option NodeId) :
    List NodeId → Option NodeId
  | [] => none
  | id :: rest =>
    if t.kind id = kind then some id
    else if some id = boundary then none
    else t.firstOfKind kind boundary rest

/-- The nearest node of `kind` at or above `id`, not above `boundary`. -/
def ancestorOfKind (t : SyntaxTree) (id : NodeId) (kind : SyntaxKind)
    (boundary : Option NodeId) : Option NodeId :=
  t.firstOfKind kind boundary (t.lineage id)

/-- The first loop on the list that is not entered through its `else` clause. The list stops
counting at an owner. -/
def loopAmong (t : SyntaxTree) : NodeId → List NodeId → Option NodeId
  | _, [] => none
  | child, id :: rest =>
    if (t.kind id).isOwner then none
    else if (t.kind id).isLoop && t.kind child != .elsePart then some id
    else t.loopAmong id rest

/-- The loop that a `break` or `continue` at `id` refers to. A jump in a loop's `else` clause
belongs to the next loop outwards, and no jump leaves its owner. -/
def enclosingLoop (t : SyntaxTree) (id : NodeId) : Option NodeId :=
  t.loopAmong id (t.above id)

end PythonFlow.SyntaxTree
