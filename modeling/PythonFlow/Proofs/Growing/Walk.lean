import PythonFlow.Proofs.Growing.Adopted

/-!
# The walk through an expression

What is nested in a node is found with a stack in a bounded number of turns, from left to right and each
expression once. The tree that the walk leaves has the same new children below its parent as the descent
from child to child gives.
-/

set_option autoImplicit false

namespace PythonFlow.Growing
open Lowering Concrete Shape

/-- Each nested expression becomes one shape. -/
theorem exists_shapes (source : String) (ds : List Concrete) : ∃ shapes,
    ds.flatMap (lower source (.expression .plain)) = shapes ∧
      List.Forall₂ (fun d s => lower source (.expression .plain) d = [s]) ds shapes := by
  induction ds with
  | nil => exact ⟨[], rfl, .nil⟩
  | cons d ds ih =>
    obtain ⟨s, hs, -⟩ := lower_expression_single source .plain d
    obtain ⟨shapes, heq, hall⟩ := ih
    exact ⟨s :: shapes, by rw [List.flatMap_cons, hs, heq]; rfl, .cons hs hall⟩

/-- Below a node, whatever it is, the outermost expressions that decide flow stand at places that can be
listed from left to right. The walk with a stack comes to its end in fewer turns than the node has nodes;
it does the same as if these expressions were lowered one after the other, and no others. The descent
lowers them to one shape each, which are the children of a plain expression. And where its parent is
there, the walk succeeds: these shapes, in this order, are laid out as the new children of the parent, and
the other nodes of the tree stay as they are. -/
theorem nested_walk_exact (source : String) (c : Concrete) :
    ∃ found : List (List Nat × Concrete),
      (found.map Prod.fst).Pairwise (· < ·) ∧
      (∀ path d, (path, d) ∈ found ↔ c.Outermost path d) ∧
      (∃ n < c.size, Turns c.properChildren.reverse.toArray n (found.map Prod.snd)) ∧
      (∀ parent, growNested source parent c =
        (found.map Prod.snd).forM fun d => discard (growExpression source parent .plain d)) ∧
      ∃ shapes,
        List.Forall₂ (fun d s => lower source (.expression .plain) d = [s]) (found.map Prod.snd) shapes ∧
        lowerEach source (proper .inner) c.children = shapes ∧
        (c.decidesFlow = false → ∀ role, lower source (.expression role) c =
          [shape source .expression role c.extent none shapes]) ∧
        ∀ (t : SyntaxTree) (parent : NodeId), parent.index < t.size → ∃ t',
          (growNested source parent c).run t = (.ok (), t') ∧
          t'.size = t.size + sizeAll shapes ∧
          t'.children parent = t.children parent ++ indices t.size shapes ∧
          LaidAll t' parent t.size shapes ∧
          ∀ x, x.index < t.size → x ≠ parent → t'.node x = t.node x := by
  obtain ⟨shapes, hshapes, hsingle⟩ := exists_shapes source c.nested
  have hdescent : lowerEach source (proper .inner) c.children = shapes :=
    (lower_nested source c).trans hshapes
  refine ⟨c.foundBelow, found_below_increase c, fun path d => mem_found_below, turns_nested c,
    fun parent => ?_, shapes, hsingle, hdescent, fun hplain role => ?_, fun t parent hp => ?_⟩
  · exact (grow_nested_eq source parent c).trans (grow_expressions_eq source parent .plain c.nested)
  · rw [lower_plain (expression_rule_of_plain hplain role), hdescent]
  · obtain ⟨u, hrun⟩ := adopts_nested (fun d _ => faithful source d) parent t hp
    rw [hdescent] at hrun
    refine ⟨pushAllTo t parent shapes, hrun, size_push_all_to hp shapes, children_push_all_to hp shapes,
      laid_push_all_to hp shapes, fun x hx hne => ?_⟩
    rw [node_push_all_to hp shapes hx, if_neg hne]

def callSource : String := "f([x for x in y], -(a := b))"

def mark (text : String) (first last : Nat) : Concrete :=
  .node text false none ⟨⟨first, 0, first⟩, ⟨last, 0, last⟩⟩ []

def listArgument : Concrete :=
  inLine "list_comprehension" none 2 16
    [mark "[" 2 3, inLine "identifier" (some "body") 3 4 [],
      inLine "for_in_clause" none 5 15
        [mark "for" 5 8, inLine "identifier" (some "left") 9 10 [], mark "in" 11 13,
          inLine "identifier" (some "right") 14 15 []],
      mark "]" 15 16]

/-- The second argument. Its assignment stands in brackets behind a minus. -/
def negatedArgument : Concrete :=
  inLine "unary_operator" none 18 27
    [mark "-" 18 19,
      inLine "parenthesized_expression" (some "argument") 19 27
        [mark "(" 19 20,
          inLine "named_expression" none 20 26
            [inLine "identifier" (some "name") 20 21 [], mark ":=" 22 24,
              inLine "identifier" (some "value") 25 26 []],
          mark ")" 26 27]]

def callOfTwo : Concrete :=
  inLine "call" none 0 28
    [inLine "identifier" (some "function") 0 1 [],
      inLine "argument_list" (some "arguments") 1 28
        [mark "(" 1 2, listArgument, mark "," 16 17, negatedArgument, mark ")" 27 28]]

example : callOfTwo.foundBelow.map Prod.fst = [[1, 1], [1, 3, 1, 1]] := by decide

/-- The walk through the call leaves two new nodes below the root, with what belongs to them. -/
theorem call_of_two_walked : callOfTwo.decidesFlow = false ∧
    (0 : Nat) < (SyntaxTree.singleton .expression callOfTwo.span).size ∧
    (∃ first second, lower callSource (.expression .value) callOfTwo =
      [shape callSource .expression .value callOfTwo.extent none [first, second]]) ∧
    ∃ t, (growNested callSource ⟨0⟩ callOfTwo).run (.singleton .expression callOfTwo.span) = (.ok (), t) ∧
      t.size = 9 ∧ t.children ⟨0⟩ = [⟨1⟩, ⟨6⟩] ∧ t.kind ⟨1⟩ = .comprehension ∧ t.kind ⟨6⟩ = .expression ∧
      t.children ⟨6⟩ = [⟨7⟩, ⟨8⟩] := by
  have hplain : callOfTwo.decidesFlow = false := by decide
  have hroot : (0 : Nat) < (SyntaxTree.singleton .expression callOfTwo.span).size := by decide
  obtain ⟨found, -, -, -, -, shapes, -, rfl, hlower, hwalk⟩ := nested_walk_exact callSource callOfTwo
  obtain ⟨t, hrun, hsize, hchildren, hlaid, -⟩ := hwalk _ ⟨0⟩ hroot
  obtain ⟨hfirst, hsecond, -⟩ := hlaid
  exact ⟨hplain, hroot, ⟨_, _, hlower hplain .value⟩, t, hrun, hsize, hchildren, (laid_node hfirst).2.1,
    (laid_node hsecond).2.1, (laid_node hsecond).2.2.2.2⟩

end PythonFlow.Growing
