import PythonFlow.Proofs.Growing.Fields
import PythonFlow.Proofs.Growing.Statement

/-!
# Rules for statements, field by field

What a statement becomes is put together from what becomes of the nodes in its fields, in the order in which
the rule names them, and of its children where the rule takes them all.
-/

set_option autoImplicit false

namespace PythonFlow.Lowering
open Concrete

section slots
variable (source : String)

/-- A slot that gives one view to certain nodes takes the first of them. -/
theorem lower_first_where {slot : Slot} {p : Concrete → Bool} {v : View}
    (h : ∀ c, slot c = if p c then some v else none) (cs : List Concrete) :
    lowerFirst source slot cs = (cs.find? p).toList.flatMap (lower source v) := by
  induction cs with
  | nil => rw [lowerFirst]; rfl
  | cons c rest ih =>
    rw [lowerFirst, h, List.find?_cons, ih]
    cases p c with
    | true => exact (List.append_nil _).symm
    | false => rfl

theorem lower_first_kind (c : Concrete) (kind : String) (v : View) :
    lowerFirst source (namedAs kind v) c.children =
      (c.childOfKind? kind).toList.flatMap (lower source v) :=
  lower_first_where source (fun _ => rfl) c.children

theorem lower_else_suite (c : Concrete) : lowerFirst source (elseSuite c.children) c.children =
    c.elseBody?.toList.flatMap (lower source (.block .body)) := by
  rw [elseSuite, elseBody?]
  cases hbody : c.child? "body" with
  | some suite =>
    have hfound : c.children.find? (fun d => d.field == some "body") = some suite := hbody
    have hany : (c.children.any fun d => d.field == some "body") = true :=
      List.any_eq_true.2 ⟨suite, List.mem_of_find?_eq_some hfound, (List.find?_some hfound :)⟩
    rw [if_pos hany, lower_first_child, hbody]
    rfl
  | none =>
    have hany : (c.children.any fun d => d.field == some "body") = false :=
      List.any_eq_false.2 (List.find?_eq_none.1 hbody)
    rw [hany, if_neg Bool.false_ne_true]
    exact lower_first_kind source c "block" (.block .body)

def lowerAlternative (d : Concrete) : List Shape :=
  if d.kind = "elif_clause" then lower source (.conditionalPart .elifPart) d
  else if d.kind = "else_clause" then lower source .elsePart d
  else []

theorem lower_alternatives (c : Concrete) : lowerEach source alternative c.children =
    (c.childrenIn "alternative").flatMap (lowerAlternative source) := by
  rw [childrenIn]
  induction c.children with
  | nil => rw [lowerEach]; rfl
  | cons d rest ih =>
    rw [lowerEach, ih, List.filter_cons, alternative]
    by_cases hfield : d.field = some "alternative"
    · rw [if_pos hfield, beq_iff_eq.2 hfield, if_pos rfl, List.flatMap_cons, lowerAlternative]
      split_ifs <;> rfl
    · rw [if_neg hfield, beq_eq_false_iff_ne.2 hfield, if_neg Bool.false_ne_true]
      rfl

end slots

section rules
variable {source : String} {v : View} {role : Role} {c : Concrete}

theorem lower_leaf {kind : SyntaxKind} (h : v.rule c.kind = .leaf kind role) :
    lower source v c = [shape source kind role c.extent none []] := by
  rw [lower_eta, lower, h]

theorem lower_block (h : v.rule c.kind = .block role) : lower source v c =
    [.node .block role c.span none "" (c.properChildren.flatMap (lower source (.statement .plain)))] := by
  rw [properChildren, ← lower_each_proper, lower_eta, lower, h]
  rfl

theorem lower_generic (h : v.rule c.kind = .generic role) : lower source v c =
    [shape source .statement role c.extent none (c.properChildren.flatMap (lower source .member))] := by
  rw [properChildren, ← lower_each_proper, lower_eta, lower, h]

theorem lower_leaving {kind : SyntaxKind} (h : v.rule c.kind = .leaving kind role) :
    lower source v c = [shape source kind role c.extent none
      (c.properChildren.flatMap (lower source (.expression .value)))] := by
  rw [properChildren, ← lower_each_proper, lower_eta, lower, h]

theorem lower_importing {fromModule : Bool} (h : v.rule c.kind = .importing role fromModule) :
    lower source v c = [shape source .importStatement role c.extent none
      ((c.childrenIn "name").filterMap (importBinding source fromModule))] := by
  rw [lower_eta, lower, h]
  rfl

theorem lower_part {part : SyntaxKind} (h : v.rule c.kind = .conditionalPart part) : lower source v c =
    [.node part .plain (partSpan c.extent c.children) none (Source.snippet (c.text source))
      ((c.child? "condition").toList.flatMap (lower source (.expression .condition)) ++
        (c.child? "consequence").toList.flatMap (lower source (.block .body)))] := by
  rw [← lower_first_child, ← lower_first_child, lower_eta, lower, h]
  rfl

/-- A conditional has its own part first. -/
theorem lower_conditional (h : v.rule c.kind = .conditional role) : lower source v c =
    [shape source .ifStatement role c.extent none
      (lower source (.conditionalPart .ifPart) c ++
        (c.childrenIn "alternative").flatMap (lowerAlternative source))] := by
  have hpart : (View.conditionalPart .ifPart).rule c.kind = .conditionalPart .ifPart := rfl
  rw [lower_part hpart, ← lower_first_child, ← lower_first_child, ← lower_alternatives, lower_eta, lower, h]
  rfl

theorem lower_else (h : v.rule c.kind = .elsePart) : lower source v c =
    [shape source .elsePart .plain c.extent none
      (c.elseBody?.toList.flatMap (lower source (.block .body)))] := by
  rw [← lower_else_suite, lower_eta, lower, h]

theorem lower_while (h : v.rule c.kind = .whileLoop role) : lower source v c =
    [shape source .whileLoop role c.extent none
      ((c.child? "condition").toList.flatMap (lower source (.expression .condition)) ++
        (c.child? "body").toList.flatMap (lower source (.block .body)) ++
        (c.child? "alternative").toList.flatMap (lower source .elsePart))] := by
  rw [← lower_first_child, ← lower_first_child, ← lower_first_child, lower_eta, lower, h]

theorem lower_for (h : v.rule c.kind = .forLoop role) : lower source v c =
    [shape source .forLoop role c.extent none
      ((c.child? "right").toList.flatMap (lower source (.expression .iterable)) ++
        (c.child? "left").toList.flatMap (lower source (.target .target)) ++
        (c.child? "body").toList.flatMap (lower source (.block .body)) ++
        (c.child? "alternative").toList.flatMap (lower source .elsePart))] := by
  rw [← lower_first_child, ← lower_first_child, ← lower_first_child, ← lower_first_child, lower_eta, lower, h]

theorem lower_try_body (h : v.rule c.kind = .tryBody) : lower source v c =
    [.node .tryPart .plain c.span none "try:" (lower source (.block .body) c)] := by
  have hblock : (View.block .body).rule c.kind = .block .body := rfl
  rw [lower_block hblock, properChildren, ← lower_each_proper, lower_eta, lower, h]
  rfl

theorem lower_try (h : v.rule c.kind = .trying role) : lower source v c =
    [shape source .tryStatement role c.extent none
      ((c.child? "body").toList.flatMap (lower source .tryBody) ++
        c.properChildren.flatMap (lower source .tryClause))] := by
  rw [← lower_first_child, properChildren, ← lower_each_proper, lower_eta, lower, h]

theorem lower_handler_eq (h : v.rule c.kind = .handler) : lower source v c =
    [shape source .exceptPart .plain c.extent none (lowerHandler source false c.children)] := by
  rw [lower_eta, lower, h]

theorem lower_finally (h : v.rule c.kind = .finallyPart) : lower source v c =
    [shape source .finallyPart .plain c.extent none
      ((c.childOfKind? "block").toList.flatMap (lower source (.block .body)))] := by
  rw [← lower_first_kind, lower_eta, lower, h]

theorem lower_function (h : v.rule c.kind = .function role) : lower source v c =
    [shape source .functionDef role c.extent ((c.child? "name").map (·.text source))
      ((c.child? "parameters").toList.flatMap (lower source .parameters) ++
        (c.child? "body").toList.flatMap (lower source (.block .body)))] := by
  rw [← lower_first_child, ← lower_first_child, lower_eta, lower, h]
  rfl

theorem lower_class (h : v.rule c.kind = .classDefinition role) : lower source v c =
    [shape source .classDef role c.extent ((c.child? "name").map (·.text source))
      ((c.child? "body").toList.flatMap (lower source (.block .body)))] := by
  rw [← lower_first_child, lower_eta, lower, h]
  rfl

theorem lower_decorated (h : v.rule c.kind = .decorated role) : lower source v c =
    (c.child? "definition").toList.flatMap (lower source (.statement role)) := by
  rw [← lower_first_child, lower_eta, lower, h]

end rules
end PythonFlow.Lowering
