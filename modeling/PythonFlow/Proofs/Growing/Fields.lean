import PythonFlow.Proofs.Assignment.Chains
import PythonFlow.Proofs.Growing.Turns

/-!
# Rules for expressions, field by field

Each rule for an expression names fields of the node, or takes all its proper children. What the node
becomes is put together from what becomes of the nodes that stand there, in the order in which the rule
names them. A plain expression has below it what its nested expressions become, from left to right.
-/

set_option autoImplicit false

namespace PythonFlow.Lowering
open Concrete

section slots
variable (source : String) (v : View)

/-- The first child in a field is the one that is lowered. -/
theorem lower_first_child (c : Concrete) (field : String) :
    lowerFirst source (fills field v) c.children = (c.child? field).toList.flatMap (lower source v) :=
  lower_first_fills field v c.children

theorem lower_each_fills (c : Concrete) (field : String) :
    lowerEach source (fills field v) c.children = (c.childrenIn field).flatMap (lower source v) := by
  rw [childrenIn]
  induction c.children with
  | nil => rw [lowerEach]; rfl
  | cons d rest ih =>
    rw [lowerEach, fills, List.filter_cons, ih]
    by_cases hf : d.field = some field
    · rw [if_pos hf, beq_iff_eq.2 hf]
      rfl
    · rw [if_neg hf, beq_eq_false_iff_ne.2 hf]
      rfl

theorem lower_first_proper (c : Concrete) : lowerFirst source (proper v) c.children =
    c.properChildren.head?.toList.flatMap (lower source v) := by
  rw [properChildren]
  induction c.children with
  | nil => rw [lowerFirst]; rfl
  | cons d rest ih =>
    rw [lowerFirst, proper, List.filter_cons, ih]
    cases d.isProper with
    | true => exact (List.append_nil _).symm
    | false => rfl

end slots

section rules
variable {source : String} {v : View} {role : Role} {c : Concrete}

theorem flow_rule_cases {kind : String} {rule : Rule} (h : flowRule? role kind = some rule) :
    rule = .comprehension role ∨ rule = .lambda role ∨ rule = .namedExpression role ∨
      rule = .aliased role := by
  unfold flowRule? at h
  split at h <;> cases h <;> simp

theorem lower_comprehension (h : v.rule c.kind = .comprehension role) : lower source v c =
    [shape source .comprehension role c.extent none
      ((c.child? "body").toList.flatMap (lower source (.expression .result)) ++
        c.properChildren.flatMap (lower source .comprehensionClause))] := by
  rw [← lower_first_child, properChildren, ← lower_each_proper, lower_eta, lower, h]

theorem lower_lambda (h : v.rule c.kind = .lambda role) : lower source v c =
    [shape source .lambda role c.extent (some "<lambda>")
      ((c.child? "parameters").toList.flatMap (lower source .parameters) ++
        (c.child? "body").toList.flatMap (lower source (.expression .body)))] := by
  rw [← lower_first_child, ← lower_first_child, lower_eta, lower, h]

theorem lower_named (h : v.rule c.kind = .namedExpression role) : lower source v c =
    [shape source .expression role c.extent none
      ((c.child? "value").toList.flatMap (lower source (.expression .value)) ++
        (c.child? "name").toList.flatMap (lower source (.target .target)))] := by
  rw [← lower_first_child, ← lower_first_child, lower_eta, lower, h]

theorem lower_aliased_eq (h : v.rule c.kind = .aliased role) : lower source v c =
    [shape source .expression role c.extent none (lowerAliased source false c.children)] := by
  rw [lower_eta, lower, h]

theorem lower_plain (h : v.rule c.kind = .expression role) : lower source v c =
    [shape source .expression role c.extent none (lowerEach source (proper .inner) c.children)] := by
  rw [lower_eta, lower, h]

theorem lower_name (h : v.rule c.kind = .name role) : lower source v c =
    [shape source .target role c.extent (some (c.text source)) []] := by
  rw [lower_eta, lower, h]
  rfl

theorem lower_group {w : View} (h : v.rule c.kind = .group w) :
    lower source v c = c.properChildren.flatMap (lower source w) := by
  rw [properChildren, ← lower_each_proper, lower_eta, lower, h]

theorem lower_parameters : lower source .parameters c =
    [shape source .parameters .plain c.extent none
      (c.properChildren.filterMap (parameterBinding source))] := by
  rw [lower_eta, lower]
  rfl

theorem lower_for_clause (h : v.rule c.kind = .comprehensionFor) : lower source v c =
    [shape source .comprehensionFor .plain c.extent none (iterated source c.children ++
      (c.child? "left").toList.flatMap (lower source (.target .target)))] := by
  rw [← lower_first_child, lower_eta, lower, h]
  rfl

theorem lower_if_clause (h : v.rule c.kind = .comprehensionIf) : lower source v c =
    [shape source .comprehensionIf .plain c.extent none
      (c.properChildren.head?.toList.flatMap (lower source (.expression .condition)))] := by
  rw [← lower_first_proper, lower_eta, lower, h]

theorem lower_skipped (h : v.rule c.kind = .skip) : lower source v c = [] := by
  rw [lower_eta, lower, h]

end rules

theorem inner_rule_of_flow {c : Concrete} (h : c.decidesFlow = true) :
    View.inner.rule c.kind = (View.expression .plain).rule c.kind := by
  obtain ⟨rule, hrule⟩ := Option.isSome_iff_exists.1 ((flow_rule_isSome .plain c).trans h)
  rw [View.rule, View.rule, expressionRule, hrule, Option.getD_some, Option.getD_some]

theorem flow_rule_none {c : Concrete} (h : c.decidesFlow = false) (role : Role) :
    flowRule? role c.kind = none :=
  Option.isNone_iff_eq_none.1 (Option.isSome_eq_false_iff.1 ((flow_rule_isSome role c).trans h))

theorem inner_rule_of_plain {c : Concrete} (h : c.decidesFlow = false) :
    View.inner.rule c.kind = .group .inner := by
  rw [View.rule, flow_rule_none h, Option.getD_none]

theorem expression_rule_of_plain {c : Concrete} (h : c.decidesFlow = false) (role : Role) :
    (View.expression role).rule c.kind = .expression role := by
  rw [View.rule, expressionRule, flow_rule_none h, Option.getD_none]

/-- Inside an expression, a node that decides flow is lowered, and any other stands for what is nested
in it. -/
theorem lower_inner (source : String) : ∀ c : Concrete, lower source .inner c =
    (if c.decidesFlow then [c] else c.nested).flatMap (lower source (.expression .plain)) := by
  refine members_induction fun kind named field extent cs ih => ?_
  generalize hc : Concrete.node kind named field extent cs = c
  cases hflow : c.decidesFlow with
  | true =>
    rw [lower_congr (inner_rule_of_flow hflow), if_pos rfl]
    exact (List.append_nil _).symm
  | false =>
    rw [lower_group (inner_rule_of_plain hflow), if_neg Bool.false_ne_true, nested_eq,
      List.flatMap_assoc]
    refine List.flatMap_congr fun d hd => ih d ?_
    subst hc
    exact List.mem_of_mem_filter hd

/-- The descent from left to right lowers what is nested in a node, in the order of the source. -/
theorem lower_nested (source : String) (c : Concrete) : lowerEach source (proper .inner) c.children =
    c.nested.flatMap (lower source (.expression .plain)) := by
  rw [lower_each_proper, nested_eq, List.flatMap_assoc]
  exact List.flatMap_congr fun d _ => lower_inner source d

end PythonFlow.Lowering
