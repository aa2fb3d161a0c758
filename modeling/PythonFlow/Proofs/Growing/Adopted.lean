import PythonFlow.Proofs.Growing.Steps

/-!
# Expressions that are pushed step by step

An expression that is pushed onto a tree step by step is adopted by the tree as the shape that it is
lowered to, and so is a target. The induction is on the number of nodes: whatever the step for a node
hands on is smaller, be it found in a field or with the stack.
-/

set_option autoImplicit false

namespace PythonFlow

namespace Concrete

theorem size_nested_lt : ∀ c : Concrete, ∀ d ∈ c.nested, d.size < c.size := by
  refine members_induction fun kind named field extent cs ih d hd => ?_
  rw [nested_eq] at hd
  obtain ⟨e, he, hd⟩ := List.mem_flatMap.1 hd
  have hlt := Nat.lt_of_le_of_lt (size_le_of_mem he) (size_proper_lt _)
  split at hd
  · exact List.mem_singleton.1 hd ▸ hlt
  · exact Nat.lt_trans (ih e (List.mem_of_mem_filter he) d hd) hlt

end Concrete

namespace Growing
open Lowering Concrete Shape

section parameters
variable {source : String} {parent : NodeId} {c : Concrete}

theorem adopts_parameter : (growParameter source parent c).Adopts parent
    (parameterBinding source c).toList := by
  rw [growParameter, parameterBinding]
  cases parameterName source c with
  | none => exact adopts_pure ()
  | some name => exact (pushes_named name).leaf.discard

theorem adopts_parameters : (growParameters source parent c).Adopts parent
    (lower source .parameters c) := by
  rw [lower_parameters, List.filterMap_eq_flatMap_toList]
  exact pushes_enter.bind fun _ => adopts_each _ fun _ _ => adopts_parameter

end parameters

/-- Pushed as an expression or as a target, the node is adopted as what it is lowered to. -/
structure Faithful (source : String) (c : Concrete) : Prop where
  expression : ∀ parent role, (growExpression source parent role c).Adopts parent
    (lower source (.expression role) c)
  target : ∀ parent role, (growTarget source parent role c).Adopts parent
    (lower source (.target role) c)

section lists
variable {source : String} {parent : NodeId} {role : Role} {cs : List Concrete}
  (h : ∀ d ∈ cs, Faithful source d)
include h

theorem adopts_expressions : (growExpressions source parent role cs).Adopts parent
    (cs.flatMap (lower source (.expression role))) := by
  rw [grow_expressions_eq]
  exact adopts_each cs fun c hc => ((h c hc).expression parent role).discard

theorem adopts_targets : (growTargets source parent role cs).Adopts parent
    (cs.flatMap (lower source (.target role))) := by
  rw [grow_targets_eq]
  exact adopts_each cs fun c hc => (h c hc).target parent role

theorem adopts_parts (passed : Bool) : (growParts source parent passed cs).Adopts parent
    (lowerAliased source passed cs) := by
  induction cs generalizing passed with
  | nil =>
    rw [growParts, lowerAliased]
    exact adopts_pure ()
  | cons c rest ih =>
    rw [growParts, lowerAliased]
    refine Adopts.bind ?_ fun _ => ih (fun d hd => h d (List.mem_cons_of_mem c hd)) _
    rw [growPart]
    have hc := h c List.mem_cons_self
    cases c.isProper with
    | false => exact adopts_pure ()
    | true =>
      cases !passed && c.field == some "alias" with
      | true => exact hc.target parent .target
      | false => exact (hc.expression parent .value).discard

theorem adopts_iterables {c : Concrete} (hcs : c.childrenIn "right" = cs) :
    (growIterables source parent cs).Adopts parent (iterated source c.children) := by
  have hfilter : c.children.filter (fun d => d.field == some "right") = cs := hcs
  have hfirst : c.child? "right" = cs.head? := hfilter ▸ List.head?_filter.symm
  rw [iterated, hfilter, lower_first_child, lower_each_fills, hcs, hfirst]
  match cs, h with
  | [], _ =>
    rw [growIterables]
    exact adopts_pure ()
  | [only], h =>
    have hone := ((h only List.mem_cons_self).expression parent .iterable).discard
    rw [← List.append_nil (lower source (.expression .iterable) only)] at hone
    rw [growIterables]
    exact hone
  | first :: second :: rest, h =>
    rw [growIterables]
    exact pushes_push.bind fun id => adopts_expressions h

end lists

section smaller
variable {source : String} {c : Concrete} (h : ∀ d : Concrete, d.size < c.size → Faithful source d)
include h

theorem faithful_of_size_lt {cs : List Concrete} (hcs : sizeAll cs < c.size) :
    ∀ d ∈ cs, Faithful source d :=
  fun d hd => h d (Nat.lt_of_le_of_lt (size_le_of_mem hd) hcs)

theorem adopts_clause (parent : NodeId) :
    (growClause source parent c).Adopts parent (lower source .comprehensionClause c) := by
  have hleft := faithful_of_size_lt h (c.size_child_lt "left")
  have hright := faithful_of_size_lt h (c.size_in_lt "right")
  have hfirst := faithful_of_size_lt h c.size_first_lt
  rw [growClause]
  generalize hrule : comprehensionClauseRule c.kind = rule
  have hview : View.comprehensionClause.rule c.kind = rule := hrule
  unfold comprehensionClauseRule at hrule
  split at hrule <;> subst hrule
  · rw [lower_for_clause hview]
    exact pushes_enter.bind fun id => (adopts_iterables hright rfl).bind fun _ => adopts_targets hleft
  · rw [lower_if_clause hview]
    exact pushes_enter.bind fun id => adopts_expressions hfirst
  · rw [lower_skipped hview]
    exact adopts_pure ()

theorem adopts_clauses (parent : NodeId) {cs : List Concrete} (hcs : sizeAll cs < c.size) :
    (growClauses source parent cs).Adopts parent (cs.flatMap (lower source .comprehensionClause)) := by
  rw [grow_clauses_eq]
  refine adopts_each cs fun d hd => adopts_clause (fun e he => h e ?_) parent
  exact Nat.lt_trans he (Nat.lt_of_le_of_lt (size_le_of_mem hd) hcs)

theorem adopts_nested (parent : NodeId) : (growNested source parent c).Adopts parent
    (lowerEach source (proper .inner) c.children) := by
  rw [lower_nested, grow_nested_eq]
  exact adopts_expressions fun d hd => h d (size_nested_lt c d hd)

theorem adopts_expression (parent : NodeId) (role : Role) :
    (growExpression source parent role c).Adopts parent (lower source (.expression role) c) := by
  have hview : (View.expression role).rule c.kind = (flowRule? role c.kind).getD (.expression role) := rfl
  have hfield : ∀ field, ∀ d ∈ (c.child? field).toList, Faithful source d := fun field =>
    faithful_of_size_lt h (c.size_child_lt field)
  rw [growExpression]
  cases hflow : flowRule? role c.kind with
  | none =>
    rw [hflow] at hview
    rw [lower_plain hview]
    exact pushes_enter.bind fun id => (adopts_nested h id).giving fun _ => id
  | some rule =>
    rw [hflow] at hview
    rcases flow_rule_cases hflow with rfl | rfl | rfl | rfl
    · rw [lower_comprehension hview]
      exact pushes_enter.bind fun id => (adopts_expressions (hfield "body")).bind fun _ =>
        (adopts_clauses h id c.size_proper_lt).giving fun _ => id
    · rw [lower_lambda hview]
      exact (pushes_named "<lambda>").bind fun id => (adopts_each _ fun _ _ => adopts_parameters).bind
        fun _ => (adopts_expressions (hfield "body")).giving fun _ => id
    · rw [lower_named hview]
      exact pushes_enter.bind fun id => (adopts_expressions (hfield "value")).bind fun _ =>
        (adopts_targets (hfield "name")).giving fun _ => id
    · rw [lower_aliased_eq hview]
      have hparts := faithful_of_size_lt h (size_all_lt (List.Sublist.refl c.children))
      exact pushes_enter.bind fun id => (adopts_parts hparts false).giving fun _ => id

theorem adopts_target (parent : NodeId) (role : Role) :
    (growTarget source parent role c).Adopts parent (lower source (.target role) c) := by
  rw [growTarget]
  have hview := target_rule role c.kind
  by_cases hname : c.kind = "identifier"
  · rw [if_pos hname] at hview
    rw [if_pos hname, lower_name hview]
    exact (pushes_named _).leaf.discard
  · rw [if_neg hname] at hview
    rw [if_neg hname]
    by_cases hgroup : targetGroups.contains c.kind = true
    · rw [if_pos hgroup] at hview
      rw [if_pos hgroup, lower_group hview]
      exact adopts_targets (faithful_of_size_lt h c.size_proper_lt)
    · rw [if_neg hgroup] at hview
      have hsame : (View.target role).rule c.kind = (View.expression role).rule c.kind := hview
      rw [if_neg hgroup, lower_congr hsame]
      exact (adopts_expression h parent role).discard

end smaller

theorem faithful (source : String) (c : Concrete) : Faithful source c := by
  induction hn : c.size using Nat.strongRecOn generalizing c with
  | ind n ih =>
    subst hn
    have h : ∀ d : Concrete, d.size < c.size → Faithful source d := fun d hd => ih d.size hd d rfl
    exact ⟨adopts_expression h, adopts_target h⟩

end Growing
end PythonFlow
