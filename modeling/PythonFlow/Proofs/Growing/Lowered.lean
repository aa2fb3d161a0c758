import PythonFlow.Proofs.Growing.Adopted
import PythonFlow.Proofs.Growing.Rules

/-!
# The tree that the pushes make

A statement that is pushed onto a tree step by step is adopted by the tree as the shape that it is lowered to,
by induction on the number of its nodes. No push of a whole module is at fault, therefore, and the tree in the
end is that of the module's shape.
-/

set_option autoImplicit false

namespace PythonFlow.Growing
open Lowering Concrete Shape

section steps
variable {α β : Type} {source : String} {parent : NodeId} {ss : List Shape}

theorem Adopts.map {m : Growing α} (h : m.Adopts parent ss) (f : α → β) : (f <$> m).Adopts parent ss := by
  rw [← bind_pure_comp]
  exact h.giving f

theorem adopts_list {cs : List Concrete} {step : (c : Concrete) → c ∈ cs → Growing α}
    {g : Concrete → List Shape} (h : ∀ c hc, (step c hc).Adopts parent (g c)) :
    (each cs step).Adopts parent (cs.flatMap g) := by
  have hall := adopts_each (f := fun c : { c // c ∈ cs } => discard (step c.1 c.2)) (g := fun c => g c.1)
    cs.attach fun c _ => (h c.1 c.2).discard
  rwa [← List.flatMap_map, List.attach_map_subtype_val] at hall

theorem adopts_any {c : Option Concrete} {step : (d : Concrete) → c = some d → Growing α}
    {g : Concrete → List Shape} (h : ∀ d hd, (step d hd).Adopts parent (g d)) :
    (ifAny c step).Adopts parent (c.toList.flatMap g) := by
  cases c with
  | none => exact adopts_pure ()
  | some d =>
    have hone := (h d rfl).discard
    rwa [← List.append_nil (g d)] at hone

end steps

section pushes
variable {source : String} {parent : NodeId} {role : Role}

theorem pushes_part {kind : SyntaxKind} {c : Concrete} : (enterPart source parent kind c c).Pushes parent
    kind .plain (partSpan c.extent c.children) none (Source.snippet (c.text source)) := by
  rw [enterPart, partSpan, Concrete.child?]
  cases c.children.find? fun d => d.field == some "consequence" with
  | none => exact (bind_pure (enter source parent kind .plain c)).symm ▸ pushes_enter
  | some suite => exact pushes_enter.changed (fun _ _ => rfl) rfl

theorem pushes_definition {kind : SyntaxKind} {c : Concrete} :
    (enterDefinition source parent role kind c).Pushes parent kind role c.span
      ((c.child? "name").map (·.text source)) (Source.snippet (c.text source)) := by
  rw [enterDefinition]
  cases c.child? "name" with
  | none => exact (bind_pure (enter source parent kind role c)).symm ▸ pushes_enter
  | some name => exact pushes_enter.changed (fun _ _ => rfl) rfl

end pushes

section simple
variable {source : String} {parent : NodeId} {role : Role} {c : Concrete}

theorem chain_sides_bare (h : c.child? "right" = none) (before : List Concrete) :
    chainSides before c = (before ++ (c.child? "left").toList, none) := by
  rw [chainSides]
  split
  next right hright => rw [h] at hright; cases hright
  next => rfl

theorem chain_sides_right {right : Concrete} (h : c.child? "right" = some right) (before : List Concrete) :
    chainSides before c = if isAssignment right.kind then chainSides (before ++ (c.child? "left").toList) right
      else (before ++ (c.child? "left").toList, some right) := by
  rw [chainSides]
  split
  next other hother => rw [Option.some.inj (h.symm.trans hother)]
  next hnone => rw [h] at hnone; cases hnone

theorem chain_sides_eq {lefts : List Concrete} {value : Option Concrete} (h : c.Chain lefts value)
    (before : List Concrete) : chainSides before c = (before ++ lefts, value) := by
  induction h generalizing before with
  | bare h => exact chain_sides_bare h before
  | last h hend =>
    rw [chain_sides_right h, not_assigns_iff.1 hend]
    rfl
  | link h hnext rest ih =>
    rw [chain_sides_right h, assigns_iff.1 hnext, if_pos rfl, ih, List.append_assoc]

/-- Without a value there is nothing to push but the expressions. -/
theorem grow_unassigned (hnone : ∀ only, c.properChildren = [only] → only.Assigns →
      ∃ lefts, only.Chain lefts none) : growExpressionStatement source parent role c = do
    let id ← enter source parent .statement role c
    growExpressions source id .plain c.properChildren
    return id := by
  rw [growExpressionStatement]
  split
  next only honly =>
    split
    next hassign =>
      obtain ⟨lefts, hchain⟩ := hnone only honly (assigns_iff.2 hassign)
      rw [growAssignment, chain_sides_eq hchain, pure_bind]
    next => rw [pure_bind]
  next => rw [pure_bind]

theorem grow_assigned {only value : Concrete} {lefts : List Concrete} (honly : c.properChildren = [only])
    (hassign : only.Assigns) (hchain : only.Chain lefts (some value)) :
    growExpressionStatement source parent role c = do
      let id ← enter source parent .assignment role c
      discard (growExpression source id .value value)
      growTargets source id .target lefts
      return id := by
  rw [growExpressionStatement, honly]
  dsimp only
  rw [if_pos (assigns_iff.1 hassign), growAssignment, chain_sides_eq hchain]
  simp only [List.nil_append, bind_assoc, pure_bind]

theorem adopts_expression_statement (h : statementRule role c.kind = .expressionStatement role) :
    (growExpressionStatement source parent role c).Adopts parent (lower source (.statement role) c) := by
  have hrule : (View.statement role).rule c.kind = .expressionStatement role := h
  by_cases hvalue : ∃ only lefts value, c.properChildren = [only] ∧ only.Assigns ∧
      only.Chain lefts (some value)
  · obtain ⟨only, lefts, value, honly, hassign, hchain⟩ := hvalue
    rw [grow_assigned honly hassign hchain, lower_assigned hrule honly hassign hchain]
    exact pushes_enter.bind fun id => ((faithful source value).expression id .value).discard.bind fun _ =>
      (adopts_targets fun d _ => faithful source d).giving fun _ => id
  · have hnone : ∀ only, c.properChildren = [only] → only.Assigns → ∃ lefts, only.Chain lefts none := by
      intro only honly hassign
      obtain ⟨lefts, value, hchain⟩ := exists_chain only
      cases value with
      | none => exact ⟨lefts, hchain⟩
      | some value => exact absurd ⟨only, lefts, value, honly, hassign, hchain⟩ hvalue
    rw [grow_unassigned hnone, lower_unassigned hrule hnone]
    exact pushes_enter.bind fun id => (adopts_expressions fun d _ => faithful source d).giving fun _ => id

theorem adopts_imported (fromModule : Bool) : (growImported source parent fromModule c).Adopts parent
    (importBinding source fromModule c).toList := by
  rw [growImported, importBinding]
  cases importedName source fromModule c with
  | none => exact adopts_pure ()
  | some name => exact (pushes_named name).leaf.discard

theorem adopts_import {fromModule : Bool} (h : statementRule role c.kind = .importing role fromModule) :
    (growImport source parent role fromModule c).Adopts parent (lower source (.statement role) c) := by
  rw [growImport, lower_importing (v := .statement role) h, List.filterMap_eq_flatMap_toList]
  exact pushes_enter.bind fun id => (adopts_each _ fun _ _ => adopts_imported fromModule).giving fun _ => id

theorem adopts_leaving {kind : SyntaxKind} (h : statementRule role c.kind = .leaving kind role) :
    (growLeaving source parent role kind c).Adopts parent (lower source (.statement role) c) := by
  rw [growLeaving, lower_leaving (v := .statement role) h]
  exact pushes_enter.bind fun id => (adopts_expressions fun d _ => faithful source d).giving fun _ => id

end simple

/-- Pushed as a statement or as a suite, the node is adopted as what it is lowered to. -/
structure Upright (source : String) (c : Concrete) : Prop where
  statement : ∀ parent role, (growStatement source parent role c).Adopts parent
    (lower source (.statement role) c)
  block : ∀ parent role, (growBlock source parent role c).Adopts parent (lower source (.block role) c)

section smaller
variable {source : String} {c : Concrete} (h : ∀ d : Concrete, d.size < c.size → Upright source d)
include h

theorem adopts_block (parent : NodeId) (role : Role) :
    (growBlock source parent role c).Adopts parent (lower source (.block role) c) := by
  rw [growBlock, lower_block (v := .block role) rfl]
  exact pushes_push.bind fun id =>
    (adopts_list fun d hd => (h d (size_proper hd)).statement id .plain).giving fun _ => id

theorem adopts_member {d : Concrete} (hd : d.size < c.size) (parent : NodeId) :
    (if d.kind = "block" then discard (growBlock source parent .body d)
      else if statementKinds.contains d.kind then discard (growStatement source parent .plain d)
      else discard (growExpression source parent .plain d) : Growing Unit).Adopts parent
        (lower source .member d) := by
  have hrule : View.member.rule d.kind = memberRule d.kind := rfl
  unfold memberRule at hrule
  split_ifs with hblock hstatement
  · rw [if_pos hblock] at hrule
    rw [lower_congr (w := .block .body) hrule]
    exact ((h d hd).block parent .body).discard
  · rw [if_neg hblock, if_pos hstatement] at hrule
    rw [lower_congr (w := .statement .plain) hrule]
    exact ((h d hd).statement parent .plain).discard
  · rw [if_neg hblock, if_neg hstatement] at hrule
    rw [lower_congr (w := .expression .plain) hrule]
    exact ((faithful source d).expression parent .plain).discard

theorem adopts_generic {role : Role} (hrule : statementRule role c.kind = .generic role) (parent : NodeId) :
    (growGeneric source parent role c).Adopts parent (lower source (.statement role) c) := by
  rw [growGeneric, lower_generic (v := .statement role) hrule]
  exact pushes_enter.bind fun id =>
    (adopts_list fun d hd => adopts_member h (size_proper hd) id).giving fun _ => id

theorem adopts_part (parent : NodeId) (kind : SyntaxKind) :
    (growConditionalPart source parent kind c c).Adopts parent
      (lower source (.conditionalPart kind) c) := by
  rw [growConditionalPart, lower_part (v := .conditionalPart kind) rfl]
  exact pushes_part.bind fun id =>
    (adopts_any fun d _ => (faithful source d).expression id .condition).bind fun _ =>
      (adopts_any fun d hd => (h d (size_child hd)).block id .body).giving fun _ => id

theorem adopts_else (parent : NodeId) :
    (growElse source parent c).Adopts parent (lower source .elsePart c) := by
  rw [growElse, lower_else (v := .elsePart) rfl]
  exact pushes_enter.bind fun id =>
    (adopts_any fun d hd => (h d (size_else_body hd)).block id .body).giving fun _ => id

theorem of_size_lt {d : Concrete} (hd : d.size < c.size) : ∀ e : Concrete, e.size < d.size → Upright source e :=
  fun e he => h e (Nat.lt_trans he hd)

theorem adopts_alternative {d : Concrete} (hd : d.size < c.size) (parent : NodeId) :
    (if d.kind = "elif_clause" then discard (growConditionalPart source parent .elifPart d d)
      else if d.kind = "else_clause" then discard (growElse source parent d)
      else pure () : Growing Unit).Adopts parent (lowerAlternative source d) := by
  rw [lowerAlternative]
  split_ifs
  · exact (adopts_part (of_size_lt h hd) parent .elifPart).discard
  · exact (adopts_else (of_size_lt h hd) parent).discard
  · exact adopts_pure ()

theorem adopts_if {role : Role} (hrule : statementRule role c.kind = .conditional role) (parent : NodeId) :
    (growIf source parent role c).Adopts parent (lower source (.statement role) c) := by
  rw [growIf, lower_conditional (v := .statement role) hrule]
  exact pushes_enter.bind fun id => (adopts_part h id .ifPart).discard.bind fun _ =>
    (adopts_list fun d hd => adopts_alternative h (size_in hd) id).giving fun _ => id

theorem adopts_while {role : Role} (hrule : statementRule role c.kind = .whileLoop role) (parent : NodeId) :
    (growWhile source parent role c).Adopts parent (lower source (.statement role) c) := by
  rw [growWhile, lower_while (v := .statement role) hrule, List.append_assoc]
  exact pushes_enter.bind fun id =>
    (adopts_any fun d _ => (faithful source d).expression id .condition).bind fun _ =>
      (adopts_any fun d hd => (h d (size_child hd)).block id .body).bind fun _ =>
        (adopts_any fun d hd => adopts_else (of_size_lt h (size_child hd)) id).giving fun _ => id

theorem adopts_for {role : Role} (hrule : statementRule role c.kind = .forLoop role) (parent : NodeId) :
    (growFor source parent role c).Adopts parent (lower source (.statement role) c) := by
  rw [growFor, lower_for (v := .statement role) hrule, List.append_assoc, List.append_assoc]
  exact pushes_enter.bind fun id =>
    (adopts_any fun d _ => (faithful source d).expression id .iterable).bind fun _ =>
      (adopts_any fun d _ => (faithful source d).target id .target).bind fun _ =>
        (adopts_any fun d hd => (h d (size_child hd)).block id .body).bind fun _ =>
          (adopts_any fun d hd => adopts_else (of_size_lt h (size_child hd)) id).giving fun _ => id

/-- A child of a handler, before the other ones. -/
theorem adopts_caught {α : Type} {d : Concrete} (hd : d.size < c.size) (parent : NodeId) (bound : Bool)
    {rest : List Concrete} {next : Bool → Growing α}
    (hnext : ∀ bound, (next bound).Adopts parent (lowerHandler source bound rest)) :
    (growCaught source parent bound d >>= next).Adopts parent (lowerHandler source bound (d :: rest)) := by
  rw [growCaught, lowerHandler]
  by_cases hbinder : d.kind = "as" ∨ d.kind = ","
  · rw [if_pos hbinder, if_pos hbinder, pure_bind]
    exact hnext true
  rw [if_neg hbinder, if_neg hbinder]
  by_cases hblock : d.kind = "block"
  · rw [if_pos hblock, if_pos hblock, bind_assoc]
    refine ((h d hd).block parent .body).discard.bind fun _ => ?_
    rw [pure_bind]
    exact hnext bound
  rw [if_neg hblock, if_neg hblock]
  have hproper : d.isProper = (d.named && d.kind != "comment") := rfl
  by_cases hcomment : d.kind = "comment"
  · rw [hcomment, bne_self_eq_false, Bool.and_false] at hproper
    rw [if_pos hcomment, hproper, if_pos Bool.not_false, pure_bind]
    exact hnext bound
  rw [bne_iff_ne.2 hcomment, Bool.and_true] at hproper
  rw [if_neg hcomment, hproper]
  by_cases hnamed : (!d.named) = true
  · rw [if_pos hnamed, if_pos hnamed, pure_bind]
    exact hnext bound
  rw [if_neg hnamed, if_neg hnamed]
  cases bound with
  | true =>
    simp only [if_true, bind_assoc, pure_bind]
    exact ((faithful source d).target parent .target).bind fun _ => hnext false
  | false =>
    simp only [Bool.false_eq_true, if_false, bind_assoc, pure_bind]
    exact ((faithful source d).expression parent .plain).discard.bind fun _ => hnext false

theorem adopts_children (parent : NodeId) (bound : Bool) {cs : List Concrete}
    (hcs : ∀ d ∈ cs, d.size < c.size) :
    (cs.foldlM (growCaught source parent) bound).Adopts parent (lowerHandler source bound cs) := by
  induction cs generalizing bound with
  | nil =>
    rw [lowerHandler]
    exact adopts_pure bound
  | cons d rest ih =>
    rw [List.foldlM_cons]
    exact adopts_caught h (hcs d List.mem_cons_self) parent bound fun bound =>
      ih bound fun e he => hcs e (List.mem_cons_of_mem d he)

theorem adopts_handler (hrule : tryClauseRule c.kind = .handler) (parent : NodeId) :
    (growHandler source parent c).Adopts parent (lower source .tryClause c) := by
  rw [growHandler, lower_handler_eq (v := .tryClause) hrule]
  refine pushes_enter.bind fun id => Adopts.giving (Adopts.discard ?_) fun _ => id
  have hchildren := adopts_children h id false fun d (hd : d ∈ c.children) => size_lt_of_mem hd
  rwa [← List.attach_map_subtype_val c.children, List.foldlM_map, List.attach_map_subtype_val] at hchildren

theorem adopts_finally (hrule : tryClauseRule c.kind = .finallyPart) (parent : NodeId) :
    (do let part ← enter source parent .finallyPart .plain c
        ifAny (c.childOfKind? "block") fun suite _ => growBlock source part .body suite :
      Growing Unit).Adopts parent (lower source .tryClause c) := by
  rw [lower_finally (v := .tryClause) hrule]
  exact pushes_enter.bind fun id => adopts_any fun d hd => (h d (size_of_kind hd)).block id .body

theorem adopts_try_body (parent : NodeId) :
    (do let part ← push parent .tryPart .plain c.span
        setText part "try:"
        growBlock source part .body c : Growing NodeId).Adopts parent (lower source .tryBody c) := by
  have htitled : (do let part ← push parent .tryPart .plain c.span
                     setText part "try:"
                     return part : Growing NodeId).Pushes parent .tryPart .plain c.span none "try:" :=
    pushes_push.changed (fun _ _ => rfl) rfl
  rw [lower_try_body (v := .tryBody) rfl]
  have hbody := htitled.bind fun part => adopts_block h part .body
  simpa only [bind_assoc, pure_bind] using hbody

theorem adopts_try_clause {d : Concrete} (hd : d.size < c.size) (parent : NodeId) :
    (match tryClauseRule d.kind with
      | .handler => discard (growHandler source parent d)
      | .elsePart => discard (growElse source parent d)
      | .finallyPart => do
        let part ← enter source parent .finallyPart .plain d
        ifAny (d.childOfKind? "block") fun suite _ => growBlock source part .body suite
      | _ => pure () : Growing Unit).Adopts parent (lower source .tryClause d) := by
  have hsmaller := of_size_lt h hd
  generalize hrule : tryClauseRule d.kind = rule
  have hview : View.tryClause.rule d.kind = rule := hrule
  have hcases := hrule
  unfold tryClauseRule at hcases
  split at hcases <;> subst hcases
  · exact (adopts_handler hsmaller hrule parent).discard
  · exact (adopts_handler hsmaller hrule parent).discard
  · rw [lower_congr (w := .elsePart) hview]
    exact (adopts_else hsmaller parent).discard
  · exact adopts_finally hsmaller hrule parent
  · rw [lower_skipped hview]
    exact adopts_pure ()

theorem adopts_try {role : Role} (hrule : statementRule role c.kind = .trying role) (parent : NodeId) :
    (growTry source parent role c).Adopts parent (lower source (.statement role) c) := by
  rw [growTry, lower_try (v := .statement role) hrule]
  exact pushes_enter.bind fun id =>
    (adopts_any fun d hd => adopts_try_body (of_size_lt h (size_child hd)) id).bind fun _ =>
      (adopts_list fun d hd => adopts_try_clause h (size_proper hd) id).giving fun _ => id

theorem adopts_function {role : Role} (hrule : statementRule role c.kind = .function role)
    (parent : NodeId) :
    (growFunction source parent role c).Adopts parent (lower source (.statement role) c) := by
  rw [growFunction, lower_function (v := .statement role) hrule]
  exact pushes_definition.bind fun id => (adopts_any fun d _ => adopts_parameters).bind fun _ =>
    (adopts_any fun d hd => (h d (size_child hd)).block id .body).giving fun _ => id

theorem adopts_class {role : Role} (hrule : statementRule role c.kind = .classDefinition role)
    (parent : NodeId) :
    (growClass source parent role c).Adopts parent (lower source (.statement role) c) := by
  rw [growClass, lower_class (v := .statement role) hrule]
  exact pushes_definition.bind fun id =>
    (adopts_any fun d hd => (h d (size_child hd)).block id .body).giving fun _ => id

theorem adopts_statement (parent : NodeId) (role : Role) :
    (growStatement source parent role c).Adopts parent (lower source (.statement role) c) := by
  rw [growStatement]
  generalize hrule : statementRule role c.kind = rule
  have hcases := hrule
  unfold statementRule at hcases
  split at hcases <;> subst hcases
  · rw [lower_skipped (v := .statement role) hrule]
    exact adopts_pure none
  · exact (adopts_expression_statement hrule).map some
  · exact (adopts_import hrule).map some
  · exact (adopts_import hrule).map some
  · exact (adopts_if h hrule parent).map some
  · exact (adopts_while h hrule parent).map some
  · exact (adopts_for h hrule parent).map some
  · rw [lower_leaf (v := .statement role) hrule]
    exact pushes_enter.leaf.map some
  · rw [lower_leaf (v := .statement role) hrule]
    exact pushes_enter.leaf.map some
  · exact (adopts_leaving hrule).map some
  · exact (adopts_leaving hrule).map some
  · exact (adopts_try h hrule parent).map some
  · exact (adopts_function h hrule parent).map some
  · exact (adopts_class h hrule parent).map some
  · dsimp only
    rw [lower_decorated (v := .statement role) hrule]
    split
    next definition hdefinition =>
      rw [hdefinition]
      have hone := (h definition (size_child hdefinition)).statement parent role
      rwa [← List.append_nil (lower source (.statement role) definition)] at hone
    next hnone =>
      rw [hnone]
      exact adopts_pure none
  · rw [lower_congr (v := .statement role) (w := .block role) hrule]
    exact (adopts_block h parent role).map some
  · exact (adopts_generic h hrule parent).map some

end smaller

theorem upright (source : String) (c : Concrete) : Upright source c := by
  induction hn : c.size using Nat.strongRecOn generalizing c with
  | ind n ih =>
    subst hn
    have h : ∀ d : Concrete, d.size < c.size → Upright source d := fun d hd => ih d.size hd d rfl
    exact ⟨adopts_statement h, adopts_block h⟩

/-- Whatever the concrete tree of the module, no push is at fault, and the pushes make the tree of the shape that
the module is lowered to. -/
theorem tree_eq (source : String) (root : Concrete) :
    tree source root = .ok (Lowering.tree source root) := by
  have hshape : module source root = .node .module .plain root.span (some "<module>") ""
      (root.properChildren.flatMap (lower source (.statement .plain))) := by
    rw [module, lower_each_proper, properChildren]
  have hname : (setName SyntaxTree.root "<module>").run (.singleton .module root.span) =
      (.ok (), dress (.singleton .module root.span) SyntaxTree.root (some "<module>") "") :=
    run_change Nat.one_pos _
  obtain ⟨_, hrun⟩ := adopts_each root.properChildren
    (fun c _ => ((upright source c).statement SyntaxTree.root .plain).discard)
    (dress (.singleton .module root.span) SyntaxTree.root (some "<module>") "") Nat.one_pos
  rw [tree, growModule, run_bind_ok hname, hrun, Lowering.tree, ← pushed_eq_to_tree _ rfl, hshape]
  rfl

end PythonFlow.Growing
