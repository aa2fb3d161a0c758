import PythonFlow.Proofs.Definitions.Assignments

/-!
# No definition is lost beside the headers

Every node is kept in the views that the grammar has it met in, by induction on the concrete tree: the
lemmas on the rules are the cases. So the owners of a lowered tree are its module and one owner for each
definition and lambda that is not in a header. What a header holds has no owner.
-/

set_option autoImplicit false

namespace PythonFlow.Lowering
open Concrete Shape

section dispatch
variable {source kind : String} {v : View} {role : Role} {named : Bool} {field : Option String}
  {extent : Extent} {cs : List Concrete} (h : Offspring source kind cs) (hnamed : named = true)

include h in
/-- Kinds that no rule is about, in the place of a statement. -/
theorem keeps_member (hclear : Transparent kind cs) (hplaces : places kind = [])
    (hothers : ∀ k, others kind k = (isPhrase k ||
      statementKinds.contains kind && (statementKinds.contains k || isSuite k) ||
        kind == "case_clause" && isSuite k))
    (hrule : v.rule kind = .generic role) : Keeps source v (.node kind named field extent cs) := by
  refine keeps_generic h hclear (fun c hadm => ?_) hrule
  rw [admits_other (by rw [hplaces]; rfl), hothers] at hadm
  rw [isSuite] at hadm
  rw [View.takes]
  revert hadm
  cases isPhrase c.kind <;> cases statementKinds.contains c.kind <;> cases c.kind == "block" <;> simp

include h hnamed

theorem keeps_statement (hkind : statementKinds.contains kind = true)
    (hrule : v.rule kind = statementRule role kind) :
    Keeps source v (.node kind named field extent cs) := by
  subst hnamed
  have hmem := List.contains_iff_mem.1 hkind
  simp only [statementKinds, List.mem_cons, List.not_mem_nil, or_false] at hmem
  rcases hmem with rfl | rfl | rfl | rfl | rfl | rfl | rfl | rfl | rfl | rfl | rfl | rfl | rfl | rfl |
    rfl | rfl | rfl | rfl | rfl | rfl | rfl | rfl | rfl | rfl | rfl
  all_goals first
    | exact keeps_member h ⟨rfl, fun _ => rfl⟩ rfl (fun _ => rfl) hrule
    | skip
  -- Left are the kinds with a rule, in the order of the list.
  · exact keeps_expression_statement h hrule
  · exact keeps_importing h ⟨rfl, fun _ => rfl⟩ (fun _ hadm => hadm) hrule
  · exact keeps_importing h ⟨rfl, fun _ => rfl⟩ (fun _ hadm => hadm) hrule
  · exact keeps_if h hrule
  · exact keeps_while h hrule
  · exact keeps_for h hrule
  · exact keeps_jump h ⟨rfl, fun _ => rfl⟩ rfl rfl (fun _ => rfl) hrule
  · exact keeps_jump h ⟨rfl, fun _ => rfl⟩ rfl rfl (fun _ => rfl) hrule
  · exact keeps_leaving h ⟨rfl, fun _ => rfl⟩ rfl (fun _ hadm => hadm) hrule
  · exact keeps_leaving h ⟨rfl, fun _ => rfl⟩ rfl (fun _ hadm => hadm) hrule
  · exact keeps_try h hrule
  · exact keeps_function h hrule
  · exact keeps_class h hrule
  · exact keeps_decorated h hrule

/-- The expressions that become a node of their own inside any other. -/
theorem keeps_flow {rule : Rule} (hflow : flowRule? role kind = some rule)
    (hrule : v.rule kind = rule) : Keeps source v (.node kind named field extent cs) := by
  subst hnamed
  unfold flowRule? at hflow
  split at hflow <;> cases hflow
  iterate 4
    refine keeps_comprehension h ⟨rfl, fun _ => rfl⟩ rfl (fun _ => rfl) (fun c hc hif => ?_) hrule
    simpa [hif] using List.all_eq_true.1 h.coherent c hc
  · exact keeps_lambda h hrule
  · exact keeps_named h hrule
  · exact keeps_aliased h hrule

omit h hnamed in
theorem transparent_of_phrase (hkind : isPhrase kind = true) (hlambda : kind ≠ "lambda") :
    Transparent kind cs := by
  constructor
  · revert hkind hlambda
    unfold ownerKind?
    split <;> intro hkind hlambda
    · exact absurd hkind (by decide)
    · exact absurd hkind (by decide)
    · exact absurd rfl hlambda
    · rfl
  · intro c
    revert hkind hlambda
    unfold header
    split <;> intro hkind hlambda
    all_goals first
      | exact absurd hkind (by decide)
      | exact absurd rfl hlambda
      | rfl

omit h hnamed in
theorem not_lambda_of_flow (hflow : flowRule? role kind = none) : kind ≠ "lambda" := by
  rintro rfl
  cases hflow

/-- A phrase that is met as an expression. -/
theorem keeps_phrase (hkind : isPhrase kind = true) (hrule : v.rule kind = expressionRule role kind) :
    Keeps source v (.node kind named field extent cs) := by
  unfold expressionRule at hrule
  cases hflow : flowRule? role kind with
  | some rule =>
    rw [hflow, Option.getD_some] at hrule
    exact keeps_flow h hnamed hflow hrule
  | none =>
    have hlambda := not_lambda_of_flow hflow
    have hclear : Transparent kind cs := transparent_of_phrase hkind hlambda
    rw [hflow, Option.getD_none] at hrule
    exact keeps_expression h hclear (fun c _ => phrase_of_admits hkind hlambda) hrule

/-- A phrase inside of an expression. -/
theorem keeps_inner (hkind : isPhrase kind = true) :
    Keeps source .inner (.node kind named field extent cs) := by
  cases hflow : flowRule? .plain kind with
  | some rule =>
    refine keeps_flow h hnamed hflow ?_
    rw [View.rule, hflow, Option.getD_some]
  | none =>
    have hlambda := not_lambda_of_flow hflow
    have hclear : Transparent kind cs := transparent_of_phrase hkind hlambda
    have hrule : View.inner.rule kind = .group .inner := by rw [View.rule, hflow, Option.getD_none]
    exact keeps_group h hclear hrule trivial fun c _ => phrase_of_admits hkind hlambda

/-- A phrase that is assigned to. -/
theorem keeps_target (hkind : isPhrase kind = true) :
    Keeps source (.target role) (.node kind named field extent cs) := by
  by_cases hname : kind = "identifier"
  · subst hname
    exact keeps_name h rfl
  by_cases hgroup : targetGroups.contains kind = true
  · have hlambda : kind ≠ "lambda" := by
      rintro rfl
      exact absurd hgroup (by decide)
    have hclear : Transparent kind cs := transparent_of_phrase hkind hlambda
    have hrule : (View.target role).rule kind = .group (.target role) := by
      rw [View.rule, targetRule, if_neg hname, if_pos hgroup]
    exact keeps_group h hclear hrule trivial fun c _ => phrase_of_admits hkind hlambda
  · have hrule : (View.target role).rule kind = expressionRule role kind := by
      rw [View.rule, targetRule, if_neg hname, if_neg hgroup]
    exact keeps_phrase h hnamed hkind hrule

theorem keeps_below (htakes : View.member.takes kind = true) :
    Keeps source .member (.node kind named field extent cs) := by
  by_cases hblock : kind = "block"
  · subst hblock
    exact keeps_suite h rfl
  by_cases hstatement : statementKinds.contains kind = true
  · have hrule : View.member.rule kind = statementRule .plain kind := by
      rw [View.rule, memberRule, if_neg hblock, if_pos hstatement]
    exact keeps_statement h hnamed hstatement hrule
  · have hkind : isPhrase kind = true := by
      have hnone : (kind == "block") = false := beq_eq_false_iff_ne.2 hblock
      rwa [View.takes, Bool.eq_false_iff.2 hstatement, hnone, Bool.or_false, Bool.or_false] at htakes
    have hrule : View.member.rule kind = expressionRule .plain kind := by
      rw [View.rule, memberRule, if_neg hblock, if_neg hstatement]
    exact keeps_phrase h hnamed hkind hrule

/-- A node in a view that takes it. -/
theorem keeps_node (htakes : v.takes kind = true) :
    Keeps source v (.node kind named field extent cs) := by
  cases v with
  | statement role =>
    rcases Bool.or_eq_true_iff.1 htakes with hstatement | hcase
    · exact keeps_statement h hnamed hstatement rfl
    · obtain rfl : kind = "case_clause" := beq_iff_eq.1 hcase
      exact keeps_member h ⟨rfl, fun _ => rfl⟩ rfl (fun _ => rfl) rfl
  | block role =>
    obtain rfl : kind = "block" := beq_iff_eq.1 htakes
    exact keeps_suite h rfl
  | tryBody =>
    obtain rfl : kind = "block" := beq_iff_eq.1 htakes
    exact keeps_try_body h
  | member => exact keeps_below h hnamed htakes
  | expression role => exact keeps_phrase h hnamed htakes rfl
  | target role => exact keeps_target h hnamed htakes
  | inner => exact keeps_inner h hnamed htakes
  | conditionalPart k =>
    obtain ⟨hk, hkind⟩ := Bool.and_eq_true_iff.1 htakes
    obtain rfl : kind = "elif_clause" := beq_iff_eq.1 hkind
    obtain rfl : k = .elifPart := by simpa using hk
    exact keeps_elif h
  | elsePart =>
    obtain rfl : kind = "else_clause" := beq_iff_eq.1 htakes
    exact keeps_else h
  | tryClause =>
    have hkinds : ((kind = "except_clause" ∨ kind = "except_group_clause") ∨ kind = "else_clause") ∨
        kind = "finally_clause" := by simpa [View.takes, isTryClause] using htakes
    rcases hkinds with ((rfl | rfl) | rfl) | rfl
    · exact keeps_handler h ⟨rfl, fun _ => rfl⟩ (fun _ hadm => hadm) rfl
    · exact keeps_handler h ⟨rfl, fun _ => rfl⟩ (fun _ hadm => hadm) rfl
    · exact keeps_else h
    · exact keeps_finally h
  | comprehensionClause =>
    obtain rfl : kind = "for_in_clause" := beq_iff_eq.1 htakes
    exact keeps_comprehension_for h
  | parameters | chainValue | chainTargets => cases htakes

end dispatch

/-- Every node of a well-formed tree is kept wherever the grammar puts it. -/
theorem upheld_of_well_formed (source : String) : ∀ c : Concrete, c.wellFormed = true →
    c.isToken = false → Upheld source c := by
  refine members_induction fun kind named field extent cs ih hformed ht => ?_
  have hnamed : named = true := by
    by_contra hfalse
    simp [isToken, isProper, Concrete.named, hfalse] at ht
  have hparts := parts_of_well_formed hformed ht
  -- What is proved of a node for all views at once is what its parent may ask of it in any of them.
  have h : Offspring source kind cs := ⟨hparts, fun c hc => ih c hc (hparts.formed c hc)⟩
  refine ⟨fun v => keeps_node h hnamed, fun hif hone => ?_, chain_kept h, bare_kept h⟩
  obtain rfl : kind = "if_clause" := hif
  exact keeps_comprehension_if h hone

/-- Lowering turns each definition and lambda outside of headers into one owner of its kind, and makes no
other owners but the module. -/
theorem owners_of_definitions (source : String) (root : Concrete) (h : root.wellFormed = true)
    (hmodule : root.kind = "module") :
    ((tree source root).owners.map fun o => ((tree source root).kind o, (tree source root).span o)).Perm
      ((.module, root.span) :: root.definitions header) := by
  rw [tree, owners_to_tree]
  cases root with
  | node kind named field extent cs =>
    obtain rfl : kind = "module" := hmodule
    have hchildren : (ownersAll (lowerEach source (proper (.statement .plain)) cs)).Perm
        (cs.flatMap kept) := by
      cases ht : (Concrete.node "module" named field extent cs).isToken with
      | true =>
        have hmet : (Concrete.node "module" named field extent cs).isMet = true := by
          rw [isMet, show clauseKinds.contains (Concrete.kind _) = true from rfl, Bool.or_true]
          rfl
        obtain rfl : cs = [] := ((conforms_of_token h ht).2 hmet).1
        rw [lowerEach, owners_all_nil]
        exact .nil
      | false =>
        have hparts := parts_of_well_formed h ht
        have hbelow : Offspring source "module" cs :=
          ⟨hparts, fun c hc => upheld_of_well_formed source c (hparts.formed c hc)⟩
        refine hbelow.each_proper trivial fun c _ hadm => ?_
        exact Bool.or_eq_true_iff.2 (.inl hadm)
    have hkept : (Concrete.node "module" named field extent cs).kept = cs.flatMap kept :=
      kept_of_transparent ⟨rfl, fun _ => rfl⟩
    rw [← kept, hkept, module, owners]
    exact hchildren.cons _

def onFirstLine (kind : String) (named : Bool) (field : Option String) (first last : Nat)
    (children : List Concrete) : Concrete :=
  .node kind named field ⟨⟨first, 0, first⟩, ⟨last, 0, last⟩⟩ children

def defaultedSource : String := "def f(x=lambda: 0): return lambda: x"

def defaultValue : Concrete :=
  onFirstLine "lambda" true (some "value") 8 17
    [onFirstLine "lambda" false none 8 14 [], onFirstLine ":" false none 14 15 [],
      onFirstLine "integer" true (some "body") 16 17 []]

def returnedValue : Concrete :=
  onFirstLine "lambda" true none 27 36
    [onFirstLine "lambda" false none 27 33 [], onFirstLine ":" false none 33 34 [],
      onFirstLine "identifier" true (some "body") 35 36 []]

/-- The tree of the source: a function that returns a lambda, with another one as a default. -/
def defaulted : Concrete :=
  onFirstLine "module" true none 0 36
    [onFirstLine "function_definition" true none 0 36
      [onFirstLine "def" false none 0 3 [],
        onFirstLine "identifier" true (some "name") 4 5 [],
        onFirstLine "parameters" true (some "parameters") 5 18
          [onFirstLine "(" false none 5 6 [],
            onFirstLine "default_parameter" true none 6 17
              [onFirstLine "identifier" true (some "name") 6 7 [],
                onFirstLine "=" false none 7 8 [], defaultValue],
            onFirstLine ")" false none 17 18 []],
        onFirstLine ":" false none 18 19 [],
        onFirstLine "block" true (some "body") 20 36
          [onFirstLine "return_statement" true none 20 36
            [onFirstLine "return" false none 20 26 [], returnedValue]]]]

/-- The function and the lambda that it returns are owners. -/
theorem owners_of_defaulted : defaulted.wellFormed = true ∧ defaulted.kind = "module" ∧
    ((tree defaultedSource defaulted).owners.map fun o =>
      ((tree defaultedSource defaulted).kind o, (tree defaultedSource defaulted).span o)).Perm
        [(.module, defaulted.span), (.functionDef, defaulted.span), (.lambda, returnedValue.span)] :=
  have hformed : defaulted.wellFormed = true := by decide
  ⟨hformed, rfl, owners_of_definitions defaultedSource defaulted hformed rfl⟩

/-- The lambda among the defaults is not: with the headers, there are more definitions than owners. -/
theorem default_is_lost : defaulted.wellFormed = true ∧ defaulted.kind = "module" ∧
    ¬((tree defaultedSource defaulted).owners.map fun o =>
      ((tree defaultedSource defaulted).kind o, (tree defaultedSource defaulted).span o)).Perm
        ((.module, defaulted.span) :: defaulted.definitions fun _ _ _ => false) := by
  refine ⟨by decide, rfl, fun hperm => ?_⟩
  rw [tree, owners_to_tree] at hperm
  have hlength := hperm.length_eq
  revert hlength
  decide

end PythonFlow.Lowering
