import PythonFlow.Proofs.Tree.Grammar

/-!
# What the rules of lowering make

Every node of a lowered tree is made by one of the rules, and its children are then what that rule
lowers. `Made` lists these forms, one for each rule with a node of its own. A property of nodes and their
children is read off the list by cases; that it holds of all nodes of the tree needs no further induction
over the concrete tree.
-/

set_option autoImplicit false

namespace PythonFlow

inductive Shape.Every (L : SyntaxKind → List Shape → Prop) : Shape → Prop
  | node (k : SyntaxKind) (r : Role) (sp : Span) (n : Option String) (tx : String)
      (cs : List Shape) (here : L k cs) (under : ∀ c ∈ cs, Every L c) :
      Every L (.node k r sp n tx cs)

namespace Shape.Every
variable {L L' : SyntaxKind → List Shape → Prop} {s : Shape}

theorem here (h : s.Every L) : L s.kind s.children := by
  cases h with
  | node k r sp n tx cs here under => exact here

theorem children (h : s.Every L) : ∀ c ∈ s.children, c.Every L := by
  cases h with
  | node k r sp n tx cs here under => exact under

theorem mono (h : s.Every L) (hLL' : ∀ k cs, L k cs → L' k cs) : s.Every L' := by
  induction h with
  | node k r sp n tx cs here under ih => exact .node k r sp n tx cs (hLL' k cs here) ih

end Shape.Every

namespace Lowering

def isLeaf : SyntaxKind → Bool
  | .breakJump | .continueJump | .target | .parameter | .importBinding => true
  | _ => false

def partChildren (source : String) (cs : List Concrete) : List Shape :=
  lowerFirst source (fills "condition" (.expression .condition)) cs ++
    lowerFirst source (fills "consequence" (.block .body)) cs

/-- What a clause of a comprehension iterates over: one node, be it one expression or several. -/
def iterated (source : String) (cs : List Concrete) : List Shape :=
  match cs.filter fun c => c.field == some "right" with
  | [] => []
  | [_] => lowerFirst source (fills "right" (.expression .iterable)) cs
  | first :: _ =>
    [.node .expression .iterable first.span none ""
      (lowerEach source (fills "right" (.expression .plain)) cs)]

inductive Made (source : String) : SyntaxKind → List Shape → Prop
  | leaf (k : SyntaxKind) (hk : isLeaf k = true) : Made source k []
  | sequence (k : SyntaxKind) (hk : k = .module ∨ k = .block) (cs : List Concrete) :
    Made source k (lowerEach source (proper (.statement .plain)) cs)
  | generic (cs : List Concrete) : Made source .statement (lowerEach source (proper .member) cs)
  | expressionStatement (cs : List Concrete) :
    Made source .statement (lowerEach source (proper (.expression .plain)) cs)
  | assignment (cs : List Concrete) :
    Made source .assignment (lowerFirst source (proper .chainValue) cs ++
      lowerFirst source (proper .chainTargets) cs)
  | importing (fromModule : Bool) (cs : List Concrete) :
    Made source .importStatement (cs.filterMap (importBinding source fromModule))
  | conditional (sp : Span) (n : Option String) (tx : String) (cs : List Concrete) :
    Made source .ifStatement (.node .ifPart .plain sp n tx (partChildren source cs) ::
      lowerEach source alternative cs)
  | part (k : SyntaxKind) (hk : k = .ifPart ∨ k = .elifPart) (cs : List Concrete) :
    Made source k (partChildren source cs)
  | elsePart (cs : List Concrete) :
    Made source .elsePart (lowerFirst source (elseSuite cs) cs)
  | whileLoop (cs : List Concrete) :
    Made source .whileLoop (lowerFirst source (fills "condition" (.expression .condition)) cs ++
      lowerFirst source (fills "body" (.block .body)) cs ++
      lowerFirst source (fills "alternative" .elsePart) cs)
  | forLoop (cs : List Concrete) :
    Made source .forLoop (lowerFirst source (fills "right" (.expression .iterable)) cs ++
      lowerFirst source (fills "left" (.target .target)) cs ++
      lowerFirst source (fills "body" (.block .body)) cs ++
      lowerFirst source (fills "alternative" .elsePart) cs)
  | leaving (k : SyntaxKind) (hk : k = .returnExit ∨ k = .raiseExit) (cs : List Concrete) :
    Made source k (lowerEach source (proper (.expression .value)) cs)
  | trying (cs : List Concrete) :
    Made source .tryStatement (lowerFirst source (fills "body" .tryBody) cs ++
      lowerEach source (proper .tryClause) cs)
  | tryBody (sp : Span) (cs : List Concrete) :
    Made source .tryPart
      [.node .block .body sp none "" (lowerEach source (proper (.statement .plain)) cs)]
  | handler (cs : List Concrete) : Made source .exceptPart (lowerHandler source false cs)
  | finallyPart (cs : List Concrete) :
    Made source .finallyPart (lowerFirst source (namedAs "block" (.block .body)) cs)
  | function (cs : List Concrete) :
    Made source .functionDef (lowerFirst source (fills "parameters" .parameters) cs ++
      lowerFirst source (fills "body" (.block .body)) cs)
  | classDefinition (cs : List Concrete) :
    Made source .classDef (lowerFirst source (fills "body" (.block .body)) cs)
  | parameters (cs : List Concrete) :
    Made source .parameters (cs.filterMap (parameterBinding source))
  | expression (v : View) (cs : List Concrete) :
    Made source .expression (lowerEach source (proper v) cs)
  | gathered (cs : List Concrete) :
    Made source .expression (lowerEach source (fills "right" (.expression .plain)) cs)
  | namedExpression (cs : List Concrete) :
    Made source .expression (lowerFirst source (fills "value" (.expression .value)) cs ++
      lowerFirst source (fills "name" (.target .target)) cs)
  | aliased (cs : List Concrete) : Made source .expression (lowerAliased source false cs)
  | lambda (cs : List Concrete) :
    Made source .lambda (lowerFirst source (fills "parameters" .parameters) cs ++
      lowerFirst source (fills "body" (.expression .body)) cs)
  | comprehension (cs : List Concrete) :
    Made source .comprehension (lowerFirst source (fills "body" (.expression .result)) cs ++
      lowerEach source (proper .comprehensionClause) cs)
  | comprehensionFor (cs : List Concrete) :
    Made source .comprehensionFor (iterated source cs ++
      lowerFirst source (fills "left" (.target .target)) cs)
  | comprehensionIf (cs : List Concrete) :
    Made source .comprehensionIf (lowerFirst source (proper (.expression .condition)) cs)

def AllMade (source : String) (ss : List Shape) : Prop := ∀ s ∈ ss, s.Every (Made source)

section
variable {source : String} {ss rest : List Shape} {k : SyntaxKind} {r : Role} {sp : Span}
  {n : Option String} {tx : String} {extent : Extent}

theorem all_made_nil : AllMade source [] := by simp [AllMade]

theorem AllMade.append (h : AllMade source ss) (h' : AllMade source rest) :
    AllMade source (ss ++ rest) := by
  intro s hs
  rcases List.mem_append.1 hs with hs | hs
  · exact h s hs
  · exact h' s hs

theorem all_made_node (hk : Made source k ss) (h : AllMade source ss) :
    AllMade source [.node k r sp n tx ss] := by
  intro s hs
  rw [List.mem_singleton] at hs
  subst hs
  exact .node k r sp n tx ss hk h

theorem all_made_shape (hk : Made source k ss) (h : AllMade source ss) :
    AllMade source [shape source k r extent n ss] := all_made_node hk h

theorem all_made_leaf (hk : isLeaf k = true) : AllMade source [shape source k r extent n []] :=
  all_made_shape (.leaf k hk) all_made_nil

theorem made_import (fromModule : Bool) (c : Concrete) (s : Shape)
    (h : importBinding source fromModule c = some s) : s.Every (Made source) := by
  obtain ⟨name, -, rfl⟩ := Option.map_eq_some_iff.1 h
  exact all_made_leaf rfl _ (List.mem_singleton.2 rfl)

theorem made_parameter (c : Concrete) (s : Shape) (h : parameterBinding source c = some s) :
    s.Every (Made source) := by
  obtain ⟨name, -, rfl⟩ := Option.map_eq_some_iff.1 h
  exact all_made_leaf rfl _ (List.mem_singleton.2 rfl)

theorem all_made_bindings {α : Type} (f : α → Option Shape)
    (hf : ∀ a s, f a = some s → s.Every (Made source)) (as : List α) :
    AllMade source (as.filterMap f) := by
  intro s hs
  obtain ⟨a, -, ha⟩ := List.mem_filterMap.1 hs
  exact hf a s ha

end

abbrev Slot.Sensible (slot : Slot) : Prop := slot.Gives fun _ _ => True

theorem fills_sensible (field : String) {v : View} (hv : v.Sensible) :
    Slot.Sensible (fills field v) := fills_gives field v hv _ fun _ _ _ => trivial

theorem proper_sensible {v : View} (hv : v.Sensible) : Slot.Sensible (proper v) :=
  proper_gives v hv _ fun _ _ _ => trivial

theorem Slot.Gives.sensible {slot : Slot} {Q : SyntaxKind → Role → Prop} (h : slot.Gives Q) :
    slot.Sensible := fun c v hv => ⟨(h c v hv).1, fun _ _ _ => trivial⟩

theorem statement_rule_leaf {role r : Role} {kind : String} {k : SyntaxKind}
    (h : statementRule role kind = .leaf k r) : isLeaf k = true := by
  revert h
  unfold statementRule
  split <;> simp +contextual [← eq_comm, isLeaf]

theorem expression_rule_leaf {role r : Role} {kind : String} {k : SyntaxKind} :
    expressionRule role kind ≠ .leaf k r := by
  unfold expressionRule flowRule?
  split <;> simp

theorem view_rule_leaf {v : View} {kind : String} {k : SyntaxKind} {r : Role}
    (h : v.rule kind = .leaf k r) : isLeaf k = true := by
  cases v with
  | statement role => exact statement_rule_leaf h
  | expression role => exact absurd h expression_rule_leaf
  | member =>
    simp only [View.rule, memberRule] at h
    split at h
    · cases h
    split at h
    · exact statement_rule_leaf h
    · exact absurd h expression_rule_leaf
  | target role =>
    simp only [View.rule, targetRule] at h
    split at h
    · cases h
    split at h
    · cases h
    · exact absurd h expression_rule_leaf
  | inner =>
    simp only [View.rule, flowRule?] at h
    split at h <;> cases h
  | tryClause =>
    simp only [View.rule, tryClauseRule] at h
    split at h <;> cases h
  | comprehensionClause =>
    simp only [View.rule, comprehensionClauseRule] at h
    split at h <;> cases h
  | block | conditionalPart | elsePart | tryBody | parameters | chainValue | chainTargets => cases h

mutual

theorem lower_made (source : String) (v : View) (hv : v.Sensible) (c : Concrete) :
    AllMade source (lower source v c) := by
  cases c with
  | node kind named field extent children =>
    obtain ⟨hs, -⟩ := view_rule_sound v hv kind
    have hleaf := @view_rule_leaf v kind
    rw [lower]
    generalize v.rule kind = rule at hs hleaf ⊢
    have hfirst : ∀ field (w : View), w.Sensible →
        AllMade source (lowerFirst source (fills field w) children) := fun field w hw =>
      lower_first_made source _ (fills_sensible field hw) children
    have hproper : ∀ w : View, w.Sensible →
        AllMade source (lowerEach source (proper w) children) :=
      fun w hw => lower_each_made source _ (proper_sensible hw) children
    have hpart : AllMade source (partChildren source children) :=
      (hfirst "condition" (.expression .condition) trivial).append
        (hfirst "consequence" (.block .body) trivial)
    cases rule with
    | skip => exact all_made_nil
    | leaf k role => exact all_made_leaf (hleaf rfl)
    | name role => exact all_made_leaf rfl
    | block role => exact all_made_node (.sequence _ (.inr rfl) children) (hproper _ (by trivial))
    | generic role => exact all_made_shape (.generic children) (hproper _ (by trivial))
    | expressionStatement role =>
      simp only
      split
      · exact all_made_shape (.expressionStatement children) (hproper _ (by trivial))
      · next hsome =>
        -- There is a value only when the statement is one assignment.
        split at hsome
        · next hsole =>
          rw [if_pos hsole]
          exact all_made_shape (.assignment children)
            ((lower_first_made source _ (proper_sensible (by trivial)) children).append
              (lower_first_made source _ (proper_sensible (by trivial)) children))
        · exact absurd rfl hsome
    | chainValue => exact lower_first_made source _ right_side_gives.sensible children
    | chainTargets => exact (hfirst _ _ (by trivial)).append (lower_chain_made source children)
    | importing role fromModule =>
      exact all_made_shape (.importing _ _) (all_made_bindings _ (made_import fromModule) _)
    | parameters => exact all_made_shape (.parameters _) (all_made_bindings _ made_parameter _)
    | conditional role =>
      refine all_made_shape (.conditional _ _ _ children) ?_
      rw [← List.singleton_append]
      exact (all_made_node (.part _ (.inl rfl) children) hpart).append
        (lower_each_made source _ alternative_gives.sensible children)
    | conditionalPart k => exact all_made_node (.part _ (.inr hs) children) hpart
    | elsePart =>
      exact all_made_shape (.elsePart children)
        (lower_first_made source _ (else_suite_gives children).sensible children)
    | whileLoop role =>
      exact all_made_shape (.whileLoop children)
        (((hfirst _ _ (by trivial)).append (hfirst _ _ (by trivial))).append (hfirst _ _ (by trivial)))
    | forLoop role =>
      exact all_made_shape (.forLoop children)
        ((((hfirst _ _ (by trivial)).append (hfirst _ _ (by trivial))).append
          (hfirst _ _ (by trivial))).append (hfirst _ _ (by trivial)))
    | leaving k role => exact all_made_shape (.leaving k hs children) (hproper _ (by trivial))
    | trying role =>
      exact all_made_shape (.trying children) ((hfirst _ _ (by trivial)).append (hproper _ (by trivial)))
    | tryBody =>
      exact all_made_node (.tryBody _ children)
        (all_made_node (.sequence _ (.inr rfl) children) (hproper _ (by trivial)))
    | handler => exact all_made_shape (.handler children) (lower_handler_made source false children)
    | finallyPart =>
      exact all_made_shape (.finallyPart children) (lower_first_made source _
        (named_as_gives _ _ (by trivial) _ fun _ _ _ => trivial) children)
    | function role =>
      exact all_made_shape (.function children) ((hfirst _ _ (by trivial)).append (hfirst _ _ (by trivial)))
    | classDefinition role => exact all_made_shape (.classDefinition children) (hfirst _ _ (by trivial))
    | decorated role => exact hfirst _ _ (by trivial)
    | group w => exact hproper w hs
    | expression role => exact all_made_shape (.expression _ children) (hproper _ (by trivial))
    | namedExpression role =>
      exact all_made_shape (.namedExpression children)
        ((hfirst _ _ (by trivial)).append (hfirst _ _ (by trivial)))
    | lambda role =>
      exact all_made_shape (.lambda children) ((hfirst _ _ (by trivial)).append (hfirst _ _ (by trivial)))
    | aliased role =>
      exact all_made_shape (.aliased children) (lower_aliased_made source false children)
    | comprehension role =>
      exact all_made_shape (.comprehension children)
        ((hfirst _ _ (by trivial)).append (hproper _ (by trivial)))
    | comprehensionFor =>
      refine all_made_shape (.comprehensionFor children) (AllMade.append ?_ (hfirst _ _ (by trivial)))
      split
      · exact all_made_nil
      · exact hfirst _ _ (by trivial)
      · exact all_made_node (.gathered children)
          (lower_each_made source _ (fills_sensible _ (by trivial)) children)
    | comprehensionIf =>
      exact all_made_shape (.comprehensionIf children)
        (lower_first_made source _ (proper_sensible (by trivial)) children)

theorem lower_first_made (source : String) (slot : Slot) (h : slot.Sensible)
    (cs : List Concrete) : AllMade source (lowerFirst source slot cs) := by
  cases cs with
  | nil => rw [lowerFirst]; exact all_made_nil
  | cons c rest =>
    rw [lowerFirst]
    split
    · next v hv => exact lower_made source v (h c v hv).1 c
    · exact lower_first_made source slot h rest

theorem lower_each_made (source : String) (slot : Slot) (h : slot.Sensible)
    (cs : List Concrete) : AllMade source (lowerEach source slot cs) := by
  cases cs with
  | nil => rw [lowerEach]; exact all_made_nil
  | cons c rest =>
    rw [lowerEach]
    refine AllMade.append ?_ (lower_each_made source slot h rest)
    split
    · next v hv => exact lower_made source v (h c v hv).1 c
    · exact all_made_nil

theorem lower_chain_made (source : String) (cs : List Concrete) :
    AllMade source (lowerChain source cs) := by
  cases cs with
  | nil => rw [lowerChain]; exact all_made_nil
  | cons c rest =>
    rw [lowerChain]
    split
    · split
      · exact lower_made source .chainTargets trivial c
      · exact all_made_nil
    · exact lower_chain_made source rest

theorem lower_aliased_made (source : String) (found : Bool) (cs : List Concrete) :
    AllMade source (lowerAliased source found cs) := by
  cases cs with
  | nil => rw [lowerAliased]; exact all_made_nil
  | cons c rest =>
    rw [lowerAliased]
    refine AllMade.append ?_ (lower_aliased_made source _ rest)
    split
    · split
      · exact lower_made source (.target .target) trivial c
      · exact lower_made source (.expression .value) trivial c
    · exact all_made_nil

theorem lower_handler_made (source : String) (bound : Bool) (cs : List Concrete) :
    AllMade source (lowerHandler source bound cs) := by
  cases cs with
  | nil => rw [lowerHandler]; exact all_made_nil
  | cons c rest =>
    rw [lowerHandler]
    split
    · exact lower_handler_made source true rest
    split
    · exact (lower_made source (.block .body) trivial c).append
        (lower_handler_made source bound rest)
    split
    · exact lower_handler_made source bound rest
    split
    · exact (lower_made source (.target .target) trivial c).append
        (lower_handler_made source false rest)
    · exact (lower_made source (.expression .plain) trivial c).append
        (lower_handler_made source bound rest)

end

/-- Every node of a lowered module is made by a rule, whatever the concrete tree. -/
theorem module_made (source : String) (root : Concrete) :
    (module source root).Every (Made source) :=
  .node _ _ _ _ _ _ (.sequence _ (.inl rfl) root.children)
    (lower_each_made source _ (proper_sensible (by trivial)) root.children)

end Lowering
end PythonFlow
