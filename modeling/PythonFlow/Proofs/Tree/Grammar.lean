import PythonFlow.Lowering.Module
import PythonFlow.Proofs.Tree.Layout

/-!
# The grammar of lowered trees

Which children a node of each kind may have, and in which slots. The rules of lowering keep to it
for every concrete tree, so a lowered tree is ordered and has a child of an unexpected kind nowhere:
nothing that decides control flow stands below an expression, and each condition and each suite
stands in its slot.
-/

set_option autoImplicit false

namespace PythonFlow

namespace SyntaxKind

def isTerm : SyntaxKind → Bool
  | expression | comprehension | lambda | target => true
  | _ => false

def isQuiet : SyntaxKind → Bool
  | expression | comprehension | comprehensionFor | comprehensionIf | lambda | target
  | parameters | parameter | importBinding => true
  | _ => false

/-- Whether a node of the first kind may have a child of the second in this slot. -/
def admits : SyntaxKind → SyntaxKind → Role → Bool
  | module, c, _ | block, c, _ => c.isStatement || c == block
  | statement, c, _ => c.isStatement || c == block || c.isTerm
  | assignment, c, r => c.isTerm && (r == .value || r == .target)
  | importStatement, c, _ => c == importBinding
  | returnExit, c, _ | raiseExit, c, _ => c.isTerm
  | ifStatement, c, _ => c == ifPart || c == elifPart || c == elsePart
  | ifPart, c, r | elifPart, c, r =>
    c.isTerm && r == .condition || c == block && r == .body
  | elsePart, c, _ | tryPart, c, _ | finallyPart, c, _ => c == block
  | exceptPart, c, _ => c == block || c.isTerm
  | whileLoop, c, r =>
    c.isTerm && r == .condition || c == block && r == .body || c == elsePart && r == .plain
  | forLoop, c, r =>
    c.isTerm && (r == .iterable || r == .target) || c == block && r == .body ||
      c == elsePart && r == .plain
  | tryStatement, c, _ => c == tryPart || c == exceptPart || c == elsePart || c == finallyPart
  | functionDef, c, _ => c == parameters || c == block
  | classDef, c, _ => c == block
  | lambda, c, _ => c == parameters || c.isTerm
  | parameters, c, _ => c == parameter
  | expression, c, _ => c.isTerm
  | comprehension, c, r =>
    c.isTerm && r == .result || (c == comprehensionFor || c == comprehensionIf) && r == .plain
  | comprehensionFor, c, r => c.isTerm && (r == .iterable || r == .target)
  | comprehensionIf, c, r => c.isTerm && r == .condition
  | breakJump, _, _ | continueJump, _, _ | target, _, _ | parameter, _, _ | importBinding, _, _ =>
    false

end SyntaxKind

structure SyntaxTree.Grammatical (t : SyntaxTree) : Prop where
  ordered : t.Ordered
  admitted : ∀ {p c : NodeId}, c ∈ t.children p →
    (t.kind p).admits (t.kind c) (t.role c) = true

namespace Shape

inductive Grammatical : Shape → Prop
  | node (k : SyntaxKind) (r : Role) (sp : Span) (n : Option String) (tx : String)
      (cs : List Shape) (admitted : ∀ c ∈ cs, k.admits c.kind c.role = true)
      (under : ∀ c ∈ cs, Grammatical c) : Grammatical (.node k r sp n tx cs)

theorem Grammatical.admits_children {s : Shape} (h : s.Grammatical) :
    ∀ c ∈ s.children, s.kind.admits c.kind c.role = true := by
  cases h with
  | node k r sp n tx cs admitted under => exact admitted

theorem Grammatical.children {s : Shape} (h : s.Grammatical) :
    ∀ c ∈ s.children, c.Grammatical := by
  cases h with
  | node k r sp n tx cs admitted under => exact under

theorem grammatical_to_tree (s : Shape) (h : s.Grammatical) : s.toTree.Grammatical where
  ordered := ordered_to_tree s
  admitted := by
    intro p c hc
    obtain ⟨s', hs', hk, -, -, d, hd, hl⟩ :=
      children_to_tree s (P := Grammatical) (fun _ h => h.children) h hc
    obtain ⟨-, hdk, hdr, -, -⟩ := laid_node hl
    have hadm := Grammatical.admits_children hs' d hd
    simpa [hk, hdk, hdr] using hadm

end Shape

namespace Lowering

def View.fits : View → SyntaxKind → Role → Bool
  | .statement r, k, r' => (k.isStatement || k == .block) && r' == r
  | .block r, k, r' => k == .block && r' == r
  | .member, k, _ => k.isStatement || k == .block || k.isTerm
  | .expression r, k, r' | .target r, k, r' => k.isTerm && r' == r
  | .inner, k, _ => k.isTerm
  | .conditionalPart p, k, _ => k == p
  | .elsePart, k, r' => k == .elsePart && r' == .plain
  | .tryBody, k, _ => k == .tryPart
  | .tryClause, k, _ => k == .exceptPart || k == .elsePart || k == .finallyPart
  | .parameters, k, _ => k == .parameters
  | .comprehensionClause, k, r' => (k == .comprehensionFor || k == .comprehensionIf) && r' == .plain
  | .chainValue, k, r' => k.isTerm && r' == .value
  | .chainTargets, k, r' => k.isTerm && r' == .target

/-- A part of a conditional is an `elif` part wherever it is met by a view. -/
def View.Sensible : View → Prop
  | .conditionalPart p => p = .elifPart
  | _ => True

def View.suits (v : View) (p : SyntaxKind) : Bool :=
  (match v with
    | .conditionalPart k => k == .elifPart
    | _ => true) && SyntaxKind.all.all fun k => Role.all.all fun r => !v.fits k r || p.admits k r

theorem View.sensible_of_suits {v : View} {p : SyntaxKind} (h : v.suits p = true) : v.Sensible := by
  cases v with
  | conditionalPart k => exact beq_iff_eq.1 (Bool.and_eq_true_iff.1 h).1
  | _ => trivial

theorem View.admits_of_suits {v : View} {p : SyntaxKind} (h : v.suits p = true) (k : SyntaxKind)
    (r : Role) (hf : v.fits k r = true) : p.admits k r = true := by
  have hr : r ∈ Role.all := by cases r <;> decide
  have hall := List.all_eq_true.1 (Bool.and_eq_true_iff.1 h).2 k (SyntaxKind.mem_all k)
  have hkr := List.all_eq_true.1 hall r hr
  rwa [hf, Bool.not_true, Bool.false_or] at hkr

def Rule.makes : Rule → SyntaxKind → Role → Bool
  | .skip, _, _ => false
  | .leaf k r, k', r' | .leaving k r, k', r' => k' == k && r' == r
  | .block r, k, r' => k == .block && r' == r
  | .generic r, k, r' => k == .statement && r' == r
  | .expressionStatement r, k, r' => (k == .statement || k == .assignment) && r' == r
  | .importing r _, k, r' => k == .importStatement && r' == r
  | .conditional r, k, r' => k == .ifStatement && r' == r
  | .whileLoop r, k, r' => k == .whileLoop && r' == r
  | .forLoop r, k, r' => k == .forLoop && r' == r
  | .trying r, k, r' => k == .tryStatement && r' == r
  | .function r, k, r' => k == .functionDef && r' == r
  | .classDefinition r, k, r' => k == .classDef && r' == r
  | .decorated r, k, r' => (k.isStatement || k == .block) && r' == r
  | .expression r, k, r' | .namedExpression r, k, r' | .aliased r, k, r' =>
    k == .expression && r' == r
  | .comprehension r, k, r' => k == .comprehension && r' == r
  | .lambda r, k, r' => k == .lambda && r' == r
  | .name r, k, r' => k == .target && r' == r
  | .group v, k, r' => v.fits k r'
  | .conditionalPart p, k, _ => k == p
  | .elsePart, k, r' => k == .elsePart && r' == .plain
  | .tryBody, k, _ => k == .tryPart
  | .handler, k, _ => k == .exceptPart
  | .finallyPart, k, _ => k == .finallyPart
  | .parameters, k, _ => k == .parameters
  | .comprehensionFor, k, r' => k == .comprehensionFor && r' == .plain
  | .comprehensionIf, k, r' => k == .comprehensionIf && r' == .plain
  | .chainValue, k, r' => k.isTerm && r' == .value
  | .chainTargets, k, r' => k.isTerm && r' == .target

def Rule.Sensible : Rule → Prop
  | .leaving k _ => k = .returnExit ∨ k = .raiseExit
  | .conditionalPart p => p = .elifPart
  | .group v => v.Sensible
  | _ => True

theorem statement_rule_sound (role : Role) (kind : String) :
    (statementRule role kind).Sensible ∧ ∀ k r, (statementRule role kind).makes k r = true →
      (View.statement role).fits k r = true := by
  unfold statementRule
  split <;> refine ⟨by simp [Rule.Sensible], ?_⟩ <;> intro k r <;>
    simp only [Rule.makes, View.fits, Bool.and_eq_true, beq_iff_eq, Bool.or_eq_true] <;>
    simp +contextual [SyntaxKind.isStatement, or_imp]

theorem flow_rule_sound (role : Role) (kind : String) (rule : Rule)
    (h : flowRule? role kind = some rule) :
    rule.Sensible ∧ ∀ k r, rule.makes k r = true → k.isTerm = true ∧ r = role := by
  unfold flowRule? at h
  split at h <;> cases h <;> refine ⟨trivial, ?_⟩ <;> intro k r <;>
    simp +contextual [Rule.makes, SyntaxKind.isTerm]

theorem expression_rule_sound (role : Role) (kind : String) :
    (expressionRule role kind).Sensible ∧ ∀ k r, (expressionRule role kind).makes k r = true →
      k.isTerm = true ∧ r = role := by
  unfold expressionRule
  cases h : flowRule? role kind with
  | some rule => exact flow_rule_sound role kind rule h
  | none =>
    refine ⟨trivial, ?_⟩
    intro k r
    simp +contextual [Rule.makes, SyntaxKind.isTerm]

theorem view_rule_sound (v : View) (hv : v.Sensible) (kind : String) :
    (v.rule kind).Sensible ∧ ∀ k r, (v.rule kind).makes k r = true → v.fits k r = true := by
  cases v with
  | statement role => exact statement_rule_sound role kind
  | member =>
    simp only [View.rule, memberRule]
    split
    · exact ⟨trivial, by simp +contextual [Rule.makes, View.fits]⟩
    split
    · refine ⟨(statement_rule_sound .plain kind).1, fun k r h => ?_⟩
      have hs := (statement_rule_sound .plain kind).2 k r h
      simp only [View.fits, Bool.and_eq_true, Bool.or_eq_true] at hs ⊢
      exact .inl hs.1
    · refine ⟨(expression_rule_sound .plain kind).1, fun k r h => ?_⟩
      have hs := (expression_rule_sound .plain kind).2 k r h
      simp [View.fits, hs.1]
  | expression role =>
    refine ⟨(expression_rule_sound role kind).1, fun k r h => ?_⟩
    have hs := (expression_rule_sound role kind).2 k r h
    simp [View.fits, hs.1, hs.2]
  | target role =>
    simp only [View.rule, targetRule]
    split
    · exact ⟨trivial, by simp +contextual [Rule.makes, View.fits, SyntaxKind.isTerm]⟩
    split
    · exact ⟨trivial, fun k r h => h⟩
    · refine ⟨(expression_rule_sound role kind).1, fun k r h => ?_⟩
      have hs := (expression_rule_sound role kind).2 k r h
      simp [View.fits, hs.1, hs.2]
  | inner =>
    simp only [View.rule]
    cases h : flowRule? .plain kind with
    | some rule =>
      refine ⟨(flow_rule_sound .plain kind rule h).1, fun k r hm => ?_⟩
      exact ((flow_rule_sound .plain kind rule h).2 k r hm).1
    | none => exact ⟨trivial, fun k r h => h⟩
  | tryClause =>
    simp only [View.rule, tryClauseRule]
    split <;> refine ⟨by simp [Rule.Sensible], ?_⟩ <;> simp +contextual [Rule.makes, View.fits]
  | comprehensionClause =>
    simp only [View.rule, comprehensionClauseRule]
    split <;> refine ⟨by simp [Rule.Sensible], ?_⟩ <;> simp +contextual [Rule.makes, View.fits]
  | conditionalPart p => exact ⟨hv, fun k r h => h⟩
  | block | elsePart | tryBody | parameters | chainValue | chainTargets =>
    exact ⟨trivial, fun k r h => h⟩

/-- A slot that only gives sensible views, and only such as fit `Q`. -/
def Slot.Gives (slot : Slot) (Q : SyntaxKind → Role → Prop) : Prop :=
  ∀ c v, slot c = some v → v.Sensible ∧ ∀ k r, v.fits k r = true → Q k r

theorem fills_gives (field : String) (v : View) (hv : v.Sensible) (Q : SyntaxKind → Role → Prop)
    (hQ : ∀ k r, v.fits k r = true → Q k r) : Slot.Gives (fills field v) Q := by
  intro c w h
  simp only [fills] at h
  split at h <;> cases h
  exact ⟨hv, hQ⟩

theorem proper_gives (v : View) (hv : v.Sensible) (Q : SyntaxKind → Role → Prop)
    (hQ : ∀ k r, v.fits k r = true → Q k r) : Slot.Gives (proper v) Q := by
  intro c w h
  simp only [proper] at h
  split at h <;> cases h
  exact ⟨hv, hQ⟩

theorem named_as_gives (kind : String) (v : View) (hv : v.Sensible) (Q : SyntaxKind → Role → Prop)
    (hQ : ∀ k r, v.fits k r = true → Q k r) : Slot.Gives (namedAs kind v) Q := by
  intro c w h
  simp only [namedAs] at h
  split at h <;> cases h
  exact ⟨hv, hQ⟩

theorem else_suite_gives (children : List Concrete) :
    Slot.Gives (elseSuite children) fun k r => SyntaxKind.admits .elsePart k r = true := by
  have hQ : ∀ k r, (View.block .body).fits k r = true → SyntaxKind.admits .elsePart k r = true := by
    simp +contextual [View.fits, SyntaxKind.admits]
  unfold elseSuite
  split
  · exact fills_gives "body" (.block .body) trivial _ hQ
  · exact named_as_gives "block" (.block .body) trivial _ hQ

theorem alternative_gives :
    Slot.Gives alternative fun k r => SyntaxKind.admits .ifStatement k r = true := by
  intro c v h
  simp only [alternative] at h
  split at h
  · split at h
    · cases h
      exact ⟨rfl, by simp +contextual [View.fits, SyntaxKind.admits]⟩
    split at h <;> cases h
    exact ⟨trivial, by simp +contextual [View.fits, SyntaxKind.admits]⟩
  · cases h

theorem right_side_gives :
    Slot.Gives rightSide fun k r => k.isTerm = true ∧ r = .value := by
  intro c v h
  simp only [rightSide] at h
  split at h
  · split at h <;> cases h <;> exact ⟨trivial, by simp [View.fits]⟩
  · cases h

def AllFit (Q : SyntaxKind → Role → Prop) (ss : List Shape) : Prop :=
  ∀ s ∈ ss, Q s.kind s.role ∧ s.Grammatical

section
variable {Q R : SyntaxKind → Role → Prop} {ss rest : List Shape}

theorem all_fit_nil : AllFit Q [] := by simp [AllFit]

theorem AllFit.append (h : AllFit Q ss) (h' : AllFit Q rest) : AllFit Q (ss ++ rest) := by
  intro s hs
  rcases List.mem_append.1 hs with hs | hs
  · exact h s hs
  · exact h' s hs

theorem AllFit.mono (h : AllFit Q ss) (hQR : ∀ k r, Q k r → R k r) : AllFit R ss :=
  fun s hs => ⟨hQR _ _ (h s hs).1, (h s hs).2⟩

theorem all_fit_node {k : SyntaxKind} {r : Role} {sp : Span} {n : Option String} {tx : String}
    {cs : List Shape} (hQ : Q k r) (h : AllFit (fun c r => k.admits c r = true) cs) :
    AllFit Q [.node k r sp n tx cs] := by
  intro s hs
  rw [List.mem_singleton] at hs
  subst hs
  exact ⟨hQ, .node k r sp n tx cs (fun c hc => (h c hc).1) (fun c hc => (h c hc).2)⟩

theorem all_fit_shape {source : String} {k : SyntaxKind} {r : Role} {extent : Extent}
    {n : Option String} {cs : List Shape} (hQ : Q k r)
    (h : AllFit (fun c r => k.admits c r = true) cs) :
    AllFit Q [shape source k r extent n cs] := all_fit_node hQ h

/-- Every bound name becomes a node without children. -/
theorem all_fit_bindings {source : String} {k : SyntaxKind} {r : Role} (hQ : Q k r)
    (name : Concrete → Option String) (cs : List Concrete) :
    AllFit Q (cs.filterMap fun c => (name c).map fun n => shape source k r c.extent (some n) []) := by
  intro s hs
  obtain ⟨c, -, hc⟩ := List.mem_filterMap.1 hs
  obtain ⟨n, -, rfl⟩ := Option.map_eq_some_iff.1 hc
  exact all_fit_shape (n := some n) hQ all_fit_nil _ (List.mem_singleton.2 rfl)

end

mutual

theorem lower_fits (source : String) (v : View) (hv : v.Sensible) (c : Concrete) :
    AllFit (fun k r => v.fits k r = true) (lower source v c) := by
  cases c with
  | node kind named field extent children =>
    obtain ⟨hs, hm⟩ := view_rule_sound v hv kind
    rw [lower]
    generalize v.rule kind = rule at hs hm ⊢
    -- What a slot lowers below a node of kind `p` is admitted there when its view suits `p`.
    have hfield : ∀ {p : SyntaxKind} {field : String} {w : View}, w.suits p = true →
        AllFit (fun k r => p.admits k r = true) (lowerFirst source (fills field w) children) :=
      fun h => lower_first_fits source _ _
        (fills_gives _ _ (View.sensible_of_suits h) _ (View.admits_of_suits h)) children
    have hfields : ∀ {p : SyntaxKind} {field : String} {w : View}, w.suits p = true →
        AllFit (fun k r => p.admits k r = true) (lowerEach source (fills field w) children) :=
      fun h => lower_each_fits source _ _
        (fills_gives _ _ (View.sensible_of_suits h) _ (View.admits_of_suits h)) children
    have hproper : ∀ {p : SyntaxKind} {w : View}, w.suits p = true →
        AllFit (fun k r => p.admits k r = true) (lowerFirst source (proper w) children) :=
      fun h => lower_first_fits source _ _
        (proper_gives _ (View.sensible_of_suits h) _ (View.admits_of_suits h)) children
    have hmembers : ∀ {p : SyntaxKind} {w : View}, w.suits p = true →
        AllFit (fun k r => p.admits k r = true) (lowerEach source (proper w) children) :=
      fun h => lower_each_fits source _ _
        (proper_gives _ (View.sensible_of_suits h) _ (View.admits_of_suits h)) children
    cases rule with
    | skip => exact all_fit_nil
    | leaf k role | name role => exact all_fit_shape (hm _ _ (by simp [Rule.makes])) all_fit_nil
    | block role => exact all_fit_node (hm _ _ (by simp [Rule.makes])) (hmembers (by rfl))
    | generic role | expression role =>
      exact all_fit_shape (hm _ _ (by simp [Rule.makes])) (hmembers (by rfl))
    | expressionStatement role =>
      simp only
      split
      · exact all_fit_shape (hm _ _ (by simp [Rule.makes])) (hmembers (by rfl))
      · refine all_fit_shape (hm _ _ (by simp [Rule.makes])) (AllFit.append ?_ (hproper (by rfl)))
        split
        · exact hproper (by rfl)
        · exact all_fit_nil
    | chainValue =>
      refine AllFit.mono (lower_first_fits source _ _ right_side_gives children) ?_
      intro k r h
      exact hm k r (by simpa [Rule.makes] using h)
    | chainTargets =>
      refine AllFit.append ?_ ?_
      · refine lower_first_fits source _ _ (fills_gives _ _ (by trivial) _ ?_) children
        intro k r h
        exact hm k r h
      · exact AllFit.mono (lower_chain_fits source children) fun k r h =>
          hm k r (by simpa [Rule.makes] using h)
    | importing role fromModule =>
      exact all_fit_shape (hm _ _ (by simp [Rule.makes])) (all_fit_bindings rfl _ _)
    | parameters =>
      exact all_fit_shape (hm _ _ (by simp [Rule.makes])) (all_fit_bindings rfl _ _)
    | conditional role =>
      refine all_fit_shape (hm _ _ (by simp [Rule.makes])) ?_
      rw [← List.singleton_append]
      exact (all_fit_node rfl ((hfield (by rfl)).append (hfield (by rfl)))).append
        (lower_each_fits source _ _ alternative_gives children)
    | conditionalPart k =>
      obtain rfl : k = .elifPart := hs
      exact all_fit_node (hm _ _ (by simp [Rule.makes]))
        ((hfield (by rfl)).append (hfield (by rfl)))
    | elsePart =>
      exact all_fit_shape (hm _ _ (by simp [Rule.makes]))
        (lower_first_fits source _ _ (else_suite_gives children) children)
    | whileLoop role =>
      exact all_fit_shape (hm _ _ (by simp [Rule.makes]))
        (((hfield (by rfl)).append (hfield (by rfl))).append (hfield (by rfl)))
    | forLoop role =>
      exact all_fit_shape (hm _ _ (by simp [Rule.makes]))
        ((((hfield (by rfl)).append (hfield (by rfl))).append (hfield (by rfl))).append
          (hfield (by rfl)))
    | leaving k role =>
      refine all_fit_shape (hm _ _ (by simp [Rule.makes])) ?_
      rcases hs with rfl | rfl <;> exact hmembers (by rfl)
    | trying role | comprehension role =>
      exact all_fit_shape (hm _ _ (by simp [Rule.makes]))
        ((hfield (by rfl)).append (hmembers (by rfl)))
    | tryBody =>
      exact all_fit_node (hm _ _ (by simp [Rule.makes])) (all_fit_node rfl (hmembers (by rfl)))
    | handler =>
      exact all_fit_shape (hm _ _ (by simp [Rule.makes])) (lower_handler_fits source false children)
    | aliased role =>
      exact all_fit_shape (hm _ _ (by simp [Rule.makes])) (lower_aliased_fits source false children)
    | finallyPart =>
      refine all_fit_shape (hm _ _ (by simp [Rule.makes])) ?_
      exact lower_first_fits source _ _
        (named_as_gives _ _ (by trivial) _ (View.admits_of_suits (by rfl))) children
    | classDefinition role =>
      exact all_fit_shape (hm _ _ (by simp [Rule.makes])) (hfield (by rfl))
    | function role | namedExpression role | lambda role =>
      exact all_fit_shape (hm _ _ (by simp [Rule.makes]))
        ((hfield (by rfl)).append (hfield (by rfl)))
    | decorated role =>
      refine lower_first_fits source _ _ (fills_gives _ _ (by trivial) _ ?_) children
      intro k r h
      exact hm k r h
    | group w =>
      exact lower_each_fits source _ _ (proper_gives _ hs _ fun k r h => hm k r h) children
    | comprehensionFor =>
      refine all_fit_shape (hm _ _ (by simp [Rule.makes])) (AllFit.append ?_ (hfield (by rfl)))
      split
      · exact all_fit_nil
      · exact hfield (by rfl)
      · exact all_fit_node rfl (hfields (by rfl))
    | comprehensionIf =>
      exact all_fit_shape (hm _ _ (by simp [Rule.makes])) (hproper (by rfl))

theorem lower_first_fits (source : String) (slot : Slot) (Q : SyntaxKind → Role → Prop)
    (h : slot.Gives Q) (cs : List Concrete) : AllFit Q (lowerFirst source slot cs) := by
  cases cs with
  | nil => rw [lowerFirst]; exact all_fit_nil
  | cons c rest =>
    rw [lowerFirst]
    split
    · next v hv => exact (lower_fits source v (h c v hv).1 c).mono (h c v hv).2
    · exact lower_first_fits source slot Q h rest

theorem lower_each_fits (source : String) (slot : Slot) (Q : SyntaxKind → Role → Prop)
    (h : slot.Gives Q) (cs : List Concrete) : AllFit Q (lowerEach source slot cs) := by
  cases cs with
  | nil => rw [lowerEach]; exact all_fit_nil
  | cons c rest =>
    rw [lowerEach]
    refine AllFit.append ?_ (lower_each_fits source slot Q h rest)
    split
    · next v hv => exact (lower_fits source v (h c v hv).1 c).mono (h c v hv).2
    · exact all_fit_nil

theorem lower_chain_fits (source : String) (cs : List Concrete) :
    AllFit (fun k r => k.isTerm = true ∧ r = .target) (lowerChain source cs) := by
  cases cs with
  | nil => rw [lowerChain]; exact all_fit_nil
  | cons c rest =>
    rw [lowerChain]
    split
    · split
      · refine (lower_fits source .chainTargets trivial c).mono ?_
        simp [View.fits]
      · exact all_fit_nil
    · exact lower_chain_fits source rest

theorem lower_aliased_fits (source : String) (found : Bool) (cs : List Concrete) :
    AllFit (fun k r => SyntaxKind.admits .expression k r = true)
      (lowerAliased source found cs) := by
  cases cs with
  | nil => rw [lowerAliased]; exact all_fit_nil
  | cons c rest =>
    rw [lowerAliased]
    refine AllFit.append ?_ (lower_aliased_fits source _ rest)
    split
    · split
      · refine (lower_fits source (.target .target) trivial c).mono ?_
        simp +contextual [View.fits, SyntaxKind.admits]
      · refine (lower_fits source (.expression .value) trivial c).mono ?_
        simp +contextual [View.fits, SyntaxKind.admits]
    · exact all_fit_nil

theorem lower_handler_fits (source : String) (bound : Bool) (cs : List Concrete) :
    AllFit (fun k r => SyntaxKind.admits .exceptPart k r = true)
      (lowerHandler source bound cs) := by
  cases cs with
  | nil => rw [lowerHandler]; exact all_fit_nil
  | cons c rest =>
    rw [lowerHandler]
    split
    · exact lower_handler_fits source true rest
    split
    · refine AllFit.append ?_ (lower_handler_fits source bound rest)
      refine (lower_fits source (.block .body) trivial c).mono ?_
      simp +contextual [View.fits, SyntaxKind.admits]
    split
    · exact lower_handler_fits source bound rest
    split
    · refine AllFit.append ?_ (lower_handler_fits source false rest)
      refine (lower_fits source (.target .target) trivial c).mono ?_
      simp +contextual [View.fits, SyntaxKind.admits]
    · refine AllFit.append ?_ (lower_handler_fits source bound rest)
      refine (lower_fits source (.expression .plain) trivial c).mono ?_
      simp +contextual [View.fits, SyntaxKind.admits]

end

theorem module_grammatical (source : String) (root : Concrete) :
    (module source root).Grammatical := by
  have h : AllFit (fun k r => SyntaxKind.admits .module k r = true)
      (lowerEach source (proper (.statement .plain)) root.children) := by
    refine lower_each_fits source _ _ (proper_gives _ (by trivial) _ ?_) root.children
    simp +contextual [View.fits, SyntaxKind.admits]
  exact .node _ _ _ _ _ _ (fun c hc => (h c hc).1) (fun c hc => (h c hc).2)

/-- Whatever the concrete tree, its lowered tree keeps to the grammar. -/
theorem tree_grammatical (source : String) (root : Concrete) : (tree source root).Grammatical :=
  Shape.grammatical_to_tree _ (module_grammatical source root)

end Lowering
end PythonFlow
