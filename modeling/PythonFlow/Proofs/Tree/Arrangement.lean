import PythonFlow.Proofs.Growing.Lowered
import PythonFlow.Proofs.Tree.Slots

/-!
# The arrangement of lowered trees

What the flow rules rely on without asking: the numbering in pre-order, where statements and suites
stand, that an expression has none of them below it, how a conditional begins, and which slots are filled
once. All of it holds of the tree of any concrete tree whatever, since a node that no rule knows is
lowered as well, and its children in a view that keeps them in their place. The numbering comes of the order
in which the rules push nodes: a node before what is below it, and one child with all of that before the next.
-/

set_option autoImplicit false

namespace PythonFlow

namespace SyntaxKind

/-- Kinds under which statements stand in a row. -/
def isSequence : SyntaxKind → Bool
  | module | block | statement => true
  | _ => false

def hasSuite : SyntaxKind → Bool
  | functionDef | classDef | ifPart | elifPart | elsePart | whileLoop | forLoop | tryPart
  | exceptPart | finallyPart => true
  | _ => false

end SyntaxKind

/-- The form of a tree of lowered syntax. -/
structure SyntaxTree.Arranged (t : SyntaxTree) : Prop where
  /-- Each node was pushed under one that was there. -/
  pushed : t.Pushed
  numbered : t.Preordered
  /-- A statement stands in a sequence; a suite stands in one or is the body of its parent. -/
  housed : ∀ c ∈ t.ids, (t.kind c).isStatement = true ∨ t.kind c = .block →
    ∃ p, t.parent c = some p ∧ ((t.kind p).isSequence = true ∨
      t.kind c = .block ∧ t.role c = .body ∧ (t.kind p).hasSuite = true)
  quiet : ∀ p x, t.kind p ∈ [.expression, .comprehension, .lambda, .parameters, .target] →
    t.Below x p → (t.kind x).isStatement = false ∧ t.kind x ≠ .block
  /-- A conditional begins with its `if` part and has no other. -/
  opened : ∀ s, t.kind s = .ifStatement → ∃ part rest, t.children s = part :: rest ∧
    t.kind part = .ifPart ∧ ∀ c ∈ rest, t.kind c ≠ .ifPart
  filled : ∀ s, t.kind s ∈ [.ifPart, .elifPart, .whileLoop, .forLoop] →
    ∀ r ∈ [Role.condition, .iterable, .body], (t.childrenWithRole s r).length ≤ 1

namespace Shape

def Bodied (ss : List Shape) : Prop := ∀ s ∈ ss, s.kind = .block → s.role = .body

def Opened (ss : List Shape) : Prop :=
  ∃ part rest, ss = part :: rest ∧ part.kind = .ifPart ∧ ∀ s ∈ rest, s.kind ≠ .ifPart

/-- What the kind of a node says of its children beyond the grammar. -/
def Framed (k : SyntaxKind) (ss : List Shape) : Prop :=
  match k with
  | .ifStatement => Opened ss
  | .functionDef | .classDef | .elsePart | .tryPart | .exceptPart | .finallyPart => Bodied ss
  | _ => True

end Shape

namespace Lowering

section bodies
variable (source : String) (cs : List Concrete)

def InBody (k : SyntaxKind) (r : Role) : Prop := k = .block → r = .body

theorem bodied_of_fits {ss : List Shape} (h : AllFit InBody ss) : Shape.Bodied ss :=
  fun s hs => (h s hs).1

theorem block_in_body (k : SyntaxKind) (r : Role) (h : (View.block .body).fits k r = true) :
    InBody k r := by
  simp only [View.fits, Bool.and_eq_true, beq_iff_eq] at h
  exact fun _ => h.2

theorem term_in_body {k : SyntaxKind} {r : Role} (h : k.isTerm = true) : InBody k r := by
  rintro rfl
  cases h

theorem body_fits : AllFit InBody (lowerFirst source (fills "body" (.block .body)) cs) :=
  lower_first_fits source _ _ (fills_gives _ _ (by trivial) _ block_in_body) cs

theorem parameters_fit : AllFit InBody (lowerFirst source (fills "parameters" .parameters) cs) := by
  refine lower_first_fits source _ _ (fills_gives _ _ (by trivial) _ ?_) cs
  intro k r h
  simp only [View.fits, beq_iff_eq] at h
  simp [InBody, h]

theorem else_suite_fits (children : List Concrete) :
    AllFit InBody (lowerFirst source (elseSuite children) cs) := by
  refine lower_first_fits source _ _ ?_ cs
  unfold elseSuite
  split
  · exact fills_gives _ _ (by trivial) _ block_in_body
  · exact named_as_gives _ _ (by trivial) _ block_in_body

/-- What a handler catches and binds are terms, and its suites are met as bodies. -/
theorem handler_suites_fit (bound : Bool) (cs : List Concrete) :
    AllFit InBody (lowerHandler source bound cs) := by
  have hterm : ∀ (v : View) (c : Concrete), v.Sensible → (∀ k r, v.fits k r = true → k.isTerm = true) →
      AllFit InBody (lower source v c) := fun v c hv h =>
    (lower_fits source v hv c).mono fun k r hk => term_in_body (h k r hk)
  induction cs generalizing bound with
  | nil => rw [lowerHandler]; exact all_fit_nil
  | cons c rest ih =>
    rw [lowerHandler]
    split
    · exact ih true
    split
    · exact ((lower_fits source (.block .body) trivial c).mono block_in_body).append (ih bound)
    split
    · exact ih bound
    split
    · refine (hterm (.target .target) c trivial ?_).append (ih false)
      simp +contextual [View.fits]
    · refine (hterm (.expression .plain) c trivial ?_).append (ih bound)
      simp +contextual [View.fits]

/-- Behind the `if` part there are `elif` and `else` clauses only. -/
theorem alternatives_fit :
    AllFit (fun k _ => k ≠ .ifPart) (lowerEach source alternative cs) := by
  refine lower_each_fits source _ _ ?_ cs
  intro c v h
  simp only [alternative] at h
  split at h
  · split at h
    · cases h
      exact ⟨rfl, by simp +contextual [View.fits]⟩
    split at h <;> cases h
    exact ⟨trivial, by simp +contextual [View.fits]⟩
  · cases h

end bodies

/-- The children that a rule gives to its node are framed as the node's kind says. -/
theorem framed_of_made {source : String} {k : SyntaxKind} {ss : List Shape}
    (h : Made source k ss) : Shape.Framed k ss := by
  cases h with
  | conditional sp n tx cs =>
    exact ⟨_, _, rfl, rfl, fun s hs => (alternatives_fit source cs s hs).1⟩
  | elsePart cs => exact bodied_of_fits (else_suite_fits source cs cs)
  | finallyPart cs =>
    exact bodied_of_fits
      (lower_first_fits source _ _ (named_as_gives _ _ (by trivial) _ block_in_body) cs)
  | handler cs => exact bodied_of_fits (handler_suites_fit source false cs)
  | tryBody sp cs =>
    intro s hs
    rw [List.mem_singleton] at hs
    subst hs
    exact fun _ => rfl
  | function cs => exact bodied_of_fits ((parameters_fit source cs).append (body_fits source cs))
  | classDefinition cs => exact bodied_of_fits (body_fits source cs)
  | leaf _ hk =>
    revert hk
    cases k <;> simp [isLeaf, Shape.Framed]
  | sequence _ hk | leaving _ hk | part _ hk => rcases hk with rfl | rfl <;> trivial
  | generic | expressionStatement | assignment | importing | whileLoop | forLoop | trying
  | parameters | expression | gathered | namedExpression | aliased | lambda | comprehension
  | comprehensionFor | comprehensionIf => trivial

end Lowering

namespace Shape

/-- The kind of a parent that has a suite tells where the suite stands. -/
theorem role_of_framed {k : SyntaxKind} {ss : List Shape} {s : Shape} (h : Framed k ss)
    (hadm : k.admits s.kind s.role = true) (hs : s ∈ ss) (hsuite : k.hasSuite = true)
    (hk : s.kind = .block) : s.role = .body := by
  rw [hk] at hadm
  cases k <;> first
    | exact absurd hsuite (by decide)
    | exact h s hs hk
    | simpa [SyntaxKind.admits, SyntaxKind.isTerm] using hadm

/-- Statements stand in sequences, and a suite also stands below whatever has one. -/
theorem holds_of_admits {k c : SyntaxKind} {r : Role} (hadm : k.admits c r = true)
    (hc : c.isStatement = true ∨ c = .block) :
    k.isSequence = true ∨ c = .block ∧ k.hasSuite = true := by
  revert hadm hc
  cases k <;> cases c <;>
    simp [SyntaxKind.admits, SyntaxKind.isSequence, SyntaxKind.hasSuite, SyntaxKind.isStatement,
      SyntaxKind.isTerm]

end Shape

namespace SyntaxTree
variable {t : SyntaxTree} {s : NodeId}

/-- A slot that is filled once has one child at most. -/
theorem Slotted.length_role (hslots : t.Slotted) (ho : t.Ordered) {r : Role}
    (hr : ∀ c d, (t.kind s).clashes (c, r) (d, r) = true) : (t.childrenWithRole s r).length ≤ 1 := by
  have hnodup : (t.childrenWithRole s r).Nodup := (ho.children_nodup s).filter _
  match hcs : t.childrenWithRole s r with
  | [] => exact Nat.zero_le 1
  | [_] => exact Nat.le_refl 1
  | c :: d :: rest =>
    rw [hcs] at hnodup
    obtain ⟨hc, hrc⟩ := mem_children_with_role.1 (show c ∈ t.childrenWithRole s r by simp [hcs])
    obtain ⟨hd, hrd⟩ := mem_children_with_role.1 (show d ∈ t.childrenWithRole s r by simp [hcs])
    have hne : c ≠ d := by
      rintro rfl
      exact (List.nodup_cons.1 hnodup).1 (List.mem_cons_self ..)
    have hclash := hslots hc hd hne
    rw [hrc, hrd, hr] at hclash
    cases hclash

end SyntaxTree

namespace Lowering
variable (source : String) (root : Concrete)

theorem module_framed : (module source root).Every Shape.Framed :=
  (module_made source root).mono fun _ _ => framed_of_made

theorem housed {c : NodeId} (hc : c ∈ (tree source root).ids)
    (hk : ((tree source root).kind c).isStatement = true ∨ (tree source root).kind c = .block) :
    ∃ p, (tree source root).parent c = some p ∧ (((tree source root).kind p).isSequence = true ∨
      (tree source root).kind c = .block ∧ (tree source root).role c = .body ∧
        ((tree source root).kind p).hasSuite = true) := by
  obtain ⟨i, hi, rfl⟩ := List.mem_map.1 hc
  obtain ⟨s, q, -, hl, hq⟩ := Shape.to_tree_at (module source root) (P := fun _ => True) (by simp)
    trivial i (List.mem_range.1 hi)
  rcases hq with ⟨rfl, -⟩ | ⟨p, rfl, -, hmem⟩
  · -- The root is a module.
    have hroot : (tree source root).kind ⟨0⟩ = .module :=
      (Shape.laid_node (Shape.laid_to_tree (module source root))).2.1
    exact absurd hk (by rw [hroot]; decide)
  · obtain ⟨s', hs', hkp, -, -, d, hd, hld⟩ := Shape.children_to_tree (module source root)
      (P := Shape.Every Shape.Framed) (fun _ h => h.children) (module_framed source root) hmem
    obtain ⟨-, hkd, hrd, hparent, -⟩ := Shape.laid_node hld
    have hadm := (tree_grammatical source root).admitted hmem
    refine ⟨p, hparent, (Shape.holds_of_admits hadm hk).imp id ?_⟩
    rintro ⟨hblock, hsuite⟩
    rw [tree, hkp, hkd, hrd] at hadm
    rw [tree, hkp] at hsuite
    refine ⟨hblock, ?_, ?_⟩
    · rw [tree, hrd]
      exact Shape.role_of_framed (Shape.Every.here hs') hadm hd hsuite (hkd.symm.trans hblock)
    · rw [tree, hkp]
      exact hsuite

theorem opened {s : NodeId} (hs : (tree source root).kind s = .ifStatement) :
    ∃ part rest, (tree source root).children s = part :: rest ∧
      (tree source root).kind part = .ifPart ∧
      ∀ c ∈ rest, (tree source root).kind c ≠ .ifPart := by
  have hlt : s.index < (tree source root).size := by
    by_contra hout
    rw [SyntaxTree.kind, SyntaxTree.node_of_size_le (Nat.le_of_not_lt hout)] at hs
    cases hs
  obtain ⟨s', q, hs', hl, -⟩ := Shape.to_tree_at (module source root)
    (P := Shape.Every Shape.Framed) (fun _ h => h.children) (module_framed source root) s.index hlt
  obtain ⟨-, hk, -, -, hcs⟩ := Shape.laid_node hl
  have hframed := Shape.Every.here hs'
  rw [← hk, show (module source root).toTree.kind ⟨s.index⟩ = .ifStatement from hs] at hframed
  obtain ⟨part, rest, hchildren, hpart, hrest⟩ := hframed
  have hall := Shape.laid_children hl
  rw [hchildren] at hall hcs
  refine ⟨_, _, hcs, ?_, ?_⟩
  · exact (Shape.laid_node hall.1).2.1.trans hpart
  · intro c hc
    obtain ⟨-, d, hd, hld⟩ := Shape.mem_indices hall.2 c hc
    have hkd : (tree source root).kind c = d.kind := (Shape.laid_node hld).2.1
    rw [hkd]
    exact hrest d hd

theorem arranged : (tree source root).Arranged where
  pushed := Shape.pushed_to_tree (module source root) rfl
  numbered := Shape.preordered_to_tree (module source root)
  housed := fun _ hc hk => housed source root hc hk
  quiet := by
    intro p x hp hx
    have hquiet : ((tree source root).kind p).isQuiet = true := by
      simp only [List.mem_cons, List.not_mem_nil, or_false] at hp
      rcases hp with hp | hp | hp | hp | hp <;> rw [hp] <;> rfl
    have hbelow := (tree_grammatical source root).quiet_below hquiet hx
    refine ⟨SyntaxTree.not_statement_of_quiet hbelow, fun hblock => ?_⟩
    rw [hblock] at hbelow
    cases hbelow
  opened := fun _ hs => opened source root hs
  filled := by
    intro s hs r hr
    apply (tree_slotted source root).length_role (tree_grammatical source root).ordered
    intro c d
    simp only [List.mem_cons, List.not_mem_nil, or_false] at hs hr
    rcases hs with hs | hs | hs | hs <;> rcases hr with rfl | rfl | rfl <;> rw [hs] <;> rfl

/-- Whatever the concrete tree, its nodes are lowered by pushing one node after the other onto a tree that begins
as a module. No push is at fault, and the tree in the end has the form that the flow rules rely on. -/
theorem tree_arranged :
    Growing.tree source root = .ok (tree source root) ∧ (tree source root).Arranged :=
  ⟨Growing.tree_eq source root, arranged source root⟩

end Lowering
end PythonFlow
