import PythonFlow.Proofs.Tree.Made
import PythonFlow.Proofs.Tree.Parts
import Mathlib.Data.List.Pairwise

/-!
# Slots that are filled once

Some slots of a construct are filled at most once by the rules of lowering, whatever the concrete
tree: conditions and suites, the value of an assignment, the iterable of a loop, the `else` clause of
a loop, the body of a `try` statement. The first child that fits such a slot is then the only one.
Clauses of conditionals and of `try` statements are not among them; that each occurs once is a
property of the concrete tree, which `SingleClauses` states.
-/

set_option autoImplicit false

namespace PythonFlow

/-- Whether two children of a node of the first kind fill one slot, of those that are filled once. -/
def SyntaxKind.clashes : SyntaxKind → SyntaxKind × Role → SyntaxKind × Role → Bool
  | ifPart, a, b | elifPart, a, b | whileLoop, a, b | comprehensionIf, a, b => a.2 == b.2
  | forLoop, a, b | assignment, a, b | comprehensionFor, a, b => a.2 == b.2 && a.2 != .target
  | comprehension, a, b => a.2 == b.2 && a.2 == .result
  | tryStatement, a, b => a.1 == tryPart && b.1 == tryPart
  | _, _, _ => false

theorem SyntaxKind.clashes_symm (k : SyntaxKind) (a b : SyntaxKind × Role) :
    k.clashes a b = k.clashes b a := by
  obtain ⟨c, r⟩ := a
  obtain ⟨c', r'⟩ := b
  cases k <;> first
    | rfl
    | exact Bool.and_comm _ _
    | (cases r <;> cases r' <;> rfl)

def SyntaxTree.Slotted (t : SyntaxTree) : Prop :=
  ∀ ⦃p c d : NodeId⦄, c ∈ t.children p → d ∈ t.children p → c ≠ d →
    (t.kind p).clashes (t.kind c, t.role c) (t.kind d, t.role d) = false

/-- Conditionals have at most one `else` clause, `try` statements at most one `else` and one
`finally` clause. -/
structure SyntaxTree.SingleClauses (t : SyntaxTree) : Prop where
  else_once : ∀ s ∈ t.ids, t.kind s = .ifStatement ∨ t.kind s = .tryStatement →
    (t.childrenOfKind s .elsePart).length ≤ 1
  finally_once : ∀ s ∈ t.ids, t.kind s = .tryStatement →
    (t.childrenOfKind s .finallyPart).length ≤ 1

namespace Shape

def slot (s : Shape) : SyntaxKind × Role := (s.kind, s.role)

def Once (k : SyntaxKind) (ss : List Shape) : Prop :=
  ss.Pairwise fun a b => k.clashes a.slot b.slot = false

theorem pairwise_indices {t : SyntaxTree} {parent : NodeId} {R : SyntaxKind × Role → SyntaxKind × Role → Prop}
    (ss : List Shape) (next : Nat) (hl : LaidAll t parent next ss)
    (h : ss.Pairwise fun a b => R a.slot b.slot) :
    (indices next ss).Pairwise fun c d => R (t.kind c, t.role c) (t.kind d, t.role d) := by
  induction ss generalizing next with
  | nil => exact .nil
  | cons s rest ih =>
    obtain ⟨hs, hrest⟩ := List.pairwise_cons.1 h
    refine List.pairwise_cons.2 ⟨fun d hd => ?_, ih _ hl.2 hrest⟩
    obtain ⟨-, s', hs', hl'⟩ := mem_indices hl.2 d hd
    obtain ⟨-, hk, hr, -⟩ := laid_node hl.1
    obtain ⟨-, hk', hr', -⟩ := laid_node hl'
    rw [hk, hr, hk', hr']
    exact hs s' hs'

theorem slotted_to_tree (s : Shape) (h : s.Every Once) : s.toTree.Slotted := by
  intro p c d hc hd hne
  have hp : p.index < s.toTree.size :=
    Nat.lt_trans ((ordered_to_tree s).parent_lt ((ordered_to_tree s).parent_of_mem hc))
      ((ordered_to_tree s).index_lt_size_of_mem hc)
  obtain ⟨s', q, hs', hl, -⟩ := to_tree_at s (P := Every Once) (fun _ h => h.children) h p.index hp
  obtain ⟨-, hk, -, -, hcs⟩ := laid_node hl
  have hpair := pairwise_indices (R := fun a b => s'.kind.clashes a b = false) s'.children
    (p.index + 1) (laid_children hl) hs'.here
  rw [← hcs] at hpair
  rw [hk]
  have : Std.Symm fun c d : NodeId => s'.kind.clashes (s.toTree.kind c, s.toTree.role c)
      (s.toTree.kind d, s.toTree.role d) = false := ⟨fun c d h => by
    rw [SyntaxKind.clashes_symm]
    exact h⟩
  exact hpair.forall hc hd hne

end Shape

namespace Lowering

/-- Views in which a node becomes one shape at most. -/
def View.isSingle : View → Bool
  | .target _ | .inner | .chainTargets => false
  | _ => true

def Rule.isSingle : Rule → Bool
  | .group _ | .chainTargets => false
  | _ => true

theorem statement_rule_single (role : Role) (kind : String) :
    (statementRule role kind).isSingle = true := by
  unfold statementRule
  split <;> rfl

theorem expression_rule_single (role : Role) (kind : String) :
    (expressionRule role kind).isSingle = true := by
  unfold expressionRule flowRule?
  split <;> rfl

theorem view_rule_single (v : View) (hv : v.isSingle = true) (kind : String) :
    (v.rule kind).isSingle = true := by
  cases v with
  | statement role => exact statement_rule_single role kind
  | expression role => exact expression_rule_single role kind
  | member =>
    simp only [View.rule, memberRule]
    split
    · rfl
    split
    · exact statement_rule_single .plain kind
    · exact expression_rule_single .plain kind
  | tryClause =>
    simp only [View.rule, tryClauseRule]
    split <;> rfl
  | comprehensionClause =>
    simp only [View.rule, comprehensionClauseRule]
    split <;> rfl
  | target | inner | chainTargets => cases hv
  | block | conditionalPart | elsePart | tryBody | parameters | chainValue => rfl

def Slot.Single (slot : Slot) : Prop := ∀ c v, slot c = some v → v.isSingle = true

theorem fills_single (field : String) {v : View} (hv : v.isSingle = true) :
    Slot.Single (fills field v) := by
  intro c w h
  simp only [fills] at h
  split at h <;> cases h
  exact hv

theorem proper_single {v : View} (hv : v.isSingle = true) : Slot.Single (proper v) := by
  intro c w h
  simp only [proper] at h
  split at h <;> cases h
  exact hv

theorem right_side_single : Slot.Single rightSide := by
  intro c v h
  simp only [rightSide] at h
  split at h
  · split at h <;> cases h <;> rfl
  · cases h

mutual

theorem length_lower (source : String) (v : View) (hv : v.isSingle = true) (c : Concrete) :
    (lower source v c).length ≤ 1 := by
  cases c with
  | node kind named field extent children =>
    have hrule := view_rule_single v hv kind
    rw [lower]
    generalize v.rule kind = rule at hrule ⊢
    cases rule with
    | group w => cases hrule
    | chainTargets => cases hrule
    | skip => exact Nat.zero_le 1
    | chainValue => exact length_lower_first source _ right_side_single children
    | decorated role => exact length_lower_first source _ (fills_single _ rfl) children
    | expressionStatement role =>
      simp only
      split <;> exact Nat.le_refl 1
    | _ => exact Nat.le_refl 1

theorem length_lower_first (source : String) (slot : Slot) (h : slot.Single)
    (cs : List Concrete) : (lowerFirst source slot cs).length ≤ 1 := by
  cases cs with
  | nil => rw [lowerFirst]; exact Nat.zero_le 1
  | cons c rest =>
    rw [lowerFirst]
    split
    · next v hv => exact length_lower source v (h c v hv) c
    · exact length_lower_first source slot h rest

end

section once
open Shape
variable {k : SyntaxKind} {ss rest : List Shape}

theorem once_of_length_le (h : ss.length ≤ 1) : Once k ss := by
  match ss, h with
  | [], _ => exact .nil
  | [s], _ => exact List.pairwise_singleton _ s

theorem once_of_free (hk : ∀ a b, k.clashes a b = false) (ss : List Shape) : Once k ss :=
  List.pairwise_of_forall_mem_list fun a _ b _ => hk a.slot b.slot

theorem once_append {P Q : Shape → Prop} (hss : Once k ss) (hrest : Once k rest)
    (hP : ∀ s ∈ ss, P s) (hQ : ∀ s ∈ rest, Q s)
    (hfree : ∀ a b, P a → Q b → k.clashes a.slot b.slot = false) : Once k (ss ++ rest) :=
  List.pairwise_append.2 ⟨hss, hrest, fun a ha b hb => hfree _ _ (hP a ha) (hQ b hb)⟩

theorem role_lower_first (source : String) (slot : Slot) (r : Role)
    (h : slot.Gives fun _ r' => r' = r) (cs : List Concrete) :
    ∀ s ∈ lowerFirst source slot cs, s.slot.2 = r := fun s hs =>
  (lower_first_fits source slot _ h cs s hs).1

theorem role_block (field : String) (r : Role) :
    Slot.Gives (fills field (.block r)) fun _ r' => r' = r :=
  fills_gives field _ (by trivial) _ (by simp [View.fits])

theorem role_expression (field : String) (r : Role) :
    Slot.Gives (fills field (.expression r)) fun _ r' => r' = r :=
  fills_gives field _ (by trivial) _ (by simp [View.fits])

theorem role_target (field : String) (r : Role) :
    Slot.Gives (fills field (.target r)) fun _ r' => r' = r :=
  fills_gives field _ (by trivial) _ (by simp [View.fits])

theorem role_else (field : String) :
    Slot.Gives (fills field .elsePart) fun _ r' => r' = .plain :=
  fills_gives field _ (by trivial) _ (by simp [View.fits])

/-- Shapes that all fill a slot which may be filled again. -/
theorem once_of_role {r : Role} (hss : ∀ s ∈ ss, s.slot.2 = r)
    (hfree : ∀ a b : Shape, a.slot.2 = r → b.slot.2 = r → k.clashes a.slot b.slot = false) :
    Once k ss :=
  List.pairwise_of_forall_mem_list fun a ha b hb => hfree _ _ (hss a ha) (hss b hb)

variable (source : String) (cs : List Concrete)

theorem once_part (hk : ∀ a b, k.clashes a b = (a.2 == b.2)) :
    Once k (partChildren source cs) := by
  apply once_append (P := fun a => a.slot.2 = .condition) (Q := fun b => b.slot.2 = .body)
  · exact once_of_length_le (length_lower_first source _ (fills_single _ rfl) cs)
  · exact once_of_length_le (length_lower_first source _ (fills_single _ rfl) cs)
  · exact role_lower_first source _ _ (role_expression _ _) cs
  · exact role_lower_first source _ _ (role_block _ _) cs
  · intro a b ha hb
    rw [hk, ha, hb]
    rfl

theorem once_while :
    Once .whileLoop (lowerFirst source (fills "condition" (.expression .condition)) cs ++
      lowerFirst source (fills "body" (.block .body)) cs ++
      lowerFirst source (fills "alternative" .elsePart) cs) := by
  have hcondition := role_lower_first source _ _ (role_expression "condition" .condition) cs
  have hbody := role_lower_first source _ _ (role_block "body" .body) cs
  have hhead : Once .whileLoop (lowerFirst source (fills "condition" (.expression .condition)) cs ++
      lowerFirst source (fills "body" (.block .body)) cs) := by
    apply once_append _ _ hcondition hbody
    · intro a b ha hb
      simp [SyntaxKind.clashes, ha, hb]
    · exact once_of_length_le (length_lower_first source _ (fills_single _ rfl) cs)
    · exact once_of_length_le (length_lower_first source _ (fills_single _ rfl) cs)
  apply once_append (P := fun a => a.slot.2 = .condition ∨ a.slot.2 = .body) hhead _ _
    (role_lower_first source _ _ (role_else _) cs)
  · intro a b ha hb
    rcases ha with ha | ha <;> simp [SyntaxKind.clashes, ha, hb]
  · exact once_of_length_le (length_lower_first source _ (fills_single _ rfl) cs)
  · intro s hs
    rcases List.mem_append.1 hs with hs | hs
    · exact .inl (hcondition s hs)
    · exact .inr (hbody s hs)

theorem once_for :
    Once .forLoop (lowerFirst source (fills "right" (.expression .iterable)) cs ++
      lowerFirst source (fills "left" (.target .target)) cs ++
      lowerFirst source (fills "body" (.block .body)) cs ++
      lowerFirst source (fills "alternative" .elsePart) cs) := by
  have hiterable := role_lower_first source _ _ (role_expression "right" .iterable) cs
  have htargets := role_lower_first source _ _ (role_target "left" .target) cs
  have hbody := role_lower_first source _ _ (role_block "body" .body) cs
  have helse := role_lower_first source _ _ (role_else "alternative") cs
  simp only [List.append_assoc]
  -- Each slot in turn against all that follow it.
  apply once_append (Q := fun b => b.slot.2 = .target ∨ b.slot.2 = .body ∨ b.slot.2 = .plain) _ _ hiterable
  · intro s hs
    simp only [List.mem_append] at hs
    exact hs.imp (htargets s) (Or.imp (hbody s) (helse s))
  · intro a b ha hb
    rcases hb with hb | hb | hb <;> simp [SyntaxKind.clashes, ha, hb]
  · exact once_of_length_le (length_lower_first source _ (fills_single _ rfl) cs)
  apply once_append (Q := fun b => b.slot.2 = .body ∨ b.slot.2 = .plain) _ _ htargets
  · intro s hs
    exact (List.mem_append.1 hs).imp (hbody s) (helse s)
  · intro a b ha hb
    simp [SyntaxKind.clashes, ha]
  · exact once_of_role htargets fun a b ha hb => by simp [SyntaxKind.clashes, ha]
  apply once_append _ _ hbody helse
  · intro a b ha hb
    simp [SyntaxKind.clashes, ha, hb]
  · exact once_of_length_le (length_lower_first source _ (fills_single _ rfl) cs)
  · exact once_of_length_le (length_lower_first source _ (fills_single _ rfl) cs)

/-- One shape in a slot of its own and then targets. -/
theorem once_targets {r : Role} (hr : r ≠ .target)
    (hk : ∀ a b, k.clashes a b = (a.2 == b.2 && a.2 != .target)) (hlength : ss.length ≤ 1)
    (hss : ∀ s ∈ ss, s.slot.2 = r) (hrest : ∀ s ∈ rest, s.slot.2 = .target) :
    Once k (ss ++ rest) := by
  apply once_append (once_of_length_le hlength) _ hss hrest
  · intro a b ha hb
    rw [hk, ha, hb]
    simp [hr]
  · exact once_of_role hrest fun a b ha hb => by rw [hk, ha]; simp

theorem once_comprehension :
    Once .comprehension (lowerFirst source (fills "body" (.expression .result)) cs ++
      lowerEach source (proper .comprehensionClause) cs) := by
  have hclauses : ∀ s ∈ lowerEach source (proper .comprehensionClause) cs, s.slot.2 = .plain :=
    fun s hs => (lower_each_fits source _ (fun _ r => r = .plain)
      (proper_gives _ (by trivial) _ (by simp [View.fits])) cs s hs).1
  apply once_append _ _ (role_lower_first source _ _ (role_expression _ _) cs) hclauses
  · intro a b ha hb
    simp [SyntaxKind.clashes, ha, hb]
  · exact once_of_length_le (length_lower_first source _ (fills_single _ rfl) cs)
  · exact once_of_role hclauses fun a b ha hb => by simp [SyntaxKind.clashes, ha]

theorem once_try :
    Once .tryStatement (lowerFirst source (fills "body" .tryBody) cs ++
      lowerEach source (proper .tryClause) cs) := by
  have hclauses : ∀ s ∈ lowerEach source (proper .tryClause) cs, s.slot.1 ≠ .tryPart :=
    fun s hs => (lower_each_fits source _ (fun k _ => k ≠ .tryPart)
      (proper_gives _ (by trivial) _ (by simp +contextual [View.fits, or_imp])) cs s hs).1
  apply once_append (P := fun _ => True) _ _ (fun _ _ => trivial) hclauses
  · intro a b _ hb
    simp [SyntaxKind.clashes, hb]
  · exact once_of_length_le (length_lower_first source _ (fills_single _ rfl) cs)
  · apply List.pairwise_of_forall_mem_list
    intro a ha b _
    simp [SyntaxKind.clashes, hclauses a ha]

theorem once_assignment :
    Once .assignment (lowerFirst source (proper .chainValue) cs ++
      lowerFirst source (proper .chainTargets) cs) := by
  apply once_targets (show Role.value ≠ .target by decide) (fun _ _ => rfl)
  · exact length_lower_first source _ (proper_single rfl) cs
  · exact role_lower_first source _ _ (proper_gives _ (by trivial) _ (by simp [View.fits])) cs
  · exact role_lower_first source _ _ (proper_gives _ (by trivial) _ (by simp [View.fits])) cs

theorem once_comprehension_for :
    Once .comprehensionFor (iterated source cs ++
      lowerFirst source (fills "left" (.target .target)) cs) := by
  have hlength : (iterated source cs).length ≤ 1 := by
    unfold iterated
    split
    · exact Nat.zero_le 1
    · exact length_lower_first source _ (fills_single _ rfl) cs
    · exact Nat.le_refl 1
  have hrole : ∀ s ∈ iterated source cs, s.slot.2 = .iterable := by
    unfold iterated
    split
    · simp
    · exact role_lower_first source _ _ (role_expression _ _) cs
    · simp [Shape.slot, Shape.role]
  exact once_targets (by decide) (fun _ _ => rfl) hlength hrole
    (role_lower_first source _ _ (role_target "left" .target) cs)

/-- The children that a rule gives to its node fill no slot twice. -/
theorem once_of_made {source : String} (h : Made source k ss) : Once k ss := by
  cases h with
  | leaf => exact .nil
  | sequence _ hk => rcases hk with rfl | rfl <;> exact once_of_free (fun _ _ => rfl) _
  | leaving _ hk => rcases hk with rfl | rfl <;> exact once_of_free (fun _ _ => rfl) _
  | part _ hk cs => rcases hk with rfl | rfl <;> exact once_part source cs fun _ _ => rfl
  | assignment cs => exact once_assignment source cs
  | whileLoop cs => exact once_while source cs
  | forLoop cs => exact once_for source cs
  | trying cs => exact once_try source cs
  | comprehension cs => exact once_comprehension source cs
  | comprehensionFor cs => exact once_comprehension_for source cs
  | comprehensionIf cs =>
    exact once_of_length_le (length_lower_first source _ (proper_single rfl) cs)
  | generic | expressionStatement | importing | conditional | elsePart | tryBody | handler
  | finallyPart | function | classDefinition | parameters | expression | gathered
  | namedExpression | aliased | lambda => exact once_of_free (fun _ _ => rfl) _

end once

theorem tree_slotted (source : String) (root : Concrete) : (tree source root).Slotted :=
  Shape.slotted_to_tree _ ((module_made source root).mono fun _ _ => once_of_made)

end Lowering
end PythonFlow
