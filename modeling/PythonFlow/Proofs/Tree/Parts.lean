import PythonFlow.Syntax.Access
import PythonFlow.Proofs.Tree.Grammar

/-!
# The parts of a construct

Each part is a child, and its role or its kind says which. Parts of different roles or of different
kinds are therefore different children. In a grammatical tree the slot of a part also says which kinds
it can have: suites are blocks, and what is asked or iterated over is a term.
-/

set_option autoImplicit false

namespace PythonFlow.SyntaxTree
variable {t : SyntaxTree} {s c : NodeId}

theorem mem_of_child_with_role {r : Role} (h : t.childWithRole s r = some c) :
    c ∈ t.children s ∧ t.role c = r :=
  ⟨List.mem_of_find?_eq_some h, by simpa using List.find?_some h⟩

theorem mem_of_first_child {k : SyntaxKind} (h : t.firstChildOfKind s k = some c) :
    c ∈ t.children s ∧ t.kind c = k :=
  ⟨List.mem_of_find?_eq_some h, by simpa using List.find?_some h⟩

theorem mem_children_with_role {r : Role} :
    c ∈ t.childrenWithRole s r ↔ c ∈ t.children s ∧ t.role c = r := by
  simp [childrenWithRole]

theorem mem_children_of_kind {k : SyntaxKind} :
    c ∈ t.childrenOfKind s k ↔ c ∈ t.children s ∧ t.kind c = k := by
  simp [childrenOfKind]

theorem mem_if_parts :
    c ∈ t.ifParts s ↔ c ∈ t.children s ∧ (t.kind c = .ifPart ∨ t.kind c = .elifPart) := by
  simp [ifParts]

theorem mem_condition (h : t.condition s = some c) : c ∈ t.children s ∧ t.role c = .condition :=
  mem_of_child_with_role h

theorem mem_body (h : t.body s = some c) : c ∈ t.children s ∧ t.role c = .body :=
  mem_of_child_with_role h

theorem mem_iterable (h : t.iterable s = some c) : c ∈ t.children s ∧ t.role c = .iterable :=
  mem_of_child_with_role h

theorem mem_value (h : t.assignedValue s = some c) : c ∈ t.children s ∧ t.role c = .value :=
  mem_of_child_with_role h

theorem mem_result (h : t.comprehensionResult s = some c) :
    c ∈ t.children s ∧ t.role c = .result := mem_of_child_with_role h

theorem mem_targets : c ∈ t.targets s ↔ c ∈ t.children s ∧ t.role c = .target :=
  mem_children_with_role

theorem mem_else_part (h : t.elsePart s = some c) : c ∈ t.children s ∧ t.kind c = .elsePart :=
  mem_of_first_child h

theorem mem_try_part (h : t.tryPart s = some c) : c ∈ t.children s ∧ t.kind c = .tryPart :=
  mem_of_first_child h

theorem mem_finally_part (h : t.finallyPart s = some c) :
    c ∈ t.children s ∧ t.kind c = .finallyPart := mem_of_first_child h

theorem mem_except_parts : c ∈ t.exceptParts s ↔ c ∈ t.children s ∧ t.kind c = .exceptPart :=
  mem_children_of_kind

theorem mem_comprehension_fors :
    c ∈ t.comprehensionFors s ↔ c ∈ t.children s ∧ t.kind c = .comprehensionFor :=
  mem_children_of_kind

theorem mem_comprehension_ifs :
    c ∈ t.comprehensionIfs s ↔ c ∈ t.children s ∧ t.kind c = .comprehensionIf :=
  mem_children_of_kind

theorem is_loop_iff {k : SyntaxKind} : k.isLoop = true ↔ k = .whileLoop ∨ k = .forLoop := by
  cases k <;> simp [SyntaxKind.isLoop]

theorem is_quiet_of_term {k : SyntaxKind} (h : k.isTerm = true) : k.isQuiet = true := by
  cases k <;> simp_all [SyntaxKind.isTerm, SyntaxKind.isQuiet]

theorem not_statement_of_quiet {k : SyntaxKind} (h : k.isQuiet = true) : k.isStatement = false := by
  cases k <;> simp_all [SyntaxKind.isQuiet, SyntaxKind.isStatement]

namespace Grammatical
variable (hg : t.Grammatical)
include hg

/-- What a slot admits, read off at a node of a known kind. -/
theorem admitted_in {k : SyntaxKind} {r : Role} (hs : t.kind s = k)
    (h : c ∈ t.children s ∧ t.role c = r) : k.admits (t.kind c) r = true :=
  hs ▸ h.2 ▸ hg.admitted h.1

/-- Constructs whose body is a suite. -/
theorem kind_body (hs : t.kind s = .ifPart ∨ t.kind s = .elifPart ∨ (t.kind s).isLoop = true)
    (h : t.body s = some c) : t.kind c = .block := by
  rw [is_loop_iff] at hs
  rcases hs with hs | hs | hs | hs <;> have hadm := hg.admitted_in hs (mem_body h) <;>
    revert hadm <;> cases t.kind c <;> simp [SyntaxKind.admits, SyntaxKind.isTerm]

theorem term_condition (hs : t.kind s = .ifPart ∨ t.kind s = .elifPart ∨ t.kind s = .whileLoop ∨
    t.kind s = .comprehensionIf) (h : t.condition s = some c) : (t.kind c).isTerm = true := by
  rcases hs with hs | hs | hs | hs <;> have hadm := hg.admitted_in hs (mem_condition h) <;>
    revert hadm <;> cases t.kind c <;> simp [SyntaxKind.admits, SyntaxKind.isTerm]

theorem term_iterable (hs : t.kind s = .forLoop ∨ t.kind s = .comprehensionFor)
    (h : t.iterable s = some c) : (t.kind c).isTerm = true := by
  rcases hs with hs | hs <;> have hadm := hg.admitted_in hs (mem_iterable h) <;>
    revert hadm <;> cases t.kind c <;> simp [SyntaxKind.admits, SyntaxKind.isTerm]

theorem term_target (hs : t.kind s = .forLoop ∨ t.kind s = .comprehensionFor)
    (h : c ∈ t.targets s) : (t.kind c).isTerm = true := by
  rcases hs with hs | hs <;> have hadm := hg.admitted_in hs (mem_targets.1 h) <;>
    revert hadm <;> cases t.kind c <;> simp [SyntaxKind.admits, SyntaxKind.isTerm]

/-- The `else` clause of a loop fills no other slot. -/
theorem role_else_part (hs : (t.kind s).isLoop = true) (h : t.elsePart s = some c) :
    t.role c = .plain := by
  obtain ⟨hc, hk⟩ := mem_else_part h
  rw [is_loop_iff] at hs
  rcases hs with hs | hs <;> have hadm := hg.admitted_in hs ⟨hc, rfl⟩ <;> rw [hk] at hadm <;>
    simpa [SyntaxKind.admits, SyntaxKind.isTerm] using hadm

/-- A clause of a comprehension fills no other slot. -/
theorem role_clause (hs : t.kind s = .comprehension) (hc : c ∈ t.children s)
    (hk : t.kind c = .comprehensionFor ∨ t.kind c = .comprehensionIf) : t.role c = .plain := by
  have hadm := hg.admitted_in hs ⟨hc, rfl⟩
  rcases hk with hk | hk <;> rw [hk] at hadm <;>
    simpa [SyntaxKind.admits, SyntaxKind.isTerm] using hadm

theorem quiet_child (hs : (t.kind s).isQuiet = true) (hc : c ∈ t.children s) :
    (t.kind c).isQuiet = true := by
  have hadm := hg.admitted hc
  cases hk : t.kind s <;> rw [hk] at hs hadm <;> first
    | exact absurd hs (by decide)
    | (revert hadm
       cases t.kind c <;> simp [SyntaxKind.isQuiet, SyntaxKind.admits, SyntaxKind.isTerm])

/-- There is no statement below a quiet node. -/
theorem quiet_below (hs : (t.kind s).isQuiet = true) (hc : t.Below c s) :
    (t.kind c).isQuiet = true := by
  induction c using hg.ordered.up_induction with
  | step c ih =>
    rcases hg.ordered.below_iff_parent.1 hc with rfl | ⟨p, hp, hps⟩
    · exact hs
    · exact hg.quiet_child (ih p hp hps)
        (hg.ordered.mem_children.2 ⟨index_lt_size_of_parent hp, hp⟩)

end Grammatical
end PythonFlow.SyntaxTree
