import PythonFlow.Proofs.Account.Loops
import PythonFlow.Proofs.Census.Visits

/-!
# Visits account for what they make

Where nothing is cut off, the visit of a node under which there is no `try` statement accounts for what it
makes, whatever follows the outcomes of the node: each rule does if the visits below it do.
-/

set_option autoImplicit false

namespace PythonFlow

/-- Kinds of the nodes that a rule visits: the parts of a conditional are opened by its own rule. -/
def SyntaxKind.isVisited : SyntaxKind → Bool
  | .module | .ifPart | .elifPart => false
  | _ => true

theorem SyntaxKind.is_visited_of_admits {k c : SyntaxKind} {r : Role} (hk : k ≠ .ifStatement)
    (h : k.admits c r = true) : c.isVisited = true := by
  cases c
  case module => rw [not_admits_module] at h; cases h
  case ifPart | elifPart =>
    revert h hk
    cases k <;> simp [admits, isStatement, isTerm]
  all_goals rfl

theorem SyntaxTree.is_visited_of_followed {t : SyntaxTree} {s c : NodeId} (hg : t.Grammatical)
    (hc : c ∈ t.followed s) : (t.kind c).isVisited = true := by
  by_cases hs : t.kind s = .ifStatement
  · rw [followed, hs] at hc
    rcases List.mem_append.1 hc with hc | hc
    · obtain ⟨p, hp, hc⟩ := List.mem_flatMap.1 hc
      refine SyntaxKind.is_visited_of_admits (fun hk => ?_) (hg.admitted (child_of_followed_in_part hc))
      rcases (mem_if_parts.1 hp).2 with hp | hp <;> rw [hp] at hk <;> cases hk
    · rw [(mem_else_part (Option.mem_toList.1 hc)).2]
      rfl
  · rcases followed_cases hc with hc | ⟨p, -, hp, hc⟩
    · exact SyntaxKind.is_visited_of_admits hs (hg.admitted hc)
    · exact SyntaxKind.is_visited_of_admits (fun hk => by rw [hk] at hp; cases hp) (hg.admitted hc)

namespace Sketch
variable {t : SyntaxTree} {V : Visitor} {s : NodeId} {k0 : Sketch} {C0 : Labels} {K : Sequel}

section rules
variable (hg : t.Grammatical) (hO : Outset t V s (t.followed s) k0 C0 K) (hacc : Account t k0 C0)
  (harr : ∀ a ∈ k0.arrivals t (some s), Then t (.node s) K ⊆ C0 a)
include hg hO hacc harr

namespace Ledger

theorem statement (hk : t.kind s = .statement) :
    Accounted t s k0 C0 K (Sketch.sequence t V s (t.followed s) k0) := by
  have hfollowed : t.followed s = t.children s := by rw [SyntaxTree.followed, hk]
  refine sequence hg hO harr (start hO hacc) (fun c hc => hfollowed ▸ hc) (by rw [hk]; rfl) ?_
  rintro w ⟨w1, o, w2, rfl, hrun, hw⟩
  rw [mark_simple (by rw [hk]; rfl)]
  exact ⟨s :: w1, o, w2, rfl, .statement hk (hfollowed ▸ hrun), hw⟩

/-- A rule for a simple statement under which nothing runs. -/
theorem binding (hk : t.kind s = .assignment ∨ t.kind s = .importStatement)
    (hcs : ∀ c ∈ t.followed s, c ∈ t.children s) :
    Accounted t s k0 C0 K (Sketch.sequence t V s (t.followed s) k0) := by
  have hquiet : ∀ c ∈ t.followed s, (t.kind c).isQuiet = true := fun c hc => by
    have hadmits := hg.admitted (hcs c hc)
    rcases hk with hk | hk <;> rw [hk] at hadmits
    · exact SyntaxTree.is_quiet_of_term (Bool.and_eq_true _ _ ▸ hadmits).1
    · rw [show t.kind c = .importBinding from by simpa [SyntaxKind.admits] using hadmits]
      rfl
  refine sequence hg hO harr (start hO hacc) hcs (by rcases hk with hk | hk <;> rw [hk] <;> rfl) ?_
  rintro w ⟨w1, o, w2, rfl, hrun, hw⟩
  obtain ⟨rfl, rfl⟩ := hrun.all_quiet_inv hquiet
  rw [mark_simple (by rcases hk with hk | hk <;> rw [hk] <;> rfl)]
  exact ⟨[s], .normal, w2, rfl, .binding (hk.imp_right .inl), hw⟩

theorem dispatch (hq : (t.kind s).isQuiet = false) (hs : (t.kind s).isVisited = true)
    (htry : t.kind s ≠ .tryStatement) : Accounted t s k0 C0 K (Sketch.dispatch t V s k0) := by
  have h : ∀ R, t.followed s = R → Ledger t V s (t.followed s) k0 C0 K R k0 C0 := by
    rintro R rfl
    exact start hO hacc
  unfold Sketch.dispatch
  cases hk : t.kind s
  case functionDef => exact definition hO harr (h _ (by rw [SyntaxTree.followed, hk])) (.inl hk)
  case classDef => exact definition hO harr (h _ (by rw [SyntaxTree.followed, hk])) (.inr hk)
  case statement =>
    have hfollowed : t.followed s = t.children s := by rw [SyntaxTree.followed, hk]
    exact hfollowed ▸ statement hg hO hacc harr hk
  case importStatement =>
    have hfollowed : t.followed s = t.children s := by rw [SyntaxTree.followed, hk]
    exact hfollowed ▸ binding hg hO hacc harr (.inr hk) fun c hc => hfollowed ▸ hc
  case assignment =>
    have hfollowed : t.followed s = (t.assignedValue s).toList ++ t.targets s := by
      rw [SyntaxTree.followed, hk]
    exact hfollowed ▸ binding hg hO hacc harr (.inl hk) fun c hc => mem_assigned (hfollowed ▸ hc)
  case ifStatement => exact conditional hg hO hk harr (h _ (by rw [SyntaxTree.followed, hk]))
  case whileLoop => exact whileLoop hg hO hk harr (h _ (by rw [SyntaxTree.followed, hk]))
  case forLoop => exact forLoop hg hO hk harr (h _ (by rw [SyntaxTree.followed, hk]))
  case breakJump => exact breakJump hg hO harr (h _ (by rw [SyntaxTree.followed, hk])) hk
  case continueJump => exact continueJump hg hO harr (h _ (by rw [SyntaxTree.followed, hk])) hk
  case returnExit =>
    have hfollowed : t.followed s = t.children s := by rw [SyntaxTree.followed, hk]
    exact leaving hg (hfollowed ▸ hO) hacc harr (.inl hk)
  case raiseExit =>
    have hfollowed : t.followed s = t.children s := by rw [SyntaxTree.followed, hk]
    exact leaving hg (hfollowed ▸ hO) hacc harr (.inr hk)
  case tryStatement => exact absurd hk htry
  case block | elsePart | tryPart | exceptPart | finallyPart =>
    exact suite hg hO harr (h _ (by rw [SyntaxTree.followed, hk])) (by rw [hk]; rfl)
  case module | ifPart | elifPart =>
    rw [hk] at hs
    cases hs
  all_goals
    rw [hk] at hq
    cases hq

end Ledger
end rules

/-- By induction on the levels that are left. -/
theorem accounts_visit (hg : t.Grammatical) {depth : Nat} (hfits : Fits t depth s)
    (hs : (t.kind s).isVisited = true) (htry : ∀ T, t.Holds s T → t.kind T ≠ .tryStatement) :
    Accounts t (visit t depth) s := by
  induction depth generalizing s with
  | zero => exact hfits.elim
  | succ depth ih =>
    by_cases hq : (t.kind s).isQuiet = true
    · exact accounts_quiet hg hq (depth + 1)
    intro k C K hB hacc hres harr
    have hm : t.kind s ≠ .module := fun hm => by rw [hm] at hs; cases hs
    refine Ledger.dispatch hg ⟨ready_followed hg depth hB.toSound, hB, hres, fun c hc => ?_⟩ hacc harr
      (by simpa using hq) hs (htry s (holds_self hg.ordered s))
    exact ih (hfits c hc) (SyntaxTree.is_visited_of_followed hg hc) fun T hT =>
      htry T (SyntaxTree.holds_of_followed hg.ordered hm hc hT)

end Sketch
end PythonFlow
