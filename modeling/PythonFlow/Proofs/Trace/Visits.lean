import PythonFlow.Proofs.Census.Visits
import PythonFlow.Proofs.Trace.Branches
import PythonFlow.Proofs.Trace.Loops
import PythonFlow.Proofs.Trace.Tries

/-!
# Visits follow runs

Where nothing is cut off, a visit of a node follows every run of it, whatever the kind of the node:
each rule follows the runs of its node if the visits below it follow theirs.
-/

set_option autoImplicit false

namespace PythonFlow.Sketch
variable {t : SyntaxTree} {s : NodeId} {V : Visitor} {k : Sketch} {a : InstructionId} {w : List NodeId}
  {o : Outcome}

section rules
variable (hg : t.Grammatical) (hH : Heeds t V s) (hs : Begun t s k) (hun : Unraised t s)
  (ha : a ∈ k.arrivals t (some s)) (hfree : Free t k a)
include hg hH hs

/-- What stands under a suite is followed in order. -/
theorem goes_suite (hk : (t.kind s).isSuite = true) (hfollowed : t.followed s = t.children s)
    (ha : a ∈ k.arrivals t (some s)) (hfree : Free t k a) (h : Run t (.node s) w o) :
    Goes t s k (each V (t.children s) k) (Departs t s (each V (t.children s) k)) a w o := by
  have ho := hg.ordered
  have hloop : (t.kind s).isLoop = false := SyntaxKind.not_loop_of_suite hk
  have hrun := h.suite_inv hk
  obtain ⟨x, hread, hend, hnew⟩ := traces_each ho (fun _ hc => hc) (ho.children_nodup s)
    (fun c hc => hH.grows c (inside_of_mem ho hc)) (fun c hc => hH.traces c (hfollowed ▸ hc))
    (fun c hc => begun_below ho hs (direct_child ho hc) hloop) hrun (hrun.not_broke ho hloop)
    (stands_of_arrival ha) hfree
  exact ⟨x, hread, hend.mono Stands.departs, hnew⟩

include hun ha

theorem goes_statement (hk : t.kind s = .statement) (h : Run t (.node s) w o) :
    Goes t s k (sequence t V s (t.children s) k) (Departs t s (sequence t V s (t.children s) k)) a w o := by
  obtain ⟨w, rfl, hrun⟩ := h.statement_inv hk
  have hfollowed : t.followed s = t.children s := by rw [SyntaxTree.followed, hk]
  have hgoes := goes_sequence hg hs hun ha hH.grows (by simp [hk]) (by simp [hk]) (by rw [hk]; rfl)
    (fun _ hc => hc) (hg.ordered.children_nodup s) (fun c hc => hH.traces c (hfollowed ▸ hc)) hrun
  rwa [mark_simple (by rw [hk]; rfl)] at hgoes

/-- A rule for a simple statement under which nothing runs. -/
theorem goes_binding (hk : t.kind s = .assignment ∨ t.kind s = .importStatement) {cs : List NodeId}
    (hcs : ∀ c ∈ cs, c ∈ t.children s) (hnodup : cs.Nodup) (hfollowed : ∀ c ∈ cs, c ∈ t.followed s)
    (h : Run t (.node s) w o) :
    Goes t s k (sequence t V s cs k) (Departs t s (sequence t V s cs k)) a w o := by
  obtain ⟨rfl, rfl⟩ := h.binding_inv (hk.imp_right .inl)
  have hquiet : ∀ c ∈ cs, (t.kind c).isQuiet = true := fun c hc => by
    have hadmits := hg.admitted (hcs c hc)
    rcases hk with hk | hk <;> rw [hk] at hadmits
    · exact SyntaxTree.is_quiet_of_term (Bool.and_eq_true _ _ ▸ hadmits).1
    · rw [show t.kind c = .importBinding from by simpa [SyntaxKind.admits] using hadmits]
      rfl
  have hgoes := goes_sequence hg hs hun ha hH.grows (by rcases hk with hk | hk <;> simp [hk])
    (by rcases hk with hk | hk <;> simp [hk]) (by rcases hk with hk | hk <;> rw [hk] <;> rfl) hcs hnodup
    (fun c hc => hH.traces c (hfollowed c hc)) (run_quiet hquiet)
  rwa [mark_simple (by rcases hk with hk | hk <;> rw [hk] <;> rfl)] at hgoes

include hfree

theorem traces_dispatch (hq : (t.kind s).isQuiet = false) (htame : t.Tame s) (h : Run t (.node s) w o) :
    Goes t s k (dispatch t V s k) (Departs t s (dispatch t V s k)) a w o := by
  have hdefinition : t.kind s = .functionDef ∨ t.kind s = .classDef →
      Goes t s k (definition t s k) (Departs t s (definition t s k)) a w o := by
    intro hk
    obtain ⟨rfl, rfl⟩ := h.binding_inv (.inr (.inr hk))
    have hgoes := goes_definition hun ha (by rcases hk with hk | hk <;> simp [hk])
    rwa [mark_simple (by rcases hk with hk | hk <;> rw [hk] <;> rfl)] at hgoes
  unfold dispatch
  cases hk : t.kind s
  case functionDef => exact hdefinition (.inl hk)
  case classDef => exact hdefinition (.inr hk)
  case statement => exact goes_statement hg hH hs hun ha hk h
  case importStatement =>
    exact goes_binding hg hH hs hun ha (.inr hk) (fun _ hc => hc) (hg.ordered.children_nodup s)
      (fun c hc => by rwa [SyntaxTree.followed, hk]) h
  case assignment =>
    exact goes_binding hg hH hs hun ha (.inl hk) (fun _ => mem_assigned) (nodup_assigned hg.ordered s)
      (fun c hc => by rwa [SyntaxTree.followed, hk]) h
  case ifStatement => exact goes_conditional hg hH hk hs hun ha h
  case whileLoop => exact goes_while hg hk hH hs hun ha h
  case forLoop => exact goes_for hg hk hH hs hun ha h
  case breakJump => exact goes_break hg hun ha hk h
  case continueJump => exact goes_continue hg hs hun ha hk h
  case returnExit => exact goes_leaving hg hs hun ha hH.toBelow (.inl hk) h
  case raiseExit => exact goes_leaving hg hs hun ha hH.toBelow (.inr hk) h
  case tryStatement => exact goes_try hg hk hH hs hun htame ha h
  case block | elsePart | tryPart | exceptPart | finallyPart =>
    exact goes_suite hg hH hs (by rw [hk]; rfl) (by rw [SyntaxTree.followed, hk]) ha hfree h
  case module | ifPart | elifPart => exact absurd h (Run.not_of_part (by simp [hk]))
  all_goals
    rw [hk] at hq
    cases hq

end rules

section visit
variable (hg : t.Grammatical)
include hg

theorem unraised_followed {c : NodeId} (hun : Unraised t s) (hk : t.kind s ≠ .raiseExit)
    (hc : c ∈ t.followed s) : Unraised t c := by
  rcases SyntaxTree.followed_cases hc with hc | ⟨p, hp, hopen, hc⟩
  · exact hun.child hg.ordered hk hc
  · refine (hun.child hg.ordered hk hp).child hg.ordered (fun hkp => ?_) hc
    rw [hkp] at hopen
    cases hopen

theorem tame_followed {c : NodeId} (htame : t.Tame s) (hm : t.kind s ≠ .module)
    (hc : c ∈ t.followed s) : t.Tame c := fun T F d hT hk hF hd =>
  htame T F d (SyntaxTree.holds_of_followed hg.ordered hm hc hT) hk hF hd

/-- By induction on the levels that are left: no node that is followed is cut off. -/
theorem traces_visit {depth : Nat} (hfits : Fits t depth s) (hun : Unraised t s) (htame : t.Tame s) :
    Traces t (visit t depth) s := by
  induction depth generalizing s with
  | zero => exact hfits.elim
  | succ depth ih =>
    by_cases hq : (t.kind s).isQuiet = true
    · exact traces_quiet hg hq hun (depth + 1)
    intro k w o a hs h ha hfree
    have hB : Below t (visit t depth) s := ⟨fun c _ => grows_visit hg depth c,
      fun c _ => steady_visit hg depth c, fun c _ => reaches_visit hg depth c⟩
    by_cases hk : t.kind s = .raiseExit
    · rw [visit, dispatch, hk]
      exact goes_leaving hg hs hun ha hB (.inr hk) h
    have hm : t.kind s ≠ .module := fun hm => absurd h (Run.not_of_part (.inl hm))
    have hH : Heeds t (visit t depth) s := ⟨hB, fun c hc =>
      ih (hfits c hc) (unraised_followed hg hun hk hc) (tame_followed hg htame hm hc)⟩
    exact traces_dispatch hg hH hs hun ha hfree (by simpa using hq) htame h

end visit
end PythonFlow.Sketch
