import PythonFlow.Proofs.Frame.Visit
import PythonFlow.Proofs.Sketch.Faithful

/-!
# Ways out of a `try` statement that has a `finally` clause

Flow leaves the statement from the clause alone, with one exception. A `continue` is linked to its loop
at once, so that nothing is left pending that could be sent through the clause. Where the loop is
outside the statement that edge passes the clause by; every other jump goes through it.
-/

set_option autoImplicit false

namespace PythonFlow

def ControlFlow.LeadsOut (f : ControlFlow) (t : SyntaxTree) (T : NodeId) (a b : InstructionId) :
    Prop :=
  f.graph.Edge a b ∧ ∀ y, (f.graph.instruction b).element = some y → ¬ t.Below y T

namespace Sketch
variable {t : SyntaxTree} {depth : Nat} {owner T F u : NodeId} {a b : InstructionId}

theorem not_has_opening (t : SyntaxTree) (l : NodeId) : ¬ (opening t).Has l := by
  rintro ⟨id, hid⟩
  rw [element_opening] at hid
  cases hid

theorem not_edge_opening (t : SyntaxTree) (a b : InstructionId) : ¬ (opening t).Edge a b := by
  simp [Edge, place, blank, arrivals]

theorem arrivals_opening_lt {el : Option NodeId} (h : a ∈ (opening t).arrivals t el) :
    a.index < (opening t).size := by
  rcases (mem_arrivals _ t el a).1 h with h | ⟨e, he, -⟩
  · obtain rfl : blank.next = a := Option.some.inj h
    rw [size_place]
    exact Nat.lt_succ_self _
  · cases he

theorem grown_of_element (hg : t.Grammatical) (h : (interior t depth owner).element a = some u) :
    Grown t owner (opening t) (interior t depth owner) := by
  rcases visited_owner hg depth owner with heq | ⟨hG, -⟩
  · rw [heq, element_opening] at h
    cases h
  · exact hG

theorem new_of_element (hg : t.Grammatical) (h : (interior t depth owner).element a = some u) :
    New (opening t) (interior t depth owner) a := by
  refine ⟨Nat.le_of_not_lt fun hlt => ?_, lt_size_of_element h⟩
  rw [(grown_of_element hg h).element_old a hlt, element_opening] at h
  cases h

theorem element_interior (h : (build t depth owner).element a = some u) :
    (interior t depth owner).element a = some u := by
  unfold build at h
  rw [element_place] at h
  split at h
  · cases h
  · exact h

section gate
variable (hg : t.Grammatical) (hcut : (build t depth owner).truncated = [])
  (hk : t.kind T = .tryStatement) (hF : t.finallyPart T = some F) (hin : t.Inside T owner)
  (hu : (interior t depth owner).element a = some u) (huT : t.Below u T) (huF : ¬ t.Below u F)
include hg hcut hk hF hin hu huT huF

/-- Inside the statement flow is never left to go on elsewhere. -/
theorem not_loose : ¬ (interior t depth owner).Loose a := by
  intro hloose
  have hG := grown_of_element hg hu
  have hguard : Guards t (interior t depth owner).truncated T F :=
    ⟨hk, hF, by rw [show (interior t depth owner).truncated = [] from hcut]; simp⟩
  have hlive : Live t owner (opening t) (interior t depth owner) a := by
    rcases hloose with h | ⟨e, he, rfl⟩
    · exact hG.cursor_live a h
    · rcases hG.waits e he with ⟨h, -⟩ | ⟨h, -⟩
      · cases h
      · exact h
  exact huF (hlive.2 u hu T F hguard hin huT)

/-- An edge stays in the statement, or goes from a `continue` to its loop. -/
theorem edge_gated (h : (build t depth owner).Edge a b) :
    ∃ y, (build t depth owner).element b = some y ∧
      (t.Below y T ∨ t.kind u = .continueJump ∧ t.enclosingLoop u = some y) := by
  have hG := grown_of_element hg hu
  have hguard : Guards t (interior t depth owner).truncated T F :=
    ⟨hk, hF, by rw [show (interior t depth owner).truncated = [] from hcut]; simp⟩
  rcases (edge_place _ t none .plain a b).1 h with h | ⟨h, -⟩
  · rcases hG.origin a b h with h | ⟨h, -⟩ | ⟨-, hb, hgate⟩ | ⟨-, c, l, -, -, -, hlatest⟩
    · exact absurd h (not_edge_opening t a b)
    · exact absurd (new_of_element hg hu).1 (Nat.not_le_of_lt (arrivals_opening_lt h))
    · obtain ⟨y, hy, -⟩ := hG.element_new b hb
      refine ⟨y, by rw [build, element_place_of_lt hb.2, hy], ?_⟩
      rcases hgate u y hu hy with hjump | hgate
      · exact .inr hjump
      · exact .inl ((hgate T F hguard hin huT).resolve_left huF)
    · exact absurd ⟨b, (latest_some hlatest).2⟩ (not_has_opening t l)
  · refine absurd ?_ (not_loose hg hcut hk hF hin hu huT huF)
    rcases (mem_arrivals _ t none a).1 h with h | ⟨e, he, -, hsource⟩
    · exact .inl h
    · exact .inr ⟨e, he, hsource⟩

end gate

/-- A `continue` is linked to its loop. -/
theorem edge_of_continue (hg : t.Grammatical) (hcut : (build t depth owner).truncated = [])
    (howner : (t.kind owner).isOwner = true) {l : NodeId}
    (hu : (interior t depth owner).element a = some u) (hin : t.Inside u owner)
    (hk : t.kind u = .continueJump) (hl : t.enclosingLoop u = some l) :
    ∃ b, (build t depth owner).element b = some l ∧ (build t depth owner).Edge a b := by
  have hG := grown_of_element hg hu
  rcases hG.wired a (new_of_element hg hu) u l hu hk hl with h | ⟨b, hb, hedge⟩ | ⟨habove, -⟩
  · rw [show (interior t depth owner).truncated = [] from hcut] at h
    cases h
  · refine ⟨b, ?_, (edge_place _ t none .plain a b).2 (.inl hedge)⟩
    rw [build, element_place_of_lt (lt_size_of_element hb), hb]
  · -- The owner would stand between the jump and its loop.
    have hfree := (hg.ordered.enclosing_loop_above hl).2.2 owner hin habove.1
    rw [howner] at hfree
    cases hfree

end Sketch

/-- Out of a `try` statement that has a `finally` clause, and not by way of the clause, lead the edges
of those `continue` jumps whose loop is outside the statement, and no other edges. -/
theorem finally_passed_by_continue_only (source : String) (root : Concrete) (c : Config)
    {cancel : Option Bool} (hc : cancel ≠ some true) {owner : NodeId}
    (ho : owner ∈ (Lowering.tree source root).owners)
    (hcut : (buildOwner (Lowering.tree source root) c cancel owner).truncated = []) {T F : NodeId}
    (hk : (Lowering.tree source root).kind T = .tryStatement)
    (hF : (Lowering.tree source root).finallyPart T = some F)
    (hin : (Lowering.tree source root).Inside T owner) :
    ∃ f, (buildOwner (Lowering.tree source root) c cancel owner).outcome = .ok f ∧
      ∀ a u, (f.graph.instruction a).element = some u → (Lowering.tree source root).Below u T →
        ¬ (Lowering.tree source root).Below u F →
        ((∃ b, f.LeadsOut (Lowering.tree source root) T a b) ↔
          (Lowering.tree source root).kind u = .continueJump ∧
            ∃ l, (Lowering.tree source root).enclosingLoop u = some l ∧
              ¬ (Lowering.tree source root).Below l T) := by
  have hg := Lowering.tree_grammatical source root
  have howner : ((Lowering.tree source root).kind owner).isOwner = true := (List.mem_filter.1 ho).2
  obtain ⟨f, hf, hd, htruncated⟩ :=
    Sketch.build_describes hg.ordered c hc (SyntaxTree.lt_of_mem_owners ho)
  rw [htruncated, List.reverse_eq_nil_iff] at hcut
  refine ⟨f, hf, fun a u hu huT huF => ?_⟩
  rw [hd.element_eq] at hu
  have hu' := Sketch.element_interior hu
  constructor
  · rintro ⟨b, hedge, hout⟩
    obtain ⟨y, hy, hgate⟩ :=
      Sketch.edge_gated hg hcut hk hF hin hu' huT huF ((hd.edge_iff a b).1 hedge)
    have hyT := hout y (by rw [hd.element_eq, hy])
    obtain ⟨hjump, hl⟩ := hgate.resolve_left hyT
    exact ⟨hjump, y, hl, hyT⟩
  · rintro ⟨hjump, l, hl, hlT⟩
    obtain ⟨b, hb, hedge⟩ := Sketch.edge_of_continue hg hcut howner hu'
      (hg.ordered.inside_of_below_inside huT hin) hjump hl
    refine ⟨b, (hd.edge_iff a b).2 hedge, fun y hy => ?_⟩
    rw [hd.element_eq, hb] at hy
    exact Option.some.inj hy ▸ hlT

/-- The concrete tree of `for x in y`, whose body is `try: continue` with `finally: z`, without its
positions. -/
def continueInTry : Concrete :=
  .node "module" true none default
    [.node "for_statement" true none default
      [.node "identifier" true (some "left") default [],
        .node "identifier" true (some "right") default [],
        .node "block" true (some "body") default
          [.node "try_statement" true none default
            [.node "block" true (some "body") default
              [.node "continue_statement" true none default []],
              .node "finally_clause" true none default
                [.node "block" true none default
                  [.node "expression_statement" true none default
                    [.node "identifier" true none default []]]]]]]]

theorem continue_passes_finally :
    ∃ f, (buildOwner (Lowering.tree "" continueInTry) .standard none ⟨0⟩).outcome = .ok f ∧
      ∃ b, f.LeadsOut (Lowering.tree "" continueInTry) ⟨5⟩ ⟨6⟩ b := by
  have hc : (none : Option Bool) ≠ some true := by decide
  have ho : (⟨0⟩ : NodeId) ∈ (Lowering.tree "" continueInTry).owners := by decide +kernel
  obtain ⟨f, hf, hout⟩ := finally_passed_by_continue_only "" continueInTry .standard hc ho
    (by decide +kernel) (T := ⟨5⟩) (F := ⟨9⟩) (by decide +kernel) (by decide +kernel)
    (by decide +kernel)
  have hu : (f.graph.instruction ⟨6⟩).element = some ⟨8⟩ := by
    have hrun : (buildOwner (Lowering.tree "" continueInTry) .standard none ⟨0⟩).outcome.map
        (fun f => (f.graph.instruction ⟨6⟩).element) = .ok (some ⟨8⟩) := by
      decide +kernel
    rw [hf] at hrun
    exact Except.ok.inj hrun
  exact ⟨f, hf, (hout ⟨6⟩ ⟨8⟩ hu (by decide +kernel) (by decide +kernel)).2
    ⟨by decide +kernel, ⟨1⟩, by decide +kernel, by decide +kernel⟩⟩

end PythonFlow
