import PythonFlow.Proofs.Census.Clauses
import PythonFlow.Proofs.Frame.Gate
import PythonFlow.Proofs.Reach.Exit
import PythonFlow.Proofs.Reach.Raises

/-!
# Where exceptions go

Of a live `try` statement every handler is live, and so is the `finally` clause unless a `continue`
in the statement goes back to a loop around it: such a jump is linked to its loop at once and passes the
clause by. A `raise` leads to every handler that is for it, unless a `finally` clause on the way takes it
up: what goes on from such a clause is no longer known as the `raise`.
-/

set_option autoImplicit false

namespace PythonFlow

namespace Sketch
variable {t : SyntaxTree} {depth : Nat} {owner T : NodeId} {k0 k' : Sketch}

section stage
variable (hg : t.Grammatical) (hk : t.kind T = .tryStatement) (hstage : Stage t T depth k0 k')
include hg hk hstage

omit hg in
theorem later_stage : Later (tryStatement t (visit t depth) T k0) k' := by
  have hle := hstage.later
  rwa [visit, dispatch, hk] at hle

omit hk in
/-- The instruction of the statement is the first of its visit. -/
theorem next_of_stage {id : InstructionId} (hid : New k0 (visit t (depth + 1) T k0) id)
    (hel : k'.element id = some T) : id = k0.next := by
  rw [hstage.later.element hid.2] at hel
  rcases grows_visit hg (depth + 1) T k0 hstage.sound.fresh with heq | ⟨hG, -⟩
  · rw [heq] at hid
    exact absurd hid.2 (Nat.not_lt_of_le hid.1)
  · exact hG.first id hid hel

theorem handler_of_stage {p : NodeId} (hp : p ∈ t.exceptParts T) :
    ∃ h ∈ (tryCaught t (visit t depth) T k0).2, k'.element h = some p ∧ k'.Walk k0.next h := by
  obtain ⟨h, hh, hel, hw⟩ :=
    walk_to_handler hg (fun c _ => grows_visit hg depth c) hk hstage.sound.fresh hp
  have hle := later_stage hk hstage
  exact ⟨h, hh, (hle.element (lt_size_of_element hel)).trans hel, hw.later hle⟩

theorem finally_of_stage {F : NodeId} (hF : t.finallyPart T = some F)
    (hcontained : ∀ j, t.Below j T → ¬ t.Below j F → t.kind j = .continueJump →
      ∀ l, t.enclosingLoop j = some l → t.Below l T) :
    ∃ h, k'.element h = some F ∧ k'.Walk k0.next h := by
  have hB : Below t (visit t depth) T := ⟨fun c _ => grows_visit hg depth c,
    fun c _ => steady_visit hg depth c, fun c _ => reaches_visit hg depth c⟩
  have hs := hstage.sound.fresh
  obtain ⟨f, hf, -⟩ := last_finally (visit t depth) k0 hF
  have hel := element_finally hg hk hB hs hF hf
  have hle := later_stage hk hstage
  have hnext : New k0 (tryCaught t (visit t depth) T k0).1 k0.next :=
    new_next (Nat.le_refl _) (grown_caught hg hB.grows hk hs).size_lt
  exact ⟨f.entry, (hle.element (lt_size_of_element hel)).trans hel,
    (walk_to_finally hg hk hB hs hF hf hstage.sound.sourced hcontained hnext).later hle⟩

end stage

section describes
variable {f : ControlFlow} (h : Describes t depth owner f)
include h

theorem Describes.index_lt_of_element {id : InstructionId} {el : NodeId}
    (hel : (build t depth owner).element id = some el) : id.index < f.graph.size := by
  rw [h.size_eq]
  exact lt_size_of_element hel

theorem Describes.mem_instructions {id : InstructionId} {el : NodeId}
    (hel : (build t depth owner).element id = some el) : id ∈ f.instructionsFor el := by
  rw [ControlFlow.instructions_for_eq]
  refine List.mem_filter.2 ⟨InstructionGraph.mem_ids.2 (h.index_lt_of_element hel), ?_⟩
  rw [h.element_eq, hel]
  exact beq_self_eq_true _

end describes
end Sketch

/-- Of a `try` statement that is live every handler is live, and so is the `finally` clause if every
`continue` before it stays in the statement. -/
theorem clauses_of_live_try (source : String) (root : Concrete) (c : Config) {cancel : Option Bool}
    (hc : cancel ≠ some true) {owner : NodeId} (ho : owner ∈ (Lowering.tree source root).owners)
    (hcut : (buildOwner (Lowering.tree source root) c cancel owner).truncated = []) {T : NodeId}
    (hk : (Lowering.tree source root).kind T = .tryStatement)
    (hin : (Lowering.tree source root).Inside T owner) :
    ∃ f, (buildOwner (Lowering.tree source root) c cancel owner).outcome = .ok f ∧
      ∀ a ∈ f.reachable, (f.graph.instruction a).element = some T →
        (∀ p ∈ (Lowering.tree source root).exceptParts T,
          ∃ h ∈ f.reachable, f.instructionsFor p = [h]) ∧
        ∀ F, (Lowering.tree source root).finallyPart T = some F →
          (∀ j, (Lowering.tree source root).Below j T → ¬ (Lowering.tree source root).Below j F →
            (Lowering.tree source root).kind j = .continueJump →
            ∀ l, (Lowering.tree source root).enclosingLoop j = some l →
              (Lowering.tree source root).Below l T) →
          ∃ h ∈ f.reachable, f.instructionsFor F = [h] := by
  have hg := Lowering.tree_grammatical source root
  have howner : ((Lowering.tree source root).kind owner).isOwner = true := (List.mem_filter.1 ho).2
  obtain ⟨f, hf, hd, htruncated⟩ :=
    Sketch.build_describes hg.ordered c hc (SyntaxTree.lt_of_mem_owners ho)
  rw [htruncated, List.reverse_eq_nil_iff] at hcut
  refine ⟨f, hf, fun a ha hel => ?_⟩
  rw [hd.element_eq] at hel
  have hreach := (hd.mem_reachable a (hd.index_lt_of_element hel)).1 ha
  have hinner := Sketch.element_interior hel
  obtain ⟨depth, k0, hstage, hid⟩ := Sketch.located_interior hg howner hcut hin (by rw [hk]; rfl) hinner
    (SyntaxTree.below_refl _ T)
  obtain rfl := Sketch.next_of_stage hg hstage hid hinner
  have hbuild := Sketch.later_build (Lowering.tree source root) c.depth owner
  have hlive : ∀ p ∈ (Lowering.tree source root).children T,
      ((Lowering.tree source root).kind p).isRescue = true → ∀ h,
      (Sketch.interior (Lowering.tree source root) c.depth owner).element h = some p →
      (Sketch.interior (Lowering.tree source root) c.depth owner).Walk k0.next h →
      ∃ h ∈ f.reachable, f.instructionsFor p = [h] := by
    intro p hp hrescue h hhel hw
    have hhel' := (hbuild.element (Sketch.lt_size_of_element hhel)).trans hhel
    exact ⟨h, (hd.mem_reachable h (hd.index_lt_of_element hhel')).2 (hreach.trans (hw.later hbuild)),
      hd.rescue_unique hg hk hp hrescue howner hcut (hd.mem_instructions hhel')⟩
  refine ⟨fun p hp => ?_, fun F hF hcontained => ?_⟩
  · obtain ⟨h, -, hhel, hw⟩ := Sketch.handler_of_stage hg hk hstage hp
    exact hlive p (SyntaxTree.mem_except_parts.1 hp).1 (SyntaxTree.rescue_of_except hp) h hhel hw
  · obtain ⟨h, hhel, hw⟩ := Sketch.finally_of_stage hg hk hstage hF hcontained
    exact hlive F (SyntaxTree.mem_finally_part hF).1 (SyntaxTree.rescue_of_finally hF) h hhel hw

/-- The concrete tree of `try: raise` with a handler and a `finally` clause, without its positions. -/
def raiseInTry : Concrete :=
  .node "module" true none default
    [.node "try_statement" true none default
      [.node "block" true (some "body") default [.node "raise_statement" true none default []],
        .node "except_clause" true none default
          [.node "block" true none default [.node "pass_statement" true none default []]],
        .node "finally_clause" true none default
          [.node "block" true none default [.node "pass_statement" true none default []]]]]

theorem raise_in_try_reaches_clauses :
    ∃ f, (buildOwner (Lowering.tree "" raiseInTry) .standard none ⟨0⟩).outcome = .ok f ∧
      (∃ h ∈ f.reachable, f.instructionsFor ⟨5⟩ = [h]) ∧
        ∃ h ∈ f.reachable, f.instructionsFor ⟨8⟩ = [h] := by
  have hc : (none : Option Bool) ≠ some true := by decide
  have ho : (⟨0⟩ : NodeId) ∈ (Lowering.tree "" raiseInTry).owners := by decide +kernel
  obtain ⟨f, hf, hlive⟩ := clauses_of_live_try "" raiseInTry .standard hc ho (by decide +kernel)
    (T := ⟨1⟩) (by decide +kernel) (by decide +kernel)
  have hrun : (buildOwner (Lowering.tree "" raiseInTry) .standard none ⟨0⟩).outcome.map
      (fun f => (f.reachable.contains ⟨1⟩, (f.graph.instruction ⟨1⟩).element)) =
        .ok (true, some ⟨1⟩) := by
    decide +kernel
  rw [hf] at hrun
  have hboth := Except.ok.inj hrun
  obtain ⟨hhandlers, hfinally⟩ := hlive ⟨1⟩ (List.contains_iff_mem.1 (congrArg Prod.fst hboth))
    (congrArg Prod.snd hboth)
  have hjumps : ∀ j ∈ (Lowering.tree "" raiseInTry).ids,
      (Lowering.tree "" raiseInTry).kind j ≠ .continueJump := by decide +kernel
  refine ⟨f, hf, hhandlers ⟨5⟩ (by decide +kernel), hfinally ⟨8⟩ (by decide +kernel) ?_⟩
  exact fun j _ _ hk => absurd hk (hjumps j (SyntaxTree.mem_ids_of_statement (by rw [hk]; rfl)))

/-- The `finally` clause that a `continue` passes by is dead. -/
example : (buildOwner (Lowering.tree "" continueInTry) .standard none ⟨0⟩).outcome.map
    (fun f => (f.instructionsFor ⟨9⟩).all fun h => f.reachable.contains h) = .ok false := by
  decide +kernel

/-- A `raise` leads to every handler that is for it, if no `finally` clause on the way takes it up. -/
theorem raise_reaches_handlers (source : String) (root : Concrete) (c : Config)
    {cancel : Option Bool} (hc : cancel ≠ some true) {owner : NodeId}
    (ho : owner ∈ (Lowering.tree source root).owners)
    (hcut : (buildOwner (Lowering.tree source root) c cancel owner).truncated = []) {T r : NodeId}
    (hk : (Lowering.tree source root).kind r = .raiseExit)
    (hcatch : (Lowering.tree source root).Catches T r)
    (hunguarded : (Lowering.tree source root).Unguarded T r)
    (hin : (Lowering.tree source root).Inside T owner) :
    ∃ f, (buildOwner (Lowering.tree source root) c cancel owner).outcome = .ok f ∧
      ∀ a, (f.graph.instruction a).element = some r →
        ∀ p ∈ (Lowering.tree source root).exceptParts T,
          ∃ h, f.instructionsFor p = [h] ∧ ∃ q, Path f.graph.Edge a q h := by
  have hg := Lowering.tree_grammatical source root
  have howner : ((Lowering.tree source root).kind owner).isOwner = true := (List.mem_filter.1 ho).2
  obtain ⟨f, hf, hd, htruncated⟩ :=
    Sketch.build_describes hg.ordered c hc (SyntaxTree.lt_of_mem_owners ho)
  rw [htruncated, List.reverse_eq_nil_iff] at hcut
  refine ⟨f, hf, fun a hel p hp => ?_⟩
  rw [hd.element_eq] at hel
  have hinner := Sketch.element_interior hel
  have hT := hcatch.kind
  obtain ⟨part, hpart, hrpart⟩ := hcatch.body
  have hrT := hg.ordered.below_trans hrpart
    (Sketch.inside_of_mem hg.ordered (SyntaxTree.mem_try_part hpart).1).1
  obtain ⟨depth, k0, hstage, hid⟩ :=
    Sketch.located_interior hg howner hcut hin (by rw [hT]; rfl) hinner hrT
  obtain ⟨h, hh, hhel, -⟩ := Sketch.handler_of_stage hg hT hstage hp
  have hbuild := Sketch.later_build (Lowering.tree source root) c.depth owner
  have hhel' := (hbuild.element (Sketch.lt_size_of_element hhel)).trans hhel
  have hmissed : r ∉ (Sketch.visit (Lowering.tree source root) (depth + 1) T k0).truncated := by
    intro hmem
    have hlast := hbuild.truncated r (hstage.later.truncated r hmem)
    rw [hcut] at hlast
    cases hlast
  rw [hstage.later.element hid.2] at hinner
  have hw := Sketch.walk_of_raise hg hk hcatch hunguarded hstage.sound hmissed hid hinner hh
  exact ⟨h, hd.rescue_unique hg hT (SyntaxTree.mem_except_parts.1 hp).1
    (SyntaxTree.rescue_of_except hp) howner hcut (hd.mem_instructions hhel'),
    hd.path_of_walk ((hw.later hstage.later).later hbuild)⟩

theorem raise_in_try_reaches_handler :
    ∃ f, (buildOwner (Lowering.tree "" raiseInTry) .standard none ⟨0⟩).outcome = .ok f ∧
      (f.graph.instruction ⟨3⟩).element = some ⟨4⟩ ∧
        ∃ h, f.instructionsFor ⟨5⟩ = [h] ∧ ∃ q, Path f.graph.Edge ⟨3⟩ q h := by
  have hc : (none : Option Bool) ≠ some true := by decide
  have ho : (⟨0⟩ : NodeId) ∈ (Lowering.tree "" raiseInTry).owners := by decide +kernel
  have honly : ∀ T ∈ (Lowering.tree "" raiseInTry).ids,
      (Lowering.tree "" raiseInTry).kind T = .tryStatement → T = ⟨1⟩ := by decide +kernel
  have hnone : ∀ T, (Lowering.tree "" raiseInTry).Inside T ⟨1⟩ →
      (Lowering.tree "" raiseInTry).kind T ≠ .tryStatement := fun T hT hk =>
    hT.2 (honly T (SyntaxTree.mem_ids_of_statement (by rw [hk]; rfl)) hk)
  have hcatch : (Lowering.tree "" raiseInTry).Catches ⟨1⟩ ⟨4⟩ :=
    ⟨by decide +kernel, by decide +kernel, ⟨⟨2⟩, by decide +kernel, by decide +kernel⟩,
      fun T hT hk => absurd hk (hnone T hT)⟩
  obtain ⟨f, hf, hreach⟩ := raise_reaches_handlers "" raiseInTry .standard hc ho (by decide +kernel)
    (T := ⟨1⟩) (r := ⟨4⟩) (by decide +kernel) hcatch (fun T hT _ hk => absurd hk (hnone T hT))
    (by decide +kernel)
  have hrun : (buildOwner (Lowering.tree "" raiseInTry) .standard none ⟨0⟩).outcome.map
      (fun f => (f.graph.instruction ⟨3⟩).element) = .ok (some ⟨4⟩) := by
    decide +kernel
  rw [hf] at hrun
  have hel := Except.ok.inj hrun
  exact ⟨f, hf, hel, hreach ⟨3⟩ hel ⟨5⟩ (by decide +kernel)⟩

end PythonFlow
