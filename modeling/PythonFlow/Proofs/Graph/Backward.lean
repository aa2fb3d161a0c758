import PythonFlow.Proofs.Course.Ahead
import PythonFlow.Proofs.Census.Partition

/-!
# Cycles belong to loops

An edge that does not go on to a later instruction comes from strictly inside a loop and leads to where a
round of the loop begins. So every cycle passes such an instruction, and the graph of an owner without
loops has its instructions in topological order.
-/

set_option autoImplicit false

namespace PythonFlow

/-- At `v` a round of the loop `l` begins: it is the one instruction for the loop, or, if this is a `for`
loop, the first one for its body. -/
def ControlFlow.HeadsLoop (f : ControlFlow) (t : SyntaxTree) (l : NodeId) (v : InstructionId) : Prop :=
  f.instructionsFor l = [v] ∨
    t.kind l = .forLoop ∧ ∃ body, t.body l = some body ∧ (f.instructionsFor body).head? = some v

theorem ControlFlow.mem_instructions {f : ControlFlow} {n : NodeId} {v : InstructionId} :
    v ∈ f.instructionsFor n ↔ v.index < f.graph.size ∧ (f.graph.instruction v).element = some n := by
  simp only [instructions_for_eq, List.mem_filter, InstructionGraph.mem_ids, beq_iff_eq]

/-- The instruction of least number comes first. -/
theorem ControlFlow.head_instructions {f : ControlFlow} {n : NodeId} {v : InstructionId}
    (hlt : v.index < f.graph.size) (hel : (f.graph.instruction v).element = some n)
    (hfirst : ∀ id : InstructionId, id.index < v.index → (f.graph.instruction id).element ≠ some n) :
    (f.instructionsFor n).head? = some v := by
  rw [instructions_for_eq, List.head?_filter, InstructionGraph.ids_eq, InstructionGraph.positions, List.find?_map, Option.map_eq_some_iff]
  refine ⟨v.index, List.find?_range_eq_some.2 ⟨?_, List.mem_range.2 hlt, fun j hj => ?_⟩, rfl⟩
  · simpa using hel
  · simpa using hfirst ⟨j⟩ hj

/-- A way that comes back has a step that does not go on, and it passes where this step leads. -/
theorem Path.exists_backward {next : InstructionId → InstructionId → Prop} {a b c : InstructionId}
    {p : List InstructionId} (hab : next a b) (hp : Path next b p c) (hc : c.index ≤ a.index) :
    ∃ u v, next u v ∧ v.index ≤ u.index ∧ v ∈ p := by
  induction hp generalizing a with
  | here b => exact ⟨a, b, hab, hc, List.mem_singleton.2 rfl⟩
  | @step b d c p hbd rest ih =>
    by_cases hback : b.index ≤ a.index
    · exact ⟨a, b, hab, hback, List.mem_cons_self⟩
    · obtain ⟨u, v, huv, hle, hv⟩ := ih hbd (by omega)
      exact ⟨u, v, huv, hle, List.mem_cons_of_mem b hv⟩

namespace Sketch
variable {t : SyntaxTree} {depth : Nat} {owner l : NodeId} {f : ControlFlow} {u v : InstructionId}

/-- The header of a loop is its one instruction. -/
theorem Describes.heads_loop (h : Describes t depth owner f) (hg : t.Grammatical)
    (howner : (t.kind owner).isOwner = true) (hloop : (t.kind l).isLoop = true)
    (hv : Heads t (build t depth owner) l v) : f.HeadsLoop t l v := by
  have hlt : ∀ {el}, (build t depth owner).element v = some el → v.index < f.graph.size := fun hel => by
    rw [h.size_eq]
    exact lt_size_of_element hel
  rcases hv with hv | ⟨hk, body, hbody, hv, hfirst⟩
  · left
    have hstatement : (t.kind l).isStatement = true := by
      revert hloop
      cases t.kind l <;> simp [SyntaxKind.isLoop, SyntaxKind.isStatement]
    have hne : l ≠ owner := by
      rintro rfl
      revert hloop howner
      cases t.kind l <;> simp [SyntaxKind.isLoop, SyntaxKind.isOwner]
    have hsole := sole_build hg depth howner hstatement hne
    have hmem : v ∈ f.instructionsFor l :=
      ControlFlow.mem_instructions.2 ⟨hlt hv, (h.element_eq v).trans hv⟩
    have hall : ∀ x ∈ f.instructionsFor l, x = v := fun x hx =>
      hsole x v ((h.element_eq x).symm.trans (ControlFlow.mem_instructions.1 hx).2) hv
    have hids : f.graph.ids.Nodup := f.graph.ids_ascending.imp fun hlt heq =>
      Nat.ne_of_lt hlt (congrArg InstructionId.index heq)
    have hnodup : (f.instructionsFor l).Nodup := by
      rw [ControlFlow.instructions_for_eq]
      exact hids.filter _
    exact List.perm_singleton.1 ((List.perm_ext_iff_of_nodup hnodup (List.pairwise_singleton _ v)).2
      fun x => ⟨fun hx => List.mem_singleton.2 (hall x hx), fun hx => List.mem_singleton.1 hx ▸ hmem⟩)
  · refine .inr ⟨hk, body, hbody, ControlFlow.head_instructions (hlt hv) ((h.element_eq v).trans hv)
      fun id hid => ?_⟩
    rw [h.element_eq]
    exact hfirst id hid

/-- An edge that does not go on repeats a loop of the owner. -/
theorem Describes.backward (h : Describes t depth owner f) (hg : t.Grammatical)
    (howner : (t.kind owner).isOwner = true) (huv : f.graph.Edge u v) (hback : v.index ≤ u.index) :
    ∃ l x, (t.kind l).isLoop = true ∧ t.Owns owner l ∧ (f.graph.instruction u).element = some x ∧
      t.Inside x l ∧ f.HeadsLoop t l v := by
  rcases ahead_build hg depth howner u v ((h.edge_iff u v).1 huv) with hlt |
    ⟨l, x, hloop, ⟨header, hheader⟩, hx, hin, hhead⟩
  · exact absurd hlt (Nat.not_lt_of_le hback)
  · exact ⟨l, x, hloop, h.owned hg howner ((h.element_eq header).trans hheader),
      (h.element_eq u).trans hx, hin, h.heads_loop hg howner hloop hhead⟩

end Sketch

/-- Every edge that leads back leads from strictly inside a loop of the owner to where a round of this
loop begins, and every cycle passes such an instruction. The graph of an owner without loops has no
cycle, and its instructions are in topological order. -/
theorem backward_edges_repeat_loops (source : String) (root : Concrete) (c : Config)
    {cancel : Option Bool} (hc : cancel ≠ some true) {owner : NodeId}
    (ho : owner ∈ (Lowering.tree source root).owners) :
    ∃ f, (buildOwner (Lowering.tree source root) c cancel owner).outcome = .ok f ∧
      (∀ u v, f.graph.Edge u v → v.index ≤ u.index →
        ∃ l x, ((Lowering.tree source root).kind l).isLoop = true ∧
          (Lowering.tree source root).Owns owner l ∧ (f.graph.instruction u).element = some x ∧
          (Lowering.tree source root).Inside x l ∧ f.HeadsLoop (Lowering.tree source root) l v) ∧
      (∀ a b p, f.graph.Edge a b → Path f.graph.Edge b p a →
        ∃ v ∈ p, ∃ l, ((Lowering.tree source root).kind l).isLoop = true ∧
          (Lowering.tree source root).Owns owner l ∧ f.HeadsLoop (Lowering.tree source root) l v) ∧
      ((∀ l, (Lowering.tree source root).Owns owner l →
          ((Lowering.tree source root).kind l).isLoop = false) →
        (∀ a b, f.graph.Edge a b → a.index < b.index) ∧
          ∀ a b p, f.graph.Edge a b → ¬ Path f.graph.Edge b p a) := by
  have hg := Lowering.tree_grammatical source root
  have howner : ((Lowering.tree source root).kind owner).isOwner = true := (List.mem_filter.1 ho).2
  obtain ⟨f, hf, hd, -⟩ := Sketch.build_describes hg.ordered c hc (SyntaxTree.lt_of_mem_owners ho)
  have hcycle : ∀ a b p, f.graph.Edge a b → Path f.graph.Edge b p a →
      ∃ v ∈ p, ∃ l, ((Lowering.tree source root).kind l).isLoop = true ∧
        (Lowering.tree source root).Owns owner l ∧ f.HeadsLoop (Lowering.tree source root) l v := by
    intro a b p hab hp
    obtain ⟨u, v, huv, hback, hv⟩ := Path.exists_backward hab hp (Nat.le_refl _)
    obtain ⟨l, -, hloop, hown, -, -, hhead⟩ := hd.backward hg howner huv hback
    exact ⟨v, hv, l, hloop, hown, hhead⟩
  refine ⟨f, hf, fun u v => hd.backward hg howner, hcycle, fun hnone => ⟨fun a b hab => ?_, ?_⟩⟩
  · refine Nat.lt_of_not_le fun hback => ?_
    obtain ⟨l, -, hloop, hown, -⟩ := hd.backward hg howner hab hback
    rw [hnone l hown] at hloop
    cases hloop
  · intro a b p hab hp
    obtain ⟨v, -, l, hloop, hown, -⟩ := hcycle a b p hab hp
    rw [hnone l hown] at hloop
    cases hloop

/-- The concrete tree of `for x in y`, whose body is `while z: continue`, without its positions. -/
def continueInLoops : Concrete :=
  .node "module" true none default
    [.node "for_statement" true none default
      [.node "identifier" true (some "left") default [],
        .node "identifier" true (some "right") default [],
        .node "block" true (some "body") default
          [.node "while_statement" true none default
            [.node "identifier" true (some "condition") default [],
              .node "block" true (some "body") default
                [.node "continue_statement" true none default []]]]]]

/-- The jump leads back to the inner loop. -/
theorem continue_repeats_inner_loop :
    ∃ f, (buildOwner (Lowering.tree "" continueInLoops) .standard none ⟨0⟩).outcome = .ok f ∧
      ∃ l x, ((Lowering.tree "" continueInLoops).kind l).isLoop = true ∧
        (Lowering.tree "" continueInLoops).Owns ⟨0⟩ l ∧ (f.graph.instruction ⟨6⟩).element = some x ∧
        (Lowering.tree "" continueInLoops).Inside x l ∧
        f.HeadsLoop (Lowering.tree "" continueInLoops) l ⟨4⟩ := by
  have hc : (none : Option Bool) ≠ some true := by decide
  have ho : (⟨0⟩ : NodeId) ∈ (Lowering.tree "" continueInLoops).owners := by decide +kernel
  obtain ⟨f, hf, hback, -⟩ := backward_edges_repeat_loops "" continueInLoops .standard hc ho
  have hedge : f.graph.Edge ⟨6⟩ ⟨4⟩ := by
    have hrun : (buildOwner (Lowering.tree "" continueInLoops) .standard none ⟨0⟩).outcome.map
        (fun f => f.graph.successors ⟨6⟩) = .ok [⟨4⟩] := by
      decide +kernel
    rw [hf] at hrun
    have hsuccessors : f.graph.successors ⟨6⟩ = [⟨4⟩] := Except.ok.inj hrun
    rw [InstructionGraph.Edge, hsuccessors]
    exact List.mem_singleton.2 rfl
  exact ⟨f, hf, hback ⟨6⟩ ⟨4⟩ hedge (by decide)⟩

end PythonFlow
