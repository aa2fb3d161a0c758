import PythonFlow.Proofs.Census.Owner

/-!
# The owners share out the statements

Every statement of a tree belongs to exactly one owner. It has one instruction in that owner's graph,
and none in another's.
-/

set_option autoImplicit false

namespace PythonFlow

namespace Lowering

theorem kind_root (source : String) (root : Concrete) :
    (tree source root).kind SyntaxTree.root = .module :=
  (Shape.laid_node (Shape.laid_to_tree (module source root))).2.1

/-- Every node stands under the root. -/
theorem below_root (source : String) (root : Concrete) {x : NodeId}
    (hx : x.index < (tree source root).size) : (tree source root).Below x SyntaxTree.root := by
  have ho := (tree_grammatical source root).ordered
  induction x using ho.up_induction with
  | step x ih =>
    obtain ⟨s, q, -, hl, hq⟩ :=
      Shape.to_tree_at (module source root) (P := fun _ => True) (by simp) trivial x.index hx
    rcases hq with ⟨hzero, -⟩ | ⟨p, rfl, hlt, hmem⟩
    · obtain rfl : x = SyntaxTree.root := congrArg NodeId.mk hzero
      exact SyntaxTree.below_refl _ _
    · have hp : (tree source root).parent x = some p := ho.parent_of_mem hmem
      exact ho.below_trans (ho.below_parent hp) (ih p hp (Nat.lt_trans hlt hx))

end Lowering

namespace Sketch
variable {t : SyntaxTree} {depth : Nat} {owner s : NodeId} {f : ControlFlow}

theorem Describes.length_instructions (h : Describes t depth owner f) (s : NodeId) :
    (f.instructionsFor s).length =
      (Gauge.seeing false fun y _ => y == s).of (build t depth owner) := by
  rw [← h.count_labels, ControlFlow.instructions_for_eq, ← List.countP_eq_length_filter]
  refine List.countP_congr fun id _ => ?_
  cases (f.graph.instruction id).element <;> simp [Gauge.sees, Gauge.seeing]

/-- No statement stands in a target. -/
theorem not_loses_statement (hg : t.Grammatical) (hs : (t.kind s).isStatement = true) (l : NodeId) :
    ¬ t.Loses l s := by
  rintro ⟨hk, -, c, hc, hsc⟩
  have hquiet := SyntaxTree.is_quiet_of_term (hg.term_target (.inl hk) hc)
  rw [SyntaxTree.not_statement_of_quiet (hg.quiet_below hquiet hsc)] at hs
  cases hs

section statement
variable (h : Describes t depth owner f) (hg : t.Grammatical)
  (howner : (t.kind owner).isOwner = true) (hs : (t.kind s).isStatement = true)
include h hg howner hs

theorem Describes.one_instruction (hslots : t.Slotted) (hone : t.SingleClauses)
    (hcut : (build t depth owner).truncated = []) (hown : t.Owns owner s) :
    ∃ id, f.instructionsFor s = [id] := by
  have hsee : ∀ y (name : Option String), y ≠ s → (y == s) = false := fun y _ hne => by simp [hne]
  have hopen : (t.kind s).isOpened = false := by
    by_contra hopen
    rw [SyntaxKind.not_statement_of_opened (by simpa using hopen)] at hs
    cases hs
  apply List.length_eq_one_iff.1
  rw [h.length_instructions, seen_once hg howner hsee (.inl hs) hslots hone hcut hown hopen
    fun l _ => not_loses_statement hg hs l]
  obtain ⟨name, hinst⟩ := SyntaxTree.instances_statement hs
  rw [hinst, Gauge.count_single]
  simp [Gauge.weight, Gauge.seeing]

omit hs in
theorem Describes.no_instruction (hown : ¬ t.Owns owner s) : f.instructionsFor s = [] := by
  have hsee : ∀ y (name : Option String), y ≠ s → (y == s) = false := fun y _ hne => by simp [hne]
  apply List.length_eq_zero_iff.1
  rw [h.length_instructions]
  exact seen_none hg howner fun y hy => unseen_of_ne hsee fun heq => hown (heq ▸ hy)

end statement

open Classical in
/-- Whatever an instruction was created for, the owner owns. -/
theorem Describes.owned (h : Describes t depth owner f) (hg : t.Grammatical)
    (howner : (t.kind owner).isOwner = true) {id : InstructionId} {y : NodeId}
    (hid : (f.graph.instruction id).element = some y) : t.Owns owner y := by
  by_contra hown
  have hnone : (Gauge.seeing false fun y _ => decide ¬ t.Owns owner y).of (build t depth owner) = 0 := by
    refine seen_none hg howner fun z hz => ⟨by simp [hz], fun e he => ?_⟩
    rw [SyntaxTree.instances_self he]
    simp [hz]
  rw [← h.count_labels, List.countP_eq_zero] at hnone
  have hmem : id ∈ f.graph.ids := by
    refine InstructionGraph.mem_ids.2 ?_
    rw [h.size_eq]
    exact lt_size_of_element ((h.element_eq id).symm.trans hid)
  refine hnone id hmem ?_
  simp [hid, Gauge.sees, Gauge.seeing, hown]

/-- Only the entry and the exit were created for no node. -/
theorem Describes.element_between (h : Describes t depth owner f) (hg : t.Grammatical)
    {id : InstructionId} (hid : id.index < f.graph.size) (hentry : id ≠ f.entry) (hexit : id ≠ f.exit) :
    ∃ y, (f.graph.instruction id).element = some y := by
  have hopen : (opening t).size = 1 := size_place blank t none .plain
  have hfirst : 1 ≤ id.index := Nat.one_le_iff_ne_zero.2 fun heq =>
    hentry (h.entry ▸ congrArg InstructionId.mk heq)
  have hlast : id.index < (interior t depth owner).size := by
    rw [h.size_eq, build, size_place] at hid
    have hne : id.index ≠ (interior t depth owner).size := fun heq =>
      hexit (h.exit ▸ congrArg InstructionId.mk heq)
    omega
  rcases visited_owner hg depth owner with heq | ⟨hG, -⟩
  · rw [heq, hopen] at hlast
    omega
  · obtain ⟨y, hy, -⟩ := hG.element_new id ⟨hopen.symm ▸ hfirst, hlast⟩
    refine ⟨y, ?_⟩
    rw [h.element_eq, build, element_place_of_lt hlast, hy]

end Sketch

/-- The graphs of the owners share out the statements: where nothing was cut off, an owner's graph has
one instruction for each statement that it owns and none for another, and but for the entry and the
exit it has only instructions for nodes that it owns. Each statement has exactly one owner. -/
theorem statements_partitioned (source : String) (root : Concrete)
    (hone : (Lowering.tree source root).SingleClauses) :
    (∀ (c : Config) (cancel : Option Bool), cancel ≠ some true →
      ∀ owner ∈ (Lowering.tree source root).owners,
        (buildOwner (Lowering.tree source root) c cancel owner).truncated = [] →
          ∃ f, (buildOwner (Lowering.tree source root) c cancel owner).outcome = .ok f ∧
            (∀ s, ((Lowering.tree source root).kind s).isStatement = true →
              ((Lowering.tree source root).Owns owner s → ∃ id, f.instructionsFor s = [id]) ∧
              (¬ (Lowering.tree source root).Owns owner s → f.instructionsFor s = [])) ∧
            ∀ id : InstructionId, id.index < f.graph.size → id ≠ f.entry → id ≠ f.exit →
              ∃ y, (f.graph.instruction id).element = some y ∧
                (Lowering.tree source root).Owns owner y) ∧
    ∀ s, ((Lowering.tree source root).kind s).isStatement = true →
      ∃ owner ∈ (Lowering.tree source root).owners, (Lowering.tree source root).Owns owner s ∧
        ∀ o ∈ (Lowering.tree source root).owners, (Lowering.tree source root).Owns o s → o = owner := by
  have hg := Lowering.tree_grammatical source root
  have hslots := Lowering.tree_slotted source root
  constructor
  · intro c cancel hc owner ho hcut
    have howner : ((Lowering.tree source root).kind owner).isOwner = true := (List.mem_filter.1 ho).2
    obtain ⟨f, hf, hd, htruncated⟩ :=
      Sketch.build_describes hg.ordered c hc (SyntaxTree.lt_of_mem_owners ho)
    rw [htruncated, List.reverse_eq_nil_iff] at hcut
    refine ⟨f, hf, fun s hs => ⟨hd.one_instruction hg howner hs hslots hone hcut,
      hd.no_instruction hg howner⟩, fun id hid hentry hexit => ?_⟩
    obtain ⟨y, hy⟩ := hd.element_between hg hid hentry hexit
    exact ⟨y, hy, hd.owned hg howner hy⟩
  · intro s hs
    have hin : (Lowering.tree source root).Inside s SyntaxTree.root := by
      refine ⟨Lowering.below_root source root (SyntaxTree.index_lt_size_of_id (SyntaxTree.mem_ids_of_statement hs)), ?_⟩
      rintro rfl
      rw [Lowering.kind_root] at hs
      cases hs
    obtain ⟨owner, ho, hown⟩ :=
      SyntaxTree.exists_owner hg.ordered (by rw [Lowering.kind_root]; rfl) hin
    refine ⟨owner, ho, hown, fun o ho' hown' => ?_⟩
    exact hown'.unique hg.ordered hown (List.mem_filter.1 ho').2 (List.mem_filter.1 ho).2

/-- The concrete tree of a module in which `def f` holds a `pass`, without its positions. -/
def nestedDefinition : Concrete :=
  .node "module" true none default
    [.node "function_definition" true none default
      [.node "block" true (some "body") default [.node "pass_statement" true none default []]]]

theorem nested_definition_partitioned :
    ∃ f, (buildOwner (Lowering.tree "" nestedDefinition) .standard none ⟨0⟩).outcome = .ok f ∧
      (∃ id, f.instructionsFor ⟨1⟩ = [id]) ∧ f.instructionsFor ⟨3⟩ = [] := by
  have hone : (Lowering.tree "" nestedDefinition).SingleClauses :=
    ⟨by decide +kernel, by decide +kernel⟩
  obtain ⟨f, hf, hstatements, -⟩ := (statements_partitioned "" nestedDefinition hone).1 .standard none
    (by decide) ⟨0⟩ (by decide +kernel) (by decide +kernel)
  have hdef := hstatements ⟨1⟩ (by decide +kernel)
  have hpass := hstatements ⟨3⟩ (by decide +kernel)
  have ho := (Lowering.tree_grammatical "" nestedDefinition).ordered
  refine ⟨f, hf, hdef.1 (owns_of_child ho (by decide +kernel)), hpass.2 fun hown => ?_⟩
  have hfn := hown.2 ⟨1⟩ (by decide +kernel) (by decide +kernel)
  revert hfn
  decide +kernel

end PythonFlow
