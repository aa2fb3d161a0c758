import PythonFlow.Proofs.Graph.Construction
import PythonFlow.Proofs.Locality.Rules

/-!
# The graph of an owner is its own

Two owners whose parts are alike get the same graph, up to the names of the nodes: the instructions stand
in the same order, with the images of their nodes and conditions, and are linked alike. The part of an
owner ends at the definitions and lambdas in it, so neither their code nor the code around the owner can
be told from the graph. It does not end at a module: a visit goes on into a module that is not the owner.
-/

set_option autoImplicit false

namespace PythonFlow

def Instruction.renamed (φ : NodeId → NodeId) (i : Instruction) : Instruction :=
  { i with element := i.element.map φ, kind := i.kind.renamed φ }

def InstructionGraph.renamed (φ : NodeId → NodeId) (g : InstructionGraph) : InstructionGraph where
  instructions := g.instructions.map (Instruction.renamed φ)
  byElement := .ofList (g.instructions.map (Instruction.renamed φ)).toList
  edgeCount := g.edgeCount
  numbered k h := by
    rw [Array.getElem_map]
    exact g.numbered k (Array.size_map ▸ h)
  indexed := rfl

def ControlFlow.renamed (φ : NodeId → NodeId) (owner : NodeId) (f : ControlFlow) : ControlFlow :=
  { f with owner := owner, graph := f.graph.renamed φ }

namespace InstructionGraph

/-- A tidy graph is known from its labels and its edges. -/
theorem Tidy.eq_renamed {φ : NodeId → NodeId} {g g' : InstructionGraph} (h : g.Tidy) (h' : g'.Tidy)
    (hlabels : g'.labels = g.labels.map fun l => (l.1.map φ, l.2.renamed φ))
    (hsuccessors : ∀ a, g'.successors a = g.successors a)
    (hpredecessors : ∀ b, g'.predecessors b = g.predecessors b) : g' = g.renamed φ := by
  have hsize : g'.size = g.size := by
    rw [← length_labels, hlabels, List.length_map, length_labels]
  have hcount : g'.edgeCount = g.edgeCount := by
    rw [h'.counted, h.counted, edges_eq, edges_eq, hsize]
    have hfrom : g'.edgesFrom = g.edgesFrom := by
      funext i
      rw [edgesFrom, hsuccessors, edgesFrom]
    rw [hfrom]
  have hinstruction : ∀ (i : Nat) (hi : i < g.instructions.size) (hi' : i < g'.instructions.size),
      g'.instructions[i] = (g.instructions[i]).renamed φ := by
    intro i hi hi'
    have hid := (g'.numbered i hi').trans (g.numbered i hi).symm
    have hlabel := congrArg (·[i]?) hlabels
    have hs := hsuccessors ⟨i⟩
    have hp := hpredecessors ⟨i⟩
    simp only [labels, List.getElem?_map, Array.getElem?_toList, Array.getElem?_eq_getElem hi,
      Array.getElem?_eq_getElem hi', Option.map_some, Option.some.injEq, Prod.mk.injEq] at hlabel
    simp only [successors, predecessors, instruction, Array.getD, hi, hi', dif_pos] at hs hp
    cases hlast : g'.instructions[i] with
    | mk id element kind predecessors successors => simp_all [Instruction.renamed]
  have hinstructions : g'.instructions = g.instructions.map (Instruction.renamed φ) := by
    refine Array.ext (by rw [Array.size_map]; exact hsize) fun i hi' hi => ?_
    rw [Array.size_map] at hi
    rw [Array.getElem_map]
    exact hinstruction i hi hi'
  have hindex : g'.byElement = (g.renamed φ).byElement := by
    rw [g'.indexed, hinstructions]
    rfl
  cases g'
  simp_all [renamed]

end InstructionGraph

/-- Owners with the same part, up to a renaming, have the same graph, up to the same renaming, and as many
records of truncated subtrees: what surrounds them and what stands in the definitions and lambdas of their
code plays no part, and neither do spans and texts. -/
theorem graph_local {t t' : SyntaxTree} (ho : t.Ordered) (ho' : t'.Ordered) {owner owner' : NodeId}
    (hin : owner.index < t.size) (hin' : owner'.index < t'.size)
    (howner : (t.kind owner).isOwner = true) (howner' : (t'.kind owner').isOwner = true)
    {φ : NodeId → NodeId} (halike : t.Alike t' SyntaxKind.isSealed owner owner' φ) (c : Config)
    {cancel : Option Bool} (hc : cancel ≠ some true) :
    ∃ f, (buildOwner t c cancel owner).outcome = .ok f ∧
      (buildOwner t' c cancel owner').outcome = .ok (f.renamed φ owner') ∧
      (buildOwner t' c cancel owner').truncated = (buildOwner t c cancel owner).truncated.map φ := by
  have hbuild := Sketch.build_renamed ⟨halike, ho, ho', howner, howner'⟩ c.depth
  obtain ⟨f, hf, hd, htruncated⟩ := Sketch.build_describes ho c hc hin
  obtain ⟨f', hf', hd', htruncated'⟩ := Sketch.build_describes ho' c hc hin'
  obtain ⟨-, htidy⟩ := tidy_of_build t (Visit.tidies_owner (Setting.ofConfig t c cancel) owner) hf
  obtain ⟨hname, htidy'⟩ := tidy_of_build t' (Visit.tidies_owner (Setting.ofConfig t' c cancel) owner') hf'
  have hgraph : f'.graph = f.graph.renamed φ := by
    refine htidy.eq_renamed htidy' ?_ (fun a => ?_) fun b => ?_
    · rw [hd'.labels, hbuild, hd.labels]
      rfl
    · rw [hd'.successors, hbuild, hd.successors]
      rfl
    · rw [hd'.predecessors, hbuild, hd.predecessors]
      rfl
  have hexit : f'.exit = f.exit := by
    have hsize := congrArg Sketch.size hbuild
    rw [Sketch.size_renamed, Sketch.build, Sketch.build, Sketch.size_place, Sketch.size_place] at hsize
    rw [hd'.exit, hd.exit, Sketch.next, Sketch.next, Nat.succ.inj hsize]
  have hwhole : f' = f.renamed φ owner' := by
    have hentry : f'.entry = f.entry := hd'.entry.trans hd.entry.symm
    cases f'
    simp_all [ControlFlow.renamed]
  refine ⟨f, hf, hwhole ▸ hf', ?_⟩
  rw [htruncated', htruncated, hbuild, List.map_reverse]
  rfl

def methodTree : SyntaxTree :=
  let root := SyntaxTree.singleton .module .zero
  let before := (root.push ⟨0⟩ .statement .plain .zero).1
  let around := (before.push ⟨0⟩ .classDef .plain .zero).1
  let owner := (around.push ⟨2⟩ .functionDef .plain .zero).1
  let code := (owner.push ⟨3⟩ .statement .plain .zero).1
  (code.push ⟨4⟩ .lambda .plain .zero).1

def functionTree : SyntaxTree :=
  let root := SyntaxTree.singleton .module .zero
  let owner := (root.push ⟨0⟩ .functionDef .plain .zero).1
  let code := (owner.push ⟨1⟩ .statement .plain .zero).1
  let nested := (code.push ⟨2⟩ .lambda .plain .zero).1
  (nested.push ⟨3⟩ .expression .plain .zero).1

theorem function_graph_local :
    let φ : NodeId → NodeId := fun x => ⟨x.index + 2⟩
    functionTree.Alike methodTree SyntaxKind.isSealed ⟨1⟩ ⟨3⟩ φ ∧
      ∃ f, (buildOwner functionTree .standard none ⟨1⟩).outcome = .ok f ∧
        (buildOwner methodTree .standard none ⟨3⟩).outcome = .ok (f.renamed φ ⟨3⟩) ∧
        (buildOwner methodTree .standard none ⟨3⟩).truncated =
          (buildOwner functionTree .standard none ⟨1⟩).truncated.map φ := by
  intro φ
  have ho : functionTree.Ordered := SyntaxTree.Pushed.ordered <|
    .push (.push (.push (.push (.singleton .module .zero) (by decide) .functionDef .plain .zero) (by decide)
      .statement .plain .zero) (by decide) .lambda .plain .zero) (by decide) .expression .plain .zero
  have ho' : methodTree.Ordered := SyntaxTree.Pushed.ordered <|
    .push (.push (.push (.push (.push (.singleton .module .zero) (by decide) .statement .plain .zero)
      (by decide) .classDef .plain .zero) (by decide) .functionDef .plain .zero) (by decide)
      .statement .plain .zero) (by decide) .lambda .plain .zero
  have hpart : ∀ x, functionTree.PartOf SyntaxKind.isSealed ⟨1⟩ x → x = ⟨2⟩ ∨ x = ⟨3⟩ := by
    intro x hx
    refine SyntaxTree.part_induction ho x hx (fun c hc => ?_) fun p _ hopen hp c hc => ?_
    · have hchildren : functionTree.children ⟨1⟩ = [⟨2⟩] := by decide
      rw [hchildren] at hc
      exact .inl (List.mem_singleton.1 hc)
    · rcases hp with rfl | rfl
      · have hchildren : functionTree.children ⟨2⟩ = [⟨3⟩] := by decide
        rw [hchildren] at hc
        exact .inr (List.mem_singleton.1 hc)
      · exact absurd hopen (by decide)
  have halike : functionTree.Alike methodTree SyntaxKind.isSealed ⟨1⟩ ⟨3⟩ φ := by
    refine ⟨by decide, fun p hp hopen => ?_, fun x hx => ?_, fun x hx => ?_, fun x hx => ?_⟩
    · rcases hpart p hp with rfl | rfl
      · decide
      · exact absurd hopen (by decide)
    all_goals rcases hpart x hx with rfl | rfl <;> decide
  exact ⟨halike, graph_local ho ho' (by decide) (by decide) (by decide) (by decide) halike .standard
    (by decide)⟩

def nestedModule : SyntaxTree :=
  ((SyntaxTree.singleton .module .zero).push ⟨0⟩ .module .plain .zero).1

def nestedStatement : SyntaxTree := (nestedModule.push ⟨1⟩ .statement .plain .zero).1

/-- The part of a module does not end at a module in it: if it did, these two graphs would be the same. -/
theorem inner_module_shows :
    nestedModule.Ordered ∧ nestedStatement.Ordered ∧
      nestedModule.Alike nestedStatement SyntaxKind.isOwner ⟨0⟩ ⟨0⟩ id ∧
      ∃ f f', (buildOwner nestedModule .standard none ⟨0⟩).outcome = .ok f ∧
        (buildOwner nestedStatement .standard none ⟨0⟩).outcome = .ok f' ∧
        f.graph.size = 2 ∧ f'.graph.size = 3 := by
  have ho : nestedModule.Ordered := SyntaxTree.Pushed.ordered <|
    .push (.singleton .module .zero) (by decide) .module .plain .zero
  have ho' : nestedStatement.Ordered := SyntaxTree.Pushed.ordered <|
    .push (.push (.singleton .module .zero) (by decide) .module .plain .zero) (by decide)
      .statement .plain .zero
  have hpart : ∀ x, nestedModule.PartOf SyntaxKind.isOwner ⟨0⟩ x → x = ⟨1⟩ := by
    intro x hx
    refine SyntaxTree.part_induction ho x hx (fun c hc => ?_) fun p _ hopen hp c _ => ?_
    · have hchildren : nestedModule.children ⟨0⟩ = [⟨1⟩] := by decide
      rw [hchildren] at hc
      exact List.mem_singleton.1 hc
    · subst hp
      exact absurd hopen (by decide)
  have halike : nestedModule.Alike nestedStatement SyntaxKind.isOwner ⟨0⟩ ⟨0⟩ id := by
    refine ⟨by decide, fun p hp hopen => ?_, fun x hx => ?_, fun x hx => ?_, fun x hx => ?_⟩
    · obtain rfl := hpart p hp
      exact absurd hopen (by decide)
    all_goals
      obtain rfl := hpart x hx
      decide
  have hfree : (none : Option Bool) ≠ some true := by simp
  have hin : (⟨0⟩ : NodeId).index < nestedModule.size := by decide
  have hin' : (⟨0⟩ : NodeId).index < nestedStatement.size := by decide
  obtain ⟨f, hf, hd, -⟩ := Sketch.build_describes ho .standard hfree hin
  obtain ⟨f', hf', hd', -⟩ := Sketch.build_describes ho' .standard hfree hin'
  refine ⟨ho, ho', halike, f, f', hf, hf', ?_, ?_⟩
  · rw [hd.size_eq]
    decide
  · rw [hd'.size_eq]
    decide

end PythonFlow
