import PythonFlow.Proofs.Graph.Search
import PythonFlow.Proofs.Reach.Visit
import PythonFlow.Proofs.Sketch.Faithful

/-!
# Every instruction reaches the exit

When the visit of an owner is over, no loop is open, and flow has yet to go on only from where the exit
lands. So every instruction leads to the exit, whether or not the entry leads to it, and at every
depth. The list of dangling instructions is therefore empty.
-/

set_option autoImplicit false

namespace PythonFlow

namespace Sketch
variable {t : SyntaxTree} {depth : Nat} {owner : NodeId}

/-- No header is there yet to which a `continue` could go back. -/
theorem promised_opening (t : SyntaxTree) (s : NodeId) (P : InstructionId → Prop) :
    Promised t s (opening t) P := by
  intro c l h _ _ _ _ hlatest
  have hel := (latest_some hlatest).2
  rw [element_opening] at hel
  cases hel

theorem alive_interior (hg : t.Grammatical) (depth : Nat) (owner : NodeId) :
    Alive 1 (interior t depth owner) fun _ => False := by
  have hsize : (opening t).size = 1 := size_place blank t none .plain
  have hf := fresh_opening t owner
  have hp := promised_opening t owner fun _ => False
  rw [← hsize]
  unfold interior visitOwner
  split
  · next ho =>
    have hopen := open_of_owner ho
    exact alive_children hg ⟨fun c _ => grows_visit hg depth c, fun c _ => steady_visit hg depth c,
      fun c _ => reaches_visit hg depth c⟩ hf hp hopen.1 (hg.ordered.children_nodup owner)
      (fun _ h => h) hopen
  · exact reaches_visit hg depth owner _ _ hf hp

/-- Where flow has yet to go on, the exit lands. -/
theorem edge_exit {x : InstructionId} (h : (interior t depth owner).Loose x) :
    (build t depth owner).Edge x (interior t depth owner).next := by
  refine (edge_place _ t none .plain x _).2 (.inr ⟨(mem_arrivals _ t none x).2 ?_, rfl⟩)
  rcases h with h | ⟨e, he, hsource⟩
  · exact .inl h
  · exact .inr ⟨e, he, rfl, hsource⟩

theorem later_build (t : SyntaxTree) (depth : Nat) (owner : NodeId) :
    Later (interior t depth owner) (build t depth owner) := (Later.refl _).place none .plain

/-- The entry lands on the exit, or on the first instruction of the owner. -/
theorem walk_from_entry (hg : t.Grammatical) (depth : Nat) (owner : NodeId) :
    (interior t depth owner).Loose ⟨0⟩ ∨
      1 < (interior t depth owner).size ∧ (interior t depth owner).Edge ⟨0⟩ ⟨1⟩ := by
  rcases visited_owner hg depth owner with heq | ⟨hG, -⟩
  · rw [heq]
    exact .inl (.inl rfl)
  · have hentry : (⟨0⟩ : InstructionId) ∈ (opening t).arrivals t (some owner) :=
      (mem_arrivals _ t (some owner) _).2 (.inl rfl)
    have hsize : (opening t).size = 1 := size_place blank t none .plain
    have hlt := hG.size_lt
    rw [hsize] at hlt
    have hedge := hG.entered _ hentry
    rw [next, hsize] at hedge
    exact .inr ⟨hlt, hedge⟩

theorem walk_to_exit (hg : t.Grammatical) {x : InstructionId}
    (hx : x.index < (build t depth owner).size) :
    (build t depth owner).Walk x (interior t depth owner).next := by
  have hinner : ∀ y : InstructionId, 1 ≤ y.index → y.index < (interior t depth owner).size →
      (build t depth owner).Walk y (interior t depth owner).next := by
    intro y hy hlt
    obtain ⟨z, hwalk, hz | ⟨-, hz⟩⟩ := alive_interior hg depth owner y hy hlt
    · exact hz.elim
    · exact Relation.ReflTransGen.tail (hwalk.later (later_build t depth owner)) (edge_exit hz)
  by_cases hzero : x.index = 0
  · obtain rfl : x = ⟨0⟩ := congrArg InstructionId.mk hzero
    rcases walk_from_entry hg depth owner with h | ⟨hlt, hedge⟩
    · exact walk_edge (edge_exit h)
    · exact Relation.ReflTransGen.head ((later_build t depth owner).edge hedge)
        (hinner ⟨1⟩ (Nat.le_refl _) hlt)
  · rw [build, size_place] at hx
    by_cases hlt : x.index < (interior t depth owner).size
    · exact hinner x (Nat.one_le_iff_ne_zero.2 hzero) hlt
    · obtain rfl : x = (interior t depth owner).next := congrArg InstructionId.mk (by omega)
      exact walk_refl _ _

section describes
variable {f : ControlFlow} (h : Describes t depth owner f)
include h

theorem Describes.path_of_walk {a b : InstructionId} (hw : (build t depth owner).Walk a b) :
    ∃ p, Path f.graph.Edge a p b :=
  Path.of_walk (Relation.ReflTransGen.mono (fun x y hxy => (h.edge_iff x y).2 hxy) a b hw)

theorem Describes.edge_eq : f.graph.Edge = (build t depth owner).Edge := by
  funext a b
  exact propext (h.edge_iff a b)

theorem Describes.closed : f.graph.Closed := fun e he => by
  rw [h.size_eq]
  exact (h.in_range.edge e.1 e.2 ((h.edge_iff e.1 e.2).1 (InstructionGraph.mem_edges.1 he))).2

theorem Describes.dangling_nil (hg : t.Grammatical) : f.dangling = [] := by
  have hn := InstructionGraph.neighbours_enumerates h.closed
  refine List.eq_nil_iff_forall_not_mem.2 fun x hx => ?_
  obtain ⟨hreach, hstuck⟩ := (Neighbours.mem_dangling hn h.closed x).1 hx
  have hlt := ((Neighbours.mem_reachable hn h.closed x).1 hreach).1
  rw [h.edge_eq, h.exit] at hstuck
  exact hstuck (walk_to_exit hg (h.size_eq ▸ hlt))

/-- What is reachable is reached by a walk in the sketch. -/
theorem Describes.mem_reachable (id : InstructionId) (hid : id.index < f.graph.size) :
    id ∈ f.reachable ↔ (build t depth owner).Walk ⟨0⟩ id := by
  have hn := InstructionGraph.neighbours_enumerates h.closed
  refine (Neighbours.mem_reachable hn h.closed id).trans ?_
  rw [and_iff_right hid, h.edge_eq, h.entry]
  rfl

theorem Describes.exit_reachable (hg : t.Grammatical) : f.exit ∈ f.reachable := by
  rw [h.mem_reachable f.exit h.exit_lt, h.exit]
  exact walk_to_exit hg (Nat.lt_of_le_of_lt (Nat.zero_le _) (h.size_eq ▸ h.exit_lt))

end describes
end Sketch

/-- From every instruction of every graph a path leads to the exit, at every depth. -/
theorem every_instruction_reaches_exit (source : String) (root : Concrete) (c : Config)
    {cancel : Option Bool} (hc : cancel ≠ some true) {owner : NodeId}
    (ho : owner ∈ (Lowering.tree source root).owners) :
    ∃ f, (buildOwner (Lowering.tree source root) c cancel owner).outcome = .ok f ∧
      (∀ x : InstructionId, x.index < f.graph.size → ∃ p, Path f.graph.Edge x p f.exit) ∧
      f.dangling = [] ∧ f.exit ∈ f.reachable := by
  have hg := Lowering.tree_grammatical source root
  obtain ⟨f, hf, hd, -⟩ := Sketch.build_describes hg.ordered c hc (SyntaxTree.lt_of_mem_owners ho)
  refine ⟨f, hf, fun x hx => ?_, hd.dangling_nil hg, hd.exit_reachable hg⟩
  rw [hd.exit]
  exact hd.path_of_walk (Sketch.walk_to_exit hg (hd.size_eq ▸ hx))

/-- The concrete tree of `while x: break`, without its positions. -/
def breakLoop : Concrete :=
  .node "module" true none default
    [.node "while_statement" true none default
      [.node "identifier" true (some "condition") default [],
        .node "block" true (some "body") default [.node "break_statement" true none default []]]]

theorem break_loop_reaches_exit :
    ∃ f, (buildOwner (Lowering.tree "" breakLoop) .standard none ⟨0⟩).outcome = .ok f ∧
      (∀ x : InstructionId, x.index < f.graph.size → ∃ p, Path f.graph.Edge x p f.exit) ∧
      f.dangling = [] ∧ f.exit ∈ f.reachable :=
  every_instruction_reaches_exit "" breakLoop .standard (by decide) (by decide)

end PythonFlow
