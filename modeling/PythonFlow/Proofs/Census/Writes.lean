import PythonFlow.Proofs.Census.Owner

/-!
# Bindings and write instructions

The writes of an owner's graph are one for each node that binds a name in the owner's code, and write
that name. A `for` loop binds its targets as a round of its body begins, so that those of a loop
without a body are bound nowhere.
-/

set_option autoImplicit false

namespace PythonFlow

def ControlFlow.writesFor (f : ControlFlow) (n : NodeId) : List InstructionId :=
  f.graph.ids.filter fun id => (f.graph.instruction id).element == some n &&
    (f.graph.instruction id).writtenName.isSome

theorem Instruction.written_name_eq (i : Instruction) : i.writtenName = i.kind.written := rfl

namespace SyntaxTree

def Drops (t : SyntaxTree) (owner x : NodeId) : Prop := ∃ l, t.Owns owner l ∧ t.Loses l x

end SyntaxTree

namespace Sketch
variable {t : SyntaxTree} {depth : Nat} {owner n : NodeId} {f : ControlFlow}

section owned
variable (h : Describes t depth owner f)
include h

theorem Describes.length_writes (n : NodeId) :
    (f.writesFor n).length =
      (Gauge.seeing false fun y name => y == n && name.isSome).of (build t depth owner) := by
  rw [← h.count_labels, ControlFlow.writesFor, ← List.countP_eq_length_filter]
  refine List.countP_congr fun id _ => ?_
  cases (f.graph.instruction id).element <;>
    simp [Gauge.sees, Gauge.seeing, Instruction.written_name_eq]

variable (hg : t.Grammatical) (howner : (t.kind owner).isOwner = true)
include hg howner

theorem Describes.one_write (hslots : t.Slotted) (hone : t.SingleClauses)
    (hcut : (build t depth owner).truncated = []) (hown : t.Owns owner n)
    (hk : (t.kind n).isNaming = true) {name : String} (hn : t.name n = some name)
    (hkept : ¬ t.Drops owner n) : ∃ id, f.writesFor n = [id] := by
  have hopen : (t.kind n).isOpened = false := by
    revert hk
    cases t.kind n <;> simp [SyntaxKind.isNaming, SyntaxKind.isBinding, SyntaxKind.isOpened]
  apply List.length_eq_one_iff.1
  rw [h.length_writes, seen_once hg howner (fun y name hne => by simp [hne]) (.inr (by simp)) hslots hone
    hcut hown hopen fun l hl hloses => hkept ⟨l, hl, hloses⟩]
  rw [SyntaxTree.instances_named hk hn, Gauge.count_single]
  simp [Gauge.weight, Gauge.seeing]

theorem Describes.no_write (hdrops : t.Drops owner n) : f.writesFor n = [] := by
  have hsee : ∀ y (name : Option String), y ≠ n → (y == n && name.isSome) = false :=
    fun y name hne => by simp [hne]
  apply List.length_eq_zero_iff.1
  rw [h.length_writes]
  by_cases hown : t.Owns owner n
  · obtain ⟨l, hl, hloses⟩ := hdrops
    exact seen_lost hg howner hsee (.inr (by simp)) hl hloses hown
  · exact seen_none hg howner fun y hy => unseen_of_ne hsee fun heq => hown (heq ▸ hy)

open Classical in
/-- A write is for a node that the owner owns, and writes the name that the node binds. -/
theorem Describes.written {id : InstructionId} {name : String}
    (hid : (f.graph.instruction id).writtenName = some name) :
    ∃ n, (f.graph.instruction id).element = some n ∧ t.Owns owner n ∧
      (t.kind n).isNaming = true ∧ t.name n = some name := by
  rw [Instruction.written_name_eq] at hid
  let due (y : NodeId) (name : Option String) : Prop :=
    t.Owns owner y ∧ (t.kind y).isNaming = true ∧ t.name y = name
  have hnone : (Gauge.seeing true fun y name => name.isSome && decide ¬ due y name).of
      (build t depth owner) = 0 := by
    refine seen_none hg howner fun y hy => ⟨rfl, fun e he => ?_⟩
    rcases e with ⟨z, _ | written⟩
    · rfl
    · obtain ⟨rfl, hk, hn⟩ := SyntaxTree.instances_written he
      simp [due, hy, hk, hn]
  have hmem : id ∈ f.graph.ids := by
    refine InstructionGraph.mem_ids.2 ?_
    by_contra hout
    have hblank : f.graph.instruction id = .blank := by
      have hout' : ¬ id.index < f.graph.instructions.size := hout
      simp only [InstructionGraph.instruction, Array.getD, hout', dite_false]
    rw [hblank] at hid
    cases hid
  rw [← h.count_labels, List.countP_eq_zero] at hnone
  have hunseen := hnone id hmem
  cases hel : (f.graph.instruction id).element with
  | none => simp [hel, hid, Gauge.sees, Gauge.seeing] at hunseen
  | some n =>
    refine ⟨n, rfl, ?_⟩
    simpa [hel, hid, Gauge.sees, Gauge.seeing, due] using hunseen

theorem Describes.writes_for (hn : ∃ id, f.writesFor n = [id]) :
    ∃ id, f.writesFor n = [id] ∧ (f.graph.instruction id).writtenName = t.name n := by
  obtain ⟨id, hid⟩ := hn
  have hmem : id ∈ f.writesFor n := by simp [hid]
  simp only [ControlFlow.writesFor, List.mem_filter, Bool.and_eq_true, beq_iff_eq,
    Option.isSome_iff_exists] at hmem
  obtain ⟨-, hel, name, hname⟩ := hmem
  obtain ⟨y, hy, -, -, hyname⟩ := h.written hg howner hname
  obtain rfl : n = y := Option.some.inj (hel.symm.trans hy)
  exact ⟨id, hid, hname.trans hyname.symm⟩

end owned
end Sketch

/-- Where nothing was cut off, a node that binds a name in the code of an owner has one write in the
owner's graph, which writes that name; it has none if it stands in a target of a `for` loop without a
body. There are no other writes. -/
theorem writes_correspond_to_bindings (source : String) (root : Concrete) (c : Config)
    (hone : (Lowering.tree source root).SingleClauses) {cancel : Option Bool} (hc : cancel ≠ some true)
    {owner : NodeId} (ho : owner ∈ (Lowering.tree source root).owners)
    (hcut : (buildOwner (Lowering.tree source root) c cancel owner).truncated = []) :
    ∃ f, (buildOwner (Lowering.tree source root) c cancel owner).outcome = .ok f ∧
      (∀ n name, (Lowering.tree source root).Owns owner n →
        ((Lowering.tree source root).kind n).isNaming = true →
        (Lowering.tree source root).name n = some name →
        ¬ (Lowering.tree source root).Drops owner n →
          ∃ id, f.writesFor n = [id] ∧ (f.graph.instruction id).writtenName = some name) ∧
      (∀ n, (Lowering.tree source root).Drops owner n → f.writesFor n = []) ∧
      ∀ id name, (f.graph.instruction id).writtenName = some name →
        ∃ n, (f.graph.instruction id).element = some n ∧ (Lowering.tree source root).Owns owner n ∧
          ((Lowering.tree source root).kind n).isNaming = true ∧
          (Lowering.tree source root).name n = some name := by
  have hg := Lowering.tree_grammatical source root
  have hslots := Lowering.tree_slotted source root
  have howner : ((Lowering.tree source root).kind owner).isOwner = true := (List.mem_filter.1 ho).2
  obtain ⟨f, hf, hd, htruncated⟩ :=
    Sketch.build_describes hg.ordered c hc (SyntaxTree.lt_of_mem_owners ho)
  rw [htruncated, List.reverse_eq_nil_iff] at hcut
  refine ⟨f, hf, fun n name hown hk hn hkept => ?_, fun n => hd.no_write hg howner,
    fun id name => hd.written hg howner⟩
  rw [← hn]
  exact hd.writes_for hg howner (hd.one_write hg howner hslots hone hcut hown hk hn hkept)

/-- The concrete tree of `for x in y` without a body. -/
def bodilessLoop : Concrete :=
  .node "module" true none default
    [.node "for_statement" true none default
      [.node "identifier" true (some "left") ⟨⟨4, 0, 4⟩, ⟨5, 0, 5⟩⟩ [],
        .node "identifier" true (some "right") ⟨⟨9, 0, 9⟩, ⟨10, 0, 10⟩⟩ []]]

/-- The target of a loop without a body binds a name and has no write. -/
theorem bodiless_loop_writes_nothing :
    (Lowering.tree "for x in y" bodilessLoop).SingleClauses ∧
      (buildOwner (Lowering.tree "for x in y" bodilessLoop) .standard none ⟨0⟩).truncated = [] ∧
      (Lowering.tree "for x in y" bodilessLoop).Owns ⟨0⟩ ⟨3⟩ ∧
      ((Lowering.tree "for x in y" bodilessLoop).kind ⟨3⟩).isNaming = true ∧
      (Lowering.tree "for x in y" bodilessLoop).name ⟨3⟩ = some "x" ∧
      (buildOwner (Lowering.tree "for x in y" bodilessLoop) .standard none ⟨0⟩).outcome.map
        (fun f => f.writesFor ⟨3⟩) = .ok [] := by
  have ho := (Lowering.tree_grammatical "for x in y" bodilessLoop).ordered
  have hloop := owns_of_child ho (n := ⟨0⟩) (c := ⟨1⟩) (by decide +kernel)
  exact ⟨⟨by decide +kernel, by decide +kernel⟩, by decide +kernel,
    hloop.child ho (by decide +kernel) (by decide +kernel), by decide +kernel, by decide +kernel,
    by decide +kernel⟩

/-- An import, an assignment with another inside its value, a loop and a handler with a name. -/
def boundSource : String :=
  "import a\nb = (c := 1)\nfor d in e:\n    pass\ntry:\n    f\nexcept g as h:\n    pass\n"

def nameAt (field : Option String) (byte row col : Nat) : Concrete :=
  .node "identifier" true field ⟨⟨byte, row, col⟩, ⟨byte + 1, row, col + 1⟩⟩ []

def passing (field : Option String) : Concrete :=
  .node "block" true field default [.node "pass_statement" true none default []]

/-- The concrete tree of the source. Only the names have their positions. -/
def boundModule : Concrete :=
  .node "module" true none default
    [.node "import_statement" true none default
        [.node "dotted_name" true (some "name") default [nameAt none 7 0 7]],
      .node "expression_statement" true none default
        [.node "assignment" true none default
          [nameAt (some "left") 9 1 0,
            .node "parenthesized_expression" true (some "right") default
              [.node "named_expression" true none default
                [nameAt (some "name") 14 1 5, .node "integer" true (some "value") default []]]]],
      .node "for_statement" true none default
        [nameAt (some "left") 26 2 4, nameAt (some "right") 31 2 9, passing (some "body")],
      .node "try_statement" true none default
        [passing (some "body"),
          .node "except_clause" true none default
            [.node "as_pattern" true none default
                [nameAt none 61 6 7, .node "as" false none default [],
                  .node "as_pattern_target" true (some "alias") default [nameAt none 66 6 12]],
              passing none]]]

def boundTree : SyntaxTree := Lowering.tree boundSource boundModule

def boundNames : List (NodeId × String) := [(⟨2⟩, "a"), (⟨7⟩, "c"), (⟨8⟩, "b"), (⟨11⟩, "d"), (⟨21⟩, "h")]

theorem bound_owned {n : NodeId} (h : boundTree.Inside n ⟨0⟩) : boundTree.Owns ⟨0⟩ n := by
  refine ⟨h, fun m _ hm => ?_⟩
  by_cases hlt : m.index < boundTree.size
  · have hothers : ∀ i < boundTree.size, i ≠ 0 → (boundTree.kind ⟨i⟩).isOwner = false := by decide +kernel
    exact hothers m.index hlt fun hzero => hm.2 (congrArg NodeId.mk hzero)
  · rw [SyntaxTree.kind, SyntaxTree.node_of_size_le (Nat.le_of_not_lt hlt)]
    rfl

theorem bound_names_written :
    boundTree.SingleClauses ∧ (buildOwner boundTree .standard none ⟨0⟩).truncated = [] ∧
      ∃ f, (buildOwner boundTree .standard none ⟨0⟩).outcome = .ok f ∧
        ∀ b ∈ boundNames, ∃ id, f.writesFor b.1 = [id] ∧
          (f.graph.instruction id).writtenName = some b.2 := by
  have hsingle : boundTree.SingleClauses := ⟨by decide +kernel, by decide +kernel⟩
  have hcut : (buildOwner boundTree .standard none ⟨0⟩).truncated = [] := by decide +kernel
  have hc : (none : Option Bool) ≠ some true := by decide
  have howner : (⟨0⟩ : NodeId) ∈ boundTree.owners := by decide +kernel
  have hnames : ∀ b ∈ boundNames, boundTree.Inside b.1 ⟨0⟩ ∧ (boundTree.kind b.1).isNaming = true ∧
      boundTree.name b.1 = some b.2 := by decide +kernel
  have hbodies : ∀ l ∈ boundTree.ids, boundTree.kind l = .forLoop → boundTree.body l ≠ none := by
    decide +kernel
  obtain ⟨f, hf, hwrites, -⟩ := writes_correspond_to_bindings boundSource boundModule
    .standard hsingle hc howner hcut
  refine ⟨hsingle, hcut, f, hf, fun b hb => ?_⟩
  obtain ⟨hinside, hnaming, hname⟩ := hnames b hb
  refine hwrites b.1 b.2 (bound_owned hinside) hnaming hname ?_
  rintro ⟨l, -, hloop, hbody, -⟩
  have hstatement : (boundTree.kind l).isStatement = true := by
    rw [show boundTree.kind l = _ from hloop]
    rfl
  exact hbodies l (SyntaxTree.mem_ids_of_statement hstatement) hloop hbody

end PythonFlow
