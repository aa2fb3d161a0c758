import PythonFlow.Flow.Graph
import Mathlib.Logic.Relation

/-!
# Edges of a graph

`Edge` is read off the successor lists alone. Creation adds no edge and addition within range adds
exactly one, on both of its ends; neither changes what an instruction was created for. A `Path` lists
the instructions that it passes, both ends included.
-/

set_option autoImplicit false

namespace PythonFlow

inductive Path (next : InstructionId → InstructionId → Prop) :
    InstructionId → List InstructionId → InstructionId → Prop
  | here (a : InstructionId) : Path next a [a] a
  | step {a b c : InstructionId} {p : List InstructionId} (h : next a b) (rest : Path next b p c) :
      Path next a (a :: p) c

namespace Path
variable {next : InstructionId → InstructionId → Prop} {a b c : InstructionId}
  {p q : List InstructionId}

theorem of_walk (h : Relation.ReflTransGen next a c) : ∃ p, Path next a p c := by
  induction h using Relation.ReflTransGen.head_induction_on with
  | refl => exact ⟨_, .here c⟩
  | head hab _ ih =>
    obtain ⟨p, hp⟩ := ih
    exact ⟨_, .step hab hp⟩

theorem walk (hp : Path next a p c) : Relation.ReflTransGen next a c := by
  induction hp with
  | here a => exact .refl
  | step hab _ ih => exact .head hab ih

theorem exists_iff : (∃ p, Path next a p c) ↔ Relation.ReflTransGen next a c :=
  ⟨fun ⟨_, hp⟩ => hp.walk, of_walk⟩

end Path

namespace InstructionGraph

theorem mem_positions {g : InstructionGraph} {x : InstructionId} :
    x ∈ g.positions ↔ x.index < g.size := by
  constructor
  · intro h
    obtain ⟨i, hi, rfl⟩ := List.mem_map.1 h
    exact List.mem_range.1 hi
  · exact fun h => List.mem_map.2 ⟨x.index, List.mem_range.2 h, rfl⟩

theorem positions_ascending (g : InstructionGraph) :
    g.positions.Pairwise fun a b => a.index < b.index :=
  List.pairwise_map.2 List.pairwise_lt_range

/-- An instruction carries the number of the place where it stands. -/
theorem id_instruction {g : InstructionGraph} {x : InstructionId} (hx : x.index < g.size) :
    (g.instruction x).id = x := by
  have hin : x.index < g.instructions.size := hx
  rw [instruction, Array.getD, dif_pos hin]
  exact g.numbered x.index hin

/-- The instructions are what stands at their places, in this order. -/
theorem instructions_eq (g : InstructionGraph) :
    g.instructions.toList = g.positions.map g.instruction := by
  refine List.ext_getElem (by simp [positions, size]) fun i hi _ => ?_
  have hin : i < g.instructions.size := hi
  simp [positions, instruction, Array.getD, hin]

theorem ids_eq (g : InstructionGraph) : g.ids = g.positions := by
  rw [ids, instructions_eq, List.map_map]
  refine (List.map_congr_left fun x hx => ?_).trans (List.map_id g.positions)
  exact id_instruction (mem_positions.1 hx)

theorem mem_ids {g : InstructionGraph} {x : InstructionId} : x ∈ g.ids ↔ x.index < g.size := by
  rw [ids_eq, mem_positions]

theorem ids_ascending (g : InstructionGraph) : g.ids.Pairwise fun a b => a.index < b.index := by
  rw [ids_eq]
  exact g.positions_ascending

theorem mem_instructions {g : InstructionGraph} {i : Instruction} : i ∈ g.instructions.toList ↔
    ∃ x : InstructionId, x.index < g.size ∧ g.instruction x = i := by
  rw [instructions_eq, List.mem_map]
  exact exists_congr fun x => and_congr_left fun _ => mem_positions

/-- The edges are those that lead from the places of the instructions. -/
theorem edges_by_source (g : InstructionGraph) :
    g.edges = g.ids.flatMap fun id => (g.successors id).map fun target => (id, target) := by
  rw [ids_eq, edges, instructions_eq, List.flatMap_map]
  refine congrArg List.flatten (List.map_congr_left fun x hx => ?_)
  rw [id_instruction (mem_positions.1 hx), successors]

def Edge (g : InstructionGraph) (a b : InstructionId) : Prop := b ∈ g.successors a

def labels (g : InstructionGraph) : List (Option NodeId × InstructionKind) :=
  g.instructions.toList.map fun i => (i.element, i.kind)

theorem length_labels (g : InstructionGraph) : g.labels.length = g.size := by
  simp [labels, size]

theorem element_eq (g : InstructionGraph) (id : InstructionId) :
    (g.instruction id).element = (g.labels[id.index]?).bind Prod.fst := by
  simp only [instruction, labels, List.getElem?_map, Array.getElem?_toList,
    Array.getD_eq_getD_getElem?]
  cases g.instructions[id.index]? <;> simp [Instruction.blank]

theorem successors_out {g : InstructionGraph} {id : InstructionId} (h : ¬ id.index < g.size) :
    g.successors id = [] := by
  have hnone : g.instructions[id.index]? = none := Array.getElem?_eq_none (Nat.le_of_not_lt h)
  simp [successors, instruction, Array.getD_eq_getD_getElem?, hnone, Instruction.blank]

theorem lt_of_predecessor {g : InstructionGraph} {a b : InstructionId} (h : a ∈ g.predecessors b) :
    b.index < g.size :=
  Decidable.byContradiction fun hout => by
    have hnone : g.instructions[b.index]? = none := Array.getElem?_eq_none (Nat.le_of_not_lt hout)
    simp [predecessors, instruction, Array.getD_eq_getD_getElem?, hnone, Instruction.blank] at h

section create
variable (g : InstructionGraph) (e : Option NodeId) (k : InstructionKind)

theorem labels_create : (g.create e k).1.labels = g.labels ++ [(e, k)] := by
  simp [labels, create]

theorem instruction_create (id : InstructionId) (h : id.index ≠ g.size) :
    (g.create e k).1.instruction id = g.instruction id := by
  have hne : id.index ≠ g.instructions.size := h
  simp [instruction, create, Array.getD_eq_getD_getElem?, Array.getElem?_push, hne]

theorem successors_create (id : InstructionId) :
    (g.create e k).1.successors id = g.successors id := by
  by_cases h : id.index = g.size
  · have hsize : id.index = g.instructions.size := h
    simp [successors, instruction, create, Array.getD_eq_getD_getElem?, hsize, Instruction.blank]
  · simp [successors, instruction_create g e k id h]

theorem predecessors_create (id : InstructionId) :
    (g.create e k).1.predecessors id = g.predecessors id := by
  by_cases h : id.index = g.size
  · have hsize : id.index = g.instructions.size := h
    simp [predecessors, instruction, create, Array.getD_eq_getD_getElem?, hsize, Instruction.blank]
  · simp [predecessors, instruction_create g e k id h]

end create

section modify
variable {g : InstructionGraph} {id : InstructionId} {f : Instruction → Instruction}
  {hid : ∀ i, (f i).id = i.id} {helement : ∀ i, (f i).element = i.element}

theorem labels_modify (hkind : ∀ i, (f i).kind = i.kind) :
    (g.modify id f hid helement).labels = g.labels := by
  refine List.ext_getElem? fun j => ?_
  simp only [labels, modify, List.getElem?_map, Array.toList_modify, List.getElem?_modify]
  by_cases hij : id.index = j
  · cases g.instructions.toList[j]? <;> simp [hij, helement, hkind]
  · simp [hij]

theorem instruction_modify (h : id.index < g.size) (id' : InstructionId) :
    (g.modify id f hid helement).instruction id' =
      if id' = id then f (g.instruction id) else g.instruction id' := by
  have hlt : id.index < g.instructions.size := h
  by_cases heq : id' = id
  · subst heq
    simp [instruction, modify, Array.getD_eq_getD_getElem?, hlt, Array.getElem_modify]
  · have hne : id.index ≠ id'.index := fun hi => heq (by cases id; cases id'; simp_all)
    simp [instruction, modify, Array.getD_eq_getD_getElem?, Array.getElem?_modify, heq, hne]

end modify

section ends
variable {g : InstructionGraph} {a b : InstructionId}

theorem labels_add_successor : (g.addSuccessor a b).labels = g.labels :=
  labels_modify fun _ => rfl

theorem labels_add_predecessor : (g.addPredecessor a b).labels = g.labels :=
  labels_modify fun _ => rfl

theorem size_add_successor : (g.addSuccessor a b).size = g.size := by simp [addSuccessor, modify, size]

theorem successors_add_successor (ha : a.index < g.size) (x : InstructionId) :
    (g.addSuccessor a b).successors x = if x = a then g.successors x ++ [b] else g.successors x := by
  unfold addSuccessor successors
  rw [instruction_modify ha]
  by_cases h : x = a <;> simp [h]

theorem predecessors_add_successor (ha : a.index < g.size) (x : InstructionId) :
    (g.addSuccessor a b).predecessors x = g.predecessors x := by
  unfold addSuccessor predecessors
  rw [instruction_modify ha]
  by_cases h : x = a <;> simp [h]

theorem successors_add_predecessor (hb : b.index < g.size) (x : InstructionId) :
    (g.addPredecessor a b).successors x = g.successors x := by
  unfold addPredecessor successors
  rw [instruction_modify hb]
  by_cases h : x = b <;> simp [h]

theorem add_edge_of_lt (ha : a.index < g.size) (hb : b.index < g.size) :
    g.addEdge a b = if b ∈ g.successors a then (g, .ok false)
      else ({ (g.addSuccessor a b).addPredecessor a b with edgeCount := g.edgeCount + 1 },
        .ok true) := by
  simp only [addEdge, (require_ok g a).2 ha, (require_ok g b).2 hb, List.contains_iff_mem]

/-- An edge within range is added without a fault, and no instruction changes what it was made for. -/
theorem add_edge_ok (ha : a.index < g.size) (hb : b.index < g.size) :
    (∃ fresh, (g.addEdge a b).2 = .ok fresh) ∧ (g.addEdge a b).1.labels = g.labels := by
  rw [add_edge_of_lt ha hb]
  split
  · exact ⟨⟨false, rfl⟩, rfl⟩
  · exact ⟨⟨true, rfl⟩, labels_add_predecessor.trans labels_add_successor⟩

/-- A new edge is the last on either list. -/
theorem successors_add_edge (ha : a.index < g.size) (hb : b.index < g.size) (x : InstructionId) :
    (g.addEdge a b).1.successors x =
      if x = a ∧ b ∉ g.successors a then g.successors x ++ [b] else g.successors x := by
  rw [add_edge_of_lt ha hb]
  by_cases hc : b ∈ g.successors a
  · simp [hc]
  · have hb' : b.index < (g.addSuccessor a b).size := by rw [size_add_successor]; exact hb
    rw [if_neg hc]
    refine (successors_add_predecessor (a := a) hb' x).trans ?_
    rw [successors_add_successor ha]
    simp [hc]

theorem predecessors_add_edge (ha : a.index < g.size) (hb : b.index < g.size) (x : InstructionId) :
    (g.addEdge a b).1.predecessors x =
      if x = b ∧ b ∉ g.successors a then g.predecessors x ++ [a] else g.predecessors x := by
  rw [add_edge_of_lt ha hb]
  by_cases hc : b ∈ g.successors a
  · simp [hc]
  · have hb' : b.index < (g.addSuccessor a b).size := by rw [size_add_successor]; exact hb
    have hold := predecessors_add_successor (b := b) ha x
    rw [if_neg hc]
    change ((g.addSuccessor a b).addPredecessor a b).predecessors x = _
    unfold addPredecessor predecessors
    rw [instruction_modify hb']
    by_cases hx : x = b
    · subst hx
      rw [if_pos rfl, if_pos ⟨rfl, hc⟩]
      exact congrArg (· ++ [a]) hold
    · rw [if_neg hx, if_neg fun h => hx h.1]
      exact hold

end ends

end InstructionGraph

/-- The instructions for a node are found at their numbers. -/
theorem ControlFlow.instructions_for_eq (f : ControlFlow) (el : NodeId) : f.instructionsFor el =
    f.graph.ids.filter fun id => (f.graph.instruction id).element == some el := by
  rw [instructionsFor, InstructionGraph.ids_eq, InstructionGraph.instructions_eq, List.filter_map,
    List.map_map]
  refine (List.map_congr_left fun x hx => ?_).trans (List.map_id _)
  exact InstructionGraph.id_instruction (InstructionGraph.mem_positions.1 (List.mem_filter.1 hx).1)

end PythonFlow
