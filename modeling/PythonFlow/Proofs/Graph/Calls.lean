import Mathlib.Algebra.GroupWithZero.Nat
import Mathlib.Data.List.Perm.Basic
import PythonFlow.Proofs.Graph.Search
import PythonFlow.Proofs.Graph.Tidy
import PythonFlow.Proofs.Sketch.Basic

/-!
# Graphs made by calls

A graph begins empty and grows by two calls, one that creates an instruction and one that adds an edge. What
it holds is told by the calls alone: the instructions in order of creation, on either side of an edge the
other ends in order of first addition, and how many different edges there are. So is every answer that a
call gives.
-/

set_option autoImplicit false

namespace PythonFlow.InstructionGraph

inductive Call where
  | create (element : Option NodeId) (kind : InstructionKind)
  | edge (source target : InstructionId)
deriving DecidableEq, Repr

inductive Answer where
  | created (id : InstructionId)
  | added (fresh : Bool)
deriving DecidableEq, Repr

def answer (g : InstructionGraph) : Call → InstructionGraph × Except Fault Answer
  | .create element kind => ((g.create element kind).1, .ok (.created (g.create element kind).2))
  | .edge source target => ((g.addEdge source target).1, (g.addEdge source target).2.map .added)

/-- Performs the calls in turn, as far as the first that meets a fault. -/
def perform (g : InstructionGraph) : List Call → Except Fault (InstructionGraph × List Answer)
  | [] => .ok (g, [])
  | call :: rest =>
    match g.answer call with
    | (_, .error e) => .error e
    | (g, .ok a) => (g.perform rest).map fun p => (p.1, a :: p.2)

namespace Call

/-- What the calls ask for, without a graph: the instructions created and the edges added, in order. -/
def sketch : List Call → Sketch
  | [] => .blank
  | create element kind :: rest => { sketch rest with made := (element, kind) :: (sketch rest).made }
  | edge source target :: rest => { sketch rest with edges := (source, target) :: (sketch rest).edges }

/-- The ends of every edge are among the instructions created before it, of which there are `size` to begin
with. -/
def inRange : Nat → List Call → Bool
  | _, [] => true
  | size, create _ _ :: rest => inRange (size + 1) rest
  | size, edge source target :: rest =>
    decide (source.index < size) && decide (target.index < size) && inRange size rest

/-- What a call answers after others: the number of instructions before a new one, and whether an edge was
never asked for before. -/
def expected (before : List Call) : Call → Answer
  | create _ _ => .created (sketch before).next
  | edge source target => .added (decide ((source, target) ∉ (sketch before).edges))

def answers : List Call → List Call → List Answer
  | _, [] => []
  | before, call :: rest => call.expected before :: answers (before ++ [call]) rest

theorem sketch_create (before : List Call) (element : Option NodeId) (kind : InstructionKind) :
    sketch (before ++ [create element kind]) =
      { sketch before with made := (sketch before).made ++ [(element, kind)] } := by
  induction before with
  | nil => rfl
  | cons call before ih => cases call <;> simp [sketch, ih]

theorem sketch_edge (before : List Call) (source target : InstructionId) :
    sketch (before ++ [edge source target]) = (sketch before).linked target [source] := by
  induction before with
  | nil => rfl
  | cons call before ih => cases call <;> simp [sketch, ih, Sketch.linked]

end Call

structure Recorded (g : InstructionGraph) (calls : List Call) : Prop where
  labels : g.labels = (Call.sketch calls).made
  successors : ∀ a, g.successors a = (Call.sketch calls).targets a
  predecessors : ∀ b, g.predecessors b = (Call.sketch calls).sources b
  tidy : g.Tidy

theorem recorded_empty : empty.Recorded [] := ⟨rfl, fun _ => rfl, fun _ => rfl, tidy_empty⟩

namespace Recorded
variable {g : InstructionGraph} {before : List Call} (h : g.Recorded before)
include h

theorem size_eq : g.size = (Call.sketch before).size := by
  rw [← g.length_labels, h.labels, Sketch.size]

theorem create (element : Option NodeId) (kind : InstructionKind) :
    (g.create element kind).1.Recorded (before ++ [.create element kind]) := by
  constructor
  · rw [labels_create, h.labels, Call.sketch_create]
  · intro a
    rw [successors_create, h.successors, Call.sketch_create]
    rfl
  · intro b
    rw [predecessors_create, h.predecessors, Call.sketch_create]
    rfl
  · exact h.tidy.create element kind

section edge
variable {a b : InstructionId} (ha : a.index < g.size) (hb : b.index < g.size)
include ha hb

theorem answer_edge : (g.addEdge a b).2 = .ok (decide ((a, b) ∉ (Call.sketch before).edges)) := by
  have hmem : b ∈ g.successors a ↔ (a, b) ∈ (Call.sketch before).edges := by
    rw [h.successors, Sketch.mem_targets]
    rfl
  rw [add_edge_of_lt ha hb]
  by_cases hc : b ∈ g.successors a
  · have hold := hmem.1 hc
    simp [hc, hold]
  · have hnew : (a, b) ∉ (Call.sketch before).edges := fun he => hc (hmem.2 he)
    simp [hc, hnew]

theorem edge : (g.addEdge a b).1.Recorded (before ++ [.edge a b]) := by
  constructor
  · rw [(add_edge_ok ha hb).2, h.labels, Call.sketch_edge]
    rfl
  · intro x
    rw [successors_add_edge ha hb, Call.sketch_edge, Sketch.targets_linked, h.successors, h.successors]
  · intro x
    rw [predecessors_add_edge ha hb, Call.sketch_edge, Sketch.sources_linked, h.successors,
      h.predecessors]
  · exact h.tidy.add_edge (h.answer_edge ha hb)

end edge

/-- One call within range answers what it should, and is recorded. -/
theorem step {call : Call} {rest : List Call} (hr : Call.inRange g.size (call :: rest) = true) :
    (g.answer call).2 = .ok (call.expected before) ∧
      (g.answer call).1.Recorded (before ++ [call]) ∧
      Call.inRange (g.answer call).1.size rest = true := by
  cases call with
  | create element kind =>
    refine ⟨?_, h.create element kind, ?_⟩
    · rw [Call.expected, Sketch.next, ← h.size_eq]
      rfl
    · show Call.inRange (g.create element kind).1.size rest = true
      rw [size_create]
      exact hr
  | edge a b =>
    simp only [Call.inRange, Bool.and_eq_true, decide_eq_true_eq] at hr
    obtain ⟨⟨ha, hb⟩, hrest⟩ := hr
    refine ⟨?_, h.edge ha hb, ?_⟩
    · show (g.addEdge a b).2.map Answer.added = _
      rw [h.answer_edge ha hb]
      rfl
    · show Call.inRange (g.addEdge a b).1.size rest = true
      rw [size_add_edge]
      exact hrest

theorem run {calls : List Call} (hr : Call.inRange g.size calls = true) :
    ∃ g', g.perform calls = .ok (g', Call.answers before calls) ∧ g'.Recorded (before ++ calls) := by
  induction calls generalizing g before with
  | nil => exact ⟨g, rfl, by rwa [List.append_nil]⟩
  | cons call rest ih =>
    obtain ⟨hanswer, hrecorded, hrest⟩ := h.step hr
    obtain ⟨g', hg', h'⟩ := ih hrecorded hrest
    refine ⟨g', ?_, by rwa [List.append_cons]⟩
    rw [perform, show g.answer call = ((g.answer call).1, .ok (call.expected before)) from
      Prod.ext rfl hanswer]
    simp only [hg']
    rfl

end Recorded

section counts
variable {g : InstructionGraph}

def backEdges (g : InstructionGraph) : List (InstructionId × InstructionId) :=
  g.instructions.toList.flatMap fun i => i.predecessors.map fun a => (a, i.id)

theorem back_edges_by_target (g : InstructionGraph) :
    g.backEdges = g.ids.flatMap fun b => (g.predecessors b).map fun a => (a, b) := by
  rw [ids_eq, backEdges, instructions_eq, List.flatMap_map]
  refine congrArg List.flatten (List.map_congr_left fun x hx => ?_)
  rw [id_instruction (mem_positions.1 hx), predecessors]

theorem nodup_tagged (g : InstructionGraph) {ends : InstructionId → List InstructionId}
    (tag : InstructionId → InstructionId → InstructionId × InstructionId)
    (hends : ∀ a, (ends a).Nodup) (htag : ∀ {a b c d}, tag a b = tag c d → a = c ∧ b = d) :
    (g.ids.flatMap fun a => (ends a).map (tag a)).Nodup := by
  refine List.nodup_flatMap.2 ⟨fun a _ => (hends a).map fun _ _ h => (htag h).2, ?_⟩
  refine g.ids_ascending.imp fun {a b} hab => ?_
  refine List.disjoint_left.2 fun e hea heb => ?_
  obtain ⟨x, -, rfl⟩ := List.mem_map.1 hea
  obtain ⟨y, -, hy⟩ := List.mem_map.1 heb
  exact absurd (congrArg InstructionId.index (htag hy).1.symm) (Nat.ne_of_lt hab)

/-- Both sides have the same edges. -/
theorem Tidy.edges_perm (h : g.Tidy) : g.edges.Perm g.backEdges := by
  have hnodup : g.edges.Nodup := by
    rw [edges_by_source]
    exact g.nodup_tagged (fun a b => (a, b)) h.successors_nodup fun heq => Prod.ext_iff.1 heq
  have hback : g.backEdges.Nodup := by
    rw [back_edges_by_target]
    exact g.nodup_tagged (fun b a => (a, b)) h.predecessors_nodup fun heq => (Prod.ext_iff.1 heq).symm
  refine (List.perm_ext_iff_of_nodup hnodup hback).2 fun ⟨a, b⟩ => ?_
  simp only [mem_edges, back_edges_by_target, List.mem_flatMap, List.mem_map, Prod.mk.injEq]
  constructor
  · intro he
    have hmem : a ∈ g.predecessors b := (h.mirrored a b).1 he
    exact ⟨b, mem_ids.2 (lt_of_predecessor hmem), a, hmem, rfl, rfl⟩
  · rintro ⟨id, -, x, hmem, rfl, rfl⟩
    exact (h.mirrored x id).2 hmem

theorem Tidy.count_successors (h : g.Tidy) :
    g.edgeCount = (g.instructions.toList.map fun i => i.successors.length).sum := by
  rw [h.counted]
  simp [edges, List.length_flatMap]

theorem Tidy.count_predecessors (h : g.Tidy) :
    g.edgeCount = (g.instructions.toList.map fun i => i.predecessors.length).sum := by
  rw [h.counted, h.edges_perm.length_eq]
  simp [backEdges, List.length_flatMap]

end counts

/-- After any sequence of calls whose ids are in range the answers and the graph are what the calls ask for.
Instruction `k` is the one that was created after `k` others, and it is stored with this number; an edge is
new if nobody asked for it before; every list has its members once, in order of first addition, and the two
sides of all edges agree; the count of the edges is the number of edges and the length of all lists of
either side; and the index finds for a node the last instruction that was created for it. -/
theorem calls_recorded (calls : List Call) (hr : Call.inRange 0 calls = true) :
    ∃ g, empty.perform calls = .ok (g, Call.answers [] calls) ∧
      g.labels = (Call.sketch calls).made ∧
      (∀ k (h : k < g.instructions.size), g.instructions[k].id = ⟨k⟩) ∧
      (∀ a, g.successors a = (Call.sketch calls).targets a ∧ (g.successors a).Nodup) ∧
      (∀ b, g.predecessors b = (Call.sketch calls).sources b ∧ (g.predecessors b).Nodup) ∧
      (∀ a b, b ∈ g.successors a ↔ a ∈ g.predecessors b) ∧
      (∀ a b, (a, b) ∈ g.edges ↔ b ∈ g.successors a) ∧
      g.edgeCount = g.edges.length ∧
      g.edgeCount = (g.instructions.toList.map fun i => i.successors.length).sum ∧
      g.edgeCount = (g.instructions.toList.map fun i => i.predecessors.length).sum ∧
      ∀ el, (∀ id, g.latestFor el = some id ↔ (Call.sketch calls).element id = some el ∧
          ∀ later : InstructionId, id.index < later.index →
            (Call.sketch calls).element later ≠ some el) ∧
        (g.latestFor el = none ↔ ∀ id, (Call.sketch calls).element id ≠ some el) := by
  obtain ⟨g, hg, h⟩ := recorded_empty.run hr
  rw [List.nil_append] at h
  refine ⟨g, hg, h.labels, g.numbered, fun a => ⟨h.successors a, h.tidy.successors_nodup a⟩,
    fun b => ⟨h.predecessors b, h.tidy.predecessors_nodup b⟩, h.tidy.mirrored, fun _ _ => mem_edges,
    h.tidy.counted, h.tidy.count_successors, h.tidy.count_predecessors, fun el => ?_⟩
  rw [Sketch.latest_for_eq h.labels]
  exact ⟨Sketch.latest_iff, Sketch.latest_none_iff⟩

def repeatedCalls : List Call :=
  [.create none .plain, .create (some ⟨1⟩) .plain, .edge ⟨0⟩ ⟨1⟩, .create (some ⟨1⟩) (.write "x"),
    .edge ⟨1⟩ ⟨1⟩, .edge ⟨0⟩ ⟨2⟩, .edge ⟨0⟩ ⟨1⟩, .edge ⟨2⟩ ⟨1⟩]

theorem repeated_calls_recorded :
    Call.inRange 0 repeatedCalls = true ∧ ∃ g, empty.perform repeatedCalls = .ok (g,
        [.created ⟨0⟩, .created ⟨1⟩, .added true, .created ⟨2⟩, .added true, .added true, .added false,
          .added true]) ∧
      (∃ h : 2 < g.instructions.size, g.instructions[2].id = ⟨2⟩) ∧ g.successors ⟨0⟩ = [⟨1⟩, ⟨2⟩] ∧ g.predecessors ⟨1⟩ = [⟨0⟩, ⟨1⟩, ⟨2⟩] ∧
      g.edgeCount = g.edges.length ∧ g.latestFor ⟨1⟩ = some ⟨2⟩ := by
  have hr : Call.inRange 0 repeatedCalls = true := by decide
  obtain ⟨g, hg, hlabels, hids, hs, hp, -, -, hcount, -, -, hfind⟩ := calls_recorded repeatedCalls hr
  have hlast : 2 < g.size := by
    rw [← g.length_labels, hlabels]
    decide
  refine ⟨hr, g, hg, ⟨hlast, hids 2 hlast⟩, (hs ⟨0⟩).1, (hp ⟨1⟩).1, hcount, ((hfind ⟨1⟩).1 ⟨2⟩).2 ⟨by decide, ?_⟩⟩
  intro later hlt hlater
  have hsize : later.index < 3 := Sketch.lt_size_of_element hlater
  simp only at hlt
  omega

end PythonFlow.InstructionGraph
