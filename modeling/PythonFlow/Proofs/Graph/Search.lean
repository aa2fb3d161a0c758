import Mathlib.Data.List.ProdSigma
import PythonFlow.Proofs.Graph.Closure

/-!
# What the searches find

A search asks for the edges from an instruction, or for those to it, in whatever order. Where no edge leads
outside of the graph, the instructions found from the entry are those to which a path leads, and the ones
found backwards from the exit are those from which a path leads there. The reading that runs takes both
directions from the successor lists.
-/

set_option autoImplicit false

namespace PythonFlow
open Relation (ReflTransGen)

namespace InstructionGraph

def Closed (g : InstructionGraph) : Prop := ∀ e ∈ g.edges, e.2.index < g.size

instance (g : InstructionGraph) : Decidable g.Closed :=
  inferInstanceAs (Decidable (∀ e ∈ g.edges, e.2.index < g.size))

theorem Edge.source_lt {g : InstructionGraph} {a b : InstructionId} (h : g.Edge a b) :
    a.index < g.size :=
  Decidable.byContradiction fun hout => by
    rw [Edge, successors_out hout] at h
    cases h

theorem mem_edges {g : InstructionGraph} {a b : InstructionId} : (a, b) ∈ g.edges ↔ g.Edge a b := by
  rw [edges_by_source]
  simp only [List.mem_flatMap, List.mem_map, Prod.mk.injEq]
  constructor
  · rintro ⟨id, -, target, hmem, rfl, rfl⟩
    exact hmem
  · exact fun h => ⟨a, mem_ids.2 h.source_lt, b, h, rfl, rfl⟩

theorem Closed.target_lt {g : InstructionGraph} (hg : g.Closed) {a b : InstructionId}
    (h : g.Edge a b) : b.index < g.size := hg (a, b) (mem_edges.2 h)

end InstructionGraph

namespace Neighbours

/-- The edges that a search is told of are those of the graph, in either direction. -/
structure Enumerates (n : Neighbours) (g : InstructionGraph) : Prop where
  outgoing : ∀ a b, b ∈ n.outgoing a ↔ (a, b) ∈ g.edges
  incoming : ∀ a b, a ∈ n.incoming b ↔ (a, b) ∈ g.edges

end Neighbours

namespace InstructionGraph
variable {g : InstructionGraph}

/-- What is kept at an index once a list of edges has been entered: what was there and, if there is such
an index, the targets of the edges from there. -/
theorem mem_entered (edges : List (InstructionId × InstructionId))
    (out : Array (List InstructionId)) (a b : InstructionId) :
    b ∈ (edges.foldl (fun out e => out.modify e.1.index (e.2 :: ·)) out).getD a.index [] ↔
      b ∈ out.getD a.index [] ∨ a.index < out.size ∧ (a, b) ∈ edges := by
  induction edges generalizing out with
  | nil => simp
  | cons e edges ih =>
    have hkept : b ∈ (out.modify e.1.index (e.2 :: ·)).getD a.index [] ↔
        b ∈ out.getD a.index [] ∨ a.index < out.size ∧ (a, b) = e := by
      simp only [Array.getD_eq_getD_getElem?, Array.getElem?_modify, Prod.ext_iff]
      by_cases he : e.1 = a
      · by_cases ha : a.index < out.size <;> simp [he, ha, or_comm]
      · have hne : e.1.index ≠ a.index := fun hi => he (congrArg InstructionId.mk hi)
        simp [hne, Ne.symm he]
    rw [List.foldl_cons, ih, hkept, Array.size_modify, List.mem_cons, or_assoc, ← and_or_left]

theorem mem_departures {edges : List (InstructionId × InstructionId)} (a b : InstructionId)
    (hedges : ∀ e ∈ edges, e.1.index < g.size) :
    b ∈ (g.departures edges).getD a.index [] ↔ (a, b) ∈ edges := by
  have hblank : b ∉ (Array.replicate g.size []).getD a.index [] := by
    simp [Array.getD]
  rw [departures, mem_entered, Array.size_replicate, or_iff_right hblank, and_iff_right_iff_imp]
  exact hedges (a, b)

/-- The reading that runs tells of all edges and of no others. -/
theorem neighbours_enumerates (hg : g.Closed) : g.neighbours.Enumerates g where
  outgoing a b := by
    refine mem_departures a b fun e he => ?_
    have hedge : g.Edge e.1 e.2 := mem_edges.1 he
    exact hedge.source_lt
  incoming a b := by
    refine (mem_departures b a fun e he => ?_).trans ?_
    · obtain ⟨e', he', rfl⟩ := List.mem_map.1 he
      exact hg e' he'
    · exact List.mem_map_swap a b g.edges

end InstructionGraph

namespace ControlFlow

/-- The closure of a start that is not there is empty, and no edge leads from there. -/
theorem marked_closure_of_edges {g : InstructionGraph} {next : InstructionId → List InstructionId}
    (hnext : ∀ a, ∀ b ∈ next a, a.index < g.size ∧ b.index < g.size) (start x : InstructionId) :
    Marked (closure g next start) x ↔
      x.index < g.size ∧ ReflTransGen (fun a b => b ∈ next a) start x := by
  by_cases hstart : start.index < g.size
  · rw [marked_closure g hstart fun a b hb => (hnext a b hb).2]
    refine ⟨fun h => ⟨?_, h⟩, And.right⟩
    rcases ReflTransGen.cases_tail h with rfl | ⟨y, -, hy⟩
    · exact hstart
    · exact (hnext y x hy).2
  · have hblank : closure g next start = Array.replicate g.size false := by
      simp only [closure, mark, Array.getD, Array.size_replicate, hstart, dite_false, if_true]
      cases g.size <;> rfl
    rw [hblank]
    refine ⟨fun h => absurd h (not_marked_blank _ x), ?_⟩
    rintro ⟨hx, h⟩
    rcases ReflTransGen.cases_head h with rfl | ⟨y, hy, -⟩
    · exact absurd hx hstart
    · exact absurd (hnext start y hy).1 hstart

end ControlFlow

namespace Neighbours
variable {n : Neighbours} {f : ControlFlow}

section searches
variable (hn : n.Enumerates f.graph) (hf : f.graph.Closed)
include hn hf

theorem marked_from_entry (x : InstructionId) : ControlFlow.Marked (n.fromEntry f) x ↔
    x.index < f.graph.size ∧ ReflTransGen f.graph.Edge f.entry x := by
  have hedge : ∀ a b, b ∈ n.outgoing a ↔ f.graph.Edge a b := fun a b =>
    (hn.outgoing a b).trans InstructionGraph.mem_edges
  have hnext : ∀ a, ∀ b ∈ n.outgoing a, a.index < f.graph.size ∧ b.index < f.graph.size :=
    fun a b hb => ⟨((hedge a b).1 hb).source_lt, hf.target_lt ((hedge a b).1 hb)⟩
  have hsame : (fun a b => b ∈ n.outgoing a) = f.graph.Edge := by
    funext a b
    exact propext (hedge a b)
  rw [fromEntry, ControlFlow.marked_closure_of_edges hnext, hsame]

/-- Backwards the edges are followed from their targets to their sources. -/
theorem marked_to_exit (x : InstructionId) : ControlFlow.Marked (n.toExit f) x ↔
    x.index < f.graph.size ∧ ReflTransGen f.graph.Edge x f.exit := by
  have hedge : ∀ a b, b ∈ n.incoming a ↔ f.graph.Edge b a := fun a b =>
    (hn.incoming b a).trans InstructionGraph.mem_edges
  have hnext : ∀ a, ∀ b ∈ n.incoming a, a.index < f.graph.size ∧ b.index < f.graph.size :=
    fun a b hb => ⟨hf.target_lt ((hedge a b).1 hb), ((hedge a b).1 hb).source_lt⟩
  have hsame : (fun a b => b ∈ n.incoming a) = Function.swap f.graph.Edge := by
    funext a b
    exact propext (hedge a b)
  rw [toExit, ControlFlow.marked_closure_of_edges hnext, hsame, Relation.reflTransGen_swap]

theorem mem_reachable (x : InstructionId) : x ∈ n.reachable f ↔
    x.index < f.graph.size ∧ ReflTransGen f.graph.Edge f.entry x := by
  have hmarked : (n.fromEntry f).getD x.index false = true ↔ _ := marked_from_entry hn hf x
  simp only [reachable, List.mem_filter, InstructionGraph.mem_positions, hmarked, and_self_left]

theorem mem_unreachable (x : InstructionId) : x ∈ n.unreachable f ↔
    x.index < f.graph.size ∧ ¬ ReflTransGen f.graph.Edge f.entry x := by
  have hmarked : (n.fromEntry f).getD x.index false = true ↔ _ := marked_from_entry hn hf x
  simp only [unreachable, List.mem_filter, InstructionGraph.mem_positions, Bool.not_eq_true',
    ← Bool.not_eq_true, hmarked]
  exact and_congr_right fun hx => not_congr (and_iff_right hx)

theorem mem_dangling (x : InstructionId) : x ∈ n.dangling f ↔
    x ∈ n.reachable f ∧ ¬ ReflTransGen f.graph.Edge x f.exit := by
  have hmarked : (n.fromEntry f).getD x.index false = true ↔ _ := marked_from_entry hn hf x
  have hleaving : (n.toExit f).getD x.index false = true ↔ _ := marked_to_exit hn hf x
  rw [mem_reachable hn hf]
  simp only [dangling, List.mem_filter, InstructionGraph.mem_positions, Bool.and_eq_true,
    Bool.not_eq_true', ← Bool.not_eq_true, hmarked, hleaving]
  exact ⟨fun ⟨hx, hr, hd⟩ => ⟨hr, fun h => hd ⟨hx, h⟩⟩, fun ⟨hr, hd⟩ => ⟨hr.1, hr, fun h => hd h.2⟩⟩

end searches
end Neighbours

/-- Whatever the order in which a search comes upon the edges, the reachable instructions are those to
which a path leads from the entry, the unreachable ones are the rest, and the dangling ones are the
reachable ones from which no path leads to the exit. Each list is in order of index. -/
theorem searches_exact {f : ControlFlow} (hf : f.graph.Closed) {n : Neighbours}
    (hn : n.Enumerates f.graph) :
    ((n.reachable f).Pairwise fun a b => a.index < b.index) ∧
    (∀ x, x ∈ n.reachable f ↔ x.index < f.graph.size ∧ ∃ p, Path f.graph.Edge f.entry p x) ∧
    ((n.unreachable f).Pairwise fun a b => a.index < b.index) ∧
    (∀ x, x ∈ n.unreachable f ↔ x.index < f.graph.size ∧ x ∉ n.reachable f) ∧
    ((n.dangling f).Pairwise fun a b => a.index < b.index) ∧
    ∀ x, x ∈ n.dangling f ↔ x ∈ n.reachable f ∧ ¬ ∃ p, Path f.graph.Edge x p f.exit := by
  have hids := f.graph.positions_ascending
  refine ⟨hids.filter _, fun x => ?_, hids.filter _, fun x => ?_, hids.filter _, fun x => ?_⟩
  · rw [Path.exists_iff]
    exact Neighbours.mem_reachable hn hf x
  · rw [Neighbours.mem_unreachable hn hf, Neighbours.mem_reachable hn hf]
    exact (and_congr_right fun hx => not_congr (and_iff_right hx)).symm
  · rw [Path.exists_iff]
    exact Neighbours.mem_dangling hn hf x

/-- A cycle with an instruction that follows itself, from which nothing leads to the exit, and an instruction
that nothing leads to. The exit does not record that the entry leads to it. -/
def knottedFlow : ControlFlow where
  owner := ⟨0⟩
  entry := ⟨0⟩
  exit := ⟨4⟩
  graph.instructions := #[⟨⟨0⟩, none, .plain, [], [⟨1⟩, ⟨4⟩]⟩,
    ⟨⟨1⟩, some ⟨1⟩, .plain, [⟨0⟩, ⟨1⟩, ⟨2⟩], [⟨1⟩, ⟨2⟩]⟩, ⟨⟨2⟩, some ⟨2⟩, .plain, [⟨1⟩], [⟨1⟩]⟩,
    ⟨⟨3⟩, some ⟨3⟩, .plain, [], [⟨4⟩]⟩, ⟨⟨4⟩, none, .plain, [⟨3⟩], []⟩]
  graph.byElement := [(⟨3⟩, ⟨3⟩), (⟨2⟩, ⟨2⟩), (⟨1⟩, ⟨1⟩)]
  graph.edgeCount := 6
  graph.numbered := by decide
  graph.indexed := by decide

theorem knotted_searches :
    knottedFlow.graph.Closed ∧ knottedFlow.graph.neighbours.Enumerates knottedFlow.graph ∧
      knottedFlow.reachable = [⟨0⟩, ⟨1⟩, ⟨2⟩, ⟨4⟩] ∧ knottedFlow.unreachable = [⟨3⟩] ∧
      knottedFlow.dangling = [⟨1⟩, ⟨2⟩] ∧ (∃ p, Path knottedFlow.graph.Edge ⟨0⟩ p ⟨2⟩) ∧
      (¬ ∃ p, Path knottedFlow.graph.Edge ⟨0⟩ p ⟨3⟩) ∧
      ¬ ∃ p, Path knottedFlow.graph.Edge ⟨2⟩ p ⟨4⟩ := by
  have hf : knottedFlow.graph.Closed := by decide
  have hn := InstructionGraph.neighbours_enumerates hf
  obtain ⟨-, hreachable, -, hunreachable, -, hdangling⟩ := searches_exact hf hn
  have hr : knottedFlow.graph.neighbours.reachable knottedFlow = [⟨0⟩, ⟨1⟩, ⟨2⟩, ⟨4⟩] := by decide
  have hd : knottedFlow.graph.neighbours.dangling knottedFlow = [⟨1⟩, ⟨2⟩] := by decide
  refine ⟨hf, hn, hr, by decide, hd, ?_, fun hp => ?_, ?_⟩
  · exact ((hreachable ⟨2⟩).1 (by rw [hr]; decide)).2
  · have hmem := (hreachable ⟨3⟩).2 ⟨by decide, hp⟩
    rw [hr] at hmem
    exact absurd hmem (by decide)
  · exact ((hdangling ⟨2⟩).1 (by rw [hd]; decide)).2

end PythonFlow
