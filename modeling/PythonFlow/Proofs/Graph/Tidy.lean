import Mathlib.Data.List.Nodup
import PythonFlow.Proofs.Graph.Edges

/-!
# Tidy graphs

In a tidy graph the two ends of every edge agree, no list of them repeats itself, and the count of the
edges is the number of edges. Creation keeps a graph tidy, and so does every addition that meets no fault.
An addition that finds no target has the source's end recorded by then. Of such a lost edge the target never
learns, nor is it counted; all else stays in order, and goes on doing so while more is created and added.
-/

set_option autoImplicit false

namespace PythonFlow.InstructionGraph

structure Tidy (g : InstructionGraph) : Prop where
  mirrored : ∀ a b, b ∈ g.successors a ↔ a ∈ g.predecessors b
  successors_nodup : ∀ a, (g.successors a).Nodup
  predecessors_nodup : ∀ b, (g.predecessors b).Nodup
  counted : g.edgeCount = g.edges.length

/-- Tidy but for the lost edges, which only their sources have recorded. -/
structure TidyBut (lost : List (InstructionId × InstructionId)) (g : InstructionGraph) : Prop where
  mirrored : ∀ a b, b ∈ g.successors a ↔ a ∈ g.predecessors b ∨ (a, b) ∈ lost
  unnoticed : ∀ a b, a ∈ g.predecessors b → (a, b) ∉ lost
  successors_nodup : ∀ a, (g.successors a).Nodup
  predecessors_nodup : ∀ b, (g.predecessors b).Nodup
  counted : g.edges.length = g.edgeCount + lost.length

theorem tidy_iff {g : InstructionGraph} : g.Tidy ↔ g.TidyBut [] := by
  constructor
  · intro h
    exact ⟨by simpa using h.mirrored, by simp, h.successors_nodup, h.predecessors_nodup, h.counted.symm⟩
  · intro h
    exact ⟨by simpa using h.mirrored, h.successors_nodup, h.predecessors_nodup, h.counted.symm⟩

section counts

def edgesFrom (g : InstructionGraph) (i : Nat) : List (InstructionId × InstructionId) :=
  (g.successors ⟨i⟩).map fun b => (⟨i⟩, b)

theorem edges_eq (g : InstructionGraph) : g.edges = (List.range g.size).flatMap g.edgesFrom := by
  rw [edges_by_source, ids_eq, positions, List.flatMap_map]
  rfl

/-- Lists put together, of which one is longer by one. -/
theorem length_flat_map_at {α : Type} {f f' : Nat → List α} {n i : Nat} (hi : i < n)
    (hf : (f' i).length = (f i).length + 1) (hsame : ∀ j, j ≠ i → f' j = f j) :
    ((List.range n).flatMap f').length = ((List.range n).flatMap f).length + 1 := by
  induction n with
  | zero => omega
  | succ n ih =>
    simp only [List.range_succ, List.flatMap_append, List.flatMap_singleton, List.length_append]
    by_cases hn : i = n
    · subst hn
      have hbelow : (List.range i).flatMap f' = (List.range i).flatMap f :=
        congrArg List.flatten (List.map_congr_left fun j hj => hsame j (Nat.ne_of_lt (List.mem_range.1 hj)))
      rw [hbelow, hf, Nat.add_assoc]
    · have hrest := ih (by omega)
      have hlast := hsame n fun h => hn h.symm
      rw [hrest, hlast]
      omega

end counts

theorem tidy_empty : empty.Tidy := by
  have hsuccessors : ∀ a, empty.successors a = [] := fun _ => rfl
  have hpredecessors : ∀ a, empty.predecessors a = [] := fun _ => rfl
  refine ⟨fun a b => ?_, fun a => ?_, fun b => ?_, rfl⟩
  · simp [hsuccessors, hpredecessors]
  · rw [hsuccessors]
    exact List.nodup_nil
  · rw [hpredecessors]
    exact List.nodup_nil

section faults
variable {g : InstructionGraph} {a b : InstructionId}

/-- An addition is refused for its source, or for its target unless the source knows that one already. -/
theorem add_edge_faults : (∃ e, (g.addEdge a b).2 = .error e) ↔
    ¬ a.index < g.size ∨ ¬ b.index < g.size ∧ b ∉ g.successors a := by
  by_cases ha : a.index < g.size
  · by_cases hc : b ∈ g.successors a
    · simp [addEdge, require, ha, hc]
    · by_cases hb : b.index < g.size <;> simp [addEdge, require, ha, hb, hc]
  · simp [addEdge, require, ha]

/-- Without a source nothing is done. -/
theorem add_edge_of_no_source (ha : ¬ a.index < g.size) :
    g.addEdge a b = (g, .error (.outOfRange g.size a.index)) := by
  simp [addEdge, require, ha]

/-- Without a target the source's end stays. -/
theorem add_edge_of_no_target (ha : a.index < g.size) (hb : ¬ b.index < g.size)
    (hnew : b ∉ g.successors a) :
    g.addEdge a b = (g.addSuccessor a b, .error (.outOfRange g.size b.index)) := by
  simp [addEdge, require, ha, hb, hnew]

end faults

namespace TidyBut
variable {g : InstructionGraph} {lost : List (InstructionId × InstructionId)} {a b : InstructionId}
  (h : g.TidyBut lost)
include h

theorem create (el : Option NodeId) (kind : InstructionKind) : (g.create el kind).1.TidyBut lost where
  mirrored a b := by
    rw [successors_create, predecessors_create]
    exact h.mirrored a b
  unnoticed a b := by
    rw [predecessors_create]
    exact h.unnoticed a b
  successors_nodup a := by
    rw [successors_create]
    exact h.successors_nodup a
  predecessors_nodup b := by
    rw [predecessors_create]
    exact h.predecessors_nodup b
  counted := by
    have hlast : g.successors ⟨g.size⟩ = [] := successors_out (Nat.lt_irrefl _)
    have hcount : (g.create el kind).1.edgeCount = g.edgeCount := rfl
    have hfrom : (g.create el kind).1.edgesFrom = g.edgesFrom := by
      funext i
      rw [edgesFrom, successors_create, edgesFrom]
    rw [hcount, ← h.counted, edges_eq, edges_eq, size_create, hfrom, List.range_succ, List.flatMap_append]
    simp [edgesFrom, hlast]

theorem add_edge {fresh : Bool} (hok : (g.addEdge a b).2 = .ok fresh) : (g.addEdge a b).1.TidyBut lost := by
  have hpassed : ¬ ∃ e, (g.addEdge a b).2 = .error e := by simp [hok]
  rw [add_edge_faults, not_or, not_and_not_right, not_not] at hpassed
  obtain ⟨ha, hknown⟩ := hpassed
  by_cases hc : b ∈ g.successors a
  · have hsame : (g.addEdge a b).1 = g := by
      simp [InstructionGraph.addEdge, (require_ok g a).2 ha, hc]
    rw [hsame]
    exact h
  have hb : b.index < g.size := Decidable.byContradiction fun hb => hc (hknown hb)
  have hs := successors_add_edge ha hb
  have hp := predecessors_add_edge ha hb
  simp only [hc, not_false_eq_true, and_true] at hs hp
  have hback : a ∉ g.predecessors b := fun hmem => hc ((h.mirrored a b).2 (.inl hmem))
  have hlost : (a, b) ∉ lost := fun hmem => hc ((h.mirrored a b).2 (.inr hmem))
  constructor
  · intro x y
    have hold := h.mirrored x y
    rw [hs, hp]
    by_cases hx : x = a <;> by_cases hy : y = b <;> simp [hx, hy] <;> simp_all
  · intro x y
    have hold := h.unnoticed x y
    rw [hp]
    by_cases hx : x = a <;> by_cases hy : y = b <;> simp_all
  · intro x
    rw [hs]
    split
    · next hx =>
      subst hx
      exact List.concat_eq_append ▸ List.Nodup.concat hc (h.successors_nodup x)
    · exact h.successors_nodup x
  · intro x
    rw [hp]
    split
    · next hx =>
      subst hx
      exact List.concat_eq_append ▸ List.Nodup.concat hback (h.predecessors_nodup x)
    · exact h.predecessors_nodup x
  · have hcount : (g.addEdge a b).1.edgeCount = g.edgeCount + 1 := by
      rw [add_edge_of_lt ha hb, if_neg hc]
    have hlonger : (g.addEdge a b).1.edges.length = g.edges.length + 1 := by
      rw [edges_eq, edges_eq, size_add_edge]
      refine length_flat_map_at ha ?_ fun j hj => ?_
      · simp [edgesFrom, hs]
      · rw [edgesFrom, hs, if_neg fun heq => hj (congrArg InstructionId.index heq), edgesFrom]
    have hold := h.counted
    omega

/-- An edge that finds no target is lost. -/
theorem lose (ha : a.index < g.size) (hb : ¬ b.index < g.size) (hnew : b ∉ g.successors a) :
    (g.addSuccessor a b).TidyBut ((a, b) :: lost) := by
  have hs := successors_add_successor (b := b) ha
  have hp := predecessors_add_successor (b := b) ha
  have hback : a ∉ g.predecessors b := fun hmem => hb (lt_of_predecessor hmem)
  constructor
  · intro x y
    have hold := h.mirrored x y
    rw [hs, hp]
    by_cases hx : x = a <;> by_cases hy : y = b <;> simp [hx, hy] <;> simp_all
  · intro x y hmem
    rw [hp] at hmem
    have hold := h.unnoticed x y hmem
    simp only [List.mem_cons, Prod.mk.injEq, not_or]
    refine ⟨?_, hold⟩
    rintro ⟨rfl, rfl⟩
    exact hback hmem
  · intro x
    rw [hs]
    split
    · next hx =>
      subst hx
      exact List.concat_eq_append ▸ List.Nodup.concat hnew (h.successors_nodup x)
    · exact h.successors_nodup x
  · intro x
    rw [hp]
    exact h.predecessors_nodup x
  · have hcount : (g.addSuccessor a b).edgeCount = g.edgeCount := rfl
    have hlonger : (g.addSuccessor a b).edges.length = g.edges.length + 1 := by
      rw [edges_eq, edges_eq, size_add_successor]
      refine length_flat_map_at ha ?_ fun j hj => ?_
      · simp [edgesFrom, hs]
      · rw [edgesFrom, hs, if_neg fun heq => hj (congrArg InstructionId.index heq), edgesFrom]
    have hold := h.counted
    rw [hlonger, hcount, List.length_cons]
    omega

/-- A graph is tidy exactly when it has lost nothing. -/
theorem tidy_iff_nil : g.Tidy ↔ lost = [] := by
  constructor
  · intro ht
    refine List.eq_nil_iff_forall_not_mem.2 fun e he => ?_
    have hsource : e.2 ∈ g.successors e.1 := (h.mirrored e.1 e.2).2 (.inr he)
    exact h.unnoticed e.1 e.2 ((ht.mirrored e.1 e.2).1 hsource) he
  · rintro rfl
    exact tidy_iff.2 h

/-- The edges are within range as far as the targets of the lost ones are. -/
theorem edges_in_range : (∀ x y, g.Edge x y → x.index < g.size ∧ y.index < g.size) ↔
    ∀ e ∈ lost, e.2.index < g.size := by
  constructor
  · intro hall e he
    have hsource : e.2 ∈ g.successors e.1 := (h.mirrored e.1 e.2).2 (.inr he)
    exact (hall e.1 e.2 hsource).2
  · intro hlost x y hxy
    have hx : x.index < g.size := Decidable.byContradiction fun hout => by
      simp [Edge, successors_out hout] at hxy
    rcases (h.mirrored x y).1 hxy with hback | hmem
    · exact ⟨hx, lt_of_predecessor hback⟩
    · exact ⟨hx, hlost (x, y) hmem⟩

end TidyBut

namespace Tidy
variable {g : InstructionGraph} (h : g.Tidy)
include h

theorem create (el : Option NodeId) (kind : InstructionKind) : (g.create el kind).1.Tidy :=
  tidy_iff.2 ((tidy_iff.1 h).create el kind)

theorem add_edge {a b : InstructionId} {fresh : Bool} (hok : (g.addEdge a b).2 = .ok fresh) :
    (g.addEdge a b).1.Tidy :=
  tidy_iff.2 ((tidy_iff.1 h).add_edge hok)

/-- What a refused addition leaves, and for which end it is refused. -/
theorem refuse {a b : InstructionId} {e : Fault} (hadd : (g.addEdge a b).2 = .error e) :
    e = .outOfRange g.size (if a.index < g.size then b.index else a.index) ∧
      (a.index < g.size → g.size ≤ b.index) ∧
      (g.addEdge a b).1.TidyBut (if a.index < g.size then [(a, b)] else []) := by
  rcases add_edge_faults.1 ⟨e, hadd⟩ with ha | ⟨hb, hnew⟩
  · rw [add_edge_of_no_source ha] at hadd ⊢
    simp only [ha, if_false]
    exact ⟨(Except.error.inj hadd).symm, False.elim, tidy_iff.1 h⟩
  · by_cases ha : a.index < g.size
    · rw [add_edge_of_no_target ha hb hnew] at hadd ⊢
      simp only [ha, if_true]
      exact ⟨(Except.error.inj hadd).symm, fun _ => Nat.le_of_not_lt hb, (tidy_iff.1 h).lose ha hb hnew⟩
    · rw [add_edge_of_no_source ha] at hadd ⊢
      simp only [ha, if_false]
      exact ⟨(Except.error.inj hadd).symm, False.elim, tidy_iff.1 h⟩

end Tidy
end PythonFlow.InstructionGraph
