import PythonFlow.Flow.Reachability
import PythonFlow.Proofs.Graph.Edges

/-!
# The closure of a start

The search marks an instruction when it queues it, and every step takes one off the queue. What is
queued and what is unmarked together shrink by one at each step, so one step for each instruction
empties the queue. When the queue is empty the marks are closed under `next`, and nothing was ever
marked that `next` does not lead to.
-/

set_option autoImplicit false

namespace PythonFlow.ControlFlow
open Relation (ReflTransGen)

def Marked (seen : Array Bool) (x : InstructionId) : Prop := seen.getD x.index false = true

theorem getD_set_true (marks : Array Bool) (i j : Nat) :
    (marks.set! i true).getD j false = true ↔ marks.getD j false = true ∨ j < marks.size ∧ j = i := by
  simp only [Array.getD_eq_getD_getElem?, Array.set!_eq_setIfInBounds, Array.getElem?_setIfInBounds]
  by_cases hj : j = i
  · subst hj
    by_cases hlt : j < marks.size <;> simp [hlt]
  · simp [hj, Ne.symm hj]

theorem getD_blank (size i : Nat) : (Array.replicate size false).getD i false = false := by
  simp only [Array.getD_eq_getD_getElem?, Array.getElem?_replicate]
  split <;> rfl

theorem marked_set {seen : Array Bool} {a : InstructionId} (ha : a.index < seen.size)
    (x : InstructionId) : Marked (seen.set! a.index true) x ↔ Marked seen x ∨ x = a := by
  have hindex : x.index < seen.size ∧ x.index = a.index ↔ x = a := by
    refine ⟨fun h => congrArg InstructionId.mk h.2, ?_⟩
    rintro rfl
    exact ⟨ha, rfl⟩
  rw [Marked, getD_set_true, hindex, Marked]

theorem not_marked_blank (size : Nat) (x : InstructionId) :
    ¬ Marked (Array.replicate size false) x := by
  rw [Marked, getD_blank]
  exact Bool.false_ne_true

def remaining (seen : Array Bool) (queue : List InstructionId) : Nat :=
  queue.length + seen.count false

structure MarkedAll (l : List InstructionId) (seen : Array Bool) (queue : List InstructionId)
    (seen' : Array Bool) (queue' : List InstructionId) : Prop where
  size_eq : seen'.size = seen.size
  marked_iff : ∀ x, Marked seen' x ↔ Marked seen x ∨ x ∈ l ∧ x.index < seen.size
  queue_iff : ∀ x, x ∈ queue' ↔ x ∈ queue ∨ Marked seen' x ∧ ¬ Marked seen x
  remaining_eq : remaining seen' queue' = remaining seen queue

section marked
variable {a : InstructionId} {rest : List InstructionId} {seen seen' : Array Bool}
  {queue queue' : List InstructionId}

/-- An instruction that is marked, or that there is no place for, is passed over. -/
theorem MarkedAll.skip (h : MarkedAll rest seen queue seen' queue')
    (ha : a.index < seen.size → Marked seen a) : MarkedAll (a :: rest) seen queue seen' queue' where
  size_eq := h.size_eq
  marked_iff := by
    intro x
    rw [h.marked_iff x, List.mem_cons]
    constructor
    · rintro (hx | hx)
      · exact .inl hx
      · exact .inr ⟨.inr hx.1, hx.2⟩
    · rintro (hx | ⟨rfl | hmem, hx⟩)
      · exact .inl hx
      · exact .inl (ha hx)
      · exact .inr ⟨hmem, hx⟩
  queue_iff := h.queue_iff
  remaining_eq := h.remaining_eq

/-- An instruction that is not marked is marked and queued. -/
theorem MarkedAll.take (h : MarkedAll rest (seen.set! a.index true) (a :: queue) seen' queue')
    (hlt : a.index < seen.size) (hfalse : seen[a.index] = false) :
    MarkedAll (a :: rest) seen queue seen' queue' where
  size_eq := h.size_eq.trans (by simp)
  marked_iff := by
    intro x
    rw [h.marked_iff x, marked_set hlt, List.mem_cons, show (seen.set! a.index true).size = seen.size by simp]
    constructor
    · rintro ((hx | rfl) | ⟨hmem, hx⟩)
      · exact .inl hx
      · exact .inr ⟨.inl rfl, hlt⟩
      · exact .inr ⟨.inr hmem, hx⟩
    · rintro (hx | ⟨rfl | hmem, hx⟩)
      · exact .inl (.inl hx)
      · exact .inl (.inr rfl)
      · exact .inr ⟨hmem, hx⟩
  queue_iff := by
    intro x
    have hnew : ¬ Marked seen a := by simp [Marked, Array.getD, hlt, hfalse]
    rw [h.queue_iff x, marked_set hlt, List.mem_cons]
    by_cases hxa : x = a
    · subst hxa
      have hself : Marked seen' x := (h.marked_iff x).2 (.inl ((marked_set hlt x).2 (.inr rfl)))
      exact ⟨fun _ => .inr ⟨hself, hnew⟩, fun _ => .inl (.inl rfl)⟩
    · simp [hxa]
  remaining_eq := by
    have hpos : 0 < seen.count false := by
      rw [Array.count_pos_iff]
      exact hfalse ▸ Array.getElem_mem hlt
    rw [h.remaining_eq, remaining, remaining, Array.set!_eq_setIfInBounds, Array.setIfInBounds_def,
      dif_pos hlt, Array.count_set hlt]
    simp only [hfalse, List.length_cons]
    simp
    omega

end marked

theorem mark_marks (l : List InstructionId) (seen : Array Bool) (queue : List InstructionId) :
    MarkedAll l seen queue (mark l seen queue).1 (mark l seen queue).2 := by
  induction l generalizing seen queue with
  | nil => exact ⟨rfl, by simp [mark], by simp [mark], rfl⟩
  | cons a rest ih =>
    rw [mark]
    by_cases hskip : seen.getD a.index true = true
    · rw [if_pos hskip]
      exact (ih seen queue).skip fun hlt => by simpa [Marked, Array.getD, hlt] using hskip
    · rw [if_neg hskip]
      have hlt : a.index < seen.size :=
        Decidable.byContradiction fun hlt => hskip (by simp [Array.getD, hlt])
      exact (ih (seen.set! a.index true) (a :: queue)).take hlt (by simpa [Array.getD, hlt] using hskip)

structure Search (next : InstructionId → List InstructionId) (start : InstructionId)
    (seen : Array Bool) (queue : List InstructionId) : Prop where
  started : Marked seen start
  reached : ∀ x, Marked seen x → ReflTransGen (fun a b => b ∈ next a) start x
  queued : ∀ x ∈ queue, Marked seen x
  followed : ∀ x, Marked seen x → x ∈ queue ∨ ∀ y ∈ next x, y.index < seen.size → Marked seen y

section
variable {next : InstructionId → List InstructionId} {start : InstructionId}

theorem Search.step {seen : Array Bool} {a : InstructionId} {queue : List InstructionId}
    (h : Search next start seen (a :: queue)) :
    Search next start (mark (next a) seen queue).1 (mark (next a) seen queue).2 := by
  have hm := mark_marks (next a) seen queue
  constructor
  · exact (hm.marked_iff start).2 (.inl h.started)
  · intro x hx
    rcases (hm.marked_iff x).1 hx with hx | ⟨hx, -⟩
    · exact h.reached x hx
    · exact (h.reached a (h.queued a (by simp))).tail hx
  · intro x hx
    rcases (hm.queue_iff x).1 hx with hx | ⟨hx, -⟩
    · exact (hm.marked_iff x).2 (.inl (h.queued x (by simp [hx])))
    · exact hx
  · intro x hx
    by_cases hold : Marked seen x
    · rcases h.followed x hold with hq | hnext
      · rcases List.mem_cons.1 hq with rfl | hq
        · refine .inr fun y hy hlt => (hm.marked_iff y).2 (.inr ⟨hy, ?_⟩)
          rw [hm.size_eq] at hlt
          exact hlt
        · exact .inl ((hm.queue_iff x).2 (.inl hq))
      · refine .inr fun y hy hlt => (hm.marked_iff y).2 (.inl (hnext y hy ?_))
        rw [hm.size_eq] at hlt
        exact hlt
    · exact .inl ((hm.queue_iff x).2 (.inr ⟨hx, hold⟩))

theorem explore_search (steps : Nat) (seen : Array Bool) (queue : List InstructionId)
    (h : Search next start seen queue) (hsteps : remaining seen queue ≤ steps) :
    (explore next steps seen queue).size = seen.size ∧
      Search next start (explore next steps seen queue) [] := by
  induction steps generalizing seen queue with
  | zero =>
    have hnil : queue = [] := by
      simp only [remaining] at hsteps
      exact List.eq_nil_of_length_eq_zero (by omega)
    subst hnil
    exact ⟨rfl, h⟩
  | succ steps ih =>
    cases queue with
    | nil => exact ⟨rfl, h⟩
    | cons a queue =>
      have hm := mark_marks (next a) seen queue
      have hle : remaining (mark (next a) seen queue).1 (mark (next a) seen queue).2 ≤ steps := by
        rw [hm.remaining_eq]
        simp only [remaining, List.length_cons] at hsteps ⊢
        omega
      obtain ⟨hsize, hs⟩ := ih _ _ h.step hle
      exact ⟨hsize.trans hm.size_eq, hs⟩

/-- The closure marks exactly the instructions to which `next` leads from the start. -/
theorem marked_closure (g : InstructionGraph) (hstart : start.index < g.size)
    (hnext : ∀ a, ∀ b ∈ next a, b.index < g.size) (x : InstructionId) :
    Marked (closure g next start) x ↔ ReflTransGen (fun a b => b ∈ next a) start x := by
  have hm := mark_marks [start] (Array.replicate g.size false) []
  have hfirst : Search next start (mark [start] (Array.replicate g.size false) []).1
      (mark [start] (Array.replicate g.size false) []).2 := by
    have hall : ∀ y, Marked (mark [start] (Array.replicate g.size false) []).1 y → y = start := by
      intro y hy
      rcases (hm.marked_iff y).1 hy with hy | ⟨hy, -⟩
      · exact absurd hy (not_marked_blank _ y)
      · simpa using hy
    constructor
    · exact (hm.marked_iff start).2 (.inr ⟨by simp, by simpa using hstart⟩)
    · intro y hy
      rw [hall y hy]
    · intro y hy
      rcases (hm.queue_iff y).1 hy with hy | ⟨hy, -⟩
      · simp at hy
      · exact hy
    · intro y hy
      exact .inl ((hm.queue_iff y).2 (.inr ⟨hy, not_marked_blank _ y⟩))
  obtain ⟨hsize, hs⟩ := explore_search g.size _ _ hfirst (by
    rw [hm.remaining_eq]
    simp [remaining])
  have hsize' := hsize.trans (hm.size_eq.trans Array.size_replicate)
  constructor
  · exact hs.reached x
  · intro h
    induction h with
    | refl => exact hs.started
    | tail _ hbc ih =>
      rcases hs.followed _ ih with hq | hq
      · simp at hq
      · exact hq _ hbc (hsize'.symm ▸ hnext _ _ hbc)

end
end PythonFlow.ControlFlow
