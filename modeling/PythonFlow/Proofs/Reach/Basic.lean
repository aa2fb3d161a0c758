import PythonFlow.Proofs.Frame.Visit
import Mathlib.Logic.Relation

/-!
# Instructions from which flow goes on

`Lives` says that a walk leads from an instruction to one from which flow has yet to go on, or to one
of a given set that is known to live by other means, such as the headers of the loops that are still
open. `Alive` says so of every instruction made from some point on. The steps of a rule keep it, where
a step gives up an instruction from which flow had yet to go on only after linking it.
-/

set_option autoImplicit false

namespace PythonFlow.Sketch

def Walk (k : Sketch) : InstructionId → InstructionId → Prop := Relation.ReflTransGen k.Edge

def Lives (n : Nat) (k : Sketch) (P : InstructionId → Prop) (x : InstructionId) : Prop :=
  ∃ y, k.Walk x y ∧ (P y ∨ n ≤ y.index ∧ k.Loose y)

def Alive (n : Nat) (k : Sketch) (P : InstructionId → Prop) : Prop :=
  ∀ x : InstructionId, n ≤ x.index → x.index < k.size → Lives n k P x

section lives
variable {n : Nat} {k k' : Sketch} {P P' : InstructionId → Prop} {x y : InstructionId}

theorem Walk.later (h : k.Walk x y) (hle : Later k k') : k'.Walk x y :=
  Relation.ReflTransGen.mono (fun _ _ hab => hle.edge hab) x y h

theorem walk_refl (k : Sketch) (x : InstructionId) : k.Walk x x := Relation.ReflTransGen.refl

theorem walk_edge (h : k.Edge x y) : k.Walk x y := Relation.ReflTransGen.single h

theorem lives_of_mem (h : P x) : Lives n k P x := ⟨x, walk_refl k x, .inl h⟩

theorem lives_of_loose (hx : n ≤ x.index) (h : k.Loose x) : Lives n k P x :=
  ⟨x, walk_refl k x, .inr ⟨hx, h⟩⟩

theorem Lives.back (hw : k.Walk x y) (h : Lives n k P y) : Lives n k P x := by
  obtain ⟨z, hz, hends⟩ := h
  exact ⟨z, Relation.ReflTransGen.trans hw hz, hends⟩

theorem lives_of_edge (h : k.Edge x y) (hy : P y) : Lives n k P x :=
  (lives_of_mem hy).back (walk_edge h)

/-- A step keeps what lives if it keeps each of the places where a walk may end. -/
theorem Lives.carry (h : Lives n k P x) (hle : Later k k') (hP : ∀ y, P y → Lives n k' P' y)
    (hloose : ∀ y, n ≤ y.index → k.Loose y → Lives n k' P' y) : Lives n k' P' x := by
  obtain ⟨y, hw, hy | ⟨hn, hy⟩⟩ := h
  · exact (hP y hy).back (hw.later hle)
  · exact (hloose y hn hy).back (hw.later hle)

theorem Lives.lower {m : Nat} (hnm : n ≤ m) (h : Lives m k P x) : Lives n k P x := by
  obtain ⟨y, hw, hy | ⟨hm, hy⟩⟩ := h
  · exact ⟨y, hw, .inl hy⟩
  · exact ⟨y, hw, .inr ⟨Nat.le_trans hnm hm, hy⟩⟩

/-- What need not be given, because it lives without. -/
theorem Lives.discharge (h : Lives n k P' x) (hP : ∀ y, P' y → Lives n k P y) : Lives n k P x :=
  h.carry (.refl k) hP fun _ hn hy => lives_of_loose hn hy

theorem Alive.discharge (h : Alive n k P') (hP : ∀ y, P' y → Lives n k P y) : Alive n k P :=
  fun x hn hx => (h x hn hx).discharge hP

theorem Alive.weaken (h : Alive n k P) (hP : ∀ y, P y → P' y) : Alive n k P' :=
  h.discharge fun y hy => lives_of_mem (hP y hy)

theorem alive_start (k : Sketch) (P : InstructionId → Prop) : Alive k.size k P := fun _ hn hx =>
  absurd hx (Nat.not_lt_of_le hn)

end lives

section steps
variable {t : SyntaxTree} {n : Nat} {k : Sketch} {P : InstructionId → Prop}

/-- A step that makes no instruction keeps what is alive if it keeps what is loose. -/
theorem Alive.step {k' : Sketch} {P' : InstructionId → Prop} (h : Alive n k P) (hle : Later k k')
    (hsize : k'.size = k.size) (hP : ∀ y, P y → Lives n k' P' y)
    (hloose : ∀ y, n ≤ y.index → k.Loose y → Lives n k' P' y) : Alive n k' P' := by
  intro x hn hx
  rw [hsize] at hx
  exact (h x hn hx).carry hle hP hloose

theorem loose_place_of_stays {el : Option NodeId} {kind : InstructionKind} {e : PendingEdge}
    (he : e ∈ k.pending) (hstays : e.lands t el = false) : (k.place t el kind).Loose e.source :=
  .inr ⟨e, (mem_pending_place k t el kind e).2 ⟨he, hstays⟩, rfl⟩

theorem alive_place (h : Alive n k P) (hn : n ≤ k.size) (el : Option NodeId)
    (kind : InstructionKind) : Alive n (k.place t el kind) P := by
  have hnext : Lives n (k.place t el kind) P k.next := lives_of_loose hn (.inl rfl)
  have harrive : ∀ y ∈ k.arrivals t el, Lives n (k.place t el kind) P y := fun y hy =>
    hnext.back (walk_edge ((edge_place k t el kind y k.next).2 (.inr ⟨hy, rfl⟩)))
  intro x hx hlt
  by_cases hold : x.index < k.size
  · refine (h x hx hold).carry ((Later.refl k).place el kind) (fun y hy => lives_of_mem hy) ?_
    rintro y hny (hy | ⟨e, he, rfl⟩)
    · exact harrive y ((mem_arrivals k t el y).2 (.inl hy))
    · cases hl : e.lands t el with
      | true => exact harrive e.source ((mem_arrivals k t el _).2 (.inr ⟨e, he, hl, rfl⟩))
      | false => exact lives_of_loose hny (loose_place_of_stays he hl)
  · rcases eq_next_of_new (show New k _ x from ⟨Nat.le_of_not_lt hold, hlt⟩) with rfl | hnew
    · exact hnext
    · exact absurd hnew.2 hold

theorem alive_moved (h : Alive n k P) {c : Option InstructionId}
    (hc : ∀ x, n ≤ x.index → k.cursor = some x → Lives n (k.moved c) P x) :
    Alive n (k.moved c) P := by
  refine h.step ((Later.refl k).moved c) rfl (fun y hy => lives_of_mem hy) ?_
  rintro y hny (hy | hy)
  · exact hc y hny hy
  · exact lives_of_loose hny (.inr hy)

theorem alive_linked (h : Alive n k P) (x : InstructionId) (l : List InstructionId) :
    Alive n (k.linked x l) P :=
  h.step ((Later.refl k).linked x l) rfl (fun _ hy => lives_of_mem hy)
    fun _ hny hy => lives_of_loose hny hy

theorem loose_pended {y : InstructionId} (h : k.Loose y) (o : Option NodeId)
    (l : List InstructionId) : (k.pended o l).Loose y := by
  rcases h with h | ⟨e, he, rfl⟩
  · exact .inl h
  · exact .inr ⟨e, (mem_pending_pended k e o l).2 (.inl he), rfl⟩

theorem loose_of_pended {y : InstructionId} {l : List InstructionId} (h : y ∈ l)
    (o : Option NodeId) : (k.pended o l).Loose y :=
  .inr ⟨⟨o, y⟩, (mem_pending_pended k _ o l).2 (.inr ⟨rfl, h⟩), rfl⟩

theorem alive_pended (h : Alive n k P) (o : Option NodeId) (l : List InstructionId) :
    Alive n (k.pended o l) P :=
  h.step ((Later.refl k).pended o l) rfl (fun _ hy => lives_of_mem hy)
    fun _ hny hy => lives_of_loose hny (loose_pended hy o l)

/-- What flow leaves at the cursor is pending as well. -/
def Parked (k : Sketch) : Prop := ∀ x, k.cursor = some x → ∃ e ∈ k.pending, e.source = x

theorem parked_pended {l : List InstructionId} (hl : ∀ x, k.cursor = some x → x ∈ l)
    (o : Option NodeId) : Parked (k.pended o l) := fun x hx =>
  ⟨⟨o, x⟩, (mem_pending_pended k _ o l).2 (.inr ⟨rfl, hl x hx⟩), rfl⟩

theorem alive_parked (h : Alive n k P) (hk : Parked k) (c : Option InstructionId) :
    Alive n (k.moved c) P :=
  alive_moved h fun x hn hx => lives_of_loose hn (.inr (hk x hx))

theorem alive_rescoped (h : Alive n k P) (c : NodeId) (o : Option NodeId) :
    Alive n (k.rescoped t c o) P := by
  refine h.step ((Later.refl k).rescoped c o) rfl (fun _ hy => lives_of_mem hy) ?_
  rintro y hny (hy | ⟨e, he, rfl⟩)
  · exact lives_of_loose hny (.inl hy)
  · refine lives_of_loose hny (.inr ⟨rescope t c o e, ?_, ?_⟩)
    · exact (mem_pending_rescoped k t _ c o).2 ⟨e, he, rfl⟩
    · unfold rescope
      split <;> rfl

/-- What is loose is on the list of exits, or is pending beyond the clause. -/
theorem loose_cases {y : InstructionId} (h : k.Loose y) (c : NodeId) :
    y ∈ k.exits t c ∨ (k.drained t c).Loose y := by
  rcases h with h | ⟨e, he, rfl⟩
  · exact .inl ((mem_exits k t c y).2 (.inl h))
  · cases hw : e.within t c with
    | true => exact .inl ((mem_exits k t c _).2 (.inr ⟨e, (mem_inner k t e c).2 ⟨he, hw⟩, rfl⟩))
    | false => exact .inr (.inr ⟨e, (mem_pending_drained k t e c).2 ⟨he, hw⟩, rfl⟩)

/-- Draining a clause keeps what is alive, given the ways out of it. -/
theorem alive_drained (h : Alive n k P) (c : NodeId) (o : Option InstructionId) :
    Alive n ((k.drained t c).moved o) fun y => P y ∨ y ∈ k.exits t c := by
  refine h.step (((Later.refl k).drained c).moved o) rfl (fun _ hy => lives_of_mem (.inl hy)) ?_
  intro y hny hy
  rcases loose_cases (t := t) hy c with hexit | hy | hy
  · exact lives_of_mem (.inr hexit)
  · exact lives_of_mem (.inr ((mem_exits k t c y).2 (.inl hy)))
  · exact lives_of_loose hny (.inr hy)

/-- A clause whose ways out are linked to what lives. -/
theorem alive_led (h : Alive n k P) (c : NodeId) {x : InstructionId} (hx : P x) :
    Alive n ((k.drained t c).linked x (k.exits t c)) P := by
  refine h.step (((Later.refl k).drained c).linked _ _) rfl (fun _ hy => lives_of_mem hy) ?_
  intro y hny hy
  rcases loose_cases (t := t) hy c with hexit | hy
  · exact lives_of_edge ((edge_linked _ y x x _).2 (.inr ⟨hexit, rfl⟩)) hx
  · exact lives_of_loose hny hy

/-- A clause whose ways out are left pending. -/
theorem alive_left (h : Alive n k P) (c : NodeId) (o : Option NodeId) :
    Alive n ((k.drained t c).pended o (k.exits t c)) P := by
  refine h.step (((Later.refl k).drained c).pended _ _) rfl (fun _ hy => lives_of_mem hy) ?_
  intro y hny hy
  rcases loose_cases (t := t) hy c with hexit | hy
  · exact lives_of_loose hny (loose_of_pended hexit o)
  · exact lives_of_loose hny (loose_pended hy o _)

/-- Leaving a clause for good. -/
theorem alive_clause_left (h : Alive n k P) (c : NodeId) (o : Option NodeId) :
    Alive n (((k.drained t c).pended o (k.exits t c)).moved none) P :=
  alive_parked (alive_left h c o)
    (parked_pended (k := k.drained t c) (fun x hx => (mem_exits k t c x).2 (.inl hx)) o) none

/-- A visit keeps what is alive if what it makes is. -/
theorem alive_visited {c : NodeId} {k' : Sketch} (h : Alive n k P) (hn : n ≤ k.size)
    (hv : Visited t c k k') (hnew : Alive k.size k' P) : Alive n k' P := by
  intro x hx hlt
  by_cases hold : x.index < k.size
  · refine (h x hx hold).carry hv.later (fun y hy => lives_of_mem hy) fun y hny hy => ?_
    rcases hv with rfl | ⟨hv, -⟩
    · exact lives_of_loose hny hy
    have hentry : Lives n k' P k.next := (hnew k.next (Nat.le_refl _) hv.size_lt).lower hn
    have harrive : ∀ y ∈ k.arrivals t (some c), Lives n k' P y := fun y hy =>
      hentry.back (walk_edge (hv.entered y hy))
    rcases hy with hy | ⟨e, he, rfl⟩
    · exact harrive y ((mem_arrivals k t (some c) y).2 (.inl hy))
    · cases hl : e.lands t (some c) with
      | true => exact harrive e.source ((mem_arrivals k t (some c) _).2 (.inr ⟨e, he, hl, rfl⟩))
      | false => exact lives_of_loose hny (.inr ⟨e, hv.kept e he hl, rfl⟩)
  · exact (hnew x (Nat.le_of_not_lt hold) hlt).lower hn

end steps
end PythonFlow.Sketch
