import PythonFlow.Syntax.Tree

/-!
# Instructions

Every instruction carries its number, and for each node a graph keeps the instruction that was created
last for it.
-/

set_option autoImplicit false

namespace PythonFlow

/-- The number of an instruction. Like that of a node it is unbounded, and agrees with a number of 32 bits
while a graph has fewer than `2 ^ 32` instructions. -/
structure InstructionId where
  index : Nat
deriving DecidableEq, Repr, Inhabited

inductive InstructionKind where
  | plain
  /-- The binding of a name by a target, a parameter, an import or a definition. -/
  | write (name : String)
  /-- The entry of the branch that is taken when `condition` comes out as `outcome`. -/
  | conditional (condition : Option NodeId) (outcome : Bool)
deriving DecidableEq, Repr

structure Instruction where
  id : InstructionId
  /-- The node it was created for; none for the entry and the exit of a graph. -/
  element : Option NodeId
  kind : InstructionKind
  predecessors : List InstructionId
  successors : List InstructionId
deriving DecidableEq, Repr

namespace Instruction

def blank : Instruction := ⟨⟨0⟩, none, .plain, [], []⟩

def writtenName (i : Instruction) : Option String :=
  match i.kind with
  | .write name => some name
  | _ => none

end Instruction

/-- Each instruction carries the number of those before it. -/
def Numbered (instructions : Array Instruction) : Prop :=
  ∀ k (h : k < instructions.size), instructions[k].id = ⟨k⟩

instance (instructions : Array Instruction) : Decidable (Numbered instructions) :=
  inferInstanceAs (Decidable (∀ k (h : k < instructions.size), instructions[k].id = ⟨k⟩))

namespace Numbered
variable {instructions : Array Instruction} (h : Numbered instructions)
include h

theorem push {i : Instruction} (hi : i.id = ⟨instructions.size⟩) : Numbered (instructions.push i) := by
  intro k hk
  rw [Array.size_push] at hk
  by_cases hlast : k = instructions.size
  · subst hlast
    rw [Array.getElem_push_eq]
    exact hi
  · rw [Array.getElem_push_lt (by omega)]
    exact h k (by omega)

theorem modify {f : Instruction → Instruction} (hid : ∀ i, (f i).id = i.id) (n : Nat) :
    Numbered (instructions.modify n f) := by
  intro k hk
  rw [Array.size_modify] at hk
  rw [Array.getElem_modify]
  split
  · rw [hid]
    exact h k hk
  · exact h k hk

end Numbered

/-- For each node, the instruction that was entered last for it. -/
abbrev ElementIndex := List (NodeId × InstructionId)

namespace ElementIndex

def insert (index : ElementIndex) (element : NodeId) (id : InstructionId) : ElementIndex :=
  (element, id) :: index.filter fun entry => entry.1 != element

def enter (index : ElementIndex) (i : Instruction) : ElementIndex :=
  match i.element with
  | some element => index.insert element i.id
  | none => index

def ofList (instructions : List Instruction) : ElementIndex := instructions.foldl enter []

theorem of_list_concat (instructions : List Instruction) (i : Instruction) :
    ofList (instructions ++ [i]) = (ofList instructions).enter i := by
  rw [ofList, List.foldl_append, ofList]
  rfl

theorem of_list_modify {f : Instruction → Instruction} (hid : ∀ i, (f i).id = i.id)
    (helement : ∀ i, (f i).element = i.element) (instructions : List Instruction) (n : Nat) :
    ofList (instructions.modify n f) = ofList instructions := by
  have henter : ∀ index i, enter index (f i) = enter index i := by
    intro index i
    rw [enter, helement, hid, enter]
  unfold ofList
  generalize ([] : ElementIndex) = index
  induction instructions generalizing n index with
  | nil => rw [List.modify_nil]
  | cons i rest ih =>
    cases n with
    | zero => rw [List.modify_zero_cons, List.foldl_cons, List.foldl_cons, henter]
    | succ n => rw [List.modify_succ_cons, List.foldl_cons, List.foldl_cons, ih]

theorem lookup_filter {index : ElementIndex} {element el : NodeId} (h : el ≠ element) :
    (index.filter fun entry => entry.1 != element).lookup el = index.lookup el := by
  induction index with
  | nil => rfl
  | cons entry rest ih =>
    obtain ⟨other, kept⟩ := entry
    by_cases hother : other = element
    · have hne : (el == other) = false := beq_eq_false_iff_ne.2 (hother ▸ h)
      rw [List.filter_cons_of_neg (by simpa using hother), ih, List.lookup_cons, hne]
    · rw [List.filter_cons_of_pos (by simpa using hother), List.lookup_cons, List.lookup_cons, ih]

theorem lookup_insert (index : ElementIndex) (element el : NodeId) (id : InstructionId) :
    (index.insert element id).lookup el = if el = element then some id else index.lookup el := by
  by_cases h : el = element
  · subst h
    rw [insert, List.lookup_cons_self, if_pos rfl]
  · rw [insert, List.lookup_cons, beq_eq_false_iff_ne.2 h, if_neg h]
    exact lookup_filter h

theorem lookup_enter (index : ElementIndex) (i : Instruction) (el : NodeId) :
    (index.enter i).lookup el = if i.element = some el then some i.id else index.lookup el := by
  rw [enter]
  cases i.element with
  | none => simp
  | some element => simp [lookup_insert, eq_comm]

end ElementIndex
end PythonFlow
