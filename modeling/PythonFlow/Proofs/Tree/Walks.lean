import Mathlib.Logic.Relation
import PythonFlow.Owner.Name
import PythonFlow.Proofs.Tree.Below

/-!
# Walks towards the root

A question about the nodes above a node is a loop that steps from each node to its parent and carries what
it has seen. Nothing in the loop itself makes it end: where a node is its own parent it goes on for ever.
On a way that rises it ends, and its answer is what the list of the nodes on the way says.
-/

set_option autoImplicit false

namespace PythonFlow

structure Ascent (σ α : Type) where
  /-- The answer at a node, or else what is carried on to the parent. -/
  look : σ → NodeId → α ⊕ σ
  /-- The answer when there is no parent any more. -/
  past : σ → α

namespace Ascent
variable {σ α : Type}

def run (w : Ascent σ α) (t : SyntaxTree) : Nat → σ → Option NodeId → Option α
  | 0, _, _ => none
  | _ + 1, s, none => some (w.past s)
  | steps + 1, s, some id =>
    match w.look s id with
    | .inl a => some a
    | .inr s => w.run t steps s (t.parent id)

def along (w : Ascent σ α) : σ → List NodeId → α
  | s, [] => w.past s
  | s, id :: rest =>
    match w.look s id with
    | .inl a => a
    | .inr s => w.along s rest

variable (w : Ascent σ α)

theorem along_inl {s : σ} {id : NodeId} {a : α} (h : w.look s id = .inl a) (rest : List NodeId) :
    w.along s (id :: rest) = a := by
  simp only [along, h]

theorem along_inr {s s' : σ} {id : NodeId} (h : w.look s id = .inr s') (rest : List NodeId) :
    w.along s (id :: rest) = w.along s' rest := by
  simp only [along, h]

theorem run_of_rises {t : SyntaxTree} {n : NodeId} (hr : t.Rises n) :
    ∀ (s : σ) (steps : Nat), n.index + 1 < steps → w.run t steps s (some n) = some (w.along s (t.lineage n)) := by
  induction hr with
  | @top n h =>
    -- One step looks at the root, one more finds that there is no parent.
    intro s steps hsteps
    obtain ⟨k, rfl⟩ : ∃ k, steps = k + 2 := ⟨steps - 2, by omega⟩
    rw [SyntaxTree.lineage_of_root h]
    simp only [run, along, h]
    cases w.look s n <;> rfl
  | @up n p h hlt hp ih =>
    intro s steps hsteps
    obtain ⟨k, rfl⟩ : ∃ k, steps = k + 1 := ⟨steps - 1, by omega⟩
    rw [hp.lineage_of_parent h hlt]
    simp only [run, along, h]
    cases w.look s n with
    | inl a => rfl
    | inr s => exact ih s k (by omega)

/-- The loop that begins at the parent of a node. -/
theorem run_of_parent {t : SyntaxTree} {n : NodeId} (hr : t.Rises n) (s : σ) {steps : Nat}
    (hsteps : n.index < steps) : w.run t steps s (t.parent n) = some (w.along s (t.above n)) := by
  obtain ⟨k, rfl⟩ : ∃ k, steps = k + 1 := ⟨steps - 1, by omega⟩
  cases hr with
  | top h => simp [run, along, h, SyntaxTree.above, SyntaxTree.lineage_of_root h]
  | @up _ p h hlt hp =>
    rw [h, SyntaxTree.above, hp.lineage_of_parent h hlt]
    exact w.run_of_rises hp s _ (by omega)

end Ascent

namespace SyntaxTree

def seeking (ancestor : NodeId) : Ascent Unit Bool where
  look _ id := if id = ancestor then .inl true else .inr ()
  past _ := false

def seekingKind (t : SyntaxTree) (kind : SyntaxKind) (boundary : Option NodeId) :
    Ascent Unit (Option NodeId) where
  look _ id :=
    if t.kind id = kind then .inl (some id)
    else if some id = boundary then .inl none
    else .inr ()
  past _ := none

/-- The loop that looks for the loop statement of a jump. It carries the node it came from. -/
def seekingLoop (t : SyntaxTree) : Ascent NodeId (Option NodeId) where
  look child id :=
    if (t.kind id).isOwner then .inl none
    else if (t.kind id).isLoop && t.kind child != .elsePart then .inl (some id)
    else .inr id
  past _ := none

def naming (t : SyntaxTree) : Ascent (List String) (List String) where
  look names id :=
    if t.kind id = .module then .inl names
    else if (t.kind id).isOwner then .inr (names ++ [(t.name id).getD (t.kind id).name])
    else .inr names
  past names := names

def spelling (t : SyntaxTree) (steps : Nat) (owner : NodeId) : Option String :=
  if t.kind owner = .module then some ((t.name owner).getD "<module>")
  else ((naming t).run t steps [] (some owner)).map fun names => String.intercalate "." names.reverse

section lists
variable (t : SyntaxTree) (ids : List NodeId)

theorem along_seeking (a : NodeId) : (seeking a).along () ids = ids.contains a := by
  induction ids with
  | nil => rfl
  | cons id rest ih =>
    rw [List.contains_cons]
    by_cases h : id = a
    · rw [Ascent.along_inl _ (if_pos h), beq_iff_eq.2 h.symm, Bool.true_or]
    · rw [Ascent.along_inr _ (if_neg h), ih, beq_eq_false_iff_ne.2 (Ne.symm h), Bool.false_or]

theorem along_seeking_kind (kind : SyntaxKind) (boundary : Option NodeId) :
    (t.seekingKind kind boundary).along () ids = t.firstOfKind kind boundary ids := by
  induction ids with
  | nil => rfl
  | cons id rest ih =>
    rw [firstOfKind]
    split
    · next hkind => exact Ascent.along_inl _ (if_pos hkind) rest
    split
    · next hkind hboundary =>
      exact Ascent.along_inl _ ((if_neg hkind).trans (if_pos hboundary)) rest
    · next hkind hboundary =>
      rw [← ih]
      exact Ascent.along_inr _ ((if_neg hkind).trans (if_neg hboundary)) rest

theorem along_seeking_loop (child : NodeId) : t.seekingLoop.along child ids = t.loopAmong child ids := by
  induction ids generalizing child with
  | nil => rfl
  | cons id rest ih =>
    rw [loopAmong]
    split
    · next howner => exact Ascent.along_inl _ (if_pos howner) rest
    split
    · next howner hloop => exact Ascent.along_inl _ ((if_neg howner).trans (if_pos hloop)) rest
    · next howner hloop =>
      rw [← ih]
      exact Ascent.along_inr _ ((if_neg howner).trans (if_neg hloop)) rest

theorem along_naming (names : List String) : t.naming.along names ids = names ++ t.ownerNames ids := by
  induction ids generalizing names with
  | nil => exact (List.append_nil names).symm
  | cons id rest ih =>
    rw [ownerNames]
    split
    · next hmodule =>
      rw [List.append_nil]
      exact Ascent.along_inl _ (if_pos hmodule) rest
    split
    · next hmodule howner =>
      rw [Ascent.along_inr _ ((if_neg hmodule).trans (if_pos howner)), ih, List.append_assoc]
      rfl
    · next hmodule howner =>
      rw [Ascent.along_inr _ ((if_neg hmodule).trans (if_neg howner)), ih]

end lists

def Meets (t : SyntaxTree) : NodeId → NodeId → Prop :=
  Relation.ReflTransGen fun c p => t.parent c = some p

theorem meets_of_top {t : SyntaxTree} {n m : NodeId} (h : t.parent n = none) :
    t.Meets n m ↔ m = n := by
  constructor
  · intro hm
    rcases Relation.ReflTransGen.cases_head hm with rfl | ⟨p, hp, -⟩
    · rfl
    · rw [h] at hp
      cases hp
  · rintro rfl
    exact .refl

theorem meets_of_parent {t : SyntaxTree} {n p m : NodeId} (h : t.parent n = some p) :
    t.Meets n m ↔ m = n ∨ t.Meets p m := by
  constructor
  · intro hm
    rcases Relation.ReflTransGen.cases_head hm with rfl | ⟨q, hq, hm⟩
    · exact .inl rfl
    · obtain rfl := Option.some.inj (h.symm.trans hq)
      exact .inr hm
  · rintro (rfl | hm)
    · exact .refl
    · exact .head h hm

/-- The way up from a node ends at the root, and with it every loop that takes this way. How many steps that
takes is bounded by the index of the node. -/
structure WalksEnd (t : SyntaxTree) (n : NodeId) : Prop where
  meets_root : t.Meets n root
  descendant : ∀ (a : NodeId) (steps : Nat), n.index + 1 < steps →
    (seeking a).run t steps () (some n) = some (t.isDescendantOf n a)
  ofKind : ∀ (kind : SyntaxKind) (boundary : Option NodeId) (steps : Nat), n.index + 1 < steps →
    (t.seekingKind kind boundary).run t steps () (some n) = some (t.ancestorOfKind n kind boundary)
  enclosing : ∀ steps : Nat, n.index + 1 < steps →
    t.seekingLoop.run t steps n (t.parent n) = some (t.enclosingLoop n)
  name : ∀ steps : Nat, n.index + 1 < steps → t.spelling steps n = some (t.qualifiedName n)

theorem Rises.walks_end {t : SyntaxTree} {n : NodeId} (hr : t.Rises n) (hroot : t.Meets n root) :
    t.WalksEnd n where
  meets_root := hroot
  descendant a steps hsteps := by
    rw [(seeking a).run_of_rises hr () steps hsteps, along_seeking, isDescendantOf]
  ofKind kind boundary steps hsteps := by
    rw [Ascent.run_of_rises _ hr () steps hsteps, along_seeking_kind, ancestorOfKind]
  enclosing steps hsteps := by
    rw [Ascent.run_of_parent _ hr n (by omega), along_seeking_loop, enclosingLoop]
  name steps hsteps := by
    rw [spelling, qualifiedName]
    split
    · rfl
    · rw [Ascent.run_of_rises _ hr [] steps hsteps, along_naming, List.nil_append]
      rfl

/-- A loop that looks for the root never ends where the way up arrives at a node that is its own parent. -/
theorem run_seeking_root {t : SyntaxTree} (htop : t.parent root = none) {n m : NodeId}
    (hn : t.Meets n m) (hm : t.parent m = some m) (steps : Nat) :
    (seeking root).run t steps () (some n) = none := by
  have hroot : ∀ x, t.Meets x m → x ≠ root := by
    rintro _ hx rfl
    obtain rfl := (meets_of_top htop).1 hx
    rw [htop] at hm
    cases hm
  induction steps generalizing n with
  | zero => rfl
  | succ steps ih =>
    have hlook : (seeking root).look () n = .inr () := if_neg (hroot n hn)
    simp only [Ascent.run, hlook]
    -- The loop is on its way to `m`, or it is there and stays.
    rcases Relation.ReflTransGen.cases_head hn with rfl | ⟨p, hp, hpm⟩
    · rw [hm]
      exact ih hn
    · rw [hp]
      exact ih hpm

end SyntaxTree
end PythonFlow
