import Mathlib.Data.Set.Basic
import PythonFlow.Proofs.Course.Rules
import PythonFlow.Proofs.Reach.Visit
import PythonFlow.Proofs.Trace.Ended

/-!
# What may be read from an instruction on

A label says what may be read from an instruction on until the end. Labels account for the edges of a
sketch if whatever may be read from the target of an edge, with the target itself before it, may be read
from its source. A visit is given what may be read after each outcome of its node. It labels what it makes
so that flow arrives with no more than a run of the node may emit before that, and leaves the node with
all that may be read after the outcome.
-/

set_option autoImplicit false

namespace PythonFlow.Sketch

abbrev Labels := InstructionId → Set (List NodeId)

/-- What may be read after each outcome of a node. -/
abbrev Sequel := Outcome → Set (List NodeId)

def Sequel.after (K : Sequel) (Y : Set (List NodeId)) : Sequel
  | .normal => Y
  | o => K o

/-- What may be read once flow has left the scope, or after a `return` where there is none. -/
def Sequel.beyond (K : Sequel) : Option NodeId → Set (List NodeId)
  | some l => K (.broke l)
  | none => K .returned

/-- What a run of the task may emit, and what may be read after it. -/
def Then (t : SyntaxTree) (τ : Task) (K : Sequel) : Set (List NodeId) :=
  {w | ∃ w1 o w2, w = w1 ++ w2 ∧ Run t τ w1 o ∧ w2 ∈ K o}

def Agrees (k : Sketch) (C C' : Labels) : Prop := ∀ x : InstructionId, x.index < k.size → C' x = C x

/-- The labels account for every edge. -/
structure Account (t : SyntaxTree) (k : Sketch) (C : Labels) : Prop where
  ranged : ∀ a b, k.Edge a b → a.index < k.size ∧ b.index < k.size
  reads : ∀ a b, k.Edge a b → ∀ w ∈ C b, k.shown t b ++ w ∈ C a

/-- After a `continue` to a loop above `n` its header may be read, and after a `raise` what may be read
after a `return`. -/
structure Resumes (t : SyntaxTree) (n : NodeId) (k : Sketch) (C : Labels) (K : Sequel) : Prop where
  headers : Promised t n k fun h => ∃ l, k.element h = some l ∧ C h ⊆ K (.continued l)
  raised : ∀ r, K .returned ⊆ K (.raised r)

/-- Wherever flow has left `n` since `k`, what follows may be read. -/
structure Leaves (t : SyntaxTree) (n : NodeId) (k k' : Sketch) (C : Labels) (K : Sequel) : Prop where
  normal : ∀ x, Departs t n k' x → K .normal ⊆ C x
  left : ∀ o x, (∀ l, o = some l → t.Inside n l) → k'.Pends o x → New k k' x → K.beyond o ⊆ C x

def Accounted (t : SyntaxTree) (n : NodeId) (k : Sketch) (C : Labels) (K : Sequel) (k' : Sketch) : Prop :=
  ∃ C', Agrees k C C' ∧ Account t k' C' ∧ Leaves t n k k' C' K

def Accounts (t : SyntaxTree) (V : Visitor) (n : NodeId) : Prop :=
  ∀ k C K, Begun t n k → Account t k C → Resumes t n k C K →
    (∀ a ∈ k.arrivals t (some n), Then t (.node n) K ⊆ C a) → Accounted t n k C K (V n k)

def Refers (t : SyntaxTree) (c s : NodeId) : Prop :=
  ∃ x, t.Below x c ∧ (t.kind x = .breakJump ∨ t.kind x = .continueJump) ∧ t.enclosingLoop x = some s

/-- Below the loop `s` the same follows an outcome that does not end there. -/
def Passes (s : NodeId) (K K' : Sequel) : Prop :=
  ∀ o : Outcome, o ≠ .normal → o ≠ .broke s → o ≠ .continued s → K' o = K o

section agrees
variable {k k1 : Sketch} {C C1 C2 : Labels}

theorem Agrees.refl (k : Sketch) (C : Labels) : Agrees k C C := fun _ _ => rfl

theorem Agrees.trans (h : Agrees k C C1) (h' : Agrees k1 C1 C2) (hle : k.size ≤ k1.size) : Agrees k C C2 :=
  fun x hx => (h' x (Nat.lt_of_lt_of_le hx hle)).trans (h x hx)

theorem Agrees.mono (h : Agrees k1 C C1) (hle : k.size ≤ k1.size) : Agrees k C C1 :=
  fun x hx => h x (Nat.lt_of_lt_of_le hx hle)

/-- Labels that agree allow the same. -/
theorem Agrees.subset (h : Agrees k C C1) {x : InstructionId} (hx : x.index < k.size)
    {Y : Set (List NodeId)} (hY : Y ⊆ C x) : Y ⊆ C1 x := by
  rwa [h x hx]

theorem agrees_update (k : Sketch) (C : Labels) (X : Set (List NodeId)) :
    Agrees k C (Function.update C k.next X) := fun x hx =>
  Function.update_of_ne (by rintro rfl; exact Nat.lt_irrefl _ hx) _ _

end agrees

section sequels
variable {t : SyntaxTree} {c s : NodeId} {cs : List NodeId} {K K' : Sequel} {Y : Set (List NodeId)}

theorem Sequel.after_self (K : Sequel) : K.after (K .normal) = K := by
  funext o
  cases o <;> rfl

theorem Sequel.beyond_after (K : Sequel) (Y : Set (List NodeId)) (o : Option NodeId) :
    (K.after Y).beyond o = K.beyond o := by cases o <;> rfl

theorem passes_after (s : NodeId) (K : Sequel) (Y : Set (List NodeId)) : Passes s K (K.after Y) := by
  intro o ho _ _
  cases o with
  | normal => exact absurd rfl ho
  | _ => rfl

theorem Resumes.after {n : NodeId} {k : Sketch} {C : Labels} (h : Resumes t n k C K)
    (Y : Set (List NodeId)) : Resumes t n k C (K.after Y) := ⟨h.headers, h.raised⟩

/-- A task that may emit nothing is passed over. -/
theorem subset_then {τ : Task} (h : Run t τ [] .normal) (K : Sequel) : K .normal ⊆ Then t τ K :=
  fun w hw => ⟨[], .normal, w, rfl, h, hw⟩

/-- Nothing is read in a term. -/
theorem then_quiet (hq : (t.kind c).isQuiet = true) : Then t (.node c) (K.after Y) ⊆ Y := by
  rintro w ⟨w1, o, w2, rfl, hrun, hw⟩
  obtain ⟨rfl, rfl⟩ := hrun.quiet_inv hq
  exact hw

theorem then_all_quiet (hq : ∀ c ∈ cs, (t.kind c).isQuiet = true) :
    Then t (.all cs) (K.after Y) ⊆ Y := by
  rintro w ⟨w1, o, w2, rfl, hrun, hw⟩
  obtain ⟨rfl, rfl⟩ := hrun.all_quiet_inv hq
  exact hw

/-- A node is followed by the rest of the list. -/
theorem then_cons : Then t (.node c) (K.after (Then t (.all cs) K)) ⊆ Then t (.all (c :: cs)) K := by
  rintro w ⟨w1, o, w2, rfl, hrun, hw⟩
  by_cases ho : o = .normal
  · subst ho
    obtain ⟨w3, o', w4, rfl, hrest, hw⟩ := hw
    exact ⟨w1 ++ w3, o', w4, (List.append_assoc _ _ _).symm, .cons hrun hrest, hw⟩
  · refine ⟨w1, o, w2, rfl, .stop hrun ho, ?_⟩
    cases o with
    | normal => exact absurd rfl ho
    | _ => exact hw

/-- A part that is there. -/
theorem then_only : Then t (.node c) K ⊆ Then t (.all [c]) K := by
  rintro w ⟨w1, o, w2, rfl, hrun, hw⟩
  exact ⟨w1, o, w2, rfl, hrun.only, hw⟩

end sequels
end PythonFlow.Sketch
