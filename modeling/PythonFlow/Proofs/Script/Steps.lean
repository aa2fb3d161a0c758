import PythonFlow.Flow.Script
import PythonFlow.Proofs.Sketch.Drawing

/-!
# Where pending edges land

What a script of the elementary steps says about its graph, read off the script itself. An instruction
is made by each step that names a node for it, and the exit at the end. While steps pass, control stands
somewhere or nowhere; an edge left pending lands on the first instruction made afterwards that is outside
its scope, at the latest on the exit.
-/

set_option autoImplicit false

namespace PythonFlow

def BuildStep.makes : BuildStep → Option (NodeId × InstructionKind)
  | node element => some (element, .plain)
  | conditional element condition outcome => some (element, .conditional condition outcome)
  | write element name => some (element, .write name)
  | _ => none

namespace Script

structure Standing where
  made : Nat
  cursor : Option InstructionId

namespace Standing

def initial : Standing := ⟨1, some ⟨0⟩⟩

def next (p : Standing) : InstructionId := ⟨p.made⟩

def after (p : Standing) (step : BuildStep) : Standing :=
  match step with
  | .node _ | .conditional _ _ _ | .write _ _ => ⟨p.made + 1, some p.next⟩
  | .abrupt => ⟨p.made, none⟩
  | .setCursor cursor => ⟨p.made, cursor⟩
  | _ => p

def afterAll (p : Standing) (steps : List BuildStep) : Standing := steps.foldl after p

end Standing

/-- Elementary steps that name nodes of the tree and instructions made before. -/
def Valid (t : SyntaxTree) : Standing → List BuildStep → Prop
  | _, [] => True
  | p, step :: rest =>
    (match step with
      | .node element | .conditional element _ _ | .write element _ => element.index < t.size
      | .abrupt => True
      | .setCursor cursor => ∀ i, cursor = some i → i.index < p.made
      | .pending scope source =>
        (∀ n, scope = some n → n.index < t.size) ∧ ∀ i, source = some i → i.index < p.made
      | _ => False) ∧ Valid t (p.after step) rest

/-- The instructions made from the given number on, and what for; the exit comes last. -/
def makes (n : Nat) : List BuildStep → List (InstructionId × Option NodeId)
  | [] => [(⟨n⟩, none)]
  | step :: rest =>
    match step.makes with
    | some m => (⟨n⟩, some m.1) :: makes (n + 1) rest
    | none => makes n rest

def landing (t : SyntaxTree) (e : PendingEdge) (n : Nat) (steps : List BuildStep) :
    Option InstructionId :=
  ((makes n steps).find? fun m => e.lands t m.2).map Prod.fst

/-- The source of the edge that a step leaves pending, if it does, with where the edge lands. -/
def claim (t : SyntaxTree) (made : Nat) (rest : List BuildStep) :
    BuildStep → List (InstructionId × Option InstructionId)
  | .pending scope (some source) => [(source, landing t ⟨scope, source⟩ made rest)]
  | _ => []

def claims (t : SyntaxTree) : Standing → List BuildStep → List (InstructionId × Option InstructionId)
  | _, [] => []
  | p, step :: rest => claim t p.made rest step ++ claims t (p.after step) rest

/-- The sources that the instruction claims, in the order in which they were left pending. -/
def claimed (t : SyntaxTree) (p : Standing) (steps : List BuildStep) (j : InstructionId) :
    List InstructionId :=
  ((claims t p steps).filter fun c => c.2 == some j).map Prod.fst

/-- After the steps `before` of the script an instruction is made, by the next step or at the end. -/
inductive Makes (steps before : List BuildStep) : Prop
  | step {step : BuildStep} {after : List BuildStep} (h : steps = before ++ step :: after)
      (hm : step.makes.isSome = true)
  | exit (h : steps = before)

section numbers
variable {t : SyntaxTree} {e : PendingEdge} {p : Standing} {n : Nat} {steps before : List BuildStep}
  {step : BuildStep} {j : InstructionId}

theorem made_after (p : Standing) (step : BuildStep) :
    (p.after step).made = p.made + if step.makes.isSome then 1 else 0 := by
  cases step <;> rfl

theorem made_le_after_all (p : Standing) (steps : List BuildStep) : p.made ≤ (p.afterAll steps).made := by
  induction steps generalizing p with
  | nil => exact Nat.le_refl _
  | cons step steps ih =>
    have hstep := made_after p step
    have hrest := ih (p.after step)
    exact Nat.le_trans (by omega) hrest

theorem makes_cons (step : BuildStep) (steps : List BuildStep) :
    Makes (step :: steps) before ↔
      before = [] ∧ step.makes.isSome = true ∨ ∃ rest, before = step :: rest ∧ Makes steps rest := by
  constructor
  · rintro (⟨h, hm⟩ | h)
    · cases before with
      | nil =>
        obtain ⟨rfl, -⟩ := List.cons.inj h
        exact .inl ⟨rfl, hm⟩
      | cons first rest =>
        obtain ⟨rfl, htail⟩ := List.cons.inj h
        exact .inr ⟨rest, rfl, .step htail hm⟩
    · exact .inr ⟨steps, h.symm, .exit rfl⟩
  · rintro (⟨rfl, hm⟩ | ⟨rest, rfl, h | h⟩)
    · exact .step rfl hm
    · next hm => exact .step (congrArg (step :: ·) h) hm
    · exact .exit (congrArg (step :: ·) h)

theorem makes_nil : Makes [] before ↔ before = [] := by
  constructor
  · rintro (⟨h, -⟩ | h)
    · simp at h
    · exact h.symm
  · rintro rfl
    exact .exit rfl

/-- Each number in turn is taken by one instruction. -/
theorem exists_makes (hlo : p.made ≤ j.index) (hhi : j.index ≤ (p.afterAll steps).made) :
    ∃ before, Makes steps before ∧ (p.afterAll before).next = j := by
  induction steps generalizing p with
  | nil => exact ⟨[], .exit rfl, congrArg InstructionId.mk (Nat.le_antisymm hlo hhi)⟩
  | cons step steps ih =>
    by_cases hj : (p.after step).made ≤ j.index
    · obtain ⟨before, hb, hnext⟩ := ih hj hhi
      exact ⟨step :: before, (makes_cons step steps).2 (.inr ⟨before, rfl, hb⟩), hnext⟩
    · have hmade := made_after p step
      refine ⟨[], (makes_cons step steps).2 (.inl ⟨rfl, ?_⟩), congrArg InstructionId.mk (?_ : p.made = _)⟩
      · by_cases hm : step.makes.isSome = true
        · exact hm
        · rw [if_neg hm] at hmade
          omega
      · split at hmade <;> omega

theorem landing_nil : landing t e n [] = some ⟨n⟩ := by
  simp [landing, makes, PendingEdge.lands]

theorem landing_of_makes {m : NodeId × InstructionKind} (h : step.makes = some m) :
    landing t e n (step :: steps) =
      if e.lands t (some m.1) then some ⟨n⟩ else landing t e (n + 1) steps := by
  simp only [landing, makes, h, List.find?_cons]
  cases e.lands t (some m.1) <;> rfl

theorem landing_of_none (h : step.makes = none) :
    landing t e n (step :: steps) = landing t e n steps := by
  simp only [landing, makes, h]

/-- The exit takes what nothing before it takes. -/
theorem exists_landing : ∃ j, landing t e n steps = some j := by
  induction steps generalizing n with
  | nil => exact ⟨⟨n⟩, landing_nil⟩
  | cons step steps ih =>
    cases hm : step.makes with
    | none =>
      rw [landing_of_none hm]
      exact ih
    | some m =>
      rw [landing_of_makes hm]
      split
      · exact ⟨⟨n⟩, rfl⟩
      · exact ih

theorem le_of_landing (h : landing t e n steps = some j) : n ≤ j.index := by
  induction steps generalizing n with
  | nil =>
    rw [landing_nil] at h
    exact Option.some.inj h ▸ Nat.le_refl n
  | cons step steps ih =>
    cases hm : step.makes with
    | none =>
      rw [landing_of_none hm] at h
      exact ih h
    | some m =>
      rw [landing_of_makes hm] at h
      split at h
      · exact Option.some.inj h ▸ Nat.le_refl n
      · exact Nat.le_of_succ_le (ih h)

theorem landing_le (h : landing t e p.made steps = some j) : j.index ≤ (p.afterAll steps).made := by
  induction steps generalizing p with
  | nil =>
    rw [landing_nil] at h
    exact Option.some.inj h ▸ Nat.le_refl p.made
  | cons step steps ih =>
    have hmade := made_after p step
    cases hm : step.makes with
    | none =>
      rw [landing_of_none hm] at h
      rw [hm] at hmade
      exact ih (hmade ▸ h)
    | some m =>
      rw [landing_of_makes hm] at h
      rw [hm] at hmade
      split at h
      · rw [← Option.some.inj h]
        exact made_le_after_all p (step :: steps)
      · exact ih (hmade ▸ h)

theorem mem_claim {a : InstructionId} {o : Option InstructionId} :
    (a, o) ∈ claim t n steps step ↔
      ∃ scope, step = .pending scope (some a) ∧ landing t ⟨scope, a⟩ n steps = o := by
  unfold claim
  split
  · next scope source =>
    simp only [List.mem_singleton, Prod.mk.injEq, BuildStep.pending.injEq, Option.some.injEq]
    constructor
    · rintro ⟨rfl, rfl⟩
      exact ⟨scope, ⟨rfl, rfl⟩, rfl⟩
    · rintro ⟨scope', ⟨rfl, rfl⟩, rfl⟩
      exact ⟨rfl, rfl⟩
  · next hother =>
    refine ⟨fun h => (List.not_mem_nil h).elim, ?_⟩
    rintro ⟨scope, rfl, -⟩
    exact (hother scope a rfl).elim

/-- One claim for each pending edge. -/
theorem mem_claims {a : InstructionId} {o : Option InstructionId} :
    (a, o) ∈ claims t p steps ↔ ∃ before scope after,
      steps = before ++ .pending scope (some a) :: after ∧
        landing t ⟨scope, a⟩ (p.afterAll before).made after = o := by
  induction steps generalizing p with
  | nil => simp [claims]
  | cons step steps ih =>
    rw [claims, List.mem_append, ih, mem_claim]
    constructor
    · rintro (⟨scope, rfl, hland⟩ | ⟨before, scope, after, rfl, hland⟩)
      · exact ⟨[], scope, steps, rfl, hland⟩
      · exact ⟨step :: before, scope, after, rfl, hland⟩
    · rintro ⟨before, scope, after, h, hland⟩
      cases before with
      | nil =>
        obtain ⟨rfl, rfl⟩ := List.cons.inj h
        exact .inl ⟨scope, rfl, hland⟩
      | cons first before =>
        obtain ⟨rfl, rfl⟩ := List.cons.inj h
        exact .inr ⟨before, scope, after, rfl, hland⟩

theorem mem_claimed {a : InstructionId} : a ∈ claimed t p steps j ↔ (a, some j) ∈ claims t p steps := by
  simp only [claimed, List.mem_map, List.mem_filter, beq_iff_eq]
  constructor
  · rintro ⟨⟨x, o⟩, ⟨hmem, rfl⟩, rfl⟩
    exact hmem
  · exact fun h => ⟨(a, some j), ⟨h, rfl⟩, rfl⟩

theorem le_of_claim {a : InstructionId} (h : (a, some j) ∈ claims t p steps) : p.made ≤ j.index := by
  obtain ⟨before, scope, after, -, hland⟩ := mem_claims.1 h
  exact Nat.le_trans (made_le_after_all p before) (le_of_landing hland)

end numbers
end Script
end PythonFlow
