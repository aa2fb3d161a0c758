import PythonFlow.Owner.Name
import PythonFlow.Proofs.Tree.Loops
import PythonFlow.Proofs.Tree.Parts

/-!
# Runs of structured code

The reference semantics that the graphs are compared with. It knows neither instructions nor pending
edges: a run emits the simple statements that it passes, and comes to an outcome. What a condition
gives is left open, and so is how often a loop goes round.

A handler may be entered before the body of its statement has emitted anything, after the body has
come to its end, and from a `raise` in the body. A `finally` clause runs after every outcome, which is
resumed afterwards unless the clause jumps itself.
-/

set_option autoImplicit false

namespace PythonFlow

namespace SyntaxKind

/-- Statements that a run emits. -/
def isSimple : SyntaxKind → Bool
  | statement | assignment | importStatement | breakJump | continueJump | returnExit | raiseExit
  | functionDef | classDef => true
  | _ => false

/-- Nodes that run what is under them, one after the other, and emit nothing. -/
def isSuite : SyntaxKind → Bool
  | block | elsePart | tryPart | exceptPart | finallyPart => true
  | _ => false

@[grind →] theorem not_quiet_of_suite {k : SyntaxKind} (h : k.isSuite = true) :
    k.isQuiet = false := by
  revert h
  cases k <;> simp [isSuite, isQuiet]

@[grind →] theorem not_quiet_of_loop {k : SyntaxKind} (h : k.isLoop = true) :
    k.isQuiet = false := by
  revert h
  cases k <;> simp [isLoop, isQuiet]

theorem not_loop_of_suite {k : SyntaxKind} (h : k.isSuite = true) : k.isLoop = false := by
  revert h
  cases k <;> simp [isSuite, isLoop]

theorem not_owner_of_suite {k : SyntaxKind} (h : k.isSuite = true) : k.isOwner = false := by
  revert h
  cases k <;> simp [isSuite, isOwner]

@[grind →] theorem not_suite_of_loop {k : SyntaxKind} (h : k.isLoop = true) :
    k.isSuite = false := by
  revert h
  cases k <;> simp [isLoop, isSuite]

end SyntaxKind

inductive Outcome where
  | normal
  | broke (loop : NodeId)
  | continued (loop : NodeId)
  | returned
  | raised (jump : NodeId)
deriving DecidableEq

namespace Outcome

/-- After this outcome of its body the loop goes round again, or comes to its end. -/
def again (loop : NodeId) : Outcome → Bool
  | normal => true
  | continued l => l == loop
  | _ => false

def leave (loop : NodeId) : Outcome → Outcome
  | broke l => if l = loop then normal else broke l
  | o => o

/-- Outcomes with which the code of an owner may finish. -/
def isFinal : Outcome → Bool
  | normal | returned | raised _ => true
  | _ => false

end Outcome

inductive Task where
  | node (n : NodeId)
  /-- Several nodes, one after the other. -/
  | all (ns : List NodeId)
  /-- What is left of a loop each time its header has been reached. -/
  | rounds (loop : NodeId)
  /-- A `try` statement without its `finally` clause. -/
  | attempt (statement : NodeId)

/-- A task may emit these simple statements and come to this outcome. -/
inductive Run (t : SyntaxTree) : Task → List NodeId → Outcome → Prop
  | nil : Run t (.all []) [] .normal
  | cons {n : NodeId} {ns w w' : List NodeId} {o : Outcome} (h : Run t (.node n) w .normal)
      (rest : Run t (.all ns) w' o) : Run t (.all (n :: ns)) (w ++ w') o
  | stop {n : NodeId} {ns w : List NodeId} {o : Outcome} (h : Run t (.node n) w o)
      (ho : o ≠ .normal) : Run t (.all (n :: ns)) w o
  | quiet {n : NodeId} (hk : (t.kind n).isQuiet = true) : Run t (.node n) [] .normal
  | suite {n : NodeId} {w : List NodeId} {o : Outcome} (hk : (t.kind n).isSuite = true)
      (h : Run t (.all (t.children n)) w o) : Run t (.node n) w o
  | binding {n : NodeId} (hk : t.kind n = .assignment ∨ t.kind n = .importStatement ∨
      t.kind n = .functionDef ∨ t.kind n = .classDef) : Run t (.node n) [n] .normal
  | statement {n : NodeId} {w : List NodeId} {o : Outcome} (hk : t.kind n = .statement)
      (h : Run t (.all (t.children n)) w o) : Run t (.node n) (n :: w) o
  | exit {n : NodeId} (hk : t.kind n = .returnExit) : Run t (.node n) [n] .returned
  | raise {n : NodeId} (hk : t.kind n = .raiseExit) : Run t (.node n) [n] (.raised n)
  | broke {n l : NodeId} (hk : t.kind n = .breakJump) (hl : t.enclosingLoop n = some l) :
      Run t (.node n) [n] (.broke l)
  | continued {n l : NodeId} (hk : t.kind n = .continueJump) (hl : t.enclosingLoop n = some l) :
      Run t (.node n) [n] (.continued l)
  | astray {n : NodeId} (hk : t.kind n = .breakJump ∨ t.kind n = .continueJump)
      (hl : t.enclosingLoop n = none) : Run t (.node n) [n] .normal
  | part {n p : NodeId} {w : List NodeId} {o : Outcome} (hk : t.kind n = .ifStatement)
      (hp : p ∈ t.ifParts n) (h : Run t (.all (t.body p).toList) w o) : Run t (.node n) w o
  | otherwise {n : NodeId} {w : List NodeId} {o : Outcome} (hk : t.kind n = .ifStatement)
      (h : Run t (.all (t.elsePart n).toList) w o) : Run t (.node n) w o
  | loop {n : NodeId} {w : List NodeId} {o : Outcome} (hk : (t.kind n).isLoop = true)
      (h : Run t (.rounds n) w o) : Run t (.node n) w o
  | round {n b : NodeId} {w w' : List NodeId} {o o' : Outcome} (hb : t.body n = some b)
      (h : Run t (.node b) w o) (ho : o.again n = true) (rest : Run t (.rounds n) w' o') :
      Run t (.rounds n) (w ++ w') o'
  | left {n b : NodeId} {w : List NodeId} {o : Outcome} (hb : t.body n = some b)
      (h : Run t (.node b) w o) (ho : o.again n = false) : Run t (.rounds n) w (o.leave n)
  | exhausted {n : NodeId} {w : List NodeId} {o : Outcome} (h : Run t (.all (t.elsePart n).toList) w o) :
      Run t (.rounds n) w o
  | tried {n : NodeId} {w w' : List NodeId} {o : Outcome}
      (h : Run t (.all (t.tryPart n).toList) w .normal)
      (rest : Run t (.all (t.elsePart n).toList) w' o) : Run t (.attempt n) (w ++ w') o
  | failed {n : NodeId} {w : List NodeId} {o : Outcome} (h : Run t (.all (t.tryPart n).toList) w o)
      (ho : o ≠ .normal) (hr : ∀ r, o = .raised r → t.exceptParts n = []) : Run t (.attempt n) w o
  | early {n p : NodeId} {w : List NodeId} {o : Outcome} (hp : p ∈ t.exceptParts n)
      (h : Run t (.node p) w o) : Run t (.attempt n) w o
  | late {n p : NodeId} {w w' : List NodeId} {o : Outcome}
      (h : Run t (.all (t.tryPart n).toList) w .normal) (hp : p ∈ t.exceptParts n)
      (rest : Run t (.node p) w' o) : Run t (.attempt n) (w ++ w') o
  | caught {n p r : NodeId} {w w' : List NodeId} {o : Outcome}
      (h : Run t (.all (t.tryPart n).toList) w (.raised r)) (hp : p ∈ t.exceptParts n)
      (rest : Run t (.node p) w' o) : Run t (.attempt n) (w ++ w') o
  | unguarded {n : NodeId} {w : List NodeId} {o : Outcome} (hk : t.kind n = .tryStatement)
      (hf : t.finallyPart n = none) (h : Run t (.attempt n) w o) : Run t (.node n) w o
  | resumed {n f : NodeId} {w w' : List NodeId} {o : Outcome} (hk : t.kind n = .tryStatement)
      (hf : t.finallyPart n = some f) (h : Run t (.attempt n) w o)
      (rest : Run t (.node f) w' .normal) : Run t (.node n) (w ++ w') o
  | replaced {n f : NodeId} {w w' : List NodeId} {o o' : Outcome} (hk : t.kind n = .tryStatement)
      (hf : t.finallyPart n = some f) (h : Run t (.attempt n) w o)
      (rest : Run t (.node f) w' o') (ho : o' ≠ .normal) : Run t (.node n) (w ++ w') o'

/-- What a run of the code of an owner may emit until it finishes. -/
def Finished (t : SyntaxTree) (owner : NodeId) (w : List NodeId) : Prop :=
  ∃ o, Run t (.all (t.children owner)) w o ∧ o.isFinal = true

namespace Run
variable {t : SyntaxTree} {w : List NodeId} {o : Outcome}

theorem all_nil (h : Run t (.all []) w o) : w = [] ∧ o = .normal := by
  cases h
  exact ⟨rfl, rfl⟩

theorem of_only {n : NodeId} (h : Run t (.all [n]) w o) : Run t (.node n) w o := by
  cases h with
  | cons h rest =>
    obtain ⟨rfl, rfl⟩ := rest.all_nil
    rwa [List.append_nil]
  | stop h _ => exact h

theorem only {n : NodeId} (h : Run t (.node n) w o) : Run t (.all [n]) w o := by
  by_cases ho : o = .normal
  · subst ho
    rw [← List.append_nil w]
    exact .cons h .nil
  · exact .stop h ho

section inversion
variable {n : NodeId}

theorem quiet_inv (hq : (t.kind n).isQuiet = true) (h : Run t (.node n) w o) :
    w = [] ∧ o = .normal := by
  cases h with
  | quiet => exact ⟨rfl, rfl⟩
  | _ => grind [SyntaxKind.isQuiet, SyntaxKind.isSuite, SyntaxKind.isLoop]

/-- Nothing is emitted where there are only terms. -/
theorem all_quiet_inv {cs : List NodeId} (hq : ∀ c ∈ cs, (t.kind c).isQuiet = true)
    (h : Run t (.all cs) w o) : w = [] ∧ o = .normal := by
  induction cs generalizing w with
  | nil => exact h.all_nil
  | cons c cs ih =>
    cases h with
    | cons h rest =>
      obtain ⟨rfl, -⟩ := h.quiet_inv (hq c (by simp))
      exact ih (fun d hd => hq d (by simp [hd])) rest
    | stop h hne => exact absurd (h.quiet_inv (hq c (by simp))).2 hne

theorem suite_inv (hs : (t.kind n).isSuite = true) (h : Run t (.node n) w o) :
    Run t (.all (t.children n)) w o := by
  cases h with
  | suite _ h => exact h
  | _ => grind [SyntaxKind.isQuiet, SyntaxKind.isSuite, SyntaxKind.isLoop]

theorem statement_inv (hs : t.kind n = .statement) (h : Run t (.node n) w o) :
    ∃ w', w = n :: w' ∧ Run t (.all (t.children n)) w' o := by
  cases h with
  | statement _ h => exact ⟨_, rfl, h⟩
  | _ => grind [SyntaxKind.isQuiet, SyntaxKind.isSuite, SyntaxKind.isLoop]

theorem binding_inv (hs : t.kind n = .assignment ∨ t.kind n = .importStatement ∨
    t.kind n = .functionDef ∨ t.kind n = .classDef) (h : Run t (.node n) w o) :
    w = [n] ∧ o = .normal := by
  cases h with
  | binding => exact ⟨rfl, rfl⟩
  | _ => grind [SyntaxKind.isQuiet, SyntaxKind.isSuite, SyntaxKind.isLoop]

theorem exit_inv (hs : t.kind n = .returnExit) (h : Run t (.node n) w o) :
    w = [n] ∧ o = .returned := by
  cases h with
  | exit => exact ⟨rfl, rfl⟩
  | _ => grind [SyntaxKind.isQuiet, SyntaxKind.isSuite, SyntaxKind.isLoop]

theorem raise_inv (hs : t.kind n = .raiseExit) (h : Run t (.node n) w o) :
    w = [n] ∧ o = .raised n := by
  cases h with
  | raise => exact ⟨rfl, rfl⟩
  | _ => grind [SyntaxKind.isQuiet, SyntaxKind.isSuite, SyntaxKind.isLoop]

theorem break_inv (hs : t.kind n = .breakJump) (h : Run t (.node n) w o) :
    w = [n] ∧ (t.enclosingLoop n = none ∧ o = .normal ∨
      ∃ l, t.enclosingLoop n = some l ∧ o = .broke l) := by
  cases h with
  | broke _ hl => exact ⟨rfl, .inr ⟨_, hl, rfl⟩⟩
  | astray _ hl => exact ⟨rfl, .inl ⟨hl, rfl⟩⟩
  | _ => grind [SyntaxKind.isQuiet, SyntaxKind.isSuite, SyntaxKind.isLoop]

theorem continue_inv (hs : t.kind n = .continueJump) (h : Run t (.node n) w o) :
    w = [n] ∧ (t.enclosingLoop n = none ∧ o = .normal ∨
      ∃ l, t.enclosingLoop n = some l ∧ o = .continued l) := by
  cases h with
  | continued _ hl => exact ⟨rfl, .inr ⟨_, hl, rfl⟩⟩
  | astray _ hl => exact ⟨rfl, .inl ⟨hl, rfl⟩⟩
  | _ => grind [SyntaxKind.isQuiet, SyntaxKind.isSuite, SyntaxKind.isLoop]

theorem if_inv (hs : t.kind n = .ifStatement) (h : Run t (.node n) w o) :
    (∃ p ∈ t.ifParts n, Run t (.all (t.body p).toList) w o) ∨
      Run t (.all (t.elsePart n).toList) w o := by
  cases h with
  | part _ hp h => exact .inl ⟨_, hp, h⟩
  | otherwise _ h => exact .inr h
  | _ => grind [SyntaxKind.isQuiet, SyntaxKind.isSuite, SyntaxKind.isLoop]

theorem loop_inv (hs : (t.kind n).isLoop = true) (h : Run t (.node n) w o) :
    Run t (.rounds n) w o := by
  cases h with
  | loop _ h => exact h
  | _ => grind [SyntaxKind.isQuiet, SyntaxKind.isSuite, SyntaxKind.isLoop]

theorem try_inv (hs : t.kind n = .tryStatement) (h : Run t (.node n) w o) :
    (t.finallyPart n = none ∧ Run t (.attempt n) w o) ∨
      ∃ f w1 w2 o1 o2, t.finallyPart n = some f ∧ w = w1 ++ w2 ∧ Run t (.attempt n) w1 o1 ∧
        Run t (.node f) w2 o2 ∧ o = if o2 = .normal then o1 else o2 := by
  cases h with
  | unguarded _ hf h => exact .inl ⟨hf, h⟩
  | resumed _ hf h rest => exact .inr ⟨_, _, _, _, _, hf, rfl, h, rest, rfl⟩
  | replaced _ hf h rest ho => exact .inr ⟨_, _, _, _, _, hf, rfl, h, rest, (if_neg ho).symm⟩
  | _ => grind [SyntaxKind.isQuiet, SyntaxKind.isSuite, SyntaxKind.isLoop]

/-- A part of a conditional is run by the conditional only, and a file by its owner. -/
theorem not_of_part (hs : t.kind n = .module ∨ t.kind n = .ifPart ∨ t.kind n = .elifPart) :
    ¬ Run t (.node n) w o := by
  intro h
  cases h with
  | _ => grind [SyntaxKind.isQuiet, SyntaxKind.isSuite, SyntaxKind.isLoop]

end inversion

end Run

/-- `n` stands in the code of `owner`, and of no owner further down. -/
def SyntaxTree.Owns (t : SyntaxTree) (owner n : NodeId) : Prop :=
  t.Inside n owner ∧ ∀ m, t.Inside n m → t.Inside m owner → (t.kind m).isOwner = false

/-- `n` holds `c`, with no owner from there up to `n`. -/
def SyntaxTree.Holds (t : SyntaxTree) (n c : NodeId) : Prop :=
  t.Below c n ∧ ∀ m, t.Inside c m → t.Below m n → (t.kind m).isOwner = false

def Task.Holds (t : SyntaxTree) : Task → NodeId → Prop
  | node n, c => t.Holds n c
  | all ns, c => ∃ n ∈ ns, t.Holds n c
  | rounds n, c | attempt n, c => ∃ d ∈ t.children n, t.Holds d c

def Outcome.From (t : SyntaxTree) (P : NodeId → Prop) : Outcome → Prop
  | broke l => ∃ b, P b ∧ t.kind b = .breakJump ∧ t.enclosingLoop b = some l
  | continued l => ∃ c, P c ∧ t.kind c = .continueJump ∧ t.enclosingLoop c = some l
  | raised r => P r ∧ t.kind r = .raiseExit
  | _ => True

section sources
variable {t : SyntaxTree} {P Q : NodeId → Prop} {o : Outcome} {n c d : NodeId}

theorem Outcome.From.mono (h : o.From t P) (hPQ : ∀ c, P c → Q c) : o.From t Q := by
  cases o with
  | broke l | continued l =>
    obtain ⟨c, hc, hk⟩ := h
    exact ⟨c, hPQ c hc, hk⟩
  | raised r => exact ⟨hPQ r h.1, h.2⟩
  | _ => trivial

theorem Outcome.From.leave (h : o.From t P) (l : NodeId) : (o.leave l).From t P := by
  cases o with
  | broke l' =>
    rw [Outcome.leave]
    by_cases hl : l' = l
    · rw [if_pos hl]
      trivial
    · rw [if_neg hl]
      exact h
  | _ => exact h

variable (ho : t.Ordered)
include ho

theorem holds_of_child (hd : d ∈ t.children n) (hn : (t.kind n).isOwner = false)
    (h : t.Holds d c) : t.Holds n c := by
  have hp := ho.parent_of_mem hd
  refine ⟨ho.below_trans h.1 (ho.inside_parent hp).1, fun m hm hmn => ?_⟩
  rcases ho.below_total hm.1 h.1 with hmd | hdm
  · exact h.2 m hm hmd
  · by_cases heq : d = m
    · exact h.2 m hm (heq ▸ t.below_refl d)
    · rw [ho.below_antisymm hmn (ho.below_of_inside_parent hp ⟨hdm, heq⟩)]
      exact hn

theorem holds_self (n : NodeId) : t.Holds n n :=
  ⟨t.below_refl n, fun _ hm hmn => absurd hmn (ho.not_below_of_inside hm)⟩

theorem owns_of_child (hc : c ∈ t.children n) : t.Owns n c := by
  have hp := ho.parent_of_mem hc
  exact ⟨ho.inside_parent hp, fun m hm hmn =>
    absurd (ho.below_of_inside_parent hp hm) (ho.not_below_of_inside hmn)⟩

theorem SyntaxTree.Owns.held {owner : NodeId} (h : t.Owns owner n) (hc : t.Holds n c) :
    t.Owns owner c := by
  refine ⟨ho.inside_of_below_inside hc.1 h.1, fun m hm hmo => ?_⟩
  rcases ho.below_total hm.1 hc.1 with hmn | hnm
  · exact hc.2 m hm hmn
  · by_cases heq : n = m
    · exact hc.2 m hm (heq ▸ t.below_refl n)
    · exact h.2 m ⟨hnm, heq⟩ hmo

theorem SyntaxTree.Owns.child {owner : NodeId} (h : t.Owns owner n)
    (hn : (t.kind n).isOwner = false) (hc : c ∈ t.children n) : t.Owns owner c :=
  h.held ho (holds_of_child ho hc hn (holds_self ho c))

theorem Run.from_code {τ : Task} {w : List NodeId} (h : Run t τ w o) :
    o.From t (τ.Holds t) := by
  induction h with
  | nil | quiet | binding | exit | astray => trivial
  | cons _ _ _ ih => exact ih.mono fun c ⟨n, hn, h⟩ => ⟨n, List.mem_cons_of_mem _ hn, h⟩
  | stop _ _ ih => exact ih.mono fun c h => ⟨_, List.mem_cons_self, h⟩
  | suite hk _ ih =>
    exact ih.mono fun c ⟨d, hd, h⟩ => holds_of_child ho hd (SyntaxKind.not_owner_of_suite hk) h
  | statement hk _ ih => exact ih.mono fun c ⟨d, hd, h⟩ => holds_of_child ho hd (by rw [hk]; rfl) h
  | raise hk => exact ⟨holds_self ho _, hk⟩
  | broke hk hl | continued hk hl => exact ⟨_, holds_self ho _, hk, hl⟩
  | part hk hp _ ih =>
    obtain ⟨hp, hpk⟩ := SyntaxTree.mem_if_parts.1 hp
    refine ih.mono fun c ⟨d, hd, h⟩ => ?_
    have hd := (SyntaxTree.mem_body (Option.mem_toList.1 hd)).1
    refine holds_of_child ho hp (by rw [hk]; rfl) (holds_of_child ho hd ?_ h)
    rcases hpk with hpk | hpk <;> rw [hpk] <;> rfl
  | otherwise hk _ ih =>
    refine ih.mono fun c ⟨d, hd, h⟩ => ?_
    exact holds_of_child ho (SyntaxTree.mem_else_part (Option.mem_toList.1 hd)).1 (by rw [hk]; rfl) h
  | loop hk _ ih =>
    exact ih.mono fun c ⟨d, hd, h⟩ => holds_of_child ho hd (SyntaxTree.not_owner_of_loop hk) h
  | round _ _ _ _ _ ih => exact ih
  | left hb _ _ ih =>
    exact (ih.mono fun c h => ⟨_, (SyntaxTree.mem_body hb).1, h⟩).leave _
  | exhausted _ ih =>
    exact ih.mono fun c ⟨d, hd, h⟩ =>
      ⟨d, (SyntaxTree.mem_else_part (Option.mem_toList.1 hd)).1, h⟩
  | tried _ _ _ ih =>
    exact ih.mono fun c ⟨d, hd, h⟩ =>
      ⟨d, (SyntaxTree.mem_else_part (Option.mem_toList.1 hd)).1, h⟩
  | failed _ _ _ ih =>
    exact ih.mono fun c ⟨d, hd, h⟩ =>
      ⟨d, (SyntaxTree.mem_try_part (Option.mem_toList.1 hd)).1, h⟩
  | early hp _ ih => exact ih.mono fun c h => ⟨_, (SyntaxTree.mem_except_parts.1 hp).1, h⟩
  | late _ hp _ _ ih => exact ih.mono fun c h => ⟨_, (SyntaxTree.mem_except_parts.1 hp).1, h⟩
  | caught _ hp _ _ ih => exact ih.mono fun c h => ⟨_, (SyntaxTree.mem_except_parts.1 hp).1, h⟩
  | unguarded hk _ _ ih | resumed hk _ _ _ ih =>
    exact ih.mono fun c ⟨d, hd, h⟩ => holds_of_child ho hd (by rw [hk]; rfl) h
  | replaced hk hf _ _ _ _ ih =>
    exact ih.mono fun c h =>
      holds_of_child ho (SyntaxTree.mem_finally_part hf).1 (by rw [hk]; rfl) h

/-- What is broken out of is a loop. -/
theorem Run.not_broke {τ : Task} {w : List NodeId} (h : Run t τ w o) (hn : (t.kind n).isLoop = false) :
    o ≠ .broke n := by
  rintro rfl
  obtain ⟨b, -, -, hl⟩ := h.from_code ho
  rw [(ho.enclosing_loop_above hl).2.1] at hn
  cases hn

end sources
end PythonFlow
