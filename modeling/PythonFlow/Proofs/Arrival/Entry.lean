import PythonFlow.Proofs.Course.Once

/-!
# The entry of a statement

A statement has one instruction from its own rule, and a visit makes it before all others. So a visit of a
statement always leaves a frame, with what comes to the statement led to its entry.
-/

set_option autoImplicit false

namespace PythonFlow.Sketch
variable {t : SyntaxTree} {s : NodeId} {k : Sketch}

def Gauge.madeFor (s : NodeId) : Gauge := .seeing false fun el _ => el == s

theorem one_le_share (hs : (t.kind s).isStatement = true) (depth : Nat) :
    1 ≤ (Gauge.madeFor s).share t depth s := by
  have hweight : ∀ name, (Gauge.madeFor s).weight s name = 1 := fun name => by
    simp [Gauge.weight, Gauge.madeFor, Gauge.seeing]
  cases depth with
  | zero =>
    rw [Gauge.share, hweight]
    exact Nat.le_add_right 1 _
  | succ depth =>
    obtain ⟨name, hname⟩ := SyntaxTree.instances_statement hs
    rw [Gauge.share, Gauge.own, hname, Gauge.count_single, hweight]
    omega

/-- The first instruction that a visit of a statement makes is for the statement. -/
theorem entered_statement (hg : t.Grammatical) (hs : (t.kind s).isStatement = true) (depth : Nat)
    (hk : Sound t s k) : (visit t depth s k).element k.next = some s := by
  have hmodule : t.kind s ≠ .module := by
    intro h
    rw [h] at hs
    cases hs
  have hblind : (Gauge.madeFor s).Blind t s :=
    blind_of_seen (fun _ _ hne => beq_false_of_ne hne) (.inl hs) s
  have hof := of_visit hg hmodule hblind depth k
  have hshare := one_le_share hs depth
  obtain ⟨rest, hrest⟩ := made_visit hg depth hk
  have hcount : 0 < rest.countP (Gauge.madeFor s).sees := by
    have hmade : ∀ k : Sketch, (Gauge.madeFor s).of k = k.made.countP (Gauge.madeFor s).sees := fun k => by
      simp [Gauge.of, Gauge.madeFor, Gauge.seeing]
    have hsum : (visit t depth s k).made.countP (Gauge.madeFor s).sees =
        k.made.countP (Gauge.madeFor s).sees + (Gauge.madeFor s).share t depth s := by
      rw [← hmade, ← hmade]
      exact hof
    rw [← hrest, List.countP_append] at hsum
    omega
  obtain ⟨⟨o, kind⟩, hmem, hsees⟩ := List.countP_pos_iff.1 hcount
  obtain ⟨i, hi⟩ := List.mem_iff_getElem?.1 hmem
  have hel : (visit t depth s k).element ⟨k.size + i⟩ = o := by
    have hat : (k.made ++ rest)[k.size + i]? = rest[i]? := by
      rw [size, List.getElem?_append_right (Nat.le_add_right _ _), Nat.add_sub_cancel_left]
    show ((visit t depth s k).made[k.size + i]?).bind Prod.fst = o
    rw [← hrest, hat, hi]
    rfl
  cases o with
  | none => simp [Gauge.sees, Gauge.madeFor, Gauge.seeing] at hsees
  | some el =>
    obtain rfl : el = s := by simpa [Gauge.sees, Gauge.madeFor, Gauge.seeing] using hsees
    have hlt := lt_size_of_element hel
    rcases grows_visit hg depth el k hk.fresh with heq | ⟨hG, -⟩
    · rw [heq] at hlt
      exact absurd hlt (Nat.not_lt_of_le (Nat.le_add_right _ _))
    · exact hG.first _ ⟨Nat.le_add_right _ _, hlt⟩ hel ▸ hel

theorem grown_statement (hg : t.Grammatical) (hs : (t.kind s).isStatement = true) (depth : Nat)
    (hk : Sound t s k) : Grown t s k (visit t depth s k) := by
  rcases grows_visit hg depth s k hk.fresh with heq | ⟨hG, -⟩
  · have hentry := entered_statement hg hs depth hk
    rw [heq] at hentry
    exact absurd (lt_size_of_element hentry) (Nat.lt_irrefl _)
  · exact hG

end PythonFlow.Sketch
