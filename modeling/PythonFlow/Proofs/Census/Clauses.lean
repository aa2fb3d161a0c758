import PythonFlow.Proofs.Census.Partition

/-!
# The instructions of clauses

A handler and a `finally` clause have at most one instruction each, made by the rule of their `try`
statement. Where a gauge sees only what one rule makes, and this once at most, it sees no more of a
whole build, since no node is visited twice.
-/

set_option autoImplicit false

namespace PythonFlow

/-- Kinds of the clauses of a `try` statement that may be entered by an exception. -/
def SyntaxKind.isRescue (k : SyntaxKind) : Bool := k == .exceptPart || k == .finallyPart

namespace SyntaxTree
variable {t : SyntaxTree} {s p : NodeId}

theorem rescue_of_except (h : p ∈ t.exceptParts s) : (t.kind p).isRescue = true := by
  rw [(mem_except_parts.1 h).2]
  rfl

theorem rescue_of_finally (h : t.finallyPart s = some p) : (t.kind p).isRescue = true := by
  rw [(mem_finally_part h).2]
  rfl

theorem instances_of_rescue (h : (t.kind p).isRescue = true) : t.instances p = [] := by
  unfold instances
  revert h
  cases t.kind p <;> simp [SyntaxKind.isRescue, SyntaxKind.isStatement]

/-- Instructions for such a clause are made by the rule of its parent. -/
theorem child_of_landmark (hg : t.Grammatical) (hk : (t.kind p).isRescue = true)
    (h : p ∈ t.landmarks s) : p ∈ t.children s := by
  have hbody : ∀ {q}, t.kind q = .ifPart ∨ t.kind q = .elifPart ∨ (t.kind q).isLoop = true →
      t.body q ≠ some p := by
    intro q hq hb
    rw [hg.kind_body hq hb] at hk
    cases hk
  unfold landmarks at h
  split at h
  case h_1 =>
    simp only [List.mem_append, List.mem_map, Option.mem_toList] at h
    rcases h with (hp | ⟨q, hq, rfl⟩) | he
    · exact (mem_if_parts.1 (List.mem_of_mem_tail hp)).1
    · cases hb : t.body q with
      | none =>
        rw [bodyEntry, hb, Option.getD_none]
        exact (mem_if_parts.1 hq).1
      | some b =>
        have hbp : t.bodyEntry q = b := by rw [bodyEntry, hb, Option.getD_some]
        exact absurd (hb.trans (congrArg some hbp.symm)) (hbody ((mem_if_parts.1 hq).2.imp_right .inl))
    · exact (mem_else_part he).1
  case h_2 hloop | h_3 hloop =>
    simp only [List.mem_append, Option.mem_toList] at h
    rcases h with hb | he
    · exact (mem_body hb).1
    · exact (mem_else_part he).1
  case h_4 =>
    simp only [List.mem_append, Option.mem_toList] at h
    rcases h with hp | he | hp | hp
    · exact (mem_try_part hp).1
    · exact (mem_else_part he).1
    · exact (mem_except_parts.1 hp).1
    · exact (mem_finally_part hp).1
  case h_5 =>
    simp only [List.mem_flatMap, List.mem_append, Option.mem_toList, or_self] at h
    obtain ⟨q, hq, hc⟩ := h
    have hterm := hg.term_condition (.inr (.inr (.inr (mem_comprehension_ifs.1 hq).2))) hc
    revert hk hterm
    cases t.kind p <;> simp [SyntaxKind.isRescue, SyntaxKind.isTerm]
  case h_6 => cases h

end SyntaxTree

namespace Sketch
variable {t : SyntaxTree} {m : Gauge} {home s : NodeId} {depth : Nat}

section home
variable (hg : t.Grammatical) (hown : ∀ s, s ≠ home → m.own t s = 0)
include hg hown

/-- A visit adds nothing if the one rule that adds something is not below. -/
theorem share_of_not_below (hfits : Fits t depth s) (h : ¬ t.Below home s) : m.share t depth s = 0 := by
  induction depth generalizing s with
  | zero => exact hfits.elim
  | succ depth ih =>
    have hne : s ≠ home := by
      rintro rfl
      exact h (t.below_refl s)
    rw [Gauge.share, hown s hne, Nat.zero_add]
    refine total_eq_zero.2 fun c hc => ih (hfits c hc) fun hb => h ?_
    exact hg.ordered.below_trans hb (SyntaxTree.inside_of_followed hg.ordered hc).1

/-- Among nodes that stand apart at most one adds something. -/
theorem total_le_one {cs : List NodeId} (hapart : cs.Pairwise (Apart t)) (hfits : ∀ c ∈ cs, Fits t depth c)
    (hcs : ∀ c ∈ cs, m.share t depth c ≤ 1) : total (m.share t depth) cs ≤ 1 := by
  by_cases h : ∃ c ∈ cs, t.Below home c
  · obtain ⟨c, hc, hb⟩ := h
    rw [total_of_apart hapart hc fun d hd haway =>
      share_of_not_below hg hown (hfits d hd) (haway home hb)]
    exact hcs c hc
  · rw [total_eq_zero.2 fun c hc => share_of_not_below hg hown (hfits c hc) fun hb => h ⟨c, hc, hb⟩]
    exact Nat.zero_le 1

variable (hle : m.own t home ≤ 1)
include hle

theorem share_le_one (hfits : Fits t depth s) : m.share t depth s ≤ 1 := by
  induction depth generalizing s with
  | zero => exact hfits.elim
  | succ depth ih =>
    rw [Gauge.share]
    by_cases heq : s = home
    · subst heq
      have hunder : total (m.share t depth) (t.followed s) = 0 := total_eq_zero.2 fun c hc =>
        share_of_not_below hg hown (hfits c hc)
          (hg.ordered.not_below_of_inside (SyntaxTree.inside_of_followed hg.ordered hc))
      rw [hunder]
      exact hle
    · rw [hown s heq, Nat.zero_add]
      exact total_le_one hg hown (SyntaxTree.apart_followed hg s) hfits fun c hc => ih (hfits c hc)

theorem seen_le_one {owner : NodeId} (howner : (t.kind owner).isOwner = true)
    (hblind : ∀ c ∈ t.children owner, m.Blind t c) (hcut : (build t depth owner).truncated = []) :
    m.of (build t depth owner) ≤ 1 := by
  have hfits := fits_of_build hg howner hcut
  rw [of_build hg howner hblind]
  exact total_le_one hg hown (apart_children hg.ordered (hg.ordered.children_nodup owner)
    fun _ hc => hc) hfits fun c hc => share_le_one hg hown hle (hfits c hc)

end home

section rescue
variable {T p owner : NodeId} {f : ControlFlow} (hg : t.Grammatical)
  (hk : t.kind T = .tryStatement) (hp : p ∈ t.children T) (hrescue : (t.kind p).isRescue = true)
include hg hp hrescue

theorem own_of_rescue (hne : s ≠ T) : (Gauge.seeing false fun y _ => y == p).own t s = 0 := by
  refine own_eq_zero (fun e he => ?_) fun y hy => ?_
  · have hself := SyntaxTree.instances_self he
    by_cases heq : s = p
    · rw [heq, SyntaxTree.instances_of_rescue hrescue] at he
      cases he
    · simp [hself, heq]
  · by_cases heq : y = p
    · subst heq
      have hs := hg.ordered.parent_of_mem (SyntaxTree.child_of_landmark hg hrescue hy)
      exact absurd (Option.some.inj (hs.symm.trans (hg.ordered.parent_of_mem hp))) hne
    · simp [heq]

include hk

omit hrescue in
theorem own_rescue_le : (Gauge.seeing false fun y _ => y == p).own t T ≤ 1 := by
  have hlandmarks : t.landmarks T = t.followed T := by
    rw [SyntaxTree.landmarks, SyntaxTree.followed, hk]
  have hnodup : (t.landmarks T).Nodup := by
    rw [hlandmarks]
    refine (SyntaxTree.apart_followed hg T).imp fun hapart => ?_
    rintro rfl
    exact hapart _ (t.below_refl _) (t.below_refl _)
  have hnone : (Gauge.seeing false fun y _ => y == p).count (t.instances T) = 0 := by
    refine List.countP_eq_zero.2 fun e he => ?_
    have hself := SyntaxTree.instances_self he
    have hne : T ≠ p := fun heq => (inside_of_mem hg.ordered hp).2 heq.symm
    simp [Gauge.seeing, hself, hne]
  rw [Gauge.own, hnone, Nat.zero_add]
  exact List.nodup_iff_count.1 hnodup p

/-- A clause that an exception may enter has at most one instruction. -/
theorem Describes.rescue_unique (h : Describes t depth owner f) (howner : (t.kind owner).isOwner = true)
    (hcut : (build t depth owner).truncated = []) {id : InstructionId}
    (hid : id ∈ f.instructionsFor p) : f.instructionsFor p = [id] := by
  have hblind : ∀ c ∈ t.children owner, (Gauge.seeing false fun y _ => y == p).Blind t c := by
    intro c _ d hterm _
    have hne : d ≠ p := by
      rintro rfl
      revert hterm hrescue
      cases t.kind d <;> simp [SyntaxKind.isRescue, SyntaxKind.isTerm]
    simp [Gauge.seeing, hne]
  have hle := seen_le_one hg (fun _ hne => own_of_rescue hg hp hrescue hne)
    (own_rescue_le hg hk hp) howner hblind hcut
  rw [← h.length_instructions] at hle
  have hone : (f.instructionsFor p).length = 1 :=
    Nat.le_antisymm hle (List.length_pos_of_mem hid)
  obtain ⟨x, hx⟩ := List.length_eq_one_iff.1 hone
  rw [hx, List.mem_singleton] at hid
  rw [hx, hid]

end rescue
end Sketch
end PythonFlow
