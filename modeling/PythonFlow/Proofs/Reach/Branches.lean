import PythonFlow.Proofs.Reach.Rules

/-!
# A conditional keeps instructions alive

Where a condition comes out false, flow stands at an instruction that the next part takes up. It is
alive meanwhile because the body of the part was entered from it.
-/

set_option autoImplicit false

namespace PythonFlow.Sketch
variable {t : SyntaxTree} {s : NodeId} {V : Visitor} {k k0 : Sketch} {n : Nat}
  {P : InstructionId → Prop}

theorem drained_of_no_inner {c : NodeId} (h : k.inner t c = []) {y : InstructionId}
    (hy : k.Loose y) : (k.drained t c).Loose y := by
  rcases hy with hy | ⟨e, he, rfl⟩
  · exact .inl hy
  · refine .inr ⟨e, (mem_pending_drained k t e c).2 ⟨he, ?_⟩, rfl⟩
    cases hw : e.within t c with
    | false => rfl
    | true =>
      have hmem := (mem_inner k t e c).2 ⟨he, hw⟩
      rw [h] at hmem
      cases hmem

/-- The instruction in which what was pending inside a condition meets. -/
theorem alive_joined (hn : n ≤ k.size) (h : Alive n k P) (c : NodeId) :
    Alive n (joined t c k) P := by
  unfold joined
  cases hinner : k.inner t c with
  | nil =>
    exact h.step ((Later.refl k).drained c) rfl (fun _ hy => lives_of_mem hy) fun _ hny hy =>
      lives_of_loose hny (drained_of_no_inner hinner hy)
  | cons e rest =>
    have hdrained := alive_drained (t := t) h c k.cursor
    have hplaced := alive_linked (alive_place (t := t) hdrained hn (some c) .plain) k.next
      ((e :: rest).map (·.source))
    refine Alive.discharge (k := ((k.drained t c).start t c).linked k.next _) hplaced ?_
    rintro y (hy | hy)
    · exact lives_of_mem hy
    · have hnext : Lives n (((k.drained t c).start t c).linked k.next
          ((e :: rest).map (·.source))) P k.next := lives_of_loose hn (.inl rfl)
      refine hnext.back (walk_edge ?_)
      rw [edge_linked]
      rcases (mem_exits k t c y).1 hy with hy | ⟨e', he', rfl⟩
      · refine .inl ((edge_place (k.drained t c) t (some c) .plain y k.next).2 (.inr ⟨?_, rfl⟩))
        exact (mem_arrivals _ t (some c) y).2 (.inl hy)
      · rw [hinner] at he'
        exact .inr ⟨List.mem_map.2 ⟨e', he', rfl⟩, rfl⟩

section conditions
variable (hg : t.Grammatical) (hB : Below t V s)
include hg hB

theorem alive_conditioned {o : Option NodeId}
    (ho : ∀ c, o = some c → t.Inside c s ∧ (t.kind c).isQuiet = true)
    (hf : ∀ c, o = some c → Fresh t c k) (hn : n ≤ k.size) (h : Alive n k P) :
    Alive n (conditioned t V o k) P := by
  cases o with
  | none => exact h
  | some c =>
    obtain ⟨hin, hquiet⟩ := ho c rfl
    have hv := hB.grows c hin k (hf c rfl)
    exact alive_joined (Nat.le_trans hn hv.later.size_le)
      (alive_quiet hg hB hin hquiet (hf c rfl) hn h) c

omit hg in
theorem forwards_conditioned {o : Option NodeId}
    (ho : ∀ c, o = some c → t.Inside c s ∧ (t.kind c).isQuiet = true)
    (hf : ∀ c, o = some c → Fresh t c k) : Forwards t k (conditioned t V o k) := by
  cases o with
  | none => exact forwards_refl t k
  | some c =>
    obtain ⟨hin, hquiet⟩ := ho c rfl
    exact (hB.steady c hin hquiet k (hf c rfl)).trans 
      (forwards_joined (not_simple_of_quiet hquiet)) (later_joined c)

end conditions

section conditional
variable (hg : t.Grammatical) (hB : Below t V s) (hs : Fresh t s k0) (hp : Promised t s k0 P)
  {p : NodeId}
include hg

theorem quiet_condition {c : NodeId} (hp : p ∈ t.ifParts s) (hc : t.condition p = some c) :
    t.Inside c s ∧ (t.kind c).isQuiet = true :=
  ⟨(part_condition hg hp hc).1.1, SyntaxTree.is_quiet_of_term
    (hg.term_condition (or_assoc.1 (.inl (kind_part hp))) hc)⟩

include hB

theorem alive_asked (hpart : p ∈ t.ifParts s) (hf : Fresh t p k) (hn : n ≤ k.size) (first : Bool)
    (head : Option InstructionId) (last : Option NodeId) (hpark : first = false → Parked k)
    (h : Alive n k P) : Alive n (asked t V first head last p k) P := by
  have hentry : Alive n (partEntry t first head last p k) P := by
    cases first with
    | true => exact h
    | false => exact alive_place (alive_parked h (hpark rfl) head) hn _ _
  have hle := (later_part_entry (t := t) (k := k) (p := p) first head last).size_le
  exact alive_conditioned hg hB (fun _ hc => quiet_condition hg hpart hc)
    (fun _ hc => fresh_in_part hg hf (SyntaxTree.mem_condition hc).1 first head last)
    (Nat.le_trans hn hle) hentry

include hs hp

theorem alive_part_body (hk : t.kind s = .ifStatement) (hpart : p ∈ t.ifParts s)
    (hG : Grown t s k0 k) (hf : ∀ b, t.body p = some b → Fresh t b k) (h : Alive k0.size k P) :
    Alive k0.size (partBody t V p k) P := by
  have hn := hG.later.size_le
  obtain ⟨hd, hplain, -⟩ := part_body_entry hg hpart
  have hplaced := grown_place hG hg.ordered hd hplain (.conditional (t.condition p) true)
  unfold partBody
  cases hb : t.body p with
  | none => exact alive_place h hn _ _
  | some b =>
    rw [hb] at hplaced
    obtain ⟨hdir, hblock⟩ := part_body hg hpart hb
    exact alive_direct hg hB hdir (.inr hplaced) hs hp
      (fun _ _ _ hl => not_loop_of_jump hg (by rw [hk]; rfl) hl)
      (fresh_entry hg.ordered (hf b hb) (by rw [hblock]; rfl) _) hplaced.later.size_le
      (alive_place h hn _ _)

theorem alive_if_parts (hk : t.kind s = .ifStatement) :
    let parts := ifParts t V s true (some k0.next) none (t.ifParts s) (k0.start t s)
    Grown t s k0 parts.1 ∧ (∀ x, parts.2.1 = some x → Live t s k0 parts.1 x) ∧
      Alive k0.size (parts.1.moved parts.2.1) P := by
  have hstart := grown_begin (k := k0) hg.ordered (s := s) (by simp [hk]) .plain
  have halive : Alive k0.size (k0.start t s) P :=
    alive_place (alive_start k0 P) (Nat.le_refl _) _ _
  obtain ⟨b, hG, hhead, hfirst, hpark, halive⟩ := if_parts_keeps hg hB.grows
    (M := fun first head _ _ k => Grown t s k0 k ∧ (∀ x, head = some x → Live t s k0 k x) ∧
      (first = true → k.cursor = head) ∧ (first = false → Parked k) ∧ Alive k0.size k P)
    (fun first head last p _ k hpart hfp ⟨hG, hhead, _, hpark, h⟩ => by
      have hasked := grown_asked hg hB.grows hs hpart hG hfp first hhead last
      have hfb : ∀ b, t.body p = some b → Fresh t b (asked t V first head last p k) :=
        fun b hb => fresh_body_asked hg hB.grows hpart hfp hb first head last
      have halive := alive_part_body hg hB hs hp hk hpart hasked hfb
        (alive_asked hg hB hpart hfp hG.later.size_le first head last hpark h)
      refine ⟨grown_part_done hg hB.grows hs hpart hasked hfb, fun x hx => ?_, by simp, fun _ => ?_,
        alive_pended (alive_rescoped halive p _) _ _⟩
      · exact (hasked.cursor_live x hx).later (later_part_body hg hB.grows hpart hfb)
      · exact parked_pended (fun x hx => Option.mem_toList.2 hx) _)
    true (some k0.next) none (fun _ h => h) ((hg.ordered.children_nodup s).filter _)
    (fun p hp => fresh_started hg.ordered hs (direct_part hg hp).1 .plain)
    ⟨hstart, fun x hx => Option.some.inj hx ▸ hstart.cursor_live k0.next rfl, fun _ => rfl, by simp,
      halive⟩
  refine ⟨hG, hhead, ?_⟩
  cases b with
  | true => exact hfirst rfl ▸ halive
  | false => exact alive_parked halive (hpark rfl) _

theorem alive_conditional (hk : t.kind s = .ifStatement) :
    Alive k0.size (conditional t V s k0) P := by
  obtain ⟨hG, hhead, halive⟩ := alive_if_parts hg hB hs hp hk
  have hmoved := grown_moved hG hhead
  unfold conditional ifElse
  cases hc : t.elsePart s with
  | none =>
    exact alive_parked (alive_pended halive _ _)
      (parked_pended (fun x hx => Option.mem_toList.2 hx) _) none
  | some c =>
    obtain ⟨hd, hplain⟩ := else_part hg hc
    have hf := fresh_moved (fresh_if_else hg hB.grows hs hc (some k0.next))
      (ifParts t V s true (some k0.next) none (t.ifParts s) (k0.start t s)).2.1
    have hdone := alive_direct hg hB hd (.inr (grown_place hmoved hg.ordered hd hplain _)) hs hp
      (fun _ _ _ hl => not_loop_of_jump hg (by rw [hk]; rfl) hl)
      (fresh_entry hg.ordered hf hplain (.conditional
        (ifParts t V s true (some k0.next) none (t.ifParts s) (k0.start t s)).2.2 false))
      (grown_place hmoved hg.ordered hd hplain _).later.size_le
      (alive_place halive hG.later.size_le _ _)
    exact alive_parked (alive_pended hdone _ _)
      (parked_pended (fun x hx => Option.mem_toList.2 hx) _) none

end conditional
end PythonFlow.Sketch
