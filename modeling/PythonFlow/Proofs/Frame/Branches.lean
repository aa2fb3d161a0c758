import PythonFlow.Proofs.Frame.Rules

/-!
# The frame of a conditional

The parts of a conditional are visited one after another, the condition of a part before its body.
`if_parts_keeps` is the induction over the parts: what every part keeps whose condition and body are
fresh when their turns come, all of them keep.
-/

set_option autoImplicit false

namespace PythonFlow.Sketch
variable {t : SyntaxTree} {s : NodeId} {V : Visitor} {k k0 : Sketch}

section conditions
variable (ho : t.Ordered) {c d : NodeId}
include ho

theorem inner_live (hG : Grown t s k0 k) (hc : t.Inside c s) :
    ∀ e ∈ k.inner t c, Live t s k0 k e.source := fun e he =>
  exits_live hG ho hc e.source ((mem_exits k t c e.source).2 (.inr ⟨e, he, rfl⟩))

theorem grown_joined (hG : Grown t s k0 k) (hd : Direct t s c)
    (hk : (t.kind c).isStatement = false) : Grown t s k0 (joined t c k) := by
  unfold joined
  cases h : k.inner t c with
  | nil => exact grown_drained hG ho hd.1
  | cons e rest =>
    have hplaced := grown_place (grown_drained hG ho hd.1) ho hd hk .plain
    refine grown_linked hplaced (hplaced.cursor_live k.next rfl).1 fun a ha => ?_
    rw [← h] at ha
    obtain ⟨e', he', rfl⟩ := List.mem_map.1 ha
    exact (inner_live ho hG hd.1 e' he').later (((Later.refl k).drained c).place (some c) .plain)

theorem fresh_joined (hf : Fresh t d k) (h : ¬ t.Below c d) : Fresh t d (joined t c k) := by
  unfold joined
  split
  · exact fresh_drained hf c
  · exact fresh_linked (fresh_elsewhere ho (fresh_drained hf c) h .plain) _ _

omit ho in
theorem later_joined (c : NodeId) : Later k (joined t c k) := by
  unfold joined
  split
  · exact (Later.refl k).drained c
  · exact (((Later.refl k).drained c).place _ _).linked _ _

theorem grown_conditioned (hV : ∀ c, t.Inside c s → Grows t V c) (hs : Fresh t s k0)
    (hG : Grown t s k0 k) {o : Option NodeId}
    (hd : ∀ c, o = some c → Direct t s c ∧ (t.kind c).isStatement = false)
    (hfresh : ∀ c, o = some c → Fresh t c k) : Grown t s k0 (conditioned t V o k) := by
  cases o with
  | none => exact hG
  | some c =>
    obtain ⟨hd, hk⟩ := hd c rfl
    exact grown_joined ho (grown_visited hG ho hs hd (hV c hd.1 k (hfresh c rfl))) hd hk

theorem fresh_conditioned (hV : ∀ c, t.Inside c s → Grows t V c) (hf : Fresh t d k)
    {o : Option NodeId} (hin : ∀ c, o = some c → t.Inside c s)
    (hfresh : ∀ c, o = some c → Fresh t c k) (haway : ∀ c, o = some c → Apart t d c) :
    Fresh t d (conditioned t V o k) := by
  cases o with
  | none => exact hf
  | some c =>
    have hv := hV c (hin c rfl) k (hfresh c rfl)
    exact fresh_joined ho (fresh_visited hf ho hv (haway c rfl)) (not_below_of_apart (haway c rfl))

end conditions

section conditional
variable (hg : t.Grammatical) {p d : NodeId}
include hg

theorem direct_part (hp : p ∈ t.ifParts s) : Direct t s p :=
  direct_child hg.ordered (SyntaxTree.mem_if_parts.1 hp).1

omit hg in
theorem kind_part (hp : p ∈ t.ifParts s) : t.kind p = .ifPart ∨ t.kind p = .elifPart :=
  (SyntaxTree.mem_if_parts.1 hp).2

omit hg in
theorem plain_part (hp : p ∈ t.ifParts s) : (t.kind p).isStatement = false := by
  rcases kind_part hp with h | h <;> rw [h] <;> rfl

theorem direct_in_part {c : NodeId} (hp : p ∈ t.ifParts s) (hc : c ∈ t.children p) :
    Direct t s c :=
  direct_grandchild hg.ordered (SyntaxTree.mem_if_parts.1 hp).1 (plain_part hp) hc

theorem part_condition {c : NodeId} (hp : p ∈ t.ifParts s) (hc : t.condition p = some c) :
    Direct t s c ∧ (t.kind c).isStatement = false := by
  refine ⟨direct_in_part hg hp (SyntaxTree.mem_condition hc).1, ?_⟩
  have hterm := hg.term_condition (or_assoc.1 (.inl (kind_part hp))) hc
  exact SyntaxTree.not_statement_of_quiet (SyntaxTree.is_quiet_of_term hterm)

theorem part_body {b : NodeId} (hp : p ∈ t.ifParts s) (hb : t.body p = some b) :
    Direct t s b ∧ t.kind b = .block :=
  ⟨direct_in_part hg hp (SyntaxTree.mem_body hb).1,
    hg.kind_body (or_assoc.1 (.inl (kind_part hp))) hb⟩

/-- Where the body of a part begins. -/
theorem part_body_entry (hp : p ∈ t.ifParts s) :
    Direct t s ((t.body p).getD p) ∧ (t.kind ((t.body p).getD p)).isStatement = false ∧
      t.Below ((t.body p).getD p) p := by
  cases hb : t.body p with
  | none => exact ⟨direct_part hg hp, plain_part hp, t.below_refl p⟩
  | some b =>
    obtain ⟨hd, hk⟩ := part_body hg hp hb
    exact ⟨hd, by rw [Option.getD_some, hk]; rfl,
      (inside_of_mem hg.ordered (SyntaxTree.mem_body hb).1).1⟩

theorem fresh_part_entry (hf : Fresh t d k) (hp : ¬ t.Below p d) (first : Bool)
    (head : Option InstructionId) (last : Option NodeId) :
    Fresh t d (partEntry t first head last p k) := by
  cases first with
  | true => exact hf
  | false => exact fresh_elsewhere hg.ordered (fresh_moved hf head) hp _

omit hg in
theorem later_part_entry (first : Bool) (head : Option InstructionId) (last : Option NodeId) :
    Later k (partEntry t first head last p k) := by
  cases first with
  | true => exact .refl k
  | false => exact ((Later.refl k).moved head).place _ _

/-- What is in a part is fresh when the part has been entered. -/
theorem fresh_in_part {c : NodeId} (hf : Fresh t p k) (hc : c ∈ t.children p) (first : Bool)
    (head : Option InstructionId) (last : Option NodeId) :
    Fresh t c (partEntry t first head last p k) := by
  have hin := inside_of_mem hg.ordered hc
  exact fresh_part_entry hg (fresh_below hg.ordered hf hin.1)
    (hg.ordered.not_below_of_inside hin) first head last

variable (hV : ∀ c, t.Inside c s → Grows t V c)
include hV

theorem fresh_asked (hp : p ∈ t.ifParts s) (hf : Fresh t p k) (hd : Fresh t d k)
    (hpd : ¬ t.Below p d) (haway : ∀ c, t.condition p = some c → Apart t d c) (first : Bool)
    (head : Option InstructionId) (last : Option NodeId) :
    Fresh t d (asked t V first head last p k) :=
  fresh_conditioned hg.ordered hV (fresh_part_entry hg hd hpd first head last)
    (fun _ hc => (part_condition hg hp hc).1.1)
    (fun _ hc => fresh_in_part hg hf (SyntaxTree.mem_condition hc).1 first head last) haway

/-- The body of a part is fresh when its condition has been asked. -/
theorem fresh_body_asked {b : NodeId} (hp : p ∈ t.ifParts s) (hf : Fresh t p k)
    (hb : t.body p = some b) (first : Bool) (head : Option InstructionId) (last : Option NodeId) :
    Fresh t b (asked t V first head last p k) := by
  have hmem := SyntaxTree.mem_body hb
  have hin := inside_of_mem hg.ordered hmem.1
  refine fresh_asked hg hV hp hf (fresh_below hg.ordered hf hin.1)
    (hg.ordered.not_below_of_inside hin) (fun c hc => ?_) first head last
  have hcond := SyntaxTree.mem_condition hc
  refine apart_of_ne hg.ordered hmem.1 hcond.1 fun h => ?_
  have hrole := hmem.2.symm.trans (h ▸ hcond.2)
  cases hrole

theorem fresh_part_body (hp : p ∈ t.ifParts s) (hf : ∀ b, t.body p = some b → Fresh t b k)
    (hd : Fresh t d k) (haway : Apart t d p) : Fresh t d (partBody t V p k) := by
  obtain ⟨-, -, hentry⟩ := part_body_entry hg hp
  have hplaced := fresh_elsewhere hg.ordered hd (fun hb => haway _ hb hentry)
    (.conditional (t.condition p) true)
  unfold partBody
  cases hb : t.body p with
  | none =>
    rw [hb] at hplaced
    exact hplaced
  | some b =>
    rw [hb] at hplaced
    obtain ⟨hdir, hblock⟩ := part_body hg hp hb
    have hfb := fresh_entry hg.ordered (hf b hb) (by rw [hblock]; rfl)
      (.conditional (t.condition p) true)
    refine fresh_visited hplaced hg.ordered (hV b hdir.1 _ hfb) ?_
    exact apart_below hg.ordered haway (t.below_refl d)
      (inside_of_mem hg.ordered (SyntaxTree.mem_body hb).1).1

theorem cursor_part_body_lt (hp : p ∈ t.ifParts s) (hf : ∀ b, t.body p = some b → Fresh t b k) :
    ∀ a ∈ (partBody t V p k).cursor.toList, a.index < (partBody t V p k).size := by
  have hplaced : ∀ el kind x, (k.place t el kind).cursor = some x →
      x.index < (k.place t el kind).size := by
    intro el kind x hx
    obtain rfl : k.next = x := Option.some.inj hx
    rw [size_place]
    exact Nat.lt_succ_self _
  unfold partBody
  cases hb : t.body p with
  | none => exact fun a ha => hplaced _ _ a (Option.mem_toList.1 ha)
  | some b =>
    obtain ⟨hdir, hblock⟩ := part_body hg hp hb
    exact cursor_lt (hV b hdir.1 _ (fresh_entry hg.ordered (hf b hb) (by rw [hblock]; rfl) _))
      (hplaced _ _)

/-- Nothing is done outside of a part. -/
theorem fresh_part (hp : p ∈ t.ifParts s) (hf : Fresh t p k) (hd : Fresh t d k)
    (hin : t.Inside d s) (haway : Apart t d p) (first : Bool) (head : Option InstructionId)
    (last : Option NodeId) : Fresh t d (partDone t V s p (asked t V first head last p k)) := by
  have hasked := fresh_asked hg hV hp hf hd (not_below_of_apart haway)
    (fun c hc => apart_below hg.ordered haway (t.below_refl d)
      (inside_of_mem hg.ordered (SyntaxTree.mem_condition hc).1).1) first head last
  have hfb := fun b hb => fresh_body_asked (b := b) hg hV hp hf hb first head last
  have hbody := fresh_part_body hg hV hp hfb hasked haway
  have hnot := hg.ordered.not_below_of_inside hin
  exact fresh_pended (fresh_rescoped hbody hnot) hnot (cursor_part_body_lt hg hV hp hfb)

/-- What each part keeps, all of them keep. -/
theorem if_parts_keeps
    {M : Bool → Option InstructionId → Option NodeId → List NodeId → Sketch → Prop}
    (hstep : ∀ first head last p rest k, p ∈ t.ifParts s → Fresh t p k →
      M first head last (p :: rest) k →
      M false (asked t V first head last p k).cursor (t.condition p) rest
        (partDone t V s p (asked t V first head last p k)))
    (first : Bool) (head : Option InstructionId) (last : Option NodeId) {parts : List NodeId}
    (hparts : ∀ p ∈ parts, p ∈ t.ifParts s) (hnodup : parts.Nodup)
    (hf : ∀ p ∈ parts, Fresh t p k) (hM : M first head last parts k) :
    ∃ b, M b (ifParts t V s first head last parts k).2.1 (ifParts t V s first head last parts k).2.2
      [] (ifParts t V s first head last parts k).1 := by
  induction parts generalizing first head last k with
  | nil => exact ⟨first, hM⟩
  | cons p parts ih =>
    obtain ⟨hne, hnodup⟩ := List.nodup_cons.1 hnodup
    have hp := hparts p (by simp)
    have hfp := hf p (by simp)
    refine ih _ _ _ (fun q hq => hparts q (by simp [hq])) hnodup (fun q hq => ?_)
      (hstep first head last p parts k hp hfp hM)
    have hqs := hparts q (by simp [hq])
    exact fresh_part hg hV hp hfp (hf q (by simp [hq])) (direct_part hg hqs).1
      (apart_of_ne hg.ordered (SyntaxTree.mem_if_parts.1 hqs).1 (SyntaxTree.mem_if_parts.1 hp).1
        fun h => hne (h ▸ hq)) first head last

theorem fresh_if_parts (first : Bool) (head : Option InstructionId) (last : Option NodeId)
    {parts : List NodeId} (hparts : ∀ p ∈ parts, p ∈ t.ifParts s) (hnodup : parts.Nodup)
    (hf : ∀ p ∈ parts, Fresh t p k) (hd : Fresh t d k) (hin : t.Inside d s)
    (haway : ∀ p ∈ t.ifParts s, Apart t d p) :
    Fresh t d (ifParts t V s first head last parts k).1 := by
  obtain ⟨-, h⟩ := if_parts_keeps hg hV (M := fun _ _ _ _ k => Fresh t d k)
    (fun first head last p _ k hp hfp hd => fresh_part hg hV hp hfp hd hin (haway p hp) first head last)
    first head last hparts hnodup hf hd
  exact h

/-- The `else` clause of a conditional is fresh when the parts are done. -/
theorem fresh_if_else (hs : Fresh t s k0) {c : NodeId} (hc : t.elsePart s = some c)
    (head : Option InstructionId) :
    Fresh t c (ifParts t V s true head none (t.ifParts s) (k0.start t s)).1 := by
  obtain ⟨hmem, hkind⟩ := SyntaxTree.mem_else_part hc
  have hin := inside_of_mem hg.ordered hmem
  refine fresh_if_parts hg hV true head none (fun _ h => h) ((hg.ordered.children_nodup s).filter _) (fun p hp => ?_)
    (fresh_started hg.ordered hs hin .plain) hin fun p hp => ?_
  · exact fresh_started hg.ordered hs (direct_part hg hp).1 .plain
  · refine apart_of_ne hg.ordered hmem (SyntaxTree.mem_if_parts.1 hp).1 fun h => ?_
    subst h
    rcases kind_part hp with h | h <;> rw [hkind] at h <;> cases h

section grown
variable (hs : Fresh t s k0)
include hs

theorem grown_asked (hp : p ∈ t.ifParts s) (hG : Grown t s k0 k) (hf : Fresh t p k)
    (first : Bool) {head : Option InstructionId} (hhead : ∀ x, head = some x → Live t s k0 k x)
    (last : Option NodeId) : Grown t s k0 (asked t V first head last p k) := by
  refine grown_conditioned hg.ordered hV hs ?_ (fun _ hc => part_condition hg hp hc)
    fun _ hc => fresh_in_part hg hf (SyntaxTree.mem_condition hc).1 first head last
  cases first with
  | true => exact hG
  | false =>
    exact grown_place (grown_moved hG hhead) hg.ordered (direct_part hg hp) (plain_part hp) _

theorem grown_part_body (hp : p ∈ t.ifParts s) (hG : Grown t s k0 k)
    (hf : ∀ b, t.body p = some b → Fresh t b k) : Grown t s k0 (partBody t V p k) := by
  obtain ⟨hd, hk, -⟩ := part_body_entry hg hp
  have hplaced := grown_place hG hg.ordered hd hk (.conditional (t.condition p) true)
  unfold partBody
  cases hb : t.body p with
  | none =>
    rw [hb] at hplaced
    exact hplaced
  | some b =>
    rw [hb] at hplaced
    obtain ⟨hdir, hblock⟩ := part_body hg hp hb
    exact grown_visited hplaced hg.ordered hs hdir (hV b hdir.1 _
      (fresh_entry hg.ordered (hf b hb) (by rw [hblock]; rfl) _))

omit hs in
theorem later_part_body (hp : p ∈ t.ifParts s) (hf : ∀ b, t.body p = some b → Fresh t b k) :
    Later k (partBody t V p k) := by
  have hplaced : ∀ el, Later k (k.place t el (.conditional (t.condition p) true)) := fun el =>
    (Later.refl k).place el _
  unfold partBody
  cases hb : t.body p with
  | none => exact hplaced _
  | some b =>
    obtain ⟨hdir, hblock⟩ := part_body hg hp hb
    have hfb := fresh_entry hg.ordered (hf b hb) (by rw [hblock]; rfl)
      (.conditional (t.condition p) true)
    exact (hplaced _).trans (hV b hdir.1 _ hfb).later

theorem grown_part_done (hp : p ∈ t.ifParts s) (hG : Grown t s k0 k)
    (hf : ∀ b, t.body p = some b → Fresh t b k) : Grown t s k0 (partDone t V s p k) := by
  have hbody := grown_part_body hg hV hs hp hG hf
  have hrescoped := grown_rescoped hbody (scoped_self t s) fun e _ =>
    old_not_within hg.ordered (direct_part hg hp).1 e
  exact grown_pended hrescoped (scoped_self t s) (live_cursor hbody)

/-- The parts of a conditional, with the instruction at which flow stands when every condition came
out false. -/
theorem grown_if_parts (first : Bool) (head : Option InstructionId) (last : Option NodeId)
    {parts : List NodeId} (hparts : ∀ p ∈ parts, p ∈ t.ifParts s) (hnodup : parts.Nodup)
    (hf : ∀ p ∈ parts, Fresh t p k) (hG : Grown t s k0 k)
    (hhead : ∀ x, head = some x → Live t s k0 k x) :
    Grown t s k0 (ifParts t V s first head last parts k).1 ∧
      ∀ x, (ifParts t V s first head last parts k).2.1 = some x →
        Live t s k0 (ifParts t V s first head last parts k).1 x := by
  obtain ⟨-, h⟩ := if_parts_keeps hg hV
    (M := fun _ head _ _ k => Grown t s k0 k ∧ ∀ x, head = some x → Live t s k0 k x)
    (fun first head last p _ k hp hfp ⟨hG, hhead⟩ => by
      have hasked := grown_asked hg hV hs hp hG hfp first hhead last
      have hfb : ∀ b, t.body p = some b → Fresh t b (asked t V first head last p k) := fun b hb =>
        fresh_body_asked hg hV hp hfp hb first head last
      refine ⟨grown_part_done hg hV hs hp hasked hfb, fun x hx => ?_⟩
      exact (hasked.cursor_live x hx).later (later_part_body hg hV hp hfb))
    first head last hparts hnodup hf ⟨hG, hhead⟩
  exact h

theorem grown_if_else (hG : Grown t s k0 k) {head : Option InstructionId}
    (hhead : ∀ x, head = some x → Live t s k0 k x) (last : Option NodeId)
    (hf : ∀ c, t.elsePart s = some c → Fresh t c k) :
    Grown t s k0 (ifElse t V s head last (t.elsePart s) k) := by
  cases hc : t.elsePart s with
  | none => exact grown_pended hG (scoped_self t s) fun a ha => hhead a (Option.mem_toList.1 ha)
  | some c =>
    obtain ⟨hmem, hkind⟩ := SyntaxTree.mem_else_part hc
    have hd := direct_child hg.ordered hmem
    have hdone := grown_entered hg.ordered hs hG hd (by rw [hkind]; rfl) (hf c hc) (hV c hd.1)
      (.conditional last false)
    exact grown_pended hdone (scoped_self t s) (live_cursor hdone)

theorem grown_conditional (hk : t.kind s = .ifStatement) : Grown t s k0 (conditional t V s k0) := by
  have hstart := grown_begin (k := k0) hg.ordered (s := s) (by simp [hk]) .plain
  obtain ⟨hparts, hhead⟩ := grown_if_parts hg hV hs true (some k0.next) none
    (fun _ h => h) ((hg.ordered.children_nodup s).filter _)
    (fun p hp => fresh_started hg.ordered hs (direct_part hg hp).1 .plain) hstart
    fun x hx => Option.some.inj hx ▸ hstart.cursor_live k0.next rfl
  refine grown_moved (grown_if_else hg hV hs (grown_moved hparts hhead) hhead _ fun c hc => ?_)
    (by simp)
  exact fresh_moved (fresh_if_else hg hV hs hc (some k0.next)) _

end grown
end conditional
end PythonFlow.Sketch
