import PythonFlow.Proofs.Frame.Branches

/-!
# The frame of a loop

A loop asks its condition, or its iterable, then visits its body and then its `else` clause. These
parts have different roles, so that each is fresh when its turn comes.
-/

set_option autoImplicit false

namespace PythonFlow.Sketch
variable {t : SyntaxTree} {s : NodeId} {V : Visitor} {k k0 : Sketch}

section parts
variable (hg : t.Grammatical) {c d : NodeId}
include hg

theorem direct_plain_of_term (hc : c ∈ t.children s) (hk : (t.kind c).isTerm = true) :
    Direct t s c ∧ (t.kind c).isStatement = false :=
  ⟨direct_child hg.ordered hc,
    SyntaxTree.not_statement_of_quiet (SyntaxTree.is_quiet_of_term hk)⟩

theorem while_condition (hk : t.kind s = .whileLoop) (hc : t.condition s = some c) :
    Direct t s c ∧ (t.kind c).isStatement = false :=
  direct_plain_of_term hg (SyntaxTree.mem_condition hc).1
    (hg.term_condition (.inr (.inr (.inl hk))) hc)

theorem loop_body (hk : (t.kind s).isLoop = true) (hc : t.body s = some c) :
    Direct t s c ∧ (t.kind c).isStatement = false := by
  refine ⟨direct_child hg.ordered (SyntaxTree.mem_body hc).1, ?_⟩
  rw [hg.kind_body (.inr (.inr hk)) hc]
  rfl

theorem else_part (hc : t.elsePart s = some c) : Direct t s c ∧ (t.kind c).isStatement = false := by
  obtain ⟨hmem, hkind⟩ := SyntaxTree.mem_else_part hc
  refine ⟨direct_child hg.ordered hmem, ?_⟩
  rw [hkind]
  rfl

theorem apart_of_role (hc : c ∈ t.children s) (hd : d ∈ t.children s) (h : t.role c ≠ t.role d) :
    Apart t c d := apart_of_ne hg.ordered hc hd fun heq => h (heq ▸ rfl)

theorem apart_else_of_role (hk : (t.kind s).isLoop = true) (hc : t.elsePart s = some c)
    (hd : d ∈ t.children s) (h : t.role d ≠ .plain) : Apart t c d :=
  apart_of_role hg (SyntaxTree.mem_else_part hc).1 hd fun heq =>
    h (heq.symm.trans (hg.role_else_part hk hc))

end parts

theorem fresh_skipped {d : NodeId} (hf : Fresh t d k) (hd : ¬ t.Below s d)
    {head : Option InstructionId} (hhead : ∀ x, head = some x → x.index < k.size) :
    Fresh t d (skipped t s head k) := by
  unfold skipped
  split
  · exact fresh_pended hf hd fun a ha => hhead a (Option.mem_toList.1 ha)
  · exact hf

theorem later_skipped (head : Option InstructionId) : Later k (skipped t s head k) := by
  unfold skipped
  split
  · exact (Later.refl k).pended _ _
  · exact .refl k

theorem cursor_skipped (head : Option InstructionId) (k : Sketch) :
    (skipped t s head k).cursor = k.cursor := by
  unfold skipped
  split <;> rfl

theorem grown_skipped (hG : Grown t s k0 k) {head : Option InstructionId}
    (hhead : ∀ x, head = some x → Live t s k0 k x) : Grown t s k0 (skipped t s head k) := by
  unfold skipped
  split
  · exact grown_pended hG (scoped_self t s) fun a ha => hhead a (Option.mem_toList.1 ha)
  · exact hG

section clause
variable (ho : t.Ordered) {c d : NodeId}
include ho

/-- A clause leaves the statement with what it leaves itself. -/
theorem grown_clause_left (hG : Grown t s k0 k) (hc : t.Inside c s) :
    Grown t s k0 ((k.drained t c).pended (some s) (k.exits t c)) :=
  grown_pended (grown_drained hG ho hc) (scoped_self t s) (exits_live hG ho hc)

theorem fresh_clause (hf : Fresh t d k) (hf' : Fresh t c k) (hk : (t.kind c).isStatement = false)
    (hV : Grows t V c) (haway : Apart t d c) (kind : InstructionKind) :
    Fresh t d (V c (k.place t (some c) kind)) :=
  fresh_visited (fresh_elsewhere ho hf (not_below_of_apart haway) kind) ho
    (hV _ (fresh_entry ho hf' hk kind)) haway

end clause

def Held (t : SyntaxTree) (s : NodeId) (k : Sketch) : Prop :=
  ∀ e ∈ k.pending, e.lands t (some s) = false

section held

theorem held_start (k : Sketch) (kind : InstructionKind) : Held t s (k.place t (some s) kind) :=
  fun e he => ((mem_pending_place k t (some s) kind e).1 he).2

theorem held_place (h : Held t s k) (el : Option NodeId) (kind : InstructionKind) :
    Held t s (k.place t el kind) := fun e he =>
  h e ((mem_pending_place k t el kind e).1 he).1

theorem held_pended (h : Held t s k) {m : NodeId} (hm : t.Below s m) (l : List InstructionId) :
    Held t s (k.pended (some m) l) := by
  intro e he
  rcases (mem_pending_pended k e (some m) l).1 he with he | ⟨hscope, -⟩
  · exact h e he
  · refine stays_iff.2 fun sc hsc => ?_
    rw [hscope] at hsc
    exact Option.some.inj hsc ▸ hm

theorem held_skipped (h : Held t s k) (head : Option InstructionId) :
    Held t s (skipped t s head k) := by
  unfold skipped
  split
  · exact held_pended h (t.below_refl s) _
  · exact h

/-- What a node directly below leaves pending outside of itself is pending outside of the node above. -/
theorem held_drained (ho : t.Ordered) {c : NodeId} {k' : Sketch} (h : Held t s k) (hd : Direct t s c)
    (hv : Visited t c k k') : Held t s (k'.drained t c) := by
  intro e he
  obtain ⟨he, hw⟩ := (mem_pending_drained k' t e c).1 he
  rcases hv with rfl | ⟨hv, -⟩
  · exact h e he
  · rcases hv.waits e he with ⟨hold, -⟩ | ⟨-, hscoped⟩
    · exact h e hold
    · refine stays_iff.2 fun sc hsc => ?_
      rw [hsc] at hscoped
      rcases hscoped with hb | ⟨hin, b, -, -, hl⟩
      · exact absurd hb (beyond_iff.1 hw sc hsc)
      · rcases hd.loop_above ho (ho.enclosing_loop_above hl).2.1 hin with rfl | hsl
        · exact t.below_refl s
        · exact hsl.1

theorem held_joined {c : NodeId} (h : Held t s (k.drained t c)) : Held t s (joined t c k) := by
  unfold joined
  split
  · exact h
  · exact held_place h (some c) .plain

/-- Where nothing pending lands on `s`, flow stands at the cursor only. -/
theorem cursor_of_held (ho : t.Ordered) (h : Held t s k) {c : NodeId} (hc : t.Below c s) {x : InstructionId}
    (hx : x ∈ k.arrivals t (some c)) : k.cursor = some x := by
  rcases (mem_arrivals k t (some c) x).1 hx with hx | ⟨e, he, hlands, -⟩
  · exact hx
  · obtain ⟨sc, hsc, hb⟩ := lands_iff.1 hlands
    exact absurd (ho.below_trans hc (stays_iff.1 (h e he) sc hsc)) hb

/-- What is left of a part of `s` under `s` itself does not land on `s`. -/
theorem held_rescoped {p : NodeId}
    (h : ∀ e ∈ k.pending, e.within t p = false → e.lands t (some s) = false) :
    Held t s (k.rescoped t p (some s)) := by
  intro e he
  obtain ⟨e', he', rfl⟩ := (mem_pending_rescoped k t e p (some s)).1 he
  unfold rescope
  split
  · exact stays_iff.2 fun sc hsc => Option.some.inj hsc ▸ t.below_refl s
  · next hw => exact h e' he' (by simpa using hw)

/-- Where nothing pending lands on `s`, nothing is pending within a part of it. -/
theorem not_within_of_held (ho : t.Ordered) (h : Held t s k) {p : NodeId} (hp : t.Inside p s)
    {e : PendingEdge} (he : e ∈ k.pending) : e.within t p = false :=
  old_not_within ho hp e (h e he)

/-- Where a child has just been entered, nothing lands on the node above. -/
theorem held_entered (ho : t.Ordered) {c : NodeId} (hc : c ∈ t.children s) (hf : Fresh t c k)
    (kind : InstructionKind) : Held t s (k.place t (some c) kind) := by
  intro e he
  obtain ⟨he, hstays⟩ := (mem_pending_place k t (some c) kind e).1 he
  refine stays_iff.2 fun sc hsc => ?_
  rcases SyntaxTree.below_iff_eq_or_inside.1 (stays_iff.1 hstays sc hsc) with rfl | hin
  · exact absurd (t.below_refl c) (hf.unscoped e he c hsc)
  · exact ho.below_of_inside_parent (ho.parent_of_mem hc) hin

theorem checked_of_held (h : Held t s k) {x : InstructionId} (hx : k.element x = some s) :
    k.checked t x = k := by
  have hnone : (k.pending.filter fun e => e.lands t (some s)) = [] :=
    List.filter_eq_nil_iff.2 fun e he => by simp [h e he]
  have hall : (k.pending.filter fun e => !e.lands t (some s)) = k.pending :=
    List.filter_eq_self.2 fun e he => by simp [h e he]
  simp [checked, hx, hnone, hall]

end held

section whileLoop
variable (hg : t.Grammatical) (hk : t.kind s = .whileLoop) (hV : ∀ c, t.Inside c s → Grows t V c)
  (hs : Fresh t s k0)
include hg hk hV

theorem grown_while_body (hs : Fresh t s k0) (hG : Grown t s k0 k)
    (hf : ∀ c, t.body s = some c → Fresh t c k) {header : InstructionId} (hh : New k0 k header) :
    Grown t s k0 (whileBody t V s header (t.body s) k) := by
  cases hc : t.body s with
  | none => exact hG
  | some c =>
    obtain ⟨hd, hplain⟩ := loop_body hg (by rw [hk]; rfl) hc
    have hdone := grown_entered hg.ordered hs hG hd hplain (hf c hc) (hV c hd.1)
      (.conditional (t.condition s) true)
    have hle := (hV c hd.1 _ (fresh_entry hg.ordered (hf c hc) hplain
      (.conditional (t.condition s) true))).later
    refine grown_linked (grown_drained hdone hg.ordered hd.1) ?_ (exits_live hdone hg.ordered hd.1)
    exact hh.later (((Later.refl k).place _ _).trans hle).size_le

theorem later_while_body (hf : ∀ c, t.body s = some c → Fresh t c k) (header : InstructionId) :
    Later k (whileBody t V s header (t.body s) k) := by
  cases hc : t.body s with
  | none => exact .refl k
  | some c =>
    obtain ⟨hd, hplain⟩ := loop_body hg (by rw [hk]; rfl) hc
    have hv := hV c hd.1 _ (fresh_entry hg.ordered (hf c hc) hplain
      (.conditional (t.condition s) true))
    exact ((((Later.refl k).place _ _).trans hv.later).drained c).linked _ _

theorem fresh_while_body {d : NodeId} (hf : ∀ c, t.body s = some c → Fresh t c k)
    (hd : Fresh t d k) (haway : ∀ c, t.body s = some c → Apart t d c) (header : InstructionId) :
    Fresh t d (whileBody t V s header (t.body s) k) := by
  cases hc : t.body s with
  | none => exact hd
  | some c =>
    obtain ⟨hdir, hplain⟩ := loop_body hg (by rw [hk]; rfl) hc
    have hdone := fresh_clause hg.ordered hd (hf c hc) hplain (hV c hdir.1) (haway c hc)
      (.conditional (t.condition s) true)
    exact fresh_linked (fresh_drained hdone c) _ _

omit hk in
theorem grown_while_else (hs : Fresh t s k0) (hG : Grown t s k0 k)
    (hf : ∀ c, t.elsePart s = some c → Fresh t c k) {head : Option InstructionId}
    (hhead : ∀ x, head = some x → Live t s k0 k x) :
    Grown t s k0 (whileElse t V s head (t.elsePart s) k) := by
  cases hc : t.elsePart s with
  | none => exact hG
  | some c =>
    obtain ⟨hd, hplain⟩ := else_part hg hc
    have hdone := grown_entered hg.ordered hs (grown_moved hG hhead) hd hplain
      (fresh_moved (hf c hc) head) (hV c hd.1) (.conditional (t.condition s) false)
    exact grown_clause_left hg.ordered hdone hd.1

include hs

/-- What the condition has been asked for leaves every other part fresh. -/
theorem fresh_while_asked {d : NodeId} (hd : d ∈ t.children s) (hrole : t.role d ≠ .condition) :
    Fresh t d (whileAsked t V s k0) := by
  have hin := inside_of_mem hg.ordered hd
  refine fresh_conditioned hg.ordered hV (fresh_started hg.ordered hs hin .plain)
    (fun c hc => (while_condition hg hk hc).1.1)
    (fun c hc => fresh_started hg.ordered hs (while_condition hg hk hc).1.1 .plain) fun c hc => ?_
  have hcond := SyntaxTree.mem_condition hc
  exact apart_of_role hg hd hcond.1 fun heq => hrole (heq.trans hcond.2)

theorem grown_while_asked :
    Grown t s k0 (whileAsked t V s k0) :=
  grown_conditioned hg.ordered hV hs (grown_begin hg.ordered (by simp [hk]) .plain)
    (fun _ hc => while_condition hg hk hc)
    fun _ hc => fresh_started hg.ordered hs (while_condition hg hk hc).1.1 .plain

theorem fresh_while_skipped {d : NodeId} (hd : d ∈ t.children s) (hrole : t.role d ≠ .condition) :
    Fresh t d (skipped t s (whileAsked t V s k0).cursor (whileAsked t V s k0)) :=
  fresh_skipped (fresh_while_asked hg hk hV hs hd hrole)
    (hg.ordered.not_below_of_inside (inside_of_mem hg.ordered hd)) fun x hx =>
      ((grown_while_asked hg hk hV hs).cursor_live x hx).1.2

theorem fresh_while_body_start {c : NodeId} (hc : t.body s = some c) :
    Fresh t c (skipped t s (whileAsked t V s k0).cursor (whileAsked t V s k0)) := by
  obtain ⟨hmem, hrole⟩ := SyntaxTree.mem_body hc
  exact fresh_while_skipped hg hk hV hs hmem (by simp [hrole])

theorem fresh_while_else_start {c : NodeId} (hc : t.elsePart s = some c) :
    Fresh t c (whileRounds t V s k0) := by
  have hloop : (t.kind s).isLoop = true := by rw [hk]; rfl
  have hmem := (SyntaxTree.mem_else_part hc).1
  refine fresh_while_body hg hk hV (fun b hb => fresh_while_body_start hg hk hV hs hb)
    (fresh_while_skipped hg hk hV hs hmem (by simp [hg.role_else_part hloop hc])) (fun b hb => ?_) _
  obtain ⟨hbody, hrole⟩ := SyntaxTree.mem_body hb
  exact apart_else_of_role hg hloop hc hbody (by simp [hrole])

theorem later_while_rounds : Later (whileAsked t V s k0) (whileRounds t V s k0) :=
  (later_skipped _).trans
    (later_while_body hg hk hV (fun _ hc => fresh_while_body_start hg hk hV hs hc) _)

theorem grown_while_rounds : Grown t s k0 (whileRounds t V s k0) := by
  have hasked := grown_while_asked hg hk hV hs
  have hheader : New k0 (whileAsked t V s k0) k0.next :=
    new_next (Nat.le_refl _) hasked.size_lt
  exact grown_while_body hg hk hV hs (grown_skipped hasked hasked.cursor_live)
    (fun _ hc => fresh_while_body_start hg hk hV hs hc)
    (hheader.later (later_skipped _).size_le)

theorem grown_while_exit : Grown t s k0 (whileExit t V s k0) :=
  grown_while_else hg hV hs (grown_while_rounds hg hk hV hs)
    (fun _ hc => fresh_while_else_start hg hk hV hs hc) fun x hx =>
      ((grown_while_asked hg hk hV hs).cursor_live x hx).later (later_while_rounds hg hk hV hs)

omit hk in
theorem held_while_asked : Held t s (whileAsked t V s k0) := by
  unfold whileAsked conditioned
  cases hc : t.condition s with
  | none => exact held_start k0 .plain
  | some c =>
    have hmem := (SyntaxTree.mem_condition hc).1
    have hin := inside_of_mem hg.ordered hmem
    exact held_joined (held_drained hg.ordered (held_start k0 .plain) (direct_child hg.ordered hmem)
      (hV c hin _ (fresh_started hg.ordered hs hin .plain)))

theorem held_while_rounds : Held t s (whileRounds t V s k0) := by
  have hskipped := held_skipped (held_while_asked hg hV hs) (whileAsked t V s k0).cursor
  unfold whileRounds whileBody
  cases hc : t.body s with
  | none => exact hskipped
  | some c =>
    have hf := fresh_while_body_start hg hk hV hs hc
    have hv := hV c (loop_body hg (by rw [hk]; rfl) hc).1.1 _
      (fresh_entry hg.ordered hf (loop_body hg (by rw [hk]; rfl) hc).2
        (.conditional (t.condition s) true))
    exact held_drained hg.ordered (held_place hskipped _ _)
      (direct_child hg.ordered (SyntaxTree.mem_body hc).1) hv

theorem held_while_exit : Held t s (whileExit t V s k0) := by
  have hrounds := held_while_rounds hg hk hV hs
  unfold whileExit whileElse
  cases hc : t.elsePart s with
  | none => exact hrounds
  | some c =>
    have hf := fresh_moved (fresh_while_else_start hg hk hV hs hc) (whileAsked t V s k0).cursor
    have hv := hV c (else_part hg hc).1.1 _ (fresh_entry hg.ordered hf (else_part hg hc).2
      (.conditional (t.condition s) false))
    have hmoved : Held t s ((whileRounds t V s k0).moved (whileAsked t V s k0).cursor) := hrounds
    exact held_pended (held_drained hg.ordered (held_place hmoved _ _)
      (direct_child hg.ordered (SyntaxTree.mem_else_part hc).1) hv) (t.below_refl s) _

/-- Nothing is left that could land on the header. -/
theorem while_eq : whileLoop t V s k0 = (whileExit t V s k0).moved none := by
  have hheld : Held t s ((whileExit t V s k0).moved none) := held_while_exit hg hk hV hs
  exact checked_of_held hheld ((grown_while_exit hg hk hV hs).headed (by rw [hk]; rfl))

theorem grown_while : Grown t s k0 (whileLoop t V s k0) := by
  rw [while_eq hg hk hV hs]
  exact grown_moved (grown_while_exit hg hk hV hs) (by simp)

end whileLoop
section forLoop
variable (hg : t.Grammatical) (hk : t.kind s = .forLoop) (hV : ∀ c, t.Inside c s → Grows t V c)
include hg hk hV

omit hk in
/-- The parts of a role, visited one after another. -/
theorem fresh_each_role {d : NodeId} {cs : List NodeId} {r : Role} (hnodup : cs.Nodup)
    (hcs : ∀ c ∈ cs, c ∈ t.children s ∧ t.role c = r) (hf : ∀ c ∈ cs, Fresh t c k)
    (hd : d ∈ t.children s) (hrole : t.role d ≠ r) (hfd : Fresh t d k) : Fresh t d (each V cs k) :=
  fresh_each hg.ordered (fun c hc => hV c (inside_of_mem hg.ordered (hcs c hc).1))
    (apart_children hg.ordered hnodup fun c hc => (hcs c hc).1) hf hfd fun c hc =>
      apart_of_role hg hd (hcs c hc).1 fun heq => hrole (heq.trans (hcs c hc).2)

omit hk in
theorem grown_each_role (hs : Fresh t s k0) (hG : Grown t s k0 k) {cs : List NodeId}
    (hnodup : cs.Nodup) (hcs : ∀ c ∈ cs, c ∈ t.children s) (hf : ∀ c ∈ cs, Fresh t c k) :
    Grown t s k0 (each V cs k) :=
  grown_each hg.ordered (fun c hc => hV c (inside_of_mem hg.ordered (hcs c hc)))
    (apart_children hg.ordered hnodup hcs) hf (fun c hc => direct_child hg.ordered (hcs c hc)) hs hG

omit hk in
theorem later_each {cs : List NodeId} (hnodup : cs.Nodup) (hcs : ∀ c ∈ cs, c ∈ t.children s)
    (hf : ∀ c ∈ cs, Fresh t c k) : Later k (each V cs k) :=
  each_keeps hg.ordered (fun c hc => hV c (inside_of_mem hg.ordered (hcs c hc)))
    (apart_children hg.ordered hnodup hcs) hf (P := Later k) (.refl k) fun c hc _ hk hfc =>
      hk.trans (hV c (inside_of_mem hg.ordered (hcs c hc)) _ hfc).later

omit hg hk hV in
theorem nodup_targets (ho : t.Ordered) (s : NodeId) : (t.targets s).Nodup :=
  (ho.children_nodup s).filter _

omit hg hk hV in
theorem nodup_option (o : Option NodeId) : o.toList.Nodup := by cases o <;> simp

omit hg hk hV in
theorem mem_iterable_list {c : NodeId} (hc : c ∈ (t.iterable s).toList) :
    c ∈ t.children s ∧ t.role c = .iterable := SyntaxTree.mem_iterable (Option.mem_toList.1 hc)

omit hk hV in
/-- The targets of a loop are fresh when its body has been entered, and the body when they have been
bound. -/
theorem fresh_for_targets {b c : NodeId} (hb : t.body s = some b) (hc : c ∈ t.targets s)
    (hf : Fresh t c k) : Fresh t c (k.start t b) := by
  obtain ⟨hbody, hrole⟩ := SyntaxTree.mem_body hb
  obtain ⟨hmem, hrole'⟩ := SyntaxTree.mem_targets.1 hc
  refine fresh_elsewhere hg.ordered hf (not_below_of_apart ?_) .plain
  exact apart_of_role hg hmem hbody (by simp [hrole, hrole'])

theorem fresh_for_bound {b : NodeId} (hb : t.body s = some b) (hf : Fresh t b k)
    (hft : ∀ c ∈ t.targets s, Fresh t c k) : Fresh t b (each V (t.targets s) (k.start t b)) := by
  obtain ⟨hbody, hrole⟩ := SyntaxTree.mem_body hb
  have hplain := (loop_body hg (by rw [hk]; rfl) hb).2
  exact fresh_each_role hg hV (nodup_targets hg.ordered s) (fun c hc => SyntaxTree.mem_targets.1 hc)
    (fun c hc => fresh_for_targets hg hb hc (hft c hc)) hbody (by simp [hrole])
    (fresh_entry hg.ordered hf hplain .plain)

/-- What the body of a loop leaves, before its ways out are led back. -/
theorem grown_for_round (hs : Fresh t s k0) {b : NodeId} (hb : t.body s = some b)
    (hG : Grown t s k0 k) (hf : Fresh t b k) (hft : ∀ c ∈ t.targets s, Fresh t c k) :
    Grown t s k0 (V b (each V (t.targets s) (k.start t b))) := by
  obtain ⟨hd, hplain⟩ := loop_body hg (by rw [hk]; rfl) hb
  have hbound := grown_each_role hg hV hs (grown_place hG hg.ordered hd hplain .plain)
    (nodup_targets hg.ordered s) (fun c hc => (SyntaxTree.mem_targets.1 hc).1) fun c hc =>
      fresh_for_targets hg hb hc (hft c hc)
  exact grown_visited hbound hg.ordered hs hd
    (hV b hd.1 _ (fresh_for_bound hg hk hV hb hf hft))

theorem later_for_round {b : NodeId} (hb : t.body s = some b) (hf : Fresh t b k)
    (hft : ∀ c ∈ t.targets s, Fresh t c k) :
    Later (k.start t b) (V b (each V (t.targets s) (k.start t b))) :=
  (later_each hg hV (nodup_targets hg.ordered s) (fun _ hc => (SyntaxTree.mem_targets.1 hc).1)
    fun c hc => fresh_for_targets hg hb hc (hft c hc)).trans
    (hV b (inside_of_mem hg.ordered (SyntaxTree.mem_body hb).1) _
      (fresh_for_bound hg hk hV hb hf hft)).later

theorem fresh_for_round {b d : NodeId} (hb : t.body s = some b) (hf : Fresh t b k)
    (hft : ∀ c ∈ t.targets s, Fresh t c k) (hd : Fresh t d k) (hmem : d ∈ t.children s)
    (hnb : t.role d ≠ .body) (hnt : t.role d ≠ .target) :
    Fresh t d (V b (each V (t.targets s) (k.start t b))) := by
  obtain ⟨hbody, hrole⟩ := SyntaxTree.mem_body hb
  have haway : Apart t d b := apart_of_role hg hmem hbody (by simpa [hrole] using hnb)
  have hbound := fresh_each_role hg hV (nodup_targets hg.ordered s)
    (fun c hc => SyntaxTree.mem_targets.1 hc)
    (fun c hc => fresh_for_targets hg hb hc (hft c hc)) hmem hnt
    (fresh_elsewhere hg.ordered hd (not_below_of_apart haway) .plain)
  exact fresh_visited hbound hg.ordered
    (hV b (inside_of_mem hg.ordered hbody) _ (fresh_for_bound hg hk hV hb hf hft)) haway

omit hg hk hV in
theorem later_close_round (first : InstructionId) (exits : List InstructionId) :
    Later k (closeRound t s first exits k).1 := by
  unfold closeRound
  split
  · exact (Later.refl k).linked _ _
  · exact ((Later.refl k).linked _ _).pended _ _

omit hg hk hV in
theorem grown_close_round (hG : Grown t s k0 k) {first : InstructionId} (hfirst : New k0 k first)
    {exits : List InstructionId} (hexits : ∀ a ∈ exits, Live t s k0 k a) :
    Grown t s k0 (closeRound t s first exits k).1 ∧
      ∀ a ∈ (closeRound t s first exits k).2, Live t s k0 (closeRound t s first exits k).1 a := by
  unfold closeRound
  split
  · exact ⟨grown_linked hG hfirst hexits, fun a ha => hexits a ha⟩
  · exact ⟨grown_pended (grown_linked hG hfirst hexits) (scoped_self t s) hexits, by simp⟩

omit hg hk hV in
theorem fresh_close_round {d : NodeId} (hf : Fresh t d k) (hd : ¬ t.Below s d)
    (first : InstructionId) {exits : List InstructionId} (hexits : ∀ a ∈ exits, a.index < k.size) :
    Fresh t d (closeRound t s first exits k).1 := by
  unfold closeRound
  split
  · exact fresh_linked hf _ _
  · exact fresh_pended (fresh_linked hf _ _) hd hexits

theorem grown_for_body (hs : Fresh t s k0) (hG : Grown t s k0 k)
    (hf : ∀ c, t.body s = some c → Fresh t c k) (hft : ∀ c ∈ t.targets s, Fresh t c k) :
    Grown t s k0 (forBody t V s (t.body s) k).1 ∧
      ∀ a ∈ (forBody t V s (t.body s) k).2, Live t s k0 (forBody t V s (t.body s) k).1 a := by
  cases hb : t.body s with
  | none => exact ⟨hG, by simp [forBody]⟩
  | some b =>
    obtain ⟨hd, hplain⟩ := loop_body hg (by rw [hk]; rfl) hb
    have hdone := grown_for_round hg hk hV hs hb hG (hf b hb) hft
    have hfirst := (grown_place hG hg.ordered hd hplain .plain).cursor_live k.next rfl
    exact grown_close_round (grown_drained hdone hg.ordered hd.1)
      (hfirst.later (later_for_round hg hk hV hb (hf b hb) hft)).1
      (exits_live hdone hg.ordered hd.1)

theorem later_for_body (hf : ∀ c, t.body s = some c → Fresh t c k)
    (hft : ∀ c ∈ t.targets s, Fresh t c k) : Later k (forBody t V s (t.body s) k).1 := by
  cases hb : t.body s with
  | none => exact .refl k
  | some b =>
    have hround := ((Later.refl k).place (t := t) (some b) .plain).trans
      (later_for_round hg hk hV hb (hf b hb) hft)
    exact (hround.drained b).trans (later_close_round _ _)

theorem fresh_for_body (hs : Fresh t s k0) (hG : Grown t s k0 k)
    (hf : ∀ c, t.body s = some c → Fresh t c k)
    (hft : ∀ c ∈ t.targets s, Fresh t c k) {d : NodeId} (hd : Fresh t d k)
    (hmem : d ∈ t.children s) (hnb : t.role d ≠ .body) (hnt : t.role d ≠ .target) :
    Fresh t d (forBody t V s (t.body s) k).1 := by
  cases hb : t.body s with
  | none => exact hd
  | some b =>
    have hround := fresh_for_round hg hk hV hb (hf b hb) hft hd hmem hnb hnt
    have hdone := grown_for_round hg hk hV hs hb hG (hf b hb) hft
    exact fresh_close_round (fresh_drained hround b)
      (hg.ordered.not_below_of_inside (inside_of_mem hg.ordered hmem)) _ fun a ha =>
        (exits_live hdone hg.ordered (inside_of_mem hg.ordered (SyntaxTree.mem_body hb).1) a ha).1.2

omit hk in
theorem grown_for_else (hs : Fresh t s k0) (hG : Grown t s k0 k)
    (hf : ∀ c, t.elsePart s = some c → Fresh t c k) {exhausted : List InstructionId}
    (hexhausted : ∀ a ∈ exhausted, Live t s k0 k a) :
    Grown t s k0 (forElse t V s exhausted (t.elsePart s) k) := by
  cases hc : t.elsePart s with
  | none => exact hG
  | some c =>
    obtain ⟨hd, hplain⟩ := else_part hg hc
    have hplaced := grown_place hG hg.ordered hd hplain .plain
    have hlinked := grown_linked hplaced (hplaced.cursor_live k.next rfl).1 fun a ha =>
      (hexhausted a ha).later ((Later.refl k).place (some c) .plain)
    have hdone := grown_visited hlinked hg.ordered hs hd
      (hV c hd.1 _ (fresh_linked (fresh_entry hg.ordered (hf c hc) hplain .plain) _ _))
    exact grown_clause_left hg.ordered hdone hd.1

section whole
variable (hs : Fresh t s k0)
include hs

omit hk hV in
theorem fresh_for_iterable {c : NodeId} (hc : c ∈ (t.iterable s).toList) :
    Fresh t c (k0.start t s) :=
  fresh_started hg.ordered hs (inside_of_mem hg.ordered (mem_iterable_list hc).1) .plain

omit hk in
theorem fresh_for_asked {d : NodeId} (hd : d ∈ t.children s) (hrole : t.role d ≠ .iterable) :
    Fresh t d (forAsked t V s k0) :=
  fresh_each_role hg hV (nodup_option _) (fun _ hc => mem_iterable_list hc)
    (fun _ hc => fresh_for_iterable hg hs hc) hd hrole
    (fresh_started hg.ordered hs (inside_of_mem hg.ordered hd) .plain)

theorem grown_for_asked : Grown t s k0 (forAsked t V s k0) :=
  grown_each_role hg hV hs (grown_begin hg.ordered (by simp [hk]) .plain) (nodup_option _)
    (fun _ hc => (mem_iterable_list hc).1) fun _ hc => fresh_for_iterable hg hs hc

theorem fresh_for_skipped {d : NodeId} (hd : d ∈ t.children s) (hrole : t.role d ≠ .iterable) :
    Fresh t d (skipped t s (forAsked t V s k0).cursor (forAsked t V s k0)) :=
  fresh_skipped (fresh_for_asked hg hV hs hd hrole)
    (hg.ordered.not_below_of_inside (inside_of_mem hg.ordered hd)) fun x hx =>
      ((grown_for_asked hg hk hV hs).cursor_live x hx).1.2

theorem fresh_for_body_start {c : NodeId} (hc : t.body s = some c) :
    Fresh t c (skipped t s (forAsked t V s k0).cursor (forAsked t V s k0)) := by
  obtain ⟨hmem, hrole⟩ := SyntaxTree.mem_body hc
  exact fresh_for_skipped hg hk hV hs hmem (by simp [hrole])

theorem fresh_for_target_start {c : NodeId} (hc : c ∈ t.targets s) :
    Fresh t c (skipped t s (forAsked t V s k0).cursor (forAsked t V s k0)) := by
  obtain ⟨hmem, hrole⟩ := SyntaxTree.mem_targets.1 hc
  exact fresh_for_skipped hg hk hV hs hmem (by simp [hrole])

theorem later_for_rounds : Later (forAsked t V s k0) (forRounds t V s k0).1 :=
  (later_skipped _).trans (later_for_body hg hk hV
    (fun _ hc => fresh_for_body_start hg hk hV hs hc) fun _ hc => fresh_for_target_start hg hk hV hs hc)

theorem grown_for_rounds : Grown t s k0 (forRounds t V s k0).1 ∧
    ∀ a ∈ (forRounds t V s k0).2, Live t s k0 (forRounds t V s k0).1 a := by
  have hasked := grown_for_asked hg hk hV hs
  exact grown_for_body hg hk hV hs (grown_skipped hasked hasked.cursor_live)
    (fun _ hc => fresh_for_body_start hg hk hV hs hc) fun _ hc => fresh_for_target_start hg hk hV hs hc

theorem fresh_for_else_start {c : NodeId} (hc : t.elsePart s = some c) :
    Fresh t c ((forRounds t V s k0).1.moved (forAsked t V s k0).cursor) := by
  have hrole := hg.role_else_part (by rw [hk]; rfl) hc
  have hmem := (SyntaxTree.mem_else_part hc).1
  have hasked := grown_for_asked hg hk hV hs
  exact fresh_moved (fresh_for_body hg hk hV hs (grown_skipped hasked hasked.cursor_live) (fun _ hc => fresh_for_body_start hg hk hV hs hc)
    (fun _ hc => fresh_for_target_start hg hk hV hs hc)
    (fresh_for_skipped hg hk hV hs hmem (by simp [hrole])) hmem (by simp [hrole]) (by simp [hrole])) _

theorem grown_for : Grown t s k0 (forLoop t V s k0) := by
  obtain ⟨hrounds, hexhausted⟩ := grown_for_rounds hg hk hV hs
  have hhead := (grown_for_asked hg hk hV hs).cursor_live
  have hmoved := grown_moved hrounds fun x hx => (hhead x hx).later (later_for_rounds hg hk hV hs)
  exact grown_moved (grown_for_else hg hV hs hmoved
    (fun _ hc => fresh_for_else_start hg hk hV hs hc) hexhausted) (by simp)

end whole
end forLoop
end PythonFlow.Sketch
