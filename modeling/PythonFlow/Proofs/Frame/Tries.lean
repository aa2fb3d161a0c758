import PythonFlow.Proofs.Frame.Loops

/-!
# The frame of a `try` statement

The clauses of a `try` statement are of different kinds, or different handlers, so that each is fresh
when its turn comes. What was pending before the statement has its source outside of it, and is not
touched when the rest is settled. Whatever is pending afterwards, where there is a `finally` clause,
comes from that clause.
-/

set_option autoImplicit false

namespace PythonFlow.Sketch
variable {t : SyntaxTree} {s : NodeId} {V : Visitor} {k k0 : Sketch}

theorem apart_of_kind (ho : t.Ordered) {c d : NodeId} (hc : c ∈ t.children s)
    (hd : d ∈ t.children s) (h : t.kind c ≠ t.kind d) : Apart t c d :=
  apart_of_ne ho hc hd fun heq => h (heq ▸ rfl)

theorem exits_lt {c d : NodeId} (hf : Fresh t d k) (hc : ∀ a ∈ k.cursor.toList, a.index < k.size) :
    ∀ a ∈ k.exits t c, a.index < k.size := by
  intro a ha
  rcases (mem_exits k t c a).1 ha with ha | ⟨e, he, rfl⟩
  · exact hc a (Option.mem_toList.2 ha)
  · exact hf.ranged e ((mem_inner k t e c).1 he).1

/-- The ways out of a clause are in the clause. -/
theorem exits_below {c : NodeId} {k' : Sketch} (hv : Visited t c k k') (hf : Fresh t c k)
    (hcursor : ∀ x, k.cursor = some x → ∃ el, k.element x = some el ∧ t.Below el c) :
    ∀ a ∈ k'.exits t c, ∃ el, k'.element a = some el ∧ t.Below el c := by
  intro a ha
  rcases (mem_exits k' t c a).1 ha with ha | ⟨e, he, rfl⟩
  · rcases hv with rfl | ⟨hv, -⟩
    · exact hcursor a ha
    · exact hv.element_new a (hv.cursor_live a ha).1
  · obtain ⟨he, hw⟩ := (mem_inner k' t e c).1 he
    obtain ⟨sc, hsc, hin⟩ := within_iff.1 hw
    rcases hv with rfl | ⟨hv, -⟩
    · exact absurd hin (hf.unscoped e he sc hsc)
    · rcases hv.waits e he with ⟨h, -⟩ | ⟨hlive, -⟩
      · exact absurd hin (hf.unscoped e h sc hsc)
      · exact hv.element_new e.source hlive.1

section clause
variable (hg : t.Grammatical) (hV : ∀ c, t.Inside c s → Grows t V c) {c d : NodeId}
  (hc : c ∈ t.children s) (hplain : (t.kind c).isStatement = false)
include hg hV hc hplain

omit hplain in
/-- A clause that has been entered, from wherever it is. -/
theorem grown_clause_done (hs : Fresh t s k0) (hG : Grown t s k0 k) (hf : Fresh t c k) :
    Grown t s k0 (V c k) :=
  grown_visited hG hg.ordered hs (direct_child hg.ordered hc)
    (hV c (inside_of_mem hg.ordered hc) k hf)

omit hV in
theorem grown_clause_start (hG : Grown t s k0 k) (o : Option InstructionId)
    (ho : ∀ x, o = some x → Live t s k0 k x) : Grown t s k0 ((k.moved o).start t c) :=
  grown_place (grown_moved hG ho) hg.ordered (direct_child hg.ordered hc) hplain .plain

omit hV hc in
theorem fresh_clause_start (hf : Fresh t c k) (o : Option InstructionId) :
    Fresh t c ((k.moved o).start t c) :=
  fresh_entry hg.ordered (fresh_moved hf o) hplain .plain

omit hplain in
/-- Leaving a clause keeps every other clause fresh. -/
theorem fresh_clause_left (hf : Fresh t c k) (hfd : Fresh t d k) (hd : d ∈ t.children s)
    (hne : d ≠ c) (hcursor : ∀ x, k.cursor = some x → x.index < k.size) :
    Fresh t d (((V c k).drained t c).pended (some s) ((V c k).exits t c)) := by
  have hv := hV c (inside_of_mem hg.ordered hc) k hf
  have hdone := fresh_visited hfd hg.ordered hv (apart_of_ne hg.ordered hd hc hne)
  exact fresh_pended (fresh_drained hdone c)
    (hg.ordered.not_below_of_inside (inside_of_mem hg.ordered hd))
    (exits_lt hdone (cursor_lt hv hcursor))

omit hV hplain in
theorem fresh_other_start (hf : Fresh t d k) (hd : d ∈ t.children s) (hne : d ≠ c)
    (o : Option InstructionId) : Fresh t d ((k.moved o).start t c) :=
  fresh_elsewhere hg.ordered (fresh_moved hf o)
    (not_below_of_apart (apart_of_ne hg.ordered hd hc hne)) .plain

end clause

theorem cursor_start_lt (t : SyntaxTree) (k : Sketch) (el : NodeId) :
    ∀ x, (k.start t el).cursor = some x → x.index < (k.start t el).size := by
  intro x hx
  obtain rfl : k.next = x := Option.some.inj hx
  change k.size < (k.place t (some el) .plain).size
  rw [size_place]
  exact Nat.lt_succ_self _

theorem try_part {c : NodeId} (hc : t.tryPart s = some c) :
    c ∈ t.children s ∧ t.kind c = .tryPart ∧ (t.kind c).isStatement = false := by
  obtain ⟨hmem, hk⟩ := SyntaxTree.mem_try_part hc
  exact ⟨hmem, hk, by rw [hk]; rfl⟩

theorem except_part {c : NodeId} (hc : c ∈ t.exceptParts s) :
    c ∈ t.children s ∧ t.kind c = .exceptPart ∧ (t.kind c).isStatement = false := by
  obtain ⟨hmem, hk⟩ := SyntaxTree.mem_except_parts.1 hc
  exact ⟨hmem, hk, by rw [hk]; rfl⟩

theorem finally_part {c : NodeId} (hc : t.finallyPart s = some c) :
    c ∈ t.children s ∧ t.kind c = .finallyPart ∧ (t.kind c).isStatement = false := by
  obtain ⟨hmem, hk⟩ := SyntaxTree.mem_finally_part hc
  exact ⟨hmem, hk, by rw [hk]; rfl⟩

section tryStatement
variable (hg : t.Grammatical) (hV : ∀ c, t.Inside c s → Grows t V c)
include hg hV

section body
variable {statement : InstructionId} (hf : ∀ c, t.tryPart s = some c → Fresh t c k)
include hf

theorem later_try_body : Later k (tryBody t V statement (t.tryPart s) k).1 := by
  cases hc : t.tryPart s with
  | none => exact .refl k
  | some c =>
    obtain ⟨hmem, -, hplain⟩ := try_part hc
    have hfc := fresh_entry hg.ordered (hf c hc) hplain .plain
    exact (((Later.refl k).place _ _).trans
      (hV c (inside_of_mem hg.ordered hmem) _ hfc).later).drained c

theorem grown_try_body (hs : Fresh t s k0) (hG : Grown t s k0 k)
    (hstatement : Live t s k0 k statement) :
    let r := tryBody t V statement (t.tryPart s) k
    Grown t s k0 r.1 ∧ Live t s k0 r.1 r.2.1 ∧ ∀ a ∈ r.2.2, Live t s k0 r.1 a := by
  cases hc : t.tryPart s with
  | none => exact ⟨hG, hstatement, fun a ha => List.mem_singleton.1 ha ▸ hstatement⟩
  | some c =>
    obtain ⟨hmem, -, hplain⟩ := try_part hc
    have hin := inside_of_mem hg.ordered hmem
    have hfc := fresh_entry hg.ordered (hf c hc) hplain .plain
    have hplaced := grown_place hG hg.ordered (direct_child hg.ordered hmem) hplain .plain
    have hdone := grown_clause_done hg hV hmem hs hplaced hfc
    refine ⟨grown_drained hdone hg.ordered hin, ?_, exits_live hdone hg.ordered hin⟩
    exact (hplaced.cursor_live k.next rfl).later ((hV c hin _ hfc).later.drained c)

theorem fresh_try_body {d : NodeId} (hfd : Fresh t d k) (hd : d ∈ t.children s)
    (hkind : t.kind d ≠ .tryPart) : Fresh t d (tryBody t V statement (t.tryPart s) k).1 := by
  cases hc : t.tryPart s with
  | none => exact hfd
  | some c =>
    obtain ⟨hmem, hk, hplain⟩ := try_part hc
    exact fresh_drained (fresh_clause hg.ordered hfd (hf c hc) hplain
      (hV c (inside_of_mem hg.ordered hmem))
      (apart_of_kind hg.ordered hd hmem (by rwa [hk])) .plain) c

end body

section tryElse
variable {exits : List InstructionId} (hf : ∀ c, t.elsePart s = some c → Fresh t c k)
include hf

theorem later_try_else : Later k (tryElse t V s exits (t.elsePart s) k) := by
  cases hc : t.elsePart s with
  | none => exact (Later.refl k).pended _ _
  | some c =>
    obtain ⟨hmem, -⟩ := SyntaxTree.mem_else_part hc
    have hfc := fresh_linked (fresh_clause_start hg (else_part hg hc).2 (hf c hc) none) k.next exits
    exact (((((Later.refl k).moved none).place _ _).linked _ _).trans
      (hV c (inside_of_mem hg.ordered hmem) _ hfc).later).drained c |>.pended _ _

theorem grown_try_else (hs : Fresh t s k0) (hG : Grown t s k0 k)
    (hexits : ∀ a ∈ exits, Live t s k0 k a) :
    Grown t s k0 (tryElse t V s exits (t.elsePart s) k) := by
  cases hc : t.elsePart s with
  | none => exact grown_pended hG (scoped_self t s) hexits
  | some c =>
    obtain ⟨hmem, -⟩ := SyntaxTree.mem_else_part hc
    have hplain := (else_part hg hc).2
    have hstart := grown_clause_start hg hmem hplain hG none (by simp)
    have hlinked := grown_linked hstart (hstart.cursor_live k.next rfl).1 fun a ha =>
      (hexits a ha).later (((Later.refl k).moved none).place (some c) .plain)
    have hdone := grown_clause_done hg hV hmem hs hlinked
      (fresh_linked (fresh_clause_start hg hplain (hf c hc) none) _ _)
    exact grown_clause_left hg.ordered hdone (inside_of_mem hg.ordered hmem)

theorem fresh_try_else {d : NodeId} (hfd : Fresh t d k) (hd : d ∈ t.children s)
    (hkind : t.kind d ≠ .elsePart) (hexits : ∀ a ∈ exits, a.index < k.size) :
    Fresh t d (tryElse t V s exits (t.elsePart s) k) := by
  cases hc : t.elsePart s with
  | none =>
    exact fresh_pended hfd (hg.ordered.not_below_of_inside (inside_of_mem hg.ordered hd)) hexits
  | some c =>
    obtain ⟨hmem, hk⟩ := SyntaxTree.mem_else_part hc
    have hne : d ≠ c := fun heq => hkind (heq ▸ hk)
    have hfc := fresh_clause_start hg (else_part hg hc).2 (hf c hc) none
    exact fresh_clause_left hg hV hmem (fresh_linked hfc _ _)
      (fresh_linked (fresh_other_start hg hmem hfd hd hne none) _ _) hd hne (cursor_start_lt t _ c)

end tryElse

section handlers
variable (entry : InstructionId) (exits : List InstructionId)

def handlerStart (t : SyntaxTree) (entry : InstructionId) (exits : List InstructionId)
    (part : NodeId) (k : Sketch) : Sketch :=
  (((k.moved none).start t part).linked k.next [entry]).linked k.next exits

omit hg hV in
theorem later_handler_start (part : NodeId) :
    Later k (handlerStart t entry exits part k) :=
  ((((Later.refl k).moved none).place _ _).linked _ _).linked _ _

omit hV in
theorem fresh_handler_start {part : NodeId} (hp : part ∈ t.exceptParts s) (hf : Fresh t part k) :
    Fresh t part (handlerStart t entry exits part k) :=
  fresh_linked (fresh_linked (fresh_clause_start hg (except_part hp).2.2 hf none) _ _) _ _

theorem later_handler {part : NodeId} (hp : part ∈ t.exceptParts s) (hf : Fresh t part k) :
    Later k (handler t V s entry exits part k) := by
  have hv := hV part (inside_of_mem hg.ordered (except_part hp).1) _
    (fresh_handler_start hg entry exits hp hf)
  exact (((later_handler_start entry exits part).trans hv.later).drained part).pended _ _

theorem fresh_handler {part d : NodeId} (hp : part ∈ t.exceptParts s) (hf : Fresh t part k)
    (hfd : Fresh t d k) (hd : d ∈ t.children s) (hne : d ≠ part) :
    Fresh t d (handler t V s entry exits part k) :=
  fresh_clause_left hg hV (except_part hp).1 (fresh_handler_start hg entry exits hp hf)
    (fresh_linked (fresh_linked (fresh_other_start hg (except_part hp).1 hfd hd hne none) _ _) _ _)
    hd hne (cursor_start_lt t _ part)

/-- What each handler keeps, all of them keep. -/
theorem handlers_keeps {M : Sketch → Prop} {parts : List NodeId}
    (hstep : ∀ p k, p ∈ t.exceptParts s → Fresh t p k → M k → M (handler t V s entry exits p k))
    (hparts : ∀ p ∈ parts, p ∈ t.exceptParts s) (hnodup : parts.Nodup)
    (hf : ∀ p ∈ parts, Fresh t p k) (hM : M k) : M (handlers t V s entry exits parts k).1 := by
  induction parts generalizing k with
  | nil => exact hM
  | cons p parts ih =>
    obtain ⟨hne, hnodup⟩ := List.nodup_cons.1 hnodup
    have hp := hparts p (by simp)
    have hfp := hf p (by simp)
    refine ih (fun q hq => hparts q (by simp [hq])) hnodup (fun q hq => ?_) (hstep p k hp hfp hM)
    exact fresh_handler hg hV entry exits hp hfp (hf q (by simp [hq]))
      (except_part (hparts q (by simp [hq]))).1 fun heq => hne (heq ▸ hq)

/-- Where one of the handlers begins, and what is left to do after it. -/
theorem handlers_at {M : Sketch → Prop} {parts : List NodeId}
    (hstep : ∀ p k, p ∈ t.exceptParts s → Fresh t p k → M k → M (handler t V s entry exits p k))
    (hparts : ∀ p ∈ parts, p ∈ t.exceptParts s) (hnodup : parts.Nodup)
    (hf : ∀ p ∈ parts, Fresh t p k) (hM : M k) {p : NodeId} (hp : p ∈ parts) :
    ∃ k1 rest, M k1 ∧ Fresh t p k1 ∧ k1.next ∈ (handlers t V s entry exits parts k).2 ∧
      (handlers t V s entry exits parts k).1 =
        (handlers t V s entry exits rest (handler t V s entry exits p k1)).1 ∧
      (∀ q ∈ rest, q ∈ t.exceptParts s) ∧ rest.Nodup ∧
        ∀ q ∈ rest, Fresh t q (handler t V s entry exits p k1) := by
  induction parts generalizing k with
  | nil => cases hp
  | cons q parts ih =>
    obtain ⟨hne, hparted⟩ := List.nodup_cons.1 hnodup
    have hq := hparts q (by simp)
    have hfq := hf q (by simp)
    have hrest : ∀ r ∈ parts, Fresh t r (handler t V s entry exits q k) := fun r hr =>
      fresh_handler hg hV entry exits hq hfq (hf r (by simp [hr]))
        (except_part (hparts r (by simp [hr]))).1 fun heq => hne (heq ▸ hr)
    rcases List.mem_cons.1 hp with rfl | hp
    · exact ⟨k, parts, hM, hfq, List.mem_cons_self, rfl, fun r hr => hparts r (by simp [hr]), hparted,
        hrest⟩
    · obtain ⟨k1, rest, hk1, hf1, hmem, heq, hleft⟩ := ih (fun r hr => hparts r (by simp [hr])) hparted
        hrest (hstep q k hq hfq hM) hp
      exact ⟨k1, rest, hk1, hf1, List.mem_cons_of_mem _ hmem, heq, hleft⟩

omit hV in
theorem grown_handler_start (hG : Grown t s k0 k) (hentry : Live t s k0 k entry)
    (hexits : ∀ a ∈ exits, Live t s k0 k a) {part : NodeId} (hp : part ∈ t.exceptParts s) :
    Grown t s k0 (handlerStart t entry exits part k) := by
  obtain ⟨hmem, -, hplain⟩ := except_part hp
  have hstart := grown_clause_start hg hmem hplain hG none (by simp)
  have hle := ((Later.refl k).moved none).place (t := t) (some part) .plain
  have hnext := (hstart.cursor_live k.next rfl).1
  have hlinked := grown_linked hstart hnext (l := [entry]) fun a ha =>
    List.mem_singleton.1 ha ▸ hentry.later hle
  exact grown_linked hlinked hnext fun a ha => (hexits a ha).later (hle.linked _ _)

theorem grown_handler (hs : Fresh t s k0) (hG : Grown t s k0 k) (hentry : Live t s k0 k entry)
    (hexits : ∀ a ∈ exits, Live t s k0 k a) {part : NodeId} (hp : part ∈ t.exceptParts s)
    (hf : Fresh t part k) : Grown t s k0 (handler t V s entry exits part k) := by
  have hmem := (except_part hp).1
  have hdone := grown_clause_done hg hV hmem hs (grown_handler_start hg entry exits hG hentry hexits hp)
    (fresh_handler_start hg entry exits hp hf)
  exact grown_clause_left hg.ordered hdone (inside_of_mem hg.ordered hmem)

/-- The entries of the handlers are among the instructions of the handlers. -/
theorem handlers_entries {parts : List NodeId} (hparts : ∀ p ∈ parts, p ∈ t.exceptParts s)
    (hnodup : parts.Nodup) (hf : ∀ p ∈ parts, Fresh t p k) :
    Later k (handlers t V s entry exits parts k).1 ∧
      ∀ h ∈ (handlers t V s entry exits parts k).2,
        New k (handlers t V s entry exits parts k).1 h := by
  induction parts generalizing k with
  | nil => exact ⟨.refl k, by simp [handlers]⟩
  | cons p parts ih =>
    obtain ⟨hne, hnodup⟩ := List.nodup_cons.1 hnodup
    have hp := hparts p (by simp)
    have hfp := hf p (by simp)
    have hle := later_handler hg hV entry exits hp hfp
    obtain ⟨hle', hentries⟩ := ih (k := handler t V s entry exits p k)
      (fun q hq => hparts q (by simp [hq])) hnodup fun q hq =>
        fresh_handler hg hV entry exits hp hfp (hf q (by simp [hq]))
          (except_part (hparts q (by simp [hq]))).1 fun heq => hne (heq ▸ hq)
    refine ⟨hle.trans hle', fun h hh => ?_⟩
    rcases List.mem_cons.1 hh with rfl | hh
    · have hv := hV p (inside_of_mem hg.ordered (except_part hp).1) _
        (fresh_handler_start hg entry exits hp hfp)
      have hlt : k.size < (handler t V s entry exits p k).size := by
        have hsize := hv.later.size_le
        have hplace : (handlerStart t entry exits p k).size = k.size + 1 :=
          size_place (k.moved none) t (some p) .plain
        change k.size < (V p (handlerStart t entry exits p k)).size
        omega
      exact ⟨Nat.le_refl _, Nat.lt_of_lt_of_le hlt hle'.size_le⟩
    · exact (hentries h hh).earlier hle.size_le

/-- The entry of a handler is made for the handler. -/
theorem element_of_entry {parts : List NodeId} (hparts : ∀ p ∈ parts, p ∈ t.exceptParts s)
    (hnodup : parts.Nodup) (hf : ∀ p ∈ parts, Fresh t p k) :
    ∀ h ∈ (handlers t V s entry exits parts k).2,
      ∃ p ∈ t.exceptParts s, (handlers t V s entry exits parts k).1.element h = some p := by
  induction parts generalizing k with
  | nil => exact fun h hh => by cases hh
  | cons p parts ih =>
    obtain ⟨hne, hnodup⟩ := List.nodup_cons.1 hnodup
    have hp := hparts p (by simp)
    have hfp := hf p (by simp)
    have hrest : ∀ q ∈ parts, Fresh t q (handler t V s entry exits p k) := fun q hq =>
      fresh_handler hg hV entry exits hp hfp (hf q (by simp [hq]))
        (except_part (hparts q (by simp [hq]))).1 fun heq => hne (heq ▸ hq)
    have hparts' := fun q hq => hparts q (List.mem_cons_of_mem p hq)
    intro h hh
    rcases List.mem_cons.1 hh with rfl | hh
    · have hlater := (handlers_entries hg hV entry exits hparts' hnodup hrest).1
      have hv := (hV p (inside_of_mem hg.ordered (except_part hp).1) _
        (fresh_handler_start hg entry exits hp hfp)).later
      have hstart : (handlerStart t entry exits p k).element k.next = some p :=
        element_place_next (t := t) (k := k.moved none)
      have hdone : (handler t V s entry exits p k).element k.next = some p :=
        (hv.element (lt_size_of_element hstart)).trans hstart
      exact ⟨p, hp, (hlater.element (lt_size_of_element hdone)).trans hdone⟩
    · exact ih hparts' hnodup hrest h hh

end handlers

section finallyClause

structure Closes (t : SyntaxTree) (s : NodeId) (k0 k : Sketch) (f : Visit.Finally) : Prop where
  clause : t.finallyPart s = some f.part
  entry : New k0 k f.entry
  exits : ∀ a ∈ f.exits, Live t s k0 k a
  below : ∀ a ∈ f.exits, ∃ el, k.element a = some el ∧ t.Below el f.part
  pending : ∀ e ∈ k.pending, e.scope = some f.part → e.source ∈ f.exits

theorem later_finally (hf : ∀ c, t.finallyPart s = some c → Fresh t c k) :
    Later k (finallyClause t V (t.finallyPart s) k).1 := by
  cases hc : t.finallyPart s with
  | none => exact .refl k
  | some c =>
    obtain ⟨hmem, -, hplain⟩ := finally_part hc
    have hv := hV c (inside_of_mem hg.ordered hmem) _ (fresh_clause_start hg hplain (hf c hc) none)
    exact (((((Later.refl k).moved none).place _ _).trans hv.later).drained c).pended _ _

theorem grown_finally (hs : Fresh t s k0) (hG : Grown t s k0 k)
    (hf : ∀ c, t.finallyPart s = some c → Fresh t c k) :
    Grown t s k0 (finallyClause t V (t.finallyPart s) k).1 ∧
      ∀ f, (finallyClause t V (t.finallyPart s) k).2 = some f →
        Closes t s k0 (finallyClause t V (t.finallyPart s) k).1 f := by
  cases hc : t.finallyPart s with
  | none => exact ⟨hG, by simp [finallyClause]⟩
  | some c =>
    obtain ⟨hmem, -, hplain⟩ := finally_part hc
    have hin := inside_of_mem hg.ordered hmem
    have hstart := grown_clause_start hg hmem hplain hG none (by simp)
    have hfc := fresh_clause_start hg hplain (hf c hc) none
    have hv := hV c hin _ hfc
    have hdone := grown_clause_done hg hV hmem hs hstart hfc
    have hexits := exits_live hdone hg.ordered hin
    have hscoped : Scoped t s (some c) := .inl hin.1
    refine ⟨grown_pended (grown_drained hdone hg.ordered hin) hscoped hexits, fun f hfeq => ?_⟩
    obtain rfl : _ = f := Option.some.inj hfeq
    refine ⟨hc, (hstart.cursor_live k.next rfl).1.later hv.later.size_le, hexits, ?_, ?_⟩
    · refine exits_below hv hfc fun x hx => ?_
      obtain rfl : k.next = x := Option.some.inj hx
      exact ⟨c, element_place_next, t.below_refl c⟩
    · intro e he hsc
      rcases (mem_pending_pended _ e (some c) _).1 he with he | ⟨-, hsource⟩
      · have hout := beyond_iff.1 ((mem_pending_drained _ t e c).1 he).2
        exact absurd (t.below_refl c) (hout c hsc)
      · exact hsource

end finallyClause

section whole
variable (hk : t.kind s = .tryStatement) (hs : Fresh t s k0)
include hs

theorem fresh_tried {d : NodeId} (hd : d ∈ t.children s) (hkind : t.kind d ≠ .tryPart) :
    Fresh t d (tryTried t V s k0).1 :=
  fresh_try_body hg hV (fun _ hc => fresh_child hg.ordered hs (try_part hc).1)
    (fresh_child hg.ordered hs hd) hd hkind

include hk in
theorem grown_tried : Grown t s k0 (tryTried t V s k0).1 ∧
    Live t s k0 (tryTried t V s k0).1 (tryTried t V s k0).2.1 ∧
      ∀ a ∈ (tryTried t V s k0).2.2, Live t s k0 (tryTried t V s k0).1 a := by
  have hstart := grown_begin (k := k0) hg.ordered (s := s) (by simp [hk]) .plain
  exact grown_try_body hg hV (fun _ hc => fresh_child hg.ordered hs (try_part hc).1) hs hstart
    (hstart.cursor_live k0.next rfl)

theorem fresh_tried_else {c : NodeId} (hc : t.elsePart s = some c) :
    Fresh t c (tryTried t V s k0).1 := by
  obtain ⟨hmem, hkind⟩ := SyntaxTree.mem_else_part hc
  exact fresh_tried hg hV hs hmem (by simp [hkind])

theorem later_others : Later (tryTried t V s k0).1 (tryOthers t V s k0) :=
  later_try_else hg hV fun _ hc => fresh_tried_else hg hV hs hc

include hk

theorem fresh_others {d : NodeId} (hd : d ∈ t.children s) (hnt : t.kind d ≠ .tryPart)
    (hne : t.kind d ≠ .elsePart) : Fresh t d (tryOthers t V s k0) :=
  fresh_try_else hg hV (fun _ hc => fresh_tried_else hg hV hs hc) (fresh_tried hg hV hs hd hnt) hd hne
    fun a ha => ((grown_tried hg hV hk hs).2.2 a ha).1.2

theorem grown_others : Grown t s k0 (tryOthers t V s k0) :=
  grown_try_else hg hV (fun _ hc => fresh_tried_else hg hV hs hc) hs (grown_tried hg hV hk hs).1
    (grown_tried hg hV hk hs).2.2

theorem fresh_others_handler {p : NodeId} (hp : p ∈ t.exceptParts s) :
    Fresh t p (tryOthers t V s k0) := by
  obtain ⟨hmem, hkind, -⟩ := except_part hp
  exact fresh_others hg hV hk hs hmem (by simp [hkind]) (by simp [hkind])

omit hV hk hs in
theorem nodup_except_parts (s : NodeId) : (t.exceptParts s).Nodup :=
  (hg.ordered.children_nodup s).filter _

theorem caught_entries : Later (tryOthers t V s k0) (tryCaught t V s k0).1 ∧
    ∀ h ∈ (tryCaught t V s k0).2, New (tryOthers t V s k0) (tryCaught t V s k0).1 h :=
  handlers_entries hg hV _ _ (fun _ h => h) (nodup_except_parts hg s) fun _ hp =>
    fresh_others_handler hg hV hk hs hp

theorem grown_caught : Grown t s k0 (tryCaught t V s k0).1 := by
  obtain ⟨htried, hentry, hexits⟩ := grown_tried hg hV hk hs
  have hle := later_others hg hV hs
  -- The entry and the ways out of the body are still there at every handler.
  obtain ⟨hG, -⟩ := handlers_keeps hg hV _ _
    (M := fun k => Grown t s k0 k ∧ Later (tryTried t V s k0).1 k)
    (fun p k hp hf ⟨hG, hle⟩ => ⟨grown_handler hg hV _ _ hs hG (hentry.later hle)
      (fun a ha => (hexits a ha).later hle) hp hf, hle.trans (later_handler hg hV _ _ hp hf)⟩)
    (fun _ h => h) (nodup_except_parts hg s)
    (fun _ hp => fresh_others_handler hg hV hk hs hp) ⟨grown_others hg hV hk hs, hle⟩
  exact hG

theorem fresh_caught {c : NodeId} (hc : t.finallyPart s = some c) :
    Fresh t c (tryCaught t V s k0).1 := by
  obtain ⟨hmem, hkind, -⟩ := finally_part hc
  refine handlers_keeps hg hV _ _ (M := Fresh t c) (fun p k hp hf hfc => ?_) (fun _ h => h)
    (nodup_except_parts hg s) (fun _ hp => fresh_others_handler hg hV hk hs hp)
    (fresh_others hg hV hk hs hmem (by simp [hkind]) (by simp [hkind]))
  refine fresh_handler hg hV _ _ hp hf hfc hmem fun heq => ?_
  have hpk := (except_part hp).2.1
  rw [← heq, hkind] at hpk
  cases hpk

theorem later_last : Later (tryCaught t V s k0).1 (tryLast t V s k0).1 :=
  later_finally hg hV fun _ hc => fresh_caught hg hV hk hs hc

theorem grown_last : Grown t s k0 (tryLast t V s k0).1 ∧
    ∀ f, (tryLast t V s k0).2 = some f → Closes t s k0 (tryLast t V s k0).1 f :=
  grown_finally hg hV hs (grown_caught hg hV hk hs) fun _ hc => fresh_caught hg hV hk hs hc

omit hg hV hk in
/-- What was pending before the statement comes from outside of it. -/
theorem settle_old (hG : Grown t s k0 k) (hstatement : (t.kind s).isStatement = true)
    {e : PendingEdge} (he : e ∈ k0.pending) (handlers : List InstructionId)
    (f : Option Visit.Finally) : settle t s handlers f k e = keep e := by
  have hel := hG.element_old e.source (hs.ranged e he)
  cases h : k.element e.source with
  | none => exact settle_of_none t h
  | some el =>
    exact settle_of_outside t h (hs.bare s (t.below_refl s) hstatement e.source el (hel ▸ h))

theorem grown_settle : Grown t s k0 (tryStatement t V s k0) := by
  obtain ⟨hlast, hf⟩ := grown_last hg hV hk hs
  obtain ⟨-, hentries⟩ := caught_entries hg hV hk hs
  have hle := later_last hg hV hk hs
  have hH : ∀ h ∈ (tryCaught t V s k0).2, New k0 (tryLast t V s k0).1 h := fun h hh =>
    ((hentries h hh).later hle.size_le).earlier (grown_others hg hV hk hs).later.size_le
  refine grown_moved (grown_settled hlast (fun e he _ => settle_old hs hlast (by rw [hk]; rfl) he _ _)
    (fun e _ _ b hb => ?_) fun e _ hlive hscoped e' he' => ?_) (by simp)
  · rcases settle_cases t s (tryCaught t V s k0).2 (tryLast t V s k0).2 (tryLast t V s k0).1 e with
      h | ⟨-, h, -⟩ | ⟨f, hfeq, h⟩ <;> rw [h] at hb
    · simp [keep] at hb
    · exact hH b hb
    · obtain rfl : b = f.entry := by simpa [through] using hb
      exact (hf f hfeq).entry
  · rcases settle_cases t s (tryCaught t V s k0).2 (tryLast t V s k0).2 (tryLast t V s k0).1 e with
      h | ⟨-, h, -⟩ | ⟨f, hfeq, h⟩ <;> rw [h] at he'
    · obtain rfl : e' = e := by simpa [keep] using he'
      exact ⟨hlive, hscoped⟩
    · simp at he'
    · obtain ⟨hsource, hscope⟩ := mem_through he'
      exact ⟨(hf f hfeq).exits _ hsource, hscope ▸ hscoped⟩

omit hg hV hk hs in
/-- Where there is a `finally` clause it has been visited. -/
theorem last_finally (V : Visitor) (k0 : Sketch) {c : NodeId} (hc : t.finallyPart s = some c) :
    ∃ f, (tryLast t V s k0).2 = some f ∧ f.part = c := by
  rw [tryLast, hc]
  exact ⟨_, rfl, rfl⟩

theorem sealed_settle : Sealed t s k0 (tryStatement t V s k0) := by
  obtain ⟨hlast, hf⟩ := grown_last hg hV hk hs
  rintro F ⟨-, hF, -⟩ x el hx hnew hel
  obtain ⟨f, hfeq, rfl⟩ := last_finally V k0 hF
  have hclose := hf f hfeq
  obtain ⟨e', he', rfl⟩ : ∃ e' ∈ (tryStatement t V s k0).pending, e'.source = x := by
    rcases hx with hx | hx
    · cases hx
    · exact hx
  obtain ⟨e, he, hleft⟩ := (mem_pending_settled _ e' _).1 he'
  have hexit : ∀ a ∈ f.exits, (tryLast t V s k0).1.element a = some el → t.Below el f.part := by
    intro a ha hel
    obtain ⟨y, hy, hb⟩ := hclose.below a ha
    exact Option.some.inj (hel.symm.trans hy) ▸ hb
  rcases hlast.waits e he with ⟨hold, -⟩ | ⟨hlive, -⟩
  · rw [settle_old hs hlast (by rw [hk]; rfl) hold] at hleft
    obtain rfl : e' = e := by simpa [keep] using hleft
    exact absurd (hs.ranged e' hold) (Nat.not_lt_of_le hnew.1)
  obtain ⟨y, hy, hys⟩ := hlast.element_new e.source hlive.1
  by_cases hraised : Visit.raisedInBody t (t.tryPart s) y = true ∧ (tryCaught t V s k0).2 ≠ []
  · rw [settle_of_raised t hy hys hraised.1 hraised.2] at hleft
    simp at hleft
  rw [hfeq, settle_of_finally t hy hys hraised f] at hleft
  split at hleft
  · exact hexit e'.source (mem_through hleft).1 hel
  · next hkeep =>
    obtain rfl : e' = e := by simpa [keep] using hleft
    by_cases hsc : e'.scope = some f.part
    · exact hexit e'.source (hclose.pending e' he hsc) hel
    · have hyf : t.Below y f.part := by
        by_contra hnot
        exact hkeep ⟨hsc, hnot⟩
      exact Option.some.inj (hy.symm.trans hel) ▸ hyf

theorem visited_try : Visited t s k0 (tryStatement t V s k0) :=
  .inr ⟨grown_settle hg hV hk hs, sealed_settle hg hV hk hs⟩

end whole
end tryStatement
end PythonFlow.Sketch
