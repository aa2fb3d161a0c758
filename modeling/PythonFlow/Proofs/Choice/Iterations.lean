import PythonFlow.Proofs.Choice.Filters
import PythonFlow.Proofs.Graph.Backward

/-!
# The two ways on from a `for` loop

Where its iterable has come out a `for` loop begins a round or goes on to its `else` clause. What the
iterable has left pending lands on the entry of the body, which is made first, so that from what was there
before it the entry of the clause is reached by one edge alone. From a value that a filter in the iterable
has refused flow gets to the body only.
-/

set_option autoImplicit false

namespace PythonFlow
namespace Sketch
variable {t : SyntaxTree} {V : Visitor} {depth n : Nat} {s c : NodeId} {plan R : List NodeId}
  {k k0 k1 : Sketch} {a b : InstructionId}

structure Late (t : SyntaxTree) (s : NodeId) (n : Nat) (k : Sketch) : Prop where
  size : n ≤ k.size
  cursor : ∀ x, k.cursor = some x → n ≤ x.index
  pending : ∀ e ∈ k.pending, e.lands t (some s) = false ∨ n ≤ e.source.index

namespace Late

theorem entered (ho : t.Ordered) (hc : c ∈ t.children s) (hf : Fresh t c k) (kind : InstructionKind) :
    Late t s k.size (k.place t (some c) kind) where
  size := by
    rw [size_place]
    exact Nat.le_succ k.size
  cursor := fun x hx => Option.some.inj hx ▸ Nat.le_refl k.size
  pending := fun e he => .inl (held_entered ho hc hf kind e he)

theorem visited (h : Late t s n k) (hv : Visited t c k k1) : Late t s n k1 where
  size := Nat.le_trans h.size hv.later.size_le
  cursor := by
    intro x hx
    rcases hv with rfl | ⟨hG, -⟩
    · exact h.cursor x hx
    · exact Nat.le_trans h.size (hG.cursor_live x hx).1.1
  pending := by
    intro e he
    rcases pending_since hv he with hold | ⟨hnew, -⟩
    · exact h.pending e hold
    · exact .inr (Nat.le_trans h.size hnew.1)

theorem exits (ho : t.Ordered) (h : Late t s n k) (hc : t.Inside c s) : ∀ a ∈ k.exits t c, n ≤ a.index := by
  intro a ha
  rcases (mem_exits k t c a).1 ha with ha | ⟨e, he, rfl⟩
  · exact h.cursor a ha
  · obtain ⟨he, hw⟩ := (mem_inner k t e c).1 he
    refine (h.pending e he).resolve_left fun hstays => ?_
    rw [old_not_within ho hc e hstays] at hw
    cases hw

/-- Of what lands on a part, only the cursor may be earlier. -/
theorem arrival (ho : t.Ordered) (h : Late t s n k) (hc : t.Below c s) {o : Option InstructionId}
    (ha : a ∈ (k.moved o).arrivals t (some c)) : o = some a ∨ n ≤ a.index := by
  refine ((mem_arrivals _ t (some c) a).1 ha).imp_right ?_
  rintro ⟨e, he, hlands, rfl⟩
  refine (h.pending e he).resolve_left fun hstays => ?_
  obtain ⟨sc, hsc, hb⟩ := lands_iff.1 hlands
  exact hb (ho.below_trans hc (stays_iff.1 hstays sc hsc))

end Late

section course
variable (hr : Ready t V s plan k0)
include hr

theorem Course.late_each {cs : List NodeId} (hcourse : Course t V s plan k0 (cs ++ R) k) (h : Late t s n k) :
    Late t s n (Sketch.each V cs k) := by
  induction cs generalizing k with
  | nil => exact h
  | cons c cs ih =>
    have hnext : Course t V s plan k0 (cs ++ R) (V c k) := .visit hcourse
    exact ih hnext (h.visited (hcourse.visited hr))

/-- Visits beside `d` make nothing for it. -/
theorem Course.absent_each {cs : List NodeId} (hcourse : Course t V s plan k0 (cs ++ R) k) {d : NodeId}
    (h : Absent d k) (hd : ∀ c ∈ cs, ¬ t.Below d c) : Absent d (Sketch.each V cs k) := by
  induction cs generalizing k with
  | nil => exact h
  | cons c cs ih =>
    have hnext : Course t V s plan k0 (cs ++ R) (V c k) := .visit hcourse
    exact ih hnext (absent_visited h (hcourse.visited hr) (hd c List.mem_cons_self))
      fun e he => hd e (List.mem_cons_of_mem c he)

/-- Visits lead no edge to what was there before them. -/
theorem Course.edge_each {cs : List NodeId} (hcourse : Course t V s plan k0 (cs ++ R) k) {el : NodeId}
    (hel : k.element b = some el) (hloop : (t.kind el).isLoop = false) (hab : (Sketch.each V cs k).Edge a b) :
    k.Edge a b := by
  induction cs generalizing k with
  | nil => exact hab
  | cons c cs ih =>
    have hnext : Course t V s plan k0 (cs ++ R) (V c k) := .visit hcourse
    have hv := hcourse.visited hr
    exact hv.edge_old hr.ordered hel hloop
      (ih hnext ((hv.later.element (lt_size_of_element hel)).trans hel) hab)

/-- Later visits leave the edges to an entry as it was made. -/
theorem Course.entered_each {cs : List NodeId} {el : NodeId} {kind : InstructionKind} (hk : Targeted k)
    (hcourse : Course t V s plan k0 (cs ++ R) (k.place t (some el) kind)) (hloop : (t.kind el).isLoop = false) :
    (Sketch.each V cs (k.place t (some el) kind)).Edge a k.next ↔ a ∈ k.arrivals t (some el) := by
  have hplaced := edge_place k t (some el) kind a k.next
  constructor
  · intro hab
    refine ((hplaced.1 (hcourse.edge_each hr element_place_next hloop hab)).resolve_left fun hold => ?_).1
    exact Nat.lt_irrefl _ (hk a k.next hold)
  · exact fun ha => (hcourse.later_each hr).edge (hplaced.2 (.inr ⟨ha, rfl⟩))

end course

theorem made_each (hg : t.Grammatical) {cs : List NodeId} (hk : Sound t s k0)
    (hcourse : Course t (visit t depth) s (t.followed s) k0 (cs ++ R) k) :
    k.made <+: (each (visit t depth) cs k).made := by
  induction cs generalizing k with
  | nil => exact List.prefix_rfl
  | cons c cs ih =>
    have hnext : Course t (visit t depth) s (t.followed s) k0 (cs ++ R) (visit t depth c k) := .visit hcourse
    exact (made_visit hg depth (hcourse.sound (ready_followed hg depth hk) hk.sourced)).trans (ih hnext)

def bodyRound (t : SyntaxTree) (V : Visitor) (s body : NodeId) (k : Sketch) : Sketch :=
  each V (t.targets s ++ [body]) (k.start t body)

/-- What the rounds of the loop `s` leave, which begin on `k` at the body, with the ways out of them. -/
structure RoundsLeft (t : SyntaxTree) (s body part : NodeId) (k : Sketch) (r : Sketch × List InstructionId) :
    Prop where
  entered : ∀ a ∈ k.arrivals t (some body), r.1.Edge a k.next
  entry : ∀ a, r.1.Edge a k.next → a ∈ k.arrivals t (some body) ∨ k.size ≤ a.index
  element : r.1.element k.next = some body
  late : Late t s k.size r.1
  exits : ∀ a ∈ r.2, k.size ≤ a.index
  absent : Absent part r.1
  made : k.made <+: r.1.made

/-- Among the instructions of the loop `s`, `first` is the first for its body and `entry` the first for its
`else` clause. Of what was there before `first`, only `p` leads to `entry`. It leads to `first` as well, and
whatever else does so is where a filter in the iterable has refused a value. -/
structure LoopEntries (t : SyntaxTree) (s body part : NodeId) (k : Sketch) (first entry p : InstructionId) :
    Prop where
  earlier : p.index < first.index
  first_for : k.element first = some body
  first_least : ∀ id, k.element id = some body → first.index ≤ id.index
  entry_for : k.element entry = some part
  entry_least : ∀ id, k.element id = some part → entry.index ≤ id.index
  leads : k.Edge p first
  only : ∀ a, a.index < first.index → (k.Edge a entry ↔ a = p)
  others : ∀ a, a.index < first.index → k.Edge a first →
    a = p ∨ ∃ i l, t.iterable s = some i ∧ k.label a = some l ∧ Refusal t (t.Below · i) l

/-- A visit that comes after both entries leads no further edge to them. -/
theorem LoopEntries.visited (ho : t.Ordered) {body part : NodeId} {first entry p : InstructionId}
    (h : LoopEntries t s body part k first entry p) (hv : Visited t c k k1) (hmade : k.made <+: k1.made)
    (hbody : (t.kind body).isLoop = false) (hpart : (t.kind part).isLoop = false) :
    LoopEntries t s body part k1 first entry p := by
  have helement : ∀ {id el}, k.element id = some el → k1.element id = some el := fun hel =>
    (hv.later.element (lt_size_of_element hel)).trans hel
  have hleast : ∀ {x el}, k.element x = some el → (∀ id, k.element id = some el → x.index ≤ id.index) →
      ∀ id, k1.element id = some el → x.index ≤ id.index := by
    intro x el hx hold id hid
    by_cases hlt : id.index < k.size
    · exact hold id ((hv.later.element hlt).symm.trans hid)
    · exact Nat.le_of_lt (Nat.lt_of_lt_of_le (lt_size_of_element hx) (Nat.le_of_not_lt hlt))
  refine ⟨h.earlier, helement h.first_for, hleast h.first_for h.first_least, helement h.entry_for,
    hleast h.entry_for h.entry_least, hv.later.edge h.leads, fun a ha => ⟨fun hab => ?_, fun hap => ?_⟩,
    fun a ha hab => ?_⟩
  · exact (h.only a ha).1 (hv.edge_old ho h.entry_for hpart hab)
  · exact hv.later.edge ((h.only a ha).2 hap)
  · refine (h.others a ha (hv.edge_old ho h.first_for hbody hab)).imp_right ?_
    rintro ⟨i, l, hi, hl, hrefusal⟩
    exact ⟨i, l, hi, (label_of_made hmade (lt_size_of_label hl)).trans hl, hrefusal⟩

section forLoop
variable (hg : t.Grammatical) (hkind : t.kind s = .forLoop) (hk : Clear t s k0)
include hg hkind hk

variable (depth) in
/-- After the iterable flow stands at the cursor, and else where a filter in the iterable has refused a
value. -/
theorem asked_arrivals : ∃ p, (forAsked t (visit t depth) s k0).cursor = some p ∧
    ∀ c, t.Below c s → ∀ a ∈ (forAsked t (visit t depth) s k0).arrivals t (some c),
      a = p ∨ ∃ i l, t.iterable s = some i ∧ (forAsked t (visit t depth) s k0).label a = some l ∧
        Refusal t (t.Below · i) l := by
  have ho := hg.ordered
  have hheld : Held t s (k0.start t s) := held_start k0 .plain
  unfold forAsked
  cases hi : t.iterable s with
  | none =>
    refine ⟨k0.next, rfl, fun c hc a ha => .inl ?_⟩
    exact (Option.some.inj (cursor_of_held ho hheld hc ha)).symm
  | some i =>
    have hquiet := SyntaxTree.is_quiet_of_term (hg.term_iterable (.inl hkind) hi)
    have hin := inside_of_mem ho (SyntaxTree.mem_iterable hi).1
    obtain ⟨p, hp, -⟩ := steady_visit hg depth i hquiet _ (fresh_started ho hk.fresh hin .plain) k0.next rfl
    refine ⟨p, hp, fun c hc a ha => ?_⟩
    rcases (mem_arrivals _ t (some c) a).1 ha with ha | ⟨e, he, hlands, rfl⟩
    · exact .inl (Option.some.inj (ha.symm.trans hp))
    · rcases (defers_visit hg depth hquiet (k0.start t s)).pending e he with hold | ⟨l, hl, hrefusal⟩
      · obtain ⟨sc, hsc, hb⟩ := lands_iff.1 hlands
        exact absurd (ho.below_trans hc (stays_iff.1 (hheld e hold) sc hsc)) hb
      · exact .inr ⟨i, l, rfl, hl, hrefusal⟩

variable {body part : NodeId} (hb : t.body s = some body) (hc : t.elsePart s = some part)
include hb hc

omit hg hkind hk in
/-- Where an `else` clause follows, nothing is left pending before the rounds, and the ways out of the body
are kept for the clause. -/
theorem rounds_before_else : forRounds t V s k0 =
    (((bodyRound t V s body (forAsked t V s k0)).drained t body).linked (forAsked t V s k0).next
      ((bodyRound t V s body (forAsked t V s k0)).exits t body),
      (bodyRound t V s body (forAsked t V s k0)).exits t body) := by
  simp [forRounds, skipped, forBody, closeRound, bodyRound, each, hb, hc]

omit hkind hk hb in
theorem away_from_else (hloop : (t.kind s).isLoop = true) {c : NodeId} (hchild : c ∈ t.children s)
    (hrole : t.role c ≠ .plain) : ¬ t.Below part c := fun hb =>
  apart_of_role hg (SyntaxTree.mem_else_part hc).1 hchild (fun heq => hrole (heq.symm.trans (hg.role_else_part hloop hc)))
    part (t.below_refl part) hb

omit hg hk in
theorem followed_for : t.followed s = (t.iterable s).toList ++ (t.targets s ++ (body :: [part])) := by
  rw [SyntaxTree.followed, hkind]
  simp [SyntaxTree.followedInRound, hb, hc]

theorem rounds_course : Course t (visit t depth) s (t.followed s) k0 [part]
    (forRounds t (visit t depth) s k0).1 := by
  refine Course.forRounds (ready_followed hg depth hk.toSound) hg hkind ?_
  have hround : t.followedInRound s = t.targets s ++ [body] := by simp [SyntaxTree.followedInRound, hb]
  rw [hround, List.append_assoc, List.singleton_append, ← followed_for hkind hb hc]
  exact .start

variable (depth) in
theorem rounds_left : RoundsLeft t s body part (forAsked t (visit t depth) s k0)
    (forRounds t (visit t depth) s k0) := by
  have ho := hg.ordered
  have hr := ready_followed hg depth hk.toSound
  have hisloop : (t.kind s).isLoop = true := by rw [hkind]; rfl
  obtain ⟨hmem, hrole⟩ := SyntaxTree.mem_body hb
  have hd := loop_body hg hisloop hb
  have haway : ∀ c ∈ t.children s, t.role c ≠ .plain → ¬ t.Below part c := fun _ =>
    away_from_else hg hc hisloop
  have hbody := haway body hmem (by simp [hrole])
  have hstart : Course t (visit t depth) s (t.followed s) k0
      ((t.iterable s).toList ++ ((t.targets s ++ [body]) ++ [part])) k0 := by
    rw [List.append_assoc, List.singleton_append, ← followed_for hkind hb hc]
    exact .start
  have hasked : Course t (visit t depth) s (t.followed s) k0 ((t.targets s ++ [body]) ++ [part])
      (forAsked t (visit t depth) s k0) := Course.each hstart.started
  have habsent := absent_asked hg hkind hr.grows hr.fresh (SyntaxTree.mem_else_part hc).1
    (by simp [hg.role_else_part hisloop hc])
  rw [rounds_before_else hb hc]
  generalize forAsked t (visit t depth) s k0 = A at *
  have hentered := hasked.place (site_planned hr .plain (hasked.suffix.subset (by simp)) hd.2)
  have hedge := fun a => hentered.entered_each (a := a) hr (hasked.targeted hr hk.targeted) (open_of_plain hd.2).1
  have hentry : Late t s A.size (A.start t body) :=
    .entered ho hmem (hasked.freshness hr body (by simp)) .plain
  have hlate : Late t s A.size (bodyRound t (visit t depth) s body A) := hentered.late_each hr hentry
  have hexits := hlate.exits ho (inside_of_mem ho hmem)
  refine ⟨fun a ha => ?_, fun a hab => ?_, ?_, ⟨hlate.size, hlate.cursor, fun e he => ?_⟩, hexits, ?_, ?_⟩
  · exact (edge_linked _ a A.next _ _).2 (.inl ((hedge a).2 ha))
  · exact ((edge_linked _ a A.next _ _).1 hab).imp (hedge a).1 fun ⟨ha, _⟩ => hexits a ha
  · have hfirst : (A.start t body).element A.next = some body := element_place_next
    exact ((hentered.later_each hr).element (lt_size_of_element hfirst)).trans hfirst
  · exact hlate.pending e ((mem_pending_drained _ t e body).1 he).1
  · refine hentered.absent_each hr (absent_place habsent ?_ .plain) fun c hc => ?_
    · rintro rfl
      exact hbody (t.below_refl body)
    · rcases List.mem_append.1 hc with hc | hc
      · exact haway c (SyntaxTree.mem_targets.1 hc).1 (by simp [(SyntaxTree.mem_targets.1 hc).2])
      · exact List.mem_singleton.1 hc ▸ hbody
  · exact (prefix_place A (some body) .plain).trans (made_each hg hk.toSound hentered)

variable (depth) in
/-- The clause is entered from where flow stands after the iterable, and from the ways out of the
rounds. -/
theorem clause_entered : ∃ first entry p, LoopEntries t s body part
    ((((forRounds t (visit t depth) s k0).1.moved (forAsked t (visit t depth) s k0).cursor).start t part).linked
      (forRounds t (visit t depth) s k0).1.next (forRounds t (visit t depth) s k0).2) first entry p := by
  have ho := hg.ordered
  have hr := ready_followed hg depth hk.toSound
  have hmem := SyntaxTree.mem_body hb
  obtain ⟨p, hp, harrivals⟩ := asked_arrivals depth hg hkind hk
  have hleft := rounds_left depth hg hkind hk hb hc
  have hlater := later_for_rounds hg hkind hr.grows hr.fresh
  have habsent := absent_asked hg hkind hr.grows hr.fresh hmem.1 (by simp [hmem.2])
  have hplt := ((grown_for_asked hg hkind hr.grows hr.fresh).cursor_live p hp).1.2
  have htargeted := (rounds_course hg hkind hk hb hc).targeted hr hk.targeted
  generalize forRounds t (visit t depth) s k0 = r at *
  generalize forAsked t (visit t depth) s k0 = A at *
  have hfirst := hleft.element
  have hclause : Later r.1 (((r.1.moved A.cursor).start t part).linked r.1.next r.2) :=
    (((Later.refl r.1).moved _).place (t := t) (some part) .plain).linked _ _
  have hedge := fun a b => (edge_linked ((r.1.moved A.cursor).start t part) a b r.1.next r.2).trans
    (or_congr_left (edge_place (r.1.moved A.cursor) t (some part) .plain a b))
  refine ⟨A.next, r.1.next, p, hplt, (hclause.element (lt_size_of_element hfirst)).trans hfirst,
    fun id hid => ?_, element_place_next (t := t) (k := r.1.moved A.cursor), fun id hid => ?_, ?_,
    fun a ha => ⟨fun hab => ?_, ?_⟩, fun a ha hab => ?_⟩
  · refine Nat.le_of_not_lt fun hlt => habsent id ?_
    exact ((hlater.trans hclause).element hlt).symm.trans hid
  · refine Nat.le_of_not_lt fun hlt => hleft.absent id ?_
    exact (hclause.element hlt).symm.trans hid
  · exact hclause.edge (hleft.entered p ((mem_arrivals A t _ p).2 (.inl hp)))
  · rcases (hedge a r.1.next).1 hab with (hold | ⟨harrival, -⟩) | ⟨hexit, -⟩
    · exact absurd (htargeted a r.1.next hold) (Nat.lt_irrefl _)
    · refine (hleft.late.arrival ho (else_part hg hc).1.1.1 harrival).elim (fun h => ?_) fun h =>
        absurd ha (Nat.not_lt_of_le h)
      exact Option.some.inj (h.symm.trans hp)
    · exact absurd ha (Nat.not_lt_of_le (hleft.exits a hexit))
  · rintro rfl
    exact (hedge a r.1.next).2 (.inl (.inr ⟨(mem_arrivals _ t _ a).2 (.inl hp), rfl⟩))
  · rcases (hedge a A.next).1 hab with (hold | ⟨-, heq⟩) | ⟨hexit, -⟩
    · rcases hleft.entry a hold with harrival | hlate
      · refine (harrivals body (loop_body hg (by rw [hkind]; rfl) hb).1.1.1 a harrival).imp_right ?_
        rintro ⟨i, l, hi, hl, hrefusal⟩
        have hmade := hleft.made.trans (prefix_place (t := t) (r.1.moved A.cursor) (some part) .plain)
        exact ⟨i, l, hi, (label_of_made hmade (lt_size_of_label hl)).trans hl, hrefusal⟩
      · exact absurd ha (Nat.not_lt_of_le hlate)
    · rw [heq] at hfirst
      exact absurd (lt_size_of_element hfirst) (Nat.lt_irrefl _)
    · exact absurd ha (Nat.not_lt_of_le (hleft.exits a hexit))

variable (depth) in
theorem loop_entries : ∃ first entry p, LoopEntries t s body part (visit t (depth + 1) s k0) first entry p := by
  have hr := ready_followed hg depth hk.toSound
  have hd := else_part hg hc
  have hbody := loop_body hg (by rw [hkind]; rfl) hb
  have hhead := (grown_for_asked hg hkind hr.grows hr.fresh).cursor_live
  have hlater := later_for_rounds hg hkind hr.grows hr.fresh
  have hmoved := (rounds_course hg hkind hk hb hc).moved (c := (forAsked t (visit t depth) s k0).cursor)
    fun x hx => Nat.lt_of_lt_of_le (hhead x hx).1.2 hlater.size_le
  have hentered := hmoved.entered hr hmoved.head_mem hd.2 fun a ha =>
    ((grown_for_rounds hg hkind hr.grows hr.fresh).2 a ha).1.2
  obtain ⟨first, entry, p, h⟩ := clause_entered depth hg hkind hk hb hc
  have hdone := h.visited hg.ordered (hentered.visited hr) (made_visit hg depth (hentered.sound hr hk.sourced))
    (open_of_plain hbody.2).1 (open_of_plain hd.2).1
  have hvisit : visit t (depth + 1) s k0 = forLoop t (visit t depth) s k0 := by
    rw [visit, dispatch, hkind]
  rw [hvisit, forLoop, forExit, hc]
  -- What is left to do leads no edge.
  exact ⟨first, entry, p, hdone.earlier, hdone.first_for, hdone.first_least, hdone.entry_for, hdone.entry_least,
    hdone.leads, hdone.only, hdone.others⟩

end forLoop

/-- The node of least number is the first in the graph too. -/
theorem Shows.head {T el : NodeId} {f : ControlFlow} (h : Shows t T k0 k f) (hin : t.Inside el T)
    (hloop : (t.kind el).isLoop = false) {v : InstructionId} (hv : k.element v = some el)
    (hleast : ∀ id, k.element id = some el → v.index ≤ id.index) : (f.instructionsFor el).head? = some v := by
  have hlt := lt_size_of_element hv
  refine ControlFlow.head_instructions (h.lt_size hlt) ((h.element hlt).trans hv) fun id hid hel => ?_
  have hnew := h.new id el hel hin hloop
  exact absurd hid (Nat.not_lt_of_le (hleast id ((h.element hnew.2).symm.trans hel)))

end Sketch

/-- Of what is there before the first instruction for the body of a `for` loop, one instruction leads to the
first one for its `else` clause. It leads to the body as well, and what else does so is where a filter in
the iterable has refused a value. -/
theorem for_entries_from_iterable (source : String) (root : Concrete) (c : Config)
    {cancel : Option Bool} (hc : cancel ≠ some true) {owner : NodeId}
    (ho : owner ∈ (Lowering.tree source root).owners) :
    ∃ f, (buildOwner (Lowering.tree source root) c cancel owner).outcome = .ok f ∧
      ∀ s body part first entry, (Lowering.tree source root).kind s = .forLoop →
        (Lowering.tree source root).body s = some body → (Lowering.tree source root).elsePart s = some part →
        (f.instructionsFor body).head? = some first → (f.instructionsFor part).head? = some entry →
          ∃ p, p.index < first.index ∧ p ∈ f.graph.predecessors first ∧
            (∀ a, a.index < first.index → (a ∈ f.graph.predecessors entry ↔ a = p)) ∧
            ∀ a ∈ f.graph.predecessors first, a.index < first.index → a ≠ p →
              ∃ i m x, (Lowering.tree source root).iterable s = some i ∧
                (Lowering.tree source root).Below m i ∧ (Lowering.tree source root).Filters m x ∧
                (f.graph.instruction a).element = some x ∧
                (f.graph.instruction a).kind = .conditional (some x) false := by
  have hg := Lowering.tree_grammatical source root
  have howner : ((Lowering.tree source root).kind owner).isOwner = true := (List.mem_filter.1 ho).2
  obtain ⟨f, hf, hd, -⟩ := Sketch.build_describes hg.ordered c hc (SyntaxTree.lt_of_mem_owners ho)
  refine ⟨f, hf, fun s body part first entry hs hb hpart hfirst hentry => ?_⟩
  have hplain := Sketch.open_of_plain (Sketch.loop_body hg (by rw [hs]; rfl) hb).2
  have hplain' := Sketch.open_of_plain (Sketch.else_part hg hpart).2
  have hin := Sketch.inside_of_mem hg.ordered (SyntaxTree.mem_body hb).1
  have hin' := Sketch.inside_of_mem hg.ordered (SyntaxTree.mem_else_part hpart).1
  have hel := (ControlFlow.mem_instructions.1 (List.mem_of_mem_head? hfirst)).2
  have hnear : Sketch.Near (Lowering.tree source root) s body := ⟨.inl (SyntaxTree.mem_body hb).1, hplain.1⟩
  have hsowner := hnear.inside_owner hg howner (by rw [hs]; rfl) ⟨hd.element_below hg hel, by
    rintro rfl
    rw [hg.kind_body (.inr (.inr (by rw [hs]; rfl))) hb] at howner
    cases howner⟩
  obtain ⟨d, k0, hclear, hshows⟩ := hd.shows hg howner (T := s) hsowner (by rw [hs]; rfl) hel hin hplain.1
  obtain ⟨first', entry', p, h⟩ := Sketch.loop_entries d hg hs hclear hb hpart
  obtain rfl := Option.some.inj (hfirst.symm.trans (hshows.head hin hplain.1 h.first_for h.first_least))
  obtain rfl := Option.some.inj (hentry.symm.trans (hshows.head hin' hplain'.1 h.entry_for h.entry_least))
  have helement : ∀ {id el}, (Sketch.visit _ (d + 1) s k0).element id = some el →
      (f.graph.instruction id).element = some el := fun hid =>
    (hshows.element (Sketch.lt_size_of_element hid)).trans hid
  have hedge : ∀ a, a ∈ f.graph.predecessors first ↔ _ := fun a =>
    hd.mem_predecessors.trans (hshows.edge first body (helement h.first_for) hin hplain.1 a)
  have hedge' : ∀ a, a ∈ f.graph.predecessors entry ↔ _ := fun a =>
    hd.mem_predecessors.trans (hshows.edge entry part (helement h.entry_for) hin' hplain'.1 a)
  refine ⟨p, h.earlier, (hedge p).2 h.leads, fun a ha => (hedge' a).trans (h.only a ha), fun a hab ha hne => ?_⟩
  obtain ⟨i, l, hi, hl, m, x, hm, hx, rfl⟩ := (h.others a ha ((hedge a).1 hab)).resolve_left hne
  have hlabel := hshows.label (Sketch.lt_size_of_label hl)
  rw [hl, Option.some.injEq, Prod.mk.injEq] at hlabel
  exact ⟨i, m, x, hi, hm, hx, hlabel.1.symm, hlabel.2.symm⟩

/-- The concrete tree of `for x in [y for z in w if v]: pass` with `else: pass`, without its positions. -/
def filteredIterable : Concrete :=
  .node "module" true none default
    [.node "for_statement" true none default
      [.node "identifier" true (some "left") default [],
        .node "list_comprehension" true (some "right") default
          [.node "identifier" true (some "body") default [],
            .node "for_in_clause" true none default
              [.node "identifier" true (some "left") default [],
                .node "identifier" true (some "right") default []],
            .node "if_clause" true none default [.node "identifier" true none default []]],
        .node "block" true (some "body") default [.node "pass_statement" true none default []],
        .node "else_clause" true (some "alternative") default
          [.node "block" true (some "body") default [.node "pass_statement" true none default []]]]]

/-- A value that the filter refuses gets to the body and not to the clause. -/
theorem filtered_iterable_entries :
    ∃ f, (buildOwner (Lowering.tree "" filteredIterable) .standard none ⟨0⟩).outcome = .ok f ∧
      (f.instructionsFor ⟨10⟩).head? = some ⟨6⟩ ∧ (f.instructionsFor ⟨12⟩).head? = some ⟨9⟩ ∧
      ⟨4⟩ ∈ f.graph.predecessors ⟨6⟩ ∧ ⟨4⟩ ∉ f.graph.predecessors ⟨9⟩ ∧
      ∃ i m x, (Lowering.tree "" filteredIterable).iterable ⟨1⟩ = some i ∧
        (Lowering.tree "" filteredIterable).Below m i ∧ (Lowering.tree "" filteredIterable).Filters m x ∧
        (f.graph.instruction ⟨4⟩).element = some x ∧
        (f.graph.instruction ⟨4⟩).kind = .conditional (some x) false := by
  have hc : (none : Option Bool) ≠ some true := by decide
  have ho : (⟨0⟩ : NodeId) ∈ (Lowering.tree "" filteredIterable).owners := by decide +kernel
  obtain ⟨f, hf, hloops⟩ := for_entries_from_iterable "" filteredIterable .standard hc ho
  have hrun : (buildOwner (Lowering.tree "" filteredIterable) .standard none ⟨0⟩).outcome.map
      (fun f => ([10, 12].map fun i => (f.instructionsFor ⟨i⟩).head?,
        [6, 9].map fun i => f.graph.predecessors ⟨i⟩)) =
        .ok ([some ⟨6⟩, some ⟨9⟩], [[⟨5⟩, ⟨4⟩, ⟨8⟩], [⟨5⟩, ⟨8⟩]]) := by
    decide +kernel
  rw [hf] at hrun
  have hmade := Except.ok.inj hrun
  simp only [List.map_cons, List.map_nil, List.cons.injEq, Prod.mk.injEq, and_true] at hmade
  obtain ⟨⟨hfirst, hentry⟩, hpreds, hpreds'⟩ := hmade
  have hfour : ⟨4⟩ ∈ f.graph.predecessors ⟨6⟩ := by rw [hpreds]; decide
  have hnot : ⟨4⟩ ∉ f.graph.predecessors ⟨9⟩ := by rw [hpreds']; decide
  obtain ⟨p, -, -, honly, hothers⟩ := hloops ⟨1⟩ ⟨10⟩ ⟨12⟩ ⟨6⟩ ⟨9⟩ (by decide +kernel) (by decide +kernel)
    (by decide +kernel) hfirst hentry
  refine ⟨f, hf, hfirst, hentry, hfour, hnot, hothers ⟨4⟩ hfour (by decide) fun heq => ?_⟩
  exact hnot ((honly ⟨4⟩ (by decide)).2 heq)

end PythonFlow
