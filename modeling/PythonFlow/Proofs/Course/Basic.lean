import PythonFlow.Proofs.Census.Followed

/-!
# The course of a rule

Between its first step and its last a rule makes instructions for its node and the parts of it, moves
the cursor, links and leaves edges, and visits the nodes that it follows, one after another. `Course`
keeps of this what an invariant has to be checked against: the sketch that has been reached and the nodes
that are still to be visited. In each of these the next visit finds what it relies on.
-/

set_option autoImplicit false

namespace PythonFlow.Sketch

/-- A node for which a rule of `s` may make an instruction: `s`, or a part that is under no other
statement. -/
def Spot (t : SyntaxTree) (s el : NodeId) : Prop :=
  el = s ∨ Direct t s el ∧ (t.kind el).isStatement = false

/-- An instruction that a rule of `s` may make: for `s`, a child of it or a node of the plan, and on an
outcome only for a node inside `s`. -/
structure Site (t : SyntaxTree) (s : NodeId) (plan : List NodeId) (el : NodeId) (kind : InstructionKind) :
    Prop where
  spot : Spot t s el
  near : el = s ∨ el ∈ t.children s ∨ el ∈ plan
  chosen : ∀ co o, kind = .conditional co o → t.Inside el s

/-- At `b` a round of the loop `l` begins: at its header, or, if it is a `for` loop, at the first
instruction for its body. -/
def Heads (t : SyntaxTree) (k : Sketch) (l : NodeId) (b : InstructionId) : Prop :=
  k.element b = some l ∨ t.kind l = .forLoop ∧ ∃ body, t.body l = some body ∧
    k.element b = some body ∧ ∀ id : InstructionId, id.index < b.index → k.element id ≠ some body

/-- From strictly inside a loop `a` comes back to where a round of it begins. -/
def Repeats (t : SyntaxTree) (k : Sketch) (a b : InstructionId) : Prop :=
  ∃ l el, (t.kind l).isLoop = true ∧ k.Has l ∧ k.element a = some el ∧ t.Inside el l ∧ Heads t k l b

def Leads (t : SyntaxTree) (k : Sketch) (a b : InstructionId) : Prop :=
  a.index < b.index ∨ Repeats t k a b

/-- Edges of a rule lead back to `x`, or meet there: it was made for a loop, or for a node of the plan. -/
def Meets (t : SyntaxTree) (plan : List NodeId) (k : Sketch) (x : InstructionId) : Prop :=
  ∃ el, k.element x = some el ∧ ((t.kind el).isLoop = true ∨ el ∈ plan)

theorem Meets.lt {t : SyntaxTree} {plan : List NodeId} {k : Sketch} {x : InstructionId}
    (h : Meets t plan k x) : x.index < k.size := by
  obtain ⟨el, hel, -⟩ := h
  exact lt_size_of_element hel

/-- Steps from `k` to the second sketch, when the listed nodes of the plan are still to be visited. -/
inductive Course (t : SyntaxTree) (V : Visitor) (s : NodeId) (plan : List NodeId) (k : Sketch) :
    List NodeId → Sketch → Prop
  | start : Course t V s plan k plan k
  | place {R : List NodeId} {k1 : Sketch} (h : Course t V s plan k R k1) {el : NodeId}
      {kind : InstructionKind} (hsite : Site t s plan el kind) :
      Course t V s plan k R (k1.place t (some el) kind)
  | moved {R : List NodeId} {k1 : Sketch} (h : Course t V s plan k R k1) {c : Option InstructionId}
      (hc : ∀ x, c = some x → x.index < k1.size) : Course t V s plan k R (k1.moved c)
  | linked {R : List NodeId} {k1 : Sketch} (h : Course t V s plan k R k1) {x : InstructionId}
      {l : List InstructionId} (hl : ∀ a ∈ l, a.index < k1.size) (hx : ∀ a ∈ l, Leads t k1 a x)
      (hat : Meets t plan k1 x) : Course t V s plan k R (k1.linked x l)
  | pended {R : List NodeId} {k1 : Sketch} (h : Course t V s plan k R k1) {o : Option NodeId}
      (ho : ∀ m, o = some m → ∀ c ∈ R, ¬ t.Below m c) {l : List InstructionId}
      (hl : ∀ a ∈ l, a.index < k1.size) : Course t V s plan k R (k1.pended o l)
  | drained {R : List NodeId} {k1 : Sketch} (h : Course t V s plan k R k1) {n : NodeId}
      (hn : t.Below n s) : Course t V s plan k R (k1.drained t n)
  | rescoped {R : List NodeId} {k1 : Sketch} (h : Course t V s plan k R k1) {n : NodeId}
      (hn : t.Below n s) {o : Option NodeId} (ho : ∀ m, o = some m → ∀ c ∈ R, ¬ t.Below m c) :
      Course t V s plan k R (k1.rescoped t n o)
  | visit {c : NodeId} {R : List NodeId} {k1 : Sketch} (h : Course t V s plan k (c :: R) k1) :
      Course t V s plan k R (V c k1)

def Sourced (k : Sketch) : Prop := ∀ a b, k.Edge a b → a.index < k.size

theorem loose_of_arrival {k : Sketch} {t : SyntaxTree} {el : Option NodeId} {a : InstructionId}
    (h : a ∈ k.arrivals t el) : k.Loose a := by
  rcases (mem_arrivals k t el a).1 h with h | ⟨e, he, -, rfl⟩
  · exact .inl h
  · exact .inr ⟨e, he, rfl⟩

structure Ready (t : SyntaxTree) (V : Visitor) (s : NodeId) (plan : List NodeId) (k : Sketch) :
    Prop where
  ordered : t.Ordered
  fresh : Fresh t s k
  cursor : ∀ x, k.cursor = some x → x.index < k.size
  direct : ∀ c ∈ plan, Direct t s c
  apart : plan.Pairwise (Apart t)
  grows : ∀ c, t.Inside c s → Grows t V c

section spots
variable {t : SyntaxTree} (ho : t.Ordered) {s c el : NodeId}
include ho

omit ho in
theorem spot_below (h : Spot t s el) : t.Below el s := by
  rcases h with rfl | ⟨h, -⟩
  · exact t.below_refl el
  · exact h.1.1

/-- No statement inside `s` stands between. -/
theorem spot_not_below (h : Spot t s el) {T : NodeId} (hT : t.Inside T s)
    (hstatement : (t.kind T).isStatement = true) : ¬ t.Below el T := by
  intro hb
  rcases h with rfl | ⟨hd, hplain⟩
  · exact ho.not_below_of_inside hT hb
  · rcases SyntaxTree.below_iff_eq_or_inside.1 hb with rfl | hin
    · rw [hplain] at hstatement
      cases hstatement
    · rw [hd.2 T hin hT] at hstatement
      cases hstatement

/-- A followed node stands directly below its node. -/
theorem direct_followed (hc : c ∈ t.followed s) : Direct t s c := by
  rcases SyntaxTree.followed_cases hc with hc | ⟨p, hp, hk, hc⟩
  · exact direct_child ho hc
  · exact direct_grandchild ho hp (SyntaxKind.not_statement_of_opened hk) hc

end spots

section sites
variable {t : SyntaxTree} {V : Visitor} {s el : NodeId} {plan : List NodeId} {k : Sketch}
  (hr : Ready t V s plan k) {kind : InstructionKind}
include hr

omit hr in
theorem site_self (hk : ∀ co o, kind ≠ .conditional co o) : Site t s plan s kind where
  spot := .inl rfl
  near := .inl rfl
  chosen := fun co o h => absurd h (hk co o)

/-- Nodes of the plan lie apart from each other. -/
theorem apart_planned {d : NodeId} (hel : el ∈ plan) (hd : d ∈ plan) (hne : el ≠ d) : Apart t el d :=
  have : Std.Symm (Apart t) := ⟨fun _ _ => apart_symm⟩
  hr.apart.forall hel hd hne

variable (kind) in
theorem site_planned (hel : el ∈ plan) (hplain : (t.kind el).isStatement = false) :
    Site t s plan el kind where
  spot := .inr ⟨hr.direct el hel, hplain⟩
  near := .inr (.inr hel)
  chosen := fun _ _ _ => (hr.direct el hel).1

variable (kind) in
theorem site_child (hel : el ∈ t.children s) (hplain : (t.kind el).isStatement = false) :
    Site t s plan el kind where
  spot := .inr ⟨direct_child hr.ordered hel, hplain⟩
  near := .inr (.inl hel)
  chosen := fun _ _ _ => (direct_child hr.ordered hel).1

omit hr in
/-- What a rule makes by itself is inside nothing that has no node of the plan inside it. -/
theorem Site.beside (h : Site t s plan el kind) (ho : t.Ordered) {m : NodeId} (hm : t.Inside m s)
    (hplan : ∀ d ∈ plan, ¬ t.Inside d m) : ¬ t.Inside el m := by
  intro hin
  rcases h.near with rfl | hchild | hel
  · exact ho.not_below_of_inside hm hin.1
  · exact ho.not_below_of_inside hm (ho.below_of_inside_parent (ho.parent_of_mem hchild) hin)
  · exact hplan el hel hin

/-- Nodes of the plan are not inside each other. -/
theorem not_inside_planned {d : NodeId} (hel : el ∈ plan) (hd : d ∈ plan) : ¬ t.Inside el d :=
  fun hin => apart_planned hr hel hd hin.2 el (t.below_refl el) hin.1

end sites

namespace Course
variable {t : SyntaxTree} {V : Visitor} {s : NodeId} {plan R : List NodeId} {k k1 : Sketch}

theorem each {cs : List NodeId} (h : Course t V s plan k (cs ++ R) k1) :
    Course t V s plan k R (Sketch.each V cs k1) := by
  induction cs generalizing k1 with
  | nil => exact h
  | cons c cs ih =>
    have hnext : Course t V s plan k (cs ++ R) (V c k1) := .visit h
    exact ih hnext

theorem suffix (h : Course t V s plan k R k1) : R <:+ plan := by
  induction h with
  | start => exact List.suffix_rfl
  | visit h ih => exact (List.suffix_cons _ _).trans ih
  | _ => assumption

/-- What comes next is in the plan. -/
theorem head_mem {c : NodeId} (h : Course t V s plan k (c :: R) k1) : c ∈ plan :=
  h.suffix.subset List.mem_cons_self

section ready
variable (hr : Ready t V s plan k)
include hr

/-- The nodes still to be visited are untouched. -/
theorem freshness (h : Course t V s plan k R k1) : ∀ c ∈ R, Fresh t c k1 := by
  induction h with
  | start => exact fun c hc => fresh_below hr.ordered hr.fresh (hr.direct c hc).1.1
  | place h hsite ih =>
    refine fun c hc => fresh_place (ih c hc) fun T hT hstatement => ?_
    have hin := (hr.direct c (h.suffix.subset hc)).1
    exact spot_not_below hr.ordered hsite.spot (hr.ordered.inside_of_below_inside hT hin) hstatement
  | moved h hc ih => exact fun c hc => fresh_moved (ih c hc) _
  | linked h hl hx hat ih => exact fun c hc => fresh_linked (ih c hc) _ _
  | @pended R k1 h o ho l hl ih =>
    intro c hc
    cases o with
    | some m => exact fresh_pended (ih c hc) (ho m rfl c hc) hl
    | none =>
      refine ⟨fun e he => ?_, fun e he sc hsc => ?_, (ih c hc).bare⟩
      · rcases (mem_pending_pended k1 e none l).1 he with he | ⟨-, hsource⟩
        · exact (ih c hc).ranged e he
        · exact hl e.source hsource
      · rcases (mem_pending_pended k1 e none l).1 he with he | ⟨hscope, -⟩
        · exact (ih c hc).unscoped e he sc hsc
        · rw [hscope] at hsc
          cases hsc
  | drained h hn ih => exact fun c hc => fresh_drained (ih c hc) _
  | @rescoped R k1 h n hn o ho ih =>
    intro c hc
    refine ⟨fun e he => ?_, fun e he sc hsc => ?_, (ih c hc).bare⟩
    · obtain ⟨e', he', rfl⟩ := (mem_pending_rescoped k1 t e n o).1 he
      unfold rescope
      split <;> exact (ih c hc).ranged e' he'
    · obtain ⟨e', he', rfl⟩ := (mem_pending_rescoped k1 t e n o).1 he
      unfold rescope at hsc
      split at hsc
      · exact ho sc hsc c hc
      · exact (ih c hc).unscoped e' he' sc hsc
  | @visit c R k1 h ih =>
    intro d hd
    have hc := h.head_mem
    have hapart := (List.pairwise_cons.1 (hr.apart.sublist h.suffix.sublist)).1 d hd
    exact fresh_visited (ih d (List.mem_cons_of_mem c hd)) hr.ordered
      (hr.grows c (hr.direct c hc).1 k1 (ih c List.mem_cons_self)) (apart_symm hapart)

theorem visited {c : NodeId} (h : Course t V s plan k (c :: R) k1) : Visited t c k1 (V c k1) :=
  hr.grows c (hr.direct c h.head_mem).1 k1
    (h.freshness hr c List.mem_cons_self)

/-- Nothing that has been made is lost. -/
theorem later (h : Course t V s plan k R k1) : Later k k1 := by
  induction h with
  | start => exact .refl k
  | place h hsite ih => exact ih.place _ _
  | moved h hc ih => exact ih.moved _
  | linked h hl hx hat ih => exact ih.linked _ _
  | pended h ho hl ih => exact ih.pended _ _
  | drained h hn ih => exact ih.drained _
  | rescoped h hn ho ih => exact ih.rescoped _ _
  | visit h ih => exact ih.trans (h.visited hr).later

/-- What a course makes stands at its node or below it. -/
theorem element_below (h : Course t V s plan k R k1) :
    ∀ id, New k k1 id → ∀ el, k1.element id = some el → t.Below el s := by
  induction h with
  | start => exact fun id hid => absurd hid.2 (Nat.not_lt_of_le hid.1)
  | @place R k1 h el kind hsite ih =>
    intro id hid x hx
    rcases eq_next_of_new hid with rfl | hold
    · exact Option.some.inj (element_place_next.symm.trans hx) ▸ spot_below hsite.spot
    · rw [element_place_of_lt hold.2] at hx
      exact ih id hold x hx
  | @visit c R k1 h ih =>
    intro id hid x hx
    rcases h.visited hr with heq | ⟨hG, -⟩
    · rw [heq] at hid hx
      exact ih id hid x hx
    · by_cases hold : id.index < k1.size
      · rw [hG.element_old id hold] at hx
        exact ih id ⟨hid.1, hold⟩ x hx
      · obtain ⟨y, hy, hb⟩ := hG.element_new id ⟨Nat.le_of_not_lt hold, hid.2⟩
        obtain rfl := Option.some.inj (hx.symm.trans hy)
        exact hr.ordered.below_trans hb (hr.direct c h.head_mem).1.1
  | _ => assumption

/-- The headers of the loops above stay the same. -/
theorem latest_above (h : Course t V s plan k R k1) {l : NodeId} (hl : t.Inside s l) :
    k1.latest l = k.latest l := by
  have hle := h.later hr
  refine latest_congr (fun id hid => hle.element hid) fun id hlo hhi hel => ?_
  exact hr.ordered.not_below_of_inside hl (h.element_below hr id ⟨hlo, hhi⟩ l hel)

theorem later_each {cs : List NodeId} (h : Course t V s plan k (cs ++ R) k1) :
    Later k1 (Sketch.each V cs k1) := by
  induction cs generalizing k1 with
  | nil => exact .refl k1
  | cons c cs ih =>
    have hnext : Course t V s plan k (cs ++ R) (V c k1) := .visit h
    exact (h.visited hr).later.trans (ih hnext)

/-- Flow goes on from instructions that have been made. -/
theorem loose_lt (h : Course t V s plan k R k1) : ∀ x, k1.Loose x → x.index < k1.size := by
  induction h with
  | start =>
    rintro x (hx | ⟨e, he, rfl⟩)
    · exact hr.cursor x hx
    · exact hr.fresh.ranged e he
  | @place R k1 h el kind hsite ih =>
    rw [size_place]
    rintro x (hx | ⟨e, he, rfl⟩)
    · obtain rfl : k1.next = x := Option.some.inj hx
      exact Nat.lt_succ_self _
    · exact Nat.lt_succ_of_lt (ih _ (.inr ⟨e, ((mem_pending_place k1 t _ kind e).1 he).1, rfl⟩))
  | moved h hc ih =>
    rintro x (hx | hx)
    · exact hc x hx
    · exact ih x (.inr hx)
  | linked h hl hx hat ih => exact ih
  | @pended R k1 h o ho l hl ih =>
    rintro x (hx | ⟨e, he, rfl⟩)
    · exact ih x (.inl hx)
    · rcases (mem_pending_pended k1 e o l).1 he with he | ⟨-, hsource⟩
      · exact ih _ (.inr ⟨e, he, rfl⟩)
      · exact hl _ hsource
  | @drained R k1 h n hn ih =>
    rintro x (hx | ⟨e, he, rfl⟩)
    · exact ih x (.inl hx)
    · exact ih _ (.inr ⟨e, ((mem_pending_drained k1 t e n).1 he).1, rfl⟩)
  | @rescoped R k1 h n hn o ho ih =>
    rintro x (hx | ⟨e, he, rfl⟩)
    · exact ih x (.inl hx)
    · obtain ⟨e', he', rfl⟩ := (mem_pending_rescoped k1 t e n o).1 he
      refine ih _ (.inr ⟨e', he', ?_⟩)
      unfold rescope
      split <;> rfl
  | @visit c R k1 h ih =>
    rcases h.visited hr with heq | ⟨hG, -⟩
    · rw [heq]
      exact ih
    · rintro x (hx | ⟨e, he, rfl⟩)
      · exact (hG.cursor_live x hx).1.2
      · exact pending_ranged (h.freshness hr c List.mem_cons_self) hG e he

theorem cursor_lt (h : Course t V s plan k R k1) : ∀ x, k1.cursor = some x → x.index < k1.size :=
  fun x hx => h.loose_lt hr x (.inl hx)

theorem cursor_list_lt (h : Course t V s plan k R k1) :
    ∀ a ∈ k1.cursor.toList, a.index < k1.size := fun a ha =>
  h.cursor_lt hr a (Option.mem_toList.1 ha)

theorem exits_lt (h : Course t V s plan k R k1) (c : NodeId) :
    ∀ a ∈ k1.exits t c, a.index < k1.size := by
  intro a ha
  rcases (mem_exits k1 t c a).1 ha with ha | ⟨e, he, rfl⟩
  · exact h.cursor_lt hr a ha
  · exact h.loose_lt hr _ (.inr ⟨e, ((mem_inner k1 t e c).1 he).1, rfl⟩)

/-- So do edges. -/
theorem sourced (h : Course t V s plan k R k1) (hk : Sourced k) : Sourced k1 := by
  induction h with
  | start => exact hk
  | @place R k1 h el kind hsite ih =>
    intro a b hab
    rw [size_place]
    rcases (edge_place k1 t (some el) kind a b).1 hab with hab | ⟨ha, -⟩
    · exact Nat.lt_succ_of_lt (ih a b hab)
    · exact Nat.lt_succ_of_lt (h.loose_lt hr a (loose_of_arrival ha))
  | moved h hc ih => exact ih
  | @linked R k1 h x l hl hx hat ih =>
    intro a b hab
    rcases (edge_linked k1 a b x l).1 hab with hab | ⟨ha, -⟩
    · exact ih a b hab
    · exact hl a ha
  | pended h ho hl ih => exact ih
  | drained h hn ih => exact ih
  | rescoped h hn ho ih => exact ih
  | @visit c R k1 h ih =>
    rcases h.visited hr with heq | ⟨hG, -⟩
    · rw [heq]
      exact ih
    · intro a b hab
      rcases hG.origin a b hab with hab | ⟨ha, -⟩ | ⟨ha, -⟩ | ⟨ha, -⟩
      · exact Nat.lt_trans (ih a b hab) hG.size_lt
      · exact Nat.lt_trans (h.loose_lt hr a (loose_of_arrival ha)) hG.size_lt
      · exact ha.2
      · exact ha.2

/-- The node of the rule is below nothing that is still to be visited. -/
theorem above_rest (h : Course t V s plan k R k1) :
    ∀ m, some s = some m → ∀ c ∈ R, ¬ t.Below m c := by
  rintro m hm c hc
  obtain rfl := Option.some.inj hm
  exact hr.ordered.not_below_of_inside (hr.direct c (h.suffix.subset hc)).1

end ready
end Course
end PythonFlow.Sketch
