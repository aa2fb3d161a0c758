import PythonFlow.Proofs.Course.Rules

/-!
# Where a statement is visited

Every instruction for a node of a statement is made by one visit of that statement, which begins on a
sketch as good as the first one, and of which the rest of the build loses nothing. So what a rule does by
itself can be read off the whole build.
-/

set_option autoImplicit false

namespace PythonFlow.Sketch

structure Sound (t : SyntaxTree) (s : NodeId) (k : Sketch) : Prop where
  fresh : Fresh t s k
  cursor : ∀ x, k.cursor = some x → x.index < k.size
  sourced : Sourced k

/-- In the making of `k'` the statement `T` was visited from `k0` on. -/
structure Stage (t : SyntaxTree) (T : NodeId) (depth : Nat) (k0 k' : Sketch) : Prop where
  sound : Sound t T k0
  later : Later (visit t (depth + 1) T k0) k'

def Located (t : SyntaxTree) (T : NodeId) (k' : Sketch) (id : InstructionId) : Prop :=
  ∃ depth k0, Stage t T depth k0 k' ∧ New k0 (visit t (depth + 1) T k0) id

def Locates (t : SyntaxTree) (T : NodeId) (k k' : Sketch) : Prop :=
  T ∉ k'.truncated → ∀ id el, New k k' id → k'.element id = some el → t.Below el T → Located t T k' id

section located
variable {t : SyntaxTree} {T s : NodeId} {k k1 k2 : Sketch} {id : InstructionId}

theorem Located.later (h : Located t T k1 id) (hle : Later k1 k2) : Located t T k2 id := by
  obtain ⟨depth, k0, hstage, hid⟩ := h
  exact ⟨depth, k0, ⟨hstage.sound, hstage.later.trans hle⟩, hid⟩

theorem Locates.refl (k : Sketch) : Locates t T k k := fun _ _ _ hid =>
  absurd hid.2 (Nat.not_lt_of_le hid.1)

/-- A step that makes no instruction. -/
theorem Locates.step (h : Locates t T k k1) (hle : Later k1 k2) (hsize : k2.size = k1.size) :
    Locates t T k k2 := by
  intro hT id el hid hel hb
  have hold : New k k1 id := ⟨hid.1, hsize ▸ hid.2⟩
  rw [hle.element hold.2] at hel
  exact (h (fun hmem => hT (hle.truncated T hmem)) id el hold hel hb).later hle

end located

section course
variable {t : SyntaxTree} {V : Visitor} {T s : NodeId} {plan R : List NodeId} {k k1 : Sketch}
  (hr : Ready t V s plan k) (hk : Sourced k)
include hr hk

theorem Course.sound {c : NodeId} (h : Course t V s plan k (c :: R) k1) :
    Sound t c k1 :=
  ⟨h.freshness hr c List.mem_cons_self, h.cursor_lt hr, h.sourced hr hk⟩

/-- What the visits of a course locate, the course locates. -/
theorem Course.locates (hT : t.Inside T s) (hstatement : (t.kind T).isStatement = true)
    (hvisit : ∀ c ∈ plan, t.Below T c → ∀ k, Sound t c k → Locates t T k (V c k))
    (h : Course t V s plan k R k1) : Locates t T k k1 := by
  induction h with
  | start => exact .refl k
  | @place R k1 h el kind hsite ih =>
    intro hcut id x hid hx hb
    rw [element_place] at hx
    split at hx
    · obtain rfl : el = x := Option.some.inj hx
      exact absurd hb (spot_not_below hr.ordered hsite.spot hT hstatement)
    · next hne =>
      have hold := (eq_next_of_new hid).resolve_left hne
      exact (ih hcut id x hold hx hb).later ((Later.refl k1).place _ _)
  | moved h hc ih => exact ih.step ((Later.refl _).moved _) rfl
  | linked h hl hx hat ih => exact ih.step ((Later.refl _).linked _ _) rfl
  | pended h ho hl ih => exact ih.step ((Later.refl _).pended _ _) rfl
  | drained h hn ih => exact ih.step ((Later.refl _).drained _) rfl
  | rescoped h hn ho ih => exact ih.step ((Later.refl _).rescoped _ _) rfl
  | @visit c R k1 h ih =>
    have hv := h.visited hr
    intro hcut id x hid hx hb
    by_cases hold : id.index < k1.size
    · rw [hv.later.element hold] at hx
      exact (ih (fun hmem => hcut (hv.later.truncated T hmem)) id x ⟨hid.1, hold⟩ hx hb).later hv.later
    · have hnew : New k1 (V c k1) id := ⟨Nat.le_of_not_lt hold, hid.2⟩
      have hxc : t.Below x c := by
        rcases hv with heq | ⟨hG, -⟩
        · rw [heq] at hid
          exact absurd hid.2 hold
        · obtain ⟨y, hy, hyc⟩ := hG.element_new id hnew
          exact Option.some.inj (hx.symm.trans hy) ▸ hyc
      have hc := h.head_mem
      have hTc : t.Below T c := by
        rcases hr.ordered.below_total hb hxc with hTc | hcT
        · exact hTc
        · rcases SyntaxTree.below_iff_eq_or_inside.1 hcT with rfl | hin
          · exact t.below_refl c
          · have hfree := (hr.direct c hc).2 T hin hT
            rw [hstatement] at hfree
            cases hfree
      exact hvisit c hc hTc k1 (h.sound hr hk) hcut id x hnew hx hb

end course

section visit
variable {t : SyntaxTree} (hg : t.Grammatical) {T s : NodeId} {k : Sketch}
include hg

theorem ready_of_grows {V : Visitor} (hV : ∀ c, t.Inside c s → Grows t V c) (hk : Sound t s k) :
    Ready t V s (t.followed s) k where
  ordered := hg.ordered
  fresh := hk.fresh
  cursor := hk.cursor
  direct := fun _ hc => direct_followed hg.ordered hc
  apart := SyntaxTree.apart_followed hg s
  grows := hV

theorem ready_followed (depth : Nat) (hk : Sound t s k) : Ready t (visit t depth) s (t.followed s) k :=
  ready_of_grows hg (fun c _ => grows_visit hg depth c) hk

/-- Where the end of a `try` statement sends what is pending: to the entry of a clause. -/
theorem settled_target (hk : Sound t s k) (htry : t.kind s = .tryStatement) {V : Visitor}
    (hV : ∀ c, t.Inside c s → Grows t V c) {e : PendingEdge} {b : InstructionId}
    (hb : b ∈ (settle t s (tryCaught t V s k).2 (tryLast t V s k).2 (tryLast t V s k).1 e).targets) :
    ∃ p ∈ t.children s, (tryLast t V s k).1.element b = some p := by
  rcases settle_cases t s (tryCaught t V s k).2 (tryLast t V s k).2 (tryLast t V s k).1 e with
    h | ⟨-, h, -⟩ | ⟨f, hf, h⟩
  · rw [h] at hb
    cases hb
  · rw [h] at hb
    obtain ⟨p, hp, hel⟩ := element_of_entry hg hV _ _ (fun _ hp => hp) (nodup_except_parts hg s)
      (fun _ hp => fresh_others_handler hg hV htry hk.fresh hp) b hb
    exact ⟨p, (except_part hp).1,
      ((later_last hg hV htry hk.fresh).element (lt_size_of_element hel)).trans hel⟩
  · rw [h] at hb
    obtain rfl : b = f.entry := List.mem_singleton.1 hb
    unfold tryLast finallyClause at hf ⊢
    cases hc : t.finallyPart s with
    | none =>
      rw [hc] at hf
      cases hf
    | some c =>
      rw [hc] at hf
      obtain rfl := Option.some.inj hf
      obtain ⟨hmem, -, hplain⟩ := finally_part hc
      have hv := (hV c (inside_of_mem hg.ordered hmem) _
        (fresh_clause_start hg hplain (fresh_caught hg hV htry hk.fresh hc) none)).later
      have hstart : (((tryCaught t V s k).1.moved none).start t c).element (tryCaught t V s k).1.next = some c :=
        element_place_next
      exact ⟨c, hmem, (hv.element (lt_size_of_element hstart)).trans hstart⟩

/-- What a rule does is a course, but for the end of a `try` statement, which makes no instruction and
leads to clauses of the statement only. -/
theorem course_dispatch {V : Visitor} (hV : ∀ c, t.Inside c s → Grows t V c) (hk : Sound t s k) :
    ∃ k1, Course t V s (t.followed s) k [] k1 ∧ Later k1 (dispatch t V s k) ∧
      (dispatch t V s k).truncated = k1.truncated ∧ (dispatch t V s k).made = k1.made ∧
      ∀ a b, (dispatch t V s k).Edge a b → k1.Edge a b ∨ ∃ p ∈ t.children s, k1.element b = some p := by
  have hr := ready_of_grows hg hV hk
  by_cases htry : t.kind s = .tryStatement
  · have hcourse : Course t V s (t.followed s) k (t.followed s) k := .start
    have hplan : t.followed s = (t.tryPart s).toList ++ ((t.elsePart s).toList ++
        (t.exceptParts s ++ (t.finallyPart s).toList)) := by
      rw [SyntaxTree.followed, htry]
    have hrule : dispatch t V s k = tryStatement t V s k := by
      rw [dispatch, htry]
    refine ⟨_, Course.tryLast hr hg htry (hplan ▸ hcourse), ?_, ?_, ?_, fun a b hab => ?_⟩
    · rw [hrule]
      exact ((Later.refl _).settled _).moved none
    · rw [hrule]
      rfl
    · rw [hrule]
      rfl
    · rw [hrule] at hab
      rcases (edge_settled _ a b _).1 hab with hab | ⟨e, -, -, hb⟩
      · exact .inl hab
      · exact .inr (settled_target hg hk htry hr.grows hb)
  · exact ⟨_, Course.dispatch hr hg htry, .refl _, rfl, rfl, fun _ _ h => .inl h⟩

theorem course_visit (depth : Nat) (hk : Sound t s k) :
    ∃ k1, Course t (visit t depth) s (t.followed s) k [] k1 ∧ Later k1 (visit t (depth + 1) s k) ∧
      (visit t (depth + 1) s k).made = k1.made ∧
      ∀ a b, (visit t (depth + 1) s k).Edge a b → k1.Edge a b ∨ ∃ p ∈ t.children s, k1.element b = some p := by
  obtain ⟨k1, hcourse, hle, -, hmade, hedge⟩ := course_dispatch hg (fun c _ => grows_visit hg depth c) hk
  exact ⟨k1, hcourse, hle, hmade, hedge⟩

/-- Every instruction for a node of a statement is made in a visit of the statement. -/
theorem locates_visit (hstatement : (t.kind T).isStatement = true) (depth : Nat)
    (hT : t.Below T s) (hk : Sound t s k) : Locates t T k (visit t depth s k) := by
  induction depth generalizing s k with
  | zero =>
    intro hcut id el hid hel hb
    refine absurd ?_ hcut
    rcases eq_next_of_new (k := { k with truncated := s :: k.truncated }) hid with rfl | hid
    · obtain rfl : s = el :=
        Option.some.inj ((element_place_next (k := { k with truncated := s :: k.truncated })).symm.trans hel)
      rw [hg.ordered.below_antisymm hT hb]
      exact List.mem_cons_self
    · exact absurd hid.2 (Nat.not_lt_of_le hid.1)
  | succ depth ih =>
    rcases SyntaxTree.below_iff_eq_or_inside.1 hT with rfl | hin
    · exact fun _ id _ hid _ _ => ⟨depth, k, ⟨hk, .refl _⟩, hid⟩
    · obtain ⟨k1, hcourse, hle, hmade, -⟩ := course_visit hg depth hk
      have hsize := congrArg List.length hmade
      have hr := ready_followed hg depth hk
      exact (hcourse.locates hr hk.sourced hin hstatement fun c _ hTc k' hk' => ih hTc hk').step hle hsize

end visit

theorem sourced_opening (t : SyntaxTree) : Sourced (opening t) := by
  intro a b hab
  simp [Edge, place, blank, arrivals] at hab

section owner
variable {t : SyntaxTree} (hg : t.Grammatical) {T owner : NodeId} {depth : Nat}
include hg

theorem ready_opening_of_grows {V : Visitor} (hV : ∀ c, t.Inside c owner → Grows t V c) :
    Ready t V owner (t.children owner) (opening t) where
  ordered := hg.ordered
  fresh := fresh_opening t owner
  cursor := fun x hx => by
    rw [← Option.some.inj hx]
    exact next_lt_place t blank none .plain
  direct := fun _ hc => direct_child hg.ordered hc
  apart := apart_children hg.ordered (hg.ordered.children_nodup owner) fun _ hc => hc
  grows := hV

theorem ready_opening : Ready t (visit t depth) owner (t.children owner) (opening t) :=
  ready_opening_of_grows hg fun c _ => grows_visit hg depth c

omit hg in
variable (depth) in
/-- The owner's build is a course through its children. -/
theorem course_interior (howner : (t.kind owner).isOwner = true) :
    Course t (visit t depth) owner (t.children owner) (opening t) [] (interior t depth owner) := by
  rw [interior, visitOwner, if_pos howner]
  exact Course.all .start

/-- In the build of an owner that nothing was cut off from. -/
theorem located_interior (howner : (t.kind owner).isOwner = true)
    (hcut : (build t depth owner).truncated = []) (hT : t.Inside T owner)
    (hstatement : (t.kind T).isStatement = true) {id : InstructionId} {el : NodeId}
    (hel : (interior t depth owner).element id = some el) (hb : t.Below el T) :
    Located t T (interior t depth owner) id := by
  have hr : Ready t (visit t depth) owner (t.children owner) (opening t) := ready_opening hg
  have hcourse := course_interior depth howner
  have hnew : New (opening t) (interior t depth owner) id := by
    refine ⟨Nat.le_of_not_lt fun hlt => ?_, lt_size_of_element hel⟩
    rw [(hcourse.later hr).element hlt, element_opening] at hel
    cases hel
  refine hcourse.locates hr (sourced_opening t) hT hstatement
    (fun c _ hTc k hk => locates_visit hg hstatement depth hTc hk) ?_ id el hnew hel hb
  rw [show (interior t depth owner).truncated = [] from hcut]
  exact List.not_mem_nil

end owner
end PythonFlow.Sketch
