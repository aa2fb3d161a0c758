import PythonFlow.Proofs.Course.Located
import PythonFlow.Proofs.Reach.Exceptions

/-!
# Edges go on, or repeat a loop

Every step of a course leads to an instruction that was made later, unless it begins another round of a
loop from strictly inside it. The end of a `try` statement is no exception: what is sent to a handler was
made for the body, and what is sent through the `finally` clause was made before the clause. Along the way
no statement gets a second instruction, so that the header of a loop is the only one for the loop.
-/

set_option autoImplicit false

namespace PythonFlow.Sketch
variable {t : SyntaxTree} {V : Visitor} {s T : NodeId} {plan R : List NodeId} {k k0 k1 k2 : Sketch}
  {a b : InstructionId}

/-- Every edge goes on, or repeats a loop. -/
def Ahead (t : SyntaxTree) (k : Sketch) : Prop := ∀ a b, k.Edge a b → Leads t k a b

def Sole (T : NodeId) (k : Sketch) : Prop := ∀ i j, k.element i = some T → k.element j = some T → i = j

theorem Heads.later {l : NodeId} (h : Heads t k1 l b) (hle : Later k1 k2) : Heads t k2 l b := by
  have hold : ∀ {el}, k1.element b = some el → k2.element b = some el := fun hel =>
    (hle.element (lt_size_of_element hel)).trans hel
  rcases h with h | ⟨hk, body, hbody, h, hfirst⟩
  · exact .inl (hold h)
  · refine .inr ⟨hk, body, hbody, hold h, fun id hid => ?_⟩
    rw [hle.element (Nat.lt_trans hid (lt_size_of_element h))]
    exact hfirst id hid

theorem Leads.later (h : Leads t k1 a b) (hle : Later k1 k2) : Leads t k2 a b := by
  rcases h with h | ⟨l, el, hloop, hhas, hel, hin, hhead⟩
  · exact .inl h
  · exact .inr ⟨l, el, hloop, hle.has hhas, (hle.element (lt_size_of_element hel)).trans hel, hin,
      hhead.later hle⟩

/-- A step is to account for the edges that it adds. -/
theorem Ahead.step (h : Ahead t k1) (hle : Later k1 k2)
    (hnew : ∀ a b, k2.Edge a b → k1.Edge a b ∨ Leads t k2 a b) : Ahead t k2 := by
  intro a b hab
  rcases hnew a b hab with hold | hnew
  · exact (h a b hold).later hle
  · exact hnew

theorem Ahead.place (h : Ahead t k1) (hlt : ∀ x, k1.Loose x → x.index < k1.size) (el : Option NodeId)
    (kind : InstructionKind) : Ahead t (k1.place t el kind) := by
  refine h.step ((Later.refl k1).place _ _) fun a b hab => ?_
  rcases (edge_place k1 t el kind a b).1 hab with hold | ⟨ha, rfl⟩
  · exact .inl hold
  · exact .inr (.inl (hlt a (loose_of_arrival ha)))

theorem Sole.place (h : Sole T k) {el : NodeId} (hne : el ≠ T) (kind : InstructionKind) :
    Sole T (k.place t (some el) kind) := by
  have hold : ∀ {i}, (k.place t (some el) kind).element i = some T → k.element i = some T := by
    intro i hi
    rw [element_place] at hi
    split at hi
    · exact absurd (Option.some.inj hi) hne
    · exact hi
  exact fun i j hi hj => h i j (hold hi) (hold hj)

section course
variable (hr : Ready t V s plan k) (hk : Sourced k)
include hr hk

/-- What the visits of a course do, the course does. -/
theorem Course.ahead (hstart : Ahead t k)
    (hvisit : ∀ c ∈ plan, ∀ k, Sound t c k → Ahead t k → Ahead t (V c k))
    (h : Course t V s plan k R k1) : Ahead t k1 := by
  induction h with
  | start => exact hstart
  | place h hsite ih => exact ih.place (h.loose_lt hr) _ _
  | moved h hc ih => exact ih.step ((Later.refl _).moved _) fun _ _ hab => .inl hab
  | @linked R k1 h x l hl hx hat ih =>
    have hle : Later k1 (k1.linked x l) := (Later.refl k1).linked x l
    refine ih.step hle fun a b hab => ?_
    rcases (edge_linked k1 a b x l).1 hab with hold | ⟨ha, rfl⟩
    · exact .inl hold
    · exact .inr ((hx a ha).later hle)
  | pended h ho hl ih => exact ih.step ((Later.refl _).pended _ _) fun _ _ hab => .inl hab
  | drained h hn ih => exact ih.step ((Later.refl _).drained _) fun _ _ hab => .inl hab
  | rescoped h hn ho ih => exact ih.step ((Later.refl _).rescoped _ _) fun _ _ hab => .inl hab
  | visit h ih => exact hvisit _ h.head_mem _ (h.sound hr hk) ih

/-- A rule makes no instruction of its own for another statement. -/
theorem Course.sole (hne : T ≠ s) (hstatement : (t.kind T).isStatement = true) (hstart : Sole T k)
    (hvisit : ∀ c ∈ plan, ∀ k, Sound t c k → Sole T k → Sole T (V c k))
    (h : Course t V s plan k R k1) : Sole T k1 := by
  induction h with
  | start => exact hstart
  | @place R k1 h el kind hsite ih =>
    refine ih.place ?_ kind
    rintro rfl
    rcases hsite.spot with rfl | ⟨-, hplain⟩
    · exact hne rfl
    · rw [hplain] at hstatement
      cases hstatement
  | visit h ih => exact hvisit _ h.head_mem _ (h.sound hr hk) ih
  | _ => assumption

end course

section settled
variable (hg : t.Grammatical) (hk : t.kind s = .tryStatement) (hB : Below t V s) (hs : Fresh t s k0)
include hg hk hB hs

/-- Edges are sent to instructions that were made after their sources. -/
theorem settle_forward {e : PendingEdge}
    (hb : b ∈ (settle t s (tryCaught t V s k0).2 (tryLast t V s k0).2 (tryLast t V s k0).1 e).targets) :
    e.source.index < b.index := by
  cases hel : (tryLast t V s k0).1.element e.source with
  | none =>
    rw [settle_of_none t hel] at hb
    cases hb
  | some el =>
    by_cases hbelow : t.Below el s
    · by_cases hraised : Visit.raisedInBody t (t.tryPart s) el = true ∧ (tryCaught t V s k0).2 ≠ []
      · rw [settle_of_raised t hel hbelow hraised.1 hraised.2] at hb
        have hentry := ((caught_entries hg hB.grows hk hs).2 b hb).1
        refine Nat.lt_of_not_le fun hle => ?_
        exact unraised_since hg hk hB hs (Nat.le_trans hentry hle) hel hraised.1
      · cases hf : (tryLast t V s k0).2 with
        | none =>
          rw [hf, settle_of_no_finally t hel hraised] at hb
          cases hb
        | some f =>
          rw [hf, settle_of_finally t hel hbelow hraised f] at hb
          split at hb
          · next hsent =>
            obtain rfl : b = f.entry := List.mem_singleton.1 hb
            refine Nat.lt_of_not_le fun hle => hsent.2 ?_
            have hentry := (last_entry hg hk hB hs hf).1
            obtain ⟨y, c, hy, hc, hin⟩ :=
              last_below hg hk hB hs ⟨Nat.le_trans hentry hle, lt_size_of_element hel⟩
            obtain ⟨f', hf', rfl⟩ := last_finally V k0 hc
            obtain rfl := Option.some.inj (hf.symm.trans hf')
            exact Option.some.inj (hel.symm.trans hy) ▸ hin
          · cases hb
    · rw [settle_of_outside t hel hbelow] at hb
      cases hb

theorem Ahead.settled (h : Ahead t (tryLast t V s k0).1) : Ahead t (tryStatement t V s k0) := by
  refine h.step (((Later.refl _).settled _).moved none) fun a b hab => ?_
  rcases (edge_settled _ a b _).1 hab with hold | ⟨e, -, rfl, hb⟩
  · exact .inl hold
  · exact .inr (.inl (settle_forward hg hk hB hs hb))

end settled

section visit
variable (hg : t.Grammatical)
include hg

theorem ahead_visit (depth : Nat) (hs : Sound t s k) (h : Ahead t k) : Ahead t (visit t depth s k) := by
  induction depth generalizing s k with
  | zero =>
    have hplaced : Ahead t ({ k with truncated := s :: k.truncated }.place t (some s) .plain) := by
      refine Ahead.place h ?_ (some s) .plain
      rintro x (hx | ⟨e, he, rfl⟩)
      · exact hs.cursor x hx
      · exact hs.fresh.ranged e he
    exact hplaced
  | succ depth ih =>
    have hr := ready_followed hg depth hs
    have hvisit : ∀ c ∈ t.followed s, ∀ k, Sound t c k → Ahead t k → Ahead t (visit t depth c k) :=
      fun c _ k hk hahead => ih hk hahead
    have hcourse : Course t (visit t depth) s (t.followed s) k (t.followed s) k := .start
    by_cases htry : t.kind s = .tryStatement
    · have hB : Below t (visit t depth) s := ⟨fun c _ => grows_visit hg depth c,
        fun c _ hq => steady_visit hg depth c hq, fun c _ => reaches_visit hg depth c⟩
      have hplan : t.followed s = (t.tryPart s).toList ++ ((t.elsePart s).toList ++
          (t.exceptParts s ++ (t.finallyPart s).toList)) := by
        rw [SyntaxTree.followed, htry]
      have hlast := Course.tryLast hr hg htry (hplan ▸ hcourse)
      rw [visit, dispatch, htry]
      exact (hlast.ahead hr hs.sourced h hvisit).settled hg htry hB hs.fresh
    · exact (Course.dispatch hr hg htry).ahead hr hs.sourced h hvisit

/-- A visit makes its first instruction for a statement, and no second one. -/
theorem sole_self (hstatement : (t.kind T).isStatement = true) (depth : Nat) (hs : Sound t T k)
    (h : Sole T k) : Sole T (visit t depth T k) := by
  rcases grows_visit hg depth T k hs.fresh with heq | ⟨hG, -⟩
  · rw [heq]
    exact h
  · have hnext : ∀ i, (visit t depth T k).element i = some T → i = k.next := by
      intro i hi
      refine hG.first i ⟨Nat.le_of_not_lt fun hold => ?_, lt_size_of_element hi⟩ hi
      rw [hG.element_old i hold] at hi
      exact hs.fresh.bare T (t.below_refl T) hstatement i T hi (t.below_refl T)
    exact fun i j hi hj => (hnext i hi).trans (hnext j hj).symm

theorem sole_visit (hstatement : (t.kind T).isStatement = true) (depth : Nat) (hs : Sound t s k)
    (h : Sole T k) : Sole T (visit t depth s k) := by
  by_cases hne : T = s
  · exact hne ▸ sole_self hg hstatement depth (hne ▸ hs) h
  induction depth generalizing s k with
  | zero => exact Sole.place (k := { k with truncated := s :: k.truncated }) h (Ne.symm hne) .plain
  | succ depth ih =>
    obtain ⟨k1, hcourse, hle, hmade, -⟩ := course_visit hg depth hs
    have hsize : (visit t (depth + 1) s k).size = k1.size := congrArg List.length hmade
    have hvisit : ∀ c ∈ t.followed s, ∀ k, Sound t c k → Sole T k → Sole T (visit t depth c k) := by
      intro c _ k' hk' h'
      by_cases hc : T = c
      · exact hc ▸ sole_self hg hstatement depth (hc ▸ hk') h'
      · exact ih hk' h' hc
    have hsole := hcourse.sole (ready_followed hg depth hs) hs.sourced hne hstatement h hvisit
    have hold : ∀ i, (visit t (depth + 1) s k).element i = some T → k1.element i = some T :=
      fun i hi => (hle.element (hsize ▸ lt_size_of_element hi)).symm.trans hi
    exact fun i j hi hj => hsole i j (hold i hi) (hold j hj)

section owner
variable (depth : Nat) {owner : NodeId} (howner : (t.kind owner).isOwner = true)
include howner

theorem ahead_build : Ahead t (build t depth owner) := by
  have hr : Ready t (visit t depth) owner (t.children owner) (opening t) := ready_opening hg
  have hcourse := course_interior depth howner
  have hstart : Ahead t (opening t) := fun a b hab => absurd hab (not_edge_opening t a b)
  have hinterior := hcourse.ahead hr (sourced_opening t) hstart fun c _ k hk h => ahead_visit hg depth hk h
  exact hinterior.place (hcourse.loose_lt hr) none .plain

theorem sole_build (hstatement : (t.kind T).isStatement = true) (hne : T ≠ owner) :
    Sole T (build t depth owner) := by
  have hr : Ready t (visit t depth) owner (t.children owner) (opening t) := ready_opening hg
  have hstart : Sole T (opening t) := fun i _ hi => by
    rw [element_opening] at hi
    cases hi
  have hsole := (course_interior depth howner).sole hr (sourced_opening t) hne hstatement hstart
    fun c _ k hk h => sole_visit hg hstatement depth hk h
  exact fun i j hi hj => hsole i j (element_interior hi) (element_interior hj)

end owner
end visit
end PythonFlow.Sketch
