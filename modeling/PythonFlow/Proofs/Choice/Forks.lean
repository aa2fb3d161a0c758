import PythonFlow.Proofs.Course.Once
import PythonFlow.Proofs.Reach.Quiet

/-!
# Where the outcomes of a condition are entered

A rule makes an instruction for each outcome of a condition that it has asked, and leads flow to it from
where the condition came out. `Forks` is what holds after each step of such a rule: what it has made for an
outcome is entered from one place, which is the same for both outcomes of a condition, and later steps
lead no further edge to it. A rule may let the entry of the true outcome be entered from other places as
well, and then says what these were made for.
-/

set_option autoImplicit false

namespace PythonFlow.Sketch

/-- A part of `s` for which the rule of `s` may make an instruction, other than a loop. -/
structure Near (t : SyntaxTree) (s el : NodeId) : Prop where
  part : el ∈ t.children s ∨ el ∈ t.followed s
  plain : (t.kind el).isLoop = false

abbrev Label := Option NodeId × InstructionKind

/-- What the rule of `s` has made for an outcome since `k0` is entered from where the condition came out,
which `H` tells. The true outcome may also be entered from instructions with a label in `P`. -/
def Forked (t : SyntaxTree) (s : NodeId) (P : Label → Prop) (k0 : Sketch)
    (H : NodeId → Option InstructionId) (k : Sketch) : Prop :=
  ∀ b el co o, New k0 k b → k.label b = some (some el, .conditional co o) → Near t s el →
    ∃ p, (∀ c, co = some c → H c = some p) ∧ k.Edge p b ∧
      ∀ a, k.Edge a b → a = p ∨ o = true ∧ ∃ l, k.label a = some l ∧ P l

/-- How the rule of `s` stands when the nodes `R` that it follows are still to be visited. -/
structure Forks (t : SyntaxTree) (depth : Nat) (s : NodeId) (P : Label → Prop) (k0 : Sketch)
    (H : NodeId → Option InstructionId) (R : List NodeId) (k : Sketch) : Prop where
  course : Course t (visit t depth) s (t.followed s) k0 R k
  forked : Forked t s P k0 H k

variable {t : SyntaxTree} {depth : Nat} {s c : NodeId} {P : Label → Prop} {k k0 k1 : Sketch}
  {H : NodeId → Option InstructionId} {R : List NodeId}

theorem Forks.start (t : SyntaxTree) (depth : Nat) (s : NodeId) (P : Label → Prop) (k0 : Sketch)
    (H : NodeId → Option InstructionId) : Forks t depth s P k0 H (t.followed s) k0 :=
  ⟨.start, fun _ _ _ _ hid => absurd hid.2 (Nat.not_lt_of_le hid.1)⟩

/-- The conditions of two clauses are different nodes. -/
theorem clause_of_condition (ho : t.Ordered) {p q : NodeId} (hp : t.condition p = some c)
    (hq : t.condition q = some c) : p = q :=
  Option.some.inj ((ho.parent_of_mem (SyntaxTree.mem_condition hp).1).symm.trans
    (ho.parent_of_mem (SyntaxTree.mem_condition hq).1))

section near
variable (hg : t.Grammatical) {el : NodeId}
include hg

/-- A part of `s` is not inside one that the rule follows. -/
theorem Near.not_inside (h : Near t s el) (hc : c ∈ t.followed s) : ¬ t.Inside el c := by
  have ho := hg.ordered
  have hin := SyntaxTree.inside_of_followed ho hc
  rcases h.part with h | h
  · exact fun hel => ho.not_below_of_inside hin (ho.below_of_inside_parent (ho.parent_of_mem h) hel)
  · exact not_inside_planned (ready_followed hg 0 (clear_opening t s).toSound) h hc

/-- What owns the code of a part of `s` owns the code of `s`. -/
theorem Near.inside_owner (h : Near t s el) {owner : NodeId} (howner : (t.kind owner).isOwner = true)
    (hs : (t.kind s).isOwner = false) (hel : t.Inside el owner) : t.Inside s owner := by
  have ho := hg.ordered
  have hstep : ∀ {p}, (t.kind p).isOwner = false → t.Below p owner → t.Inside p owner := by
    intro p hp hb
    refine ⟨hb, ?_⟩
    rintro rfl
    rw [howner] at hp
    cases hp
  have hup : ∀ {p c}, c ∈ t.children p → (t.kind p).isOwner = false → t.Inside c owner → t.Inside p owner :=
    fun hc hp hin => hstep hp (ho.below_of_inside_parent (ho.parent_of_mem hc) hin)
  rcases h.part with hchild | hfollowed
  · exact hup hchild hs hel
  · rcases SyntaxTree.followed_cases hfollowed with hchild | ⟨p, hp, hk, hchild⟩
    · exact hup hchild hs hel
    · exact hup hp hs (hup hchild (SyntaxKind.not_owner_of_opened hk) hel)

end near

namespace Forks

/-- A step that makes nothing for an outcome, and leads no edge to what has been made for one. -/
theorem step {R' : List NodeId} (h : Forks t depth s P k0 H R k)
    (hcourse : Course t (visit t depth) s (t.followed s) k0 R' k1) (hmade : k.made <+: k1.made)
    (hnew : ∀ b el co o, New k k1 b → k1.label b = some (some el, .conditional co o) → ¬ Near t s el)
    (hedge : ∀ a b, k.Edge a b → k1.Edge a b)
    (hclosed : ∀ a b el co o, k.label b = some (some el, .conditional co o) → Near t s el →
      k1.Edge a b → k.Edge a b) : Forks t depth s P k0 H R' k1 := by
  refine ⟨hcourse, fun b el co o hb hlabel hnear => ?_⟩
  rcases hb.old_or_new k with hold | hlast
  · rw [label_of_made hmade hold.2] at hlabel
    obtain ⟨p, hp, hpb, hall⟩ := h.forked b el co o hold hlabel hnear
    refine ⟨p, hp, hedge p b hpb, fun a hab => (hall a (hclosed a b el co o hlabel hnear hab)).imp_right ?_⟩
    rintro ⟨ho, l, hl, hP⟩
    exact ⟨ho, l, (label_of_made hmade (lt_size_of_label hl)).trans hl, hP⟩
  · exact absurd hnear (hnew b el co o hlast hlabel)

/-- A step that makes no instruction and leads no edge. -/
theorem still (h : Forks t depth s P k0 H R k)
    (hcourse : Course t (visit t depth) s (t.followed s) k0 R k1) (hmade : k1.made = k.made)
    (hedges : k1.edges = k.edges) : Forks t depth s P k0 H R k1 := by
  refine h.step hcourse (hmade ▸ List.prefix_rfl) (fun b _ _ _ hb => ?_) (fun a b hab => ?_)
    fun a b _ _ _ _ _ hab => ?_
  · have hsize : k1.size = k.size := congrArg List.length hmade
    exact absurd hb.2 (Nat.not_lt_of_le (hsize ▸ hb.1))
  · rwa [Edge, hedges]
  · rwa [Edge, hedges] at hab

section steps
variable (h : Forks t depth s P k0 H R k)
include h

theorem moved {x : Option InstructionId} (hx : ∀ y, x = some y → y.index < k.size) :
    Forks t depth s P k0 H R (k.moved x) := h.still (h.course.moved hx) rfl rfl

theorem pended {o : Option NodeId} (ho : ∀ m, o = some m → ∀ c ∈ R, ¬ t.Below m c) {l : List InstructionId}
    (hl : ∀ a ∈ l, a.index < k.size) : Forks t depth s P k0 H R (k.pended o l) :=
  h.still (h.course.pended ho hl) rfl rfl

theorem drained {n : NodeId} (hn : t.Below n s) : Forks t depth s P k0 H R (k.drained t n) :=
  h.still (h.course.drained hn) rfl rfl

theorem rescoped {n : NodeId} (hn : t.Below n s) {o : Option NodeId}
    (ho : ∀ m, o = some m → ∀ c ∈ R, ¬ t.Below m c) : Forks t depth s P k0 H R (k.rescoped t n o) :=
  h.still (h.course.rescoped hn ho) rfl rfl

/-- An instruction that is not for an outcome. -/
theorem place {el : NodeId} {kind : InstructionKind} (hsite : Site t s (t.followed s) el kind)
    (hkind : ∀ co o, kind ≠ .conditional co o) : Forks t depth s P k0 H R (k.place t (some el) kind) := by
  refine h.step (h.course.place hsite) (prefix_place k _ kind) (fun b el' co o hb hlabel _ => ?_)
    (fun a b hab => (edge_place k t _ kind a b).2 (.inl hab)) fun a b el' co o hlabel _ hab => ?_
  · rcases eq_next_of_new hb with rfl | hold
    · rw [label_place_next] at hlabel
      exact hkind co o (Prod.mk.inj (Option.some.inj hlabel)).2
    · exact absurd hold.2 (Nat.not_lt_of_le hold.1)
  · refine ((edge_place k t _ kind a b).1 hab).resolve_right ?_
    rintro ⟨-, rfl⟩
    exact Nat.lt_irrefl _ (lt_size_of_label hlabel)

theorem started : Forks t depth s P k0 H R (k.start t s) := h.place (site_self (by simp)) (by simp)

theorem linked {x : InstructionId} {l : List InstructionId} (hl : ∀ a ∈ l, a.index < k.size)
    (hx : ∀ a ∈ l, Leads t k a x) (hat : Meets t (t.followed s) k x)
    (hnot : ∀ el co o, k.label x = some (some el, .conditional co o) → ¬ Near t s el) :
    Forks t depth s P k0 H R (k.linked x l) := by
  refine h.step (h.course.linked hl hx hat) List.prefix_rfl (fun b _ _ _ hb => ?_)
    (fun a b hab => (edge_linked k a b x l).2 (.inl hab)) fun a b el co o hlabel hnear hab => ?_
  · exact absurd hb.2 (Nat.not_lt_of_le hb.1)
  · refine ((edge_linked k a b x l).1 hab).resolve_right ?_
    rintro ⟨-, rfl⟩
    exact hnot el co o hlabel hnear

/-- Another condition has been asked. -/
theorem learn (hc : H c = none) (p : InstructionId) :
    Forks t depth s P k0 (Function.update H c (some p)) R k := by
  refine ⟨h.course, fun b el co o hb hlabel hnear => ?_⟩
  obtain ⟨q, hq, hedges⟩ := h.forked b el co o hb hlabel hnear
  refine ⟨q, fun c' hc' => ?_, hedges⟩
  have hne : c' ≠ c := by
    rintro rfl
    cases hc.symm.trans (hq c' hc')
  rw [Function.update_of_ne hne]
  exact hq c' hc'

end steps

section visits
variable (hg : t.Grammatical) (hk : Clear t s k0)
include hg hk

variable (depth) in
theorem ready : Ready t (visit t depth) s (t.followed s) k0 := ready_followed hg depth hk.toSound

/-- An instruction for an outcome, entered from where the condition came out. -/
theorem choose (h : Forks t depth s P k0 H R k) {el : NodeId} {co : Option NodeId} {o : Bool}
    (hsite : Site t s (t.followed s) el (.conditional co o)) {p : InstructionId} (hp : k.cursor = some p)
    (hH : ∀ c, co = some c → H c = some p)
    (harr : ∀ a ∈ k.arrivals t (some el), a = p ∨ o = true ∧ ∃ l, k.label a = some l ∧ P l) :
    Forks t depth s P k0 H R (k.place t (some el) (.conditional co o)) := by
  have hedge := edge_place k t (some el) (.conditional co o)
  refine ⟨h.course.place hsite, fun b el' co' o' hb hlabel hnear => ?_⟩
  rcases eq_next_of_new hb with rfl | hold
  · rw [label_place_next] at hlabel
    cases hlabel
    refine ⟨p, hH, (hedge p k.next).2 (.inr ⟨(mem_arrivals k t _ p).2 (.inl hp), rfl⟩), fun a hab => ?_⟩
    rcases (hedge a k.next).1 hab with hab | ⟨ha, -⟩
    · exact absurd (h.course.targeted (ready depth hg hk) hk.targeted a k.next hab) (Nat.lt_irrefl _)
    · refine (harr a ha).imp_right ?_
      rintro ⟨ho, l, hl, hP⟩
      exact ⟨ho, l, (label_place_of_lt (lt_size_of_label hl)).trans hl, hP⟩
  · rw [label_place_of_lt hold.2] at hlabel
    obtain ⟨q, hq, hqb, hall⟩ := h.forked b el' co' o' hold hlabel hnear
    refine ⟨q, hq, (hedge q b).2 (.inl hqb), fun a hab => ?_⟩
    rcases (hedge a b).1 hab with hab | ⟨-, rfl⟩
    · refine (hall a hab).imp_right ?_
      rintro ⟨ho, l, hl, hP⟩
      exact ⟨ho, l, (label_place_of_lt (lt_size_of_label hl)).trans hl, hP⟩
    · exact absurd hold.2 (Nat.lt_irrefl _)

/-- A visit makes nothing for an outcome of the node above. -/
theorem visited (h : Forks t depth s P k0 H (c :: R) k) : Forks t depth s P k0 H R (visit t depth c k) := by
  have hr := ready depth hg hk
  have hmem := h.course.head_mem
  have hsound := h.course.sound hr hk.sourced
  have hv := h.course.visited hr
  refine h.step (.visit h.course) (made_visit hg depth hsound) (fun b el co o hb hlabel hnear => ?_)
    (fun a b hab => hv.later.edge hab) fun a b el co o hlabel hnear hab => ?_
  · exact hnear.not_inside hg hmem (inside_of_chosen hg depth hsound hb hlabel)
  · exact hv.edge_old hg.ordered (element_of_label hlabel) hnear.plain hab

theorem each {cs : List NodeId} (h : Forks t depth s P k0 H (cs ++ R) k) :
    Forks t depth s P k0 H R (Sketch.each (visit t depth) cs k) := by
  induction cs generalizing k with
  | nil => exact h
  | cons c cs ih => exact ih (k := visit t depth c k) (h.visited (R := cs ++ R) hg hk)

end visits
end Forks
end PythonFlow.Sketch
