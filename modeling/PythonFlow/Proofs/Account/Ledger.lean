import PythonFlow.Proofs.Account.Labels

/-!
# How a rule accounts for its steps

A rule begins where flow may read what a run of its node may emit. `Ledger` is what holds after each of
its steps: the labels account for the edges, and where flow has left the node already, what follows may be
read. A step that makes an instruction chooses its label, a visit is told what follows the node that it
visits, and the other steps keep the labels.
-/

set_option autoImplicit false

namespace PythonFlow.Sketch

/-- Where a rule begins, with the labels and the sequel that it is given. What it visits accounts for
itself. -/
structure Outset (t : SyntaxTree) (V : Visitor) (s : NodeId) (plan : List NodeId) (k0 : Sketch)
    (C0 : Labels) (K : Sequel) : Prop where
  ready : Ready t V s plan k0
  begun : Begun t s k0
  resumes : Resumes t s k0 C0 K
  visits : ∀ c ∈ plan, Accounts t V c

/-- How a rule stands when the nodes `R` of its plan are still to be visited. -/
structure Ledger (t : SyntaxTree) (V : Visitor) (s : NodeId) (plan : List NodeId) (k0 : Sketch)
    (C0 : Labels) (K : Sequel) (R : List NodeId) (k : Sketch) (C : Labels) : Prop
    extends Account t k C where
  course : Course t V s plan k0 R k
  agrees : Agrees k0 C0 C
  own : ∀ x, k.Pends (some s) x → K .normal ⊆ C x
  left : ∀ o x, (∀ l, o = some l → t.Inside s l) → k.Pends o x → New k0 k x → K.beyond o ⊆ C x

/-- Wherever flow stands inside `s`, `Y` may be read. -/
def Poised (t : SyntaxTree) (s : NodeId) (k : Sketch) (C : Labels) (Y : Set (List NodeId)) : Prop :=
  ∀ x, Stands t s k x → Y ⊆ C x

def Facing (k : Sketch) (C : Labels) (Y : Set (List NodeId)) : Prop := ∀ x, k.cursor = some x → Y ⊆ C x

variable {t : SyntaxTree} {V : Visitor} {s c : NodeId} {plan R : List NodeId} {k k0 k1 : Sketch}
  {C C0 : Labels} {K J : Sequel} {X Y : Set (List NodeId)} {x : InstructionId}

section stands
variable (ho : t.Ordered)
include ho

/-- What arrives below `s` stands inside `s`. -/
theorem stands_of_arrival_below (hc : t.Below c s) (h : x ∈ k.arrivals t (some c)) : Stands t s k x := by
  refine (stands_of_arrival h).imp_right fun ⟨sc, hx, hb⟩ => ⟨sc, hx, fun hs => hb ?_⟩
  exact ho.below_trans hc hs

/-- What stands inside `s` has left each of its children. -/
theorem Stands.departs_child (hc : c ∈ t.children s) (h : Stands t s k x) : Departs t c k x :=
  h.imp_right fun ⟨sc, hx, hb⟩ => ⟨sc, hx, fun hin =>
    hb (ho.below_of_inside_parent (ho.parent_of_mem hc) hin)⟩

theorem departs_of_exit (h : x ∈ k.exits t c) : Departs t c k x := by
  refine ((mem_exits k t c x).1 h).imp_right fun ⟨e, he, hx⟩ => ?_
  obtain ⟨he, hw⟩ := (mem_inner k t e c).1 he
  obtain ⟨sc, hsc, hb⟩ := within_iff.1 hw
  refine ⟨sc, ?_, fun hin => ho.not_below_of_inside hin hb⟩
  rw [Pends, ← hsc, ← hx]
  exact he

omit ho in
theorem poised_of_held (hheld : Held t s k) (h : Facing k C Y) : Poised t s k C Y := by
  rintro x (hx | ⟨sc, hx, hb⟩)
  · exact h x hx
  · exact absurd (stays_iff.1 (hheld _ hx) sc rfl) hb

omit ho in
theorem facing_none (k : Sketch) (C : Labels) (Y : Set (List NodeId)) : Facing (k.moved none) C Y :=
  fun _ hx => by cases hx

omit ho in
theorem Poised.drained (h : Poised t s k C Y) (n : NodeId) : Poised t s (k.drained t n) C Y :=
  fun x hx => h x (hx.imp_right fun ⟨sc, hx, hb⟩ => ⟨sc, ((mem_pending_drained k t _ n).1 hx).1, hb⟩)

omit ho in
theorem Poised.moved (h : Poised t s k C Y) {o : Option InstructionId} (ho : ∀ y, o = some y → Y ⊆ C y) :
    Poised t s (k.moved o) C Y := by
  rintro x (hx | hx)
  · exact ho x hx
  · exact h x (.inr hx)

omit ho in
/-- What is left pending under `s` stands inside it no more. -/
theorem Poised.parked (h : Poised t s k C Y) (l : List InstructionId) :
    Poised t s (k.pended (some s) l) C Y := by
  refine fun x hx => h x (hx.imp_right fun ⟨sc, hx, hb⟩ => ⟨sc, ?_, hb⟩)
  rcases (mem_pending_pended k _ (some s) l).1 hx with hx | ⟨heq, -⟩
  · exact hx
  · exact absurd (Option.some.inj heq ▸ t.below_refl s) hb

end stands

namespace Account
variable (h : Account t k C)
include h

theorem place {el : Option NodeId} {kind : InstructionKind} (hlt : ∀ y, k.Loose y → y.index < k.size)
    (hX : ∀ a ∈ k.arrivals t el, ∀ w ∈ X, (k.place t el kind).shown t k.next ++ w ∈ C a) :
    Account t (k.place t el kind) (Function.update C k.next X) where
  ranged := by
    intro a b hab
    rw [size_place]
    rcases (edge_place k t el kind a b).1 hab with hab | ⟨ha, rfl⟩
    · obtain ⟨ha, hb⟩ := h.ranged a b hab
      exact ⟨Nat.lt_succ_of_lt ha, Nat.lt_succ_of_lt hb⟩
    · exact ⟨Nat.lt_succ_of_lt (hlt a (loose_of_arrival ha)), Nat.lt_succ_self _⟩
  reads := by
    intro a b hab w hw
    rcases (edge_place k t el kind a b).1 hab with hab | ⟨ha, rfl⟩
    · obtain ⟨ha, hb⟩ := h.ranged a b hab
      rw [agrees_update k C X b hb] at hw
      rw [agrees_update k C X a ha, shown_later ((Later.refl k).place _ _) hb]
      exact h.reads a b hab w hw
    · rw [Function.update_self] at hw
      rw [agrees_update k C X a (hlt a (loose_of_arrival ha))]
      exact hX a ha w hw

theorem linked {l : List InstructionId} (hx : x.index < k.size) (hl : ∀ a ∈ l, a.index < k.size)
    (hreads : ∀ a ∈ l, ∀ w ∈ C x, k.shown t x ++ w ∈ C a) : Account t (k.linked x l) C where
  ranged := by
    intro a b hab
    rcases (edge_linked k a b x l).1 hab with hab | ⟨ha, rfl⟩
    · exact h.ranged a b hab
    · exact ⟨hl a ha, hx⟩
  reads := by
    intro a b hab
    rcases (edge_linked k a b x l).1 hab with hab | ⟨ha, rfl⟩
    · exact h.reads a b hab
    · exact hreads a ha

end Account

namespace Ledger

theorem start (hO : Outset t V s plan k0 C0 K) (h : Account t k0 C0) :
    Ledger t V s plan k0 C0 K plan k0 C0 where
  toAccount := h
  course := .start
  agrees := .refl k0 C0
  own := fun _ hx => absurd (t.below_refl s) (hO.begun.fresh.unscoped _ hx s rfl)
  left := fun _ _ _ _ hx => absurd hx.2 (Nat.not_lt_of_le hx.1)

section steps
variable (hO : Outset t V s plan k0 C0 K) (h : Ledger t V s plan k0 C0 K R k C)
include h

theorem moved {o : Option InstructionId} (ho : ∀ y, o = some y → y.index < k.size) :
    Ledger t V s plan k0 C0 K R (k.moved o) C :=
  { h with course := h.course.moved ho }

theorem stopped : Ledger t V s plan k0 C0 K R (k.moved none) C := h.moved (by simp)

theorem drained {n : NodeId} (hn : t.Below n s) : Ledger t V s plan k0 C0 K R (k.drained t n) C :=
  { h with
    course := h.course.drained hn
    own := fun x hx => h.own x ((mem_pending_drained k t _ n).1 hx).1
    left := fun o x ho hx => h.left o x ho ((mem_pending_drained k t _ n).1 hx).1 }

theorem linked {l : List InstructionId} (hat : Meets t plan k x) (hl : ∀ a ∈ l, a.index < k.size)
    (hleads : ∀ a ∈ l, Leads t k a x) (hreads : ∀ a ∈ l, ∀ w ∈ C x, k.shown t x ++ w ∈ C a) :
    Ledger t V s plan k0 C0 K R (k.linked x l) C :=
  { h with
    toAccount := h.toAccount.linked hat.lt hl hreads
    course := h.course.linked hl hleads hat }

/-- Flow is left pending where it has left the node of the rule. -/
theorem pended {o : Option NodeId} (ho : ∀ m, o = some m → ∀ c ∈ R, ¬ t.Below m c)
    {l : List InstructionId} (hl : ∀ a ∈ l, a.index < k.size)
    (hown : o = some s → ∀ a ∈ l, K .normal ⊆ C a)
    (hleft : (∀ m, o = some m → t.Inside s m) → ∀ a ∈ l, K.beyond o ⊆ C a) :
    Ledger t V s plan k0 C0 K R (k.pended o l) C :=
  { h with
    course := h.course.pended ho hl
    own := by
      intro x hx
      rcases (mem_pending_pended k _ o l).1 hx with hx | ⟨heq, hx⟩
      · exact h.own x hx
      · exact hown heq.symm x hx
    left := by
      intro o' x ho' hx hnew
      rcases (mem_pending_pended k _ o l).1 hx with hold | ⟨rfl, hmem⟩
      · exact h.left o' x ho' hold hnew
      · exact hleft ho' x hmem }

/-- What is pending within a part is left where it has left the node of the rule. -/
theorem rescoped {n : NodeId} (hn : t.Below n s) {o : Option NodeId} (ho : ∀ m, o = some m → ∀ c ∈ R, ¬ t.Below m c)
    (hown : o = some s → ∀ e ∈ k.pending, e.within t n = true → K .normal ⊆ C e.source)
    (hleft : (∀ m, o = some m → t.Inside s m) →
      ∀ e ∈ k.pending, e.within t n = true → K.beyond o ⊆ C e.source) :
    Ledger t V s plan k0 C0 K R (k.rescoped t n o) C := by
  have hold : ∀ {sc x}, (k.rescoped t n o).Pends sc x →
      k.Pends sc x ∨ sc = o ∧ ∃ e ∈ k.pending, e.within t n = true ∧ e.source = x := by
    intro sc x hx
    obtain ⟨e, he, heq⟩ := (mem_pending_rescoped k t _ n o).1 hx
    unfold rescope at heq
    split at heq
    · next hw =>
      cases heq
      exact .inr ⟨rfl, e, he, hw, rfl⟩
    · obtain rfl := heq
      exact .inl he
  refine { h with
    course := h.course.rescoped hn ho
    own := fun x hx => ?_
    left := fun o' x ho' hx hnew => ?_ }
  · rcases hold hx with hx | ⟨heq, e, he, hw, rfl⟩
    · exact h.own x hx
    · exact hown heq.symm e he hw
  · rcases hold hx with hx | ⟨rfl, e, he, hw, rfl⟩
    · exact h.left o' x ho' hx hnew
    · exact hleft ho' e he hw

/-- Flow is left pending under the node of the rule itself. -/
theorem parked (hO : Outset t V s plan k0 C0 K) {l : List InstructionId}
    (hl : ∀ a ∈ l, a.index < k.size) (hK : ∀ a ∈ l, K .normal ⊆ C a) :
    Ledger t V s plan k0 C0 K R (k.pended (some s) l) C :=
  h.pended (h.course.above_rest hO.ready) hl (fun _ => hK) fun hin => absurd rfl (hin s rfl).2

include hO

theorem loose_lt {x : InstructionId} (hx : k.Loose x) : x.index < k.size := h.course.loose_lt hO.ready x hx

/-- A new instruction with a label of its own. -/
theorem place {el : NodeId} {kind : InstructionKind} (hsite : Site t s plan el kind)
    (hX : ∀ a ∈ k.arrivals t (some el), ∀ w ∈ X, mark t el ++ w ∈ C a) :
    ∃ C1, Ledger t V s plan k0 C0 K R (k.place t (some el) kind) C1 ∧ Agrees k C C1 ∧ C1 k.next = X := by
  have hagrees := agrees_update k C X
  have hold : ∀ {sc x}, (k.place t (some el) kind).Pends sc x → k.Pends sc x ∧ x.index < k.size := by
    intro sc x hx
    have hmem := ((mem_pending_place k t (some el) kind _).1 hx).1
    exact ⟨hmem, h.loose_lt hO (.inr ⟨_, hmem, rfl⟩)⟩
  refine ⟨Function.update C k.next X, ?_, hagrees, Function.update_self _ _ _⟩
  exact {
    toAccount := h.toAccount.place (h.course.loose_lt hO.ready) fun a ha w hw => by
      rw [shown_some element_place_next]
      exact hX a ha w hw
    course := h.course.place hsite
    agrees := h.agrees.trans hagrees (h.course.later hO.ready).size_le
    own := fun x hx => hagrees.subset (hold hx).2 (h.own x (hold hx).1)
    left := fun o x ho hx hnew =>
      hagrees.subset (hold hx).2 (h.left o x ho (hold hx).1 ⟨hnew.1, (hold hx).2⟩) }

end steps

section visit
variable (hO : Outset t V s plan k0 C0 K) (h : Ledger t V s plan k0 C0 K (c :: R) k C)
  (hself : Refers t c s → K .normal ⊆ J (.broke s) ∧
    ∃ header, k.latest s = some header ∧ C header ⊆ J (.continued s))
include hO h hself

/-- A visit finds the headers of the loops around it. -/
theorem begun : Begun t c k where
  fresh := h.course.freshness hO.ready c List.mem_cons_self
  cursor := h.course.cursor_lt hO.ready
  sourced := fun a b hab => (h.ranged a b hab).1
  headed := by
    intro x l hx hk hl hcl
    have hd := hO.ready.direct c h.course.head_mem
    rcases hd.loop_above hO.ready.ordered (hO.ready.ordered.enclosing_loop_above hl).2.1 hcl with rfl | hsl
    · obtain ⟨-, header, hlatest, -⟩ := hself ⟨x, hx, .inr hk, hl⟩
      exact ⟨header, (latest_some hlatest).2⟩
    · exact (h.course.later hO.ready).has
        (hO.begun.headed x l (hO.ready.ordered.below_trans hx hd.1.1) hk hl hsl)

theorem resumes (hpass : Passes s K J) (hraised : ∀ r, J .returned ⊆ J (.raised r)) :
    Resumes t c k C J where
  headers := by
    intro x l header hx hk hl hcl hlatest
    have ho := hO.ready.ordered
    have hd := hO.ready.direct c h.course.head_mem
    have hel := (latest_some hlatest).2
    rcases hd.loop_above ho (ho.enclosing_loop_above hl).2.1 hcl with rfl | hsl
    · obtain ⟨-, header', hlatest', hsub⟩ := hself ⟨x, hx, .inr hk, hl⟩
      obtain rfl := Option.some.inj (hlatest.symm.trans hlatest')
      exact ⟨s, hel, hsub⟩
    · rw [h.course.latest_above hO.ready hsl] at hlatest
      obtain ⟨l', hel', hsub⟩ :=
        hO.resumes.headers x l header (ho.below_trans hx hd.1.1) hk hl hsl hlatest
      obtain rfl := Option.some.inj ((latest_some hlatest).2.symm.trans hel')
      refine ⟨l, hel, ?_⟩
      rw [h.agrees header (latest_some hlatest).1, hpass _ (by simp) (by simp) fun heq => ?_]
      · exact hsub
      · exact hsl.2 (Outcome.continued.inj heq).symm
  raised := hraised

/-- A visit, and what follows the visited node. -/
theorem visit (hpass : Passes s K J)
    (harrivals : ∀ a ∈ k.arrivals t (some c), Then t (.node c) J ⊆ C a) :
    ∃ C1, Ledger t V s plan k0 C0 K R (V c k) C1 ∧ Agrees k C C1 ∧
      ∀ x, Departs t c (V c k) x → J .normal ⊆ C1 x := by
  have hmem := h.course.head_mem
  have hin := (hO.ready.direct c hmem).1
  have hreturned : J .returned = K .returned := hpass _ (by simp) (by simp) (by simp)
  have hraised : ∀ r, J .returned ⊆ J (.raised r) := fun r => by
    rw [hreturned, hpass (.raised r) (by simp) (by simp) (by simp)]
    exact hO.resumes.raised r
  obtain ⟨C1, hagrees, haccount, hleaves⟩ := hO.visits c hmem k C J (h.begun hO hself) h.toAccount
    (h.resumes hO hself hpass hraised) harrivals
  have hv := h.course.visited hO.ready
  have hold : ∀ {sc x}, k.Pends sc x → x.index < k.size := fun hx => h.loose_lt hO (.inr ⟨_, hx, rfl⟩)
  refine ⟨C1, ?_, hagrees, hleaves.normal⟩
  refine ⟨haccount, .visit h.course, h.agrees.trans hagrees (h.course.later hO.ready).size_le,
    fun x hx => ?_, fun o x ho hx hnew => ?_⟩
  -- Under `s` itself the visit leaves pending what a `break` of `s` below `c` does, and nothing else.
  · rcases pending_since hv hx with hx | ⟨hnew, hb | ⟨-, b, hb, hk, hl⟩⟩
    · exact hagrees.subset (hold hx) (h.own x hx)
    · exact absurd hb (hO.ready.ordered.not_below_of_inside hin)
    · refine (hself ⟨b, hb, .inl hk, hl⟩).1.trans (hleaves.left (some s) x (fun l hl => ?_) hx hnew)
      exact Option.some.inj hl ▸ hin
  -- Beyond `s` the sequel of `c` is that of `s`.
  · have hbeyond : J.beyond o = K.beyond o := by
      cases o with
      | none => exact hreturned
      | some l =>
        refine hpass (.broke l) (by simp) (fun heq => ?_) (by simp)
        exact (ho l rfl).2 (Outcome.broke.inj heq).symm
    rcases pending_since hv hx with hx | ⟨hnew, -⟩
    · exact hagrees.subset (hold hx) (h.left o x ho hx ⟨hnew.1, hold hx⟩)
    · rw [← hbeyond]
      refine hleaves.left o x (fun l hl => ?_) hx hnew
      exact hO.ready.ordered.inside_of_inside_below hin (ho l hl).1

end visit

/-- After its last step a rule accounts for what it has made. -/
theorem leaves (h : Ledger t V s plan k0 C0 K [] k C) (hp : Poised t s k C (K .normal)) :
    Leaves t s k0 k C K where
  normal := by
    rintro x (hx | ⟨sc, hx, hin⟩)
    · exact hp x (.inl hx)
    · by_cases hb : t.Below s sc
      · rcases SyntaxTree.below_iff_eq_or_inside.1 hb with rfl | hb
        · exact h.own x hx
        · exact absurd hb hin
      · exact hp x (.inr ⟨sc, hx, hb⟩)
  left := h.left

theorem done (h : Ledger t V s plan k0 C0 K [] k C) (hp : Poised t s k C (K .normal)) :
    Accounted t s k0 C0 K k := ⟨C, h.agrees, h.toAccount, h.leaves hp⟩

end Ledger
end PythonFlow.Sketch
