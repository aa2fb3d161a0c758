import PythonFlow.Proofs.Course.Located
import PythonFlow.Proofs.Reach.Visit

/-!
# How flow leaves a node

After an outcome other than the normal one flow is pending beyond the node, or has gone back to the
header of a loop, and nothing that is done at the node or below it takes that away. After the normal
outcome it stands at the cursor, or is pending on leaving what is below the node, so that it arrives at
the next one. A visit follows the runs of a node if every run is read on a walk that begins where flow
arrives and ends where the outcome says.
-/

set_option autoImplicit false

namespace PythonFlow.Sketch

/-- The instruction has been made, and for nothing that is part of a `raise`. -/
structure Free (t : SyntaxTree) (k : Sketch) (x : InstructionId) : Prop where
  made : x.index < k.size
  free : ∀ el r, k.element x = some el → t.kind r = .raiseExit → ¬ t.Below el r

def Departs (t : SyntaxTree) (s : NodeId) (k : Sketch) (x : InstructionId) : Prop :=
  k.cursor = some x ∨ ∃ sc, k.Pends (some sc) x ∧ ¬ t.Inside s sc

def Stands (t : SyntaxTree) (s : NodeId) (k : Sketch) (x : InstructionId) : Prop :=
  k.cursor = some x ∨ ∃ sc, k.Pends (some sc) x ∧ ¬ t.Below s sc

/-- Flow has left `s` at `x` by an outcome. After the normal one it stands as `D` says. -/
inductive Ended (t : SyntaxTree) (s : NodeId) (k : Sketch) (D : Prop) (x : InstructionId) :
    Outcome → Prop
  | normal (h : D) (hx : Free t k x) : Ended t s k D x .normal
  | broke {l : NodeId} (hl : (t.kind l).isLoop = true) (hin : t.Inside s l)
      (h : k.Pends (some l) x) (hx : Free t k x) : Ended t s k D x (.broke l)
  | continued {l : NodeId} {header : InstructionId} (hx : x.index < k.size)
      (hel : k.element header = some l) (h : k.Edge x header) : Ended t s k D x (.continued l)
  | returned (h : k.Pends none x) (hx : Free t k x) : Ended t s k D x .returned
  | raised {r el : NodeId} (h : k.Pends none x) (hel : k.element x = some el) (hb : t.Below el r) :
      Ended t s k D x (.raised r)

/-- The second sketch has all that was made in the first, and what was pending there beyond `s`. -/
structure Onward (t : SyntaxTree) (s : NodeId) (k k' : Sketch) : Prop extends Later k k' where
  kept : ∀ e ∈ k.pending, e.lands t (some s) = false → e ∈ k'.pending

structure Begun (t : SyntaxTree) (s : NodeId) (k : Sketch) : Prop extends Sound t s k where
  headed : ∀ c l, t.Below c s → t.kind c = .continueJump → t.enclosingLoop c = some l →
    t.Inside s l → k.Has l

/-- From `a` a walk reads `w` and ends where flow has left `s` by the outcome, either at a new
instruction or where it began, if nothing has been made. -/
def Goes (t : SyntaxTree) (s : NodeId) (k k' : Sketch) (D : InstructionId → Prop) (a : InstructionId)
    (w : List NodeId) (o : Outcome) : Prop :=
  ∃ x, Reads t k' a w x ∧ Ended t s k' (D x) x o ∧ (New k k' x ∨ o = .normal ∧ k' = k ∧ x = a)

/-- Every run of `n` is read on a walk from wherever flow arrives at `n`. -/
def Traces (t : SyntaxTree) (V : Visitor) (n : NodeId) : Prop :=
  ∀ k w o a, Begun t n k → Run t (.node n) w o → a ∈ k.arrivals t (some n) → Free t k a →
    Goes t n k (V n k) (Departs t n (V n k)) a w o

def Unraised (t : SyntaxTree) (s : NodeId) : Prop := ∀ r, t.kind r = .raiseExit → ¬ t.Inside s r

section free
variable {t : SyntaxTree} {s c : NodeId} {k k' : Sketch} {x : InstructionId}

theorem Free.later (h : Free t k x) (hle : Later k k') : Free t k' x where
  made := Nat.lt_of_lt_of_le h.made hle.size_le
  free := fun el r hel => h.free el r ((hle.element h.made).symm.trans hel)

theorem Unraised.not_below (h : Unraised t s) (hk : t.kind s ≠ .raiseExit) {r : NodeId}
    (hr : t.kind r = .raiseExit) : ¬ t.Below s r := by
  intro hb
  rcases SyntaxTree.below_iff_eq_or_inside.1 hb with rfl | hin
  · exact hk hr
  · exact h r hr hin

theorem Unraised.child (ho : t.Ordered) (h : Unraised t s) (hk : t.kind s ≠ .raiseExit)
    (hc : c ∈ t.children s) : Unraised t c := fun _ hr hin =>
  h.not_below hk hr (ho.below_of_inside_parent (ho.parent_of_mem hc) hin)

theorem free_place (h : Unraised t s) (hk : t.kind s ≠ .raiseExit) (kind : InstructionKind) :
    Free t (k.place t (some s) kind) k.next where
  made := next_lt_place t k (some s) kind
  free := by
    intro el r hel hr
    obtain rfl := Option.some.inj (element_place_next.symm.trans hel)
    exact h.not_below hk hr

end free

namespace Onward
variable {t : SyntaxTree} {s n c : NodeId} {k k1 k2 : Sketch}

theorem refl (t : SyntaxTree) (s : NodeId) (k : Sketch) : Onward t s k k :=
  ⟨.refl k, fun _ he _ => he⟩

theorem trans (h : Onward t s k k1) (h' : Onward t s k1 k2) : Onward t s k k2 :=
  ⟨h.toLater.trans h'.toLater, fun e he hl => h'.kept e (h.kept e he hl) hl⟩

variable (h : Onward t s k k1)
include h

theorem moved (o : Option InstructionId) : Onward t s k (k1.moved o) := ⟨h.toLater.moved o, h.kept⟩

theorem linked (x : InstructionId) (l : List InstructionId) : Onward t s k (k1.linked x l) :=
  ⟨h.toLater.linked x l, h.kept⟩

theorem pended (o : Option NodeId) (l : List InstructionId) : Onward t s k (k1.pended o l) :=
  ⟨h.toLater.pended o l, fun e he hl => (mem_pending_pended k1 e o l).2 (.inl (h.kept e he hl))⟩

variable (ho : t.Ordered)
include ho

theorem place (hn : t.Below n s) (kind : InstructionKind) :
    Onward t s k (k1.place t (some n) kind) := by
  refine ⟨h.toLater.place _ _, fun e he hl => ?_⟩
  refine (mem_pending_place k1 t (some n) kind e).2 ⟨h.kept e he hl, stays_iff.2 fun sc hsc => ?_⟩
  exact ho.below_trans hn (stays_iff.1 hl sc hsc)

theorem drained (hn : t.Inside n s) : Onward t s k (k1.drained t n) := by
  refine ⟨h.toLater.drained n, fun e he hl => ?_⟩
  exact (mem_pending_drained k1 t e n).2 ⟨h.kept e he hl, old_not_within ho hn e hl⟩

theorem rescoped (hn : t.Inside n s) (o : Option NodeId) : Onward t s k (k1.rescoped t n o) := by
  refine ⟨h.toLater.rescoped n o, fun e he hl => ?_⟩
  refine (mem_pending_rescoped k1 t e n o).2 ⟨e, h.kept e he hl, ?_⟩
  rw [rescope, old_not_within ho hn e hl, if_neg Bool.false_ne_true]

theorem visited (hc : t.Below c s) (hv : Visited t c k1 k2) : Onward t s k k2 := by
  refine ⟨h.toLater.trans hv.later, fun e he hl => ?_⟩
  rcases hv with rfl | ⟨hG, -⟩
  · exact h.kept e he hl
  · refine hG.kept e (h.kept e he hl) (stays_iff.2 fun sc hsc => ?_)
    exact ho.below_trans hc (stays_iff.1 hl sc hsc)

end Onward

section pends
variable {t : SyntaxTree} {s c l : NodeId} {k k' : Sketch} {x : InstructionId}

theorem Onward.unscoped (h : Onward t s k k') (hx : k.Pends none x) : k'.Pends none x :=
  h.kept _ hx rfl

theorem Onward.pends (h : Onward t s k k') (hl : t.Below s l) (hx : k.Pends (some l) x) :
    k'.Pends (some l) x := h.kept _ hx (stays_iff.2 fun _ hsc => Option.some.inj hsc ▸ hl)

end pends

namespace Ended
variable {t : SyntaxTree} {s c : NodeId} {k k1 k2 : Sketch} {D D' : Prop} {x : InstructionId}
  {o : Outcome}

theorem mono (h : Ended t s k D x o) (hD : D → D') : Ended t s k D' x o := by
  cases h with
  | normal h hx => exact .normal (hD h) hx
  | broke hl hin h hx => exact .broke hl hin h hx
  | continued hx hel h => exact .continued hx hel h
  | returned h hx => exact .returned h hx
  | raised h hel hb => exact .raised h hel hb

theorem stands (h : Ended t s k D x .normal) : D ∧ Free t k x := by
  cases h with
  | normal h hx => exact ⟨h, hx⟩

/-- Only after the normal outcome it matters where flow stands. -/
theorem departed (h : Ended t s k D x o) (hne : o ≠ .normal) : Ended t s k D' x o := by
  cases h with
  | normal => exact absurd rfl hne
  | broke hl hin h hx => exact .broke hl hin h hx
  | continued hx hel h => exact .continued hx hel h
  | returned h hx => exact .returned h hx
  | raised h hel hb => exact .raised h hel hb

/-- What has been left at a node stays so while its rule goes on. -/
theorem onward (h : Ended t s k1 D x o) (hle : Onward t s k1 k2) (hD : D → D') :
    Ended t s k2 D' x o := by
  cases h with
  | normal h hx => exact .normal (hD h) (hx.later hle.toLater)
  | broke hl hin h hx => exact .broke hl hin (hle.pends hin.1 h) (hx.later hle.toLater)
  | continued hx hel h =>
    exact .continued (Nat.lt_of_lt_of_le hx hle.size_le)
      ((hle.element (lt_size_of_element hel)).trans hel) (hle.edge h)
  | returned h hx => exact .returned (hle.unscoped h) (hx.later hle.toLater)
  | raised h hel hb =>
    exact .raised (hle.unscoped h) ((hle.element (lt_size_of_element hel)).trans hel) hb

/-- An outcome that is not normal is passed on to the node above, unless it ends there. -/
theorem rise (h : Ended t c k1 D x o) (hne : o ≠ .normal) (ho : t.Ordered) (hd : Direct t s c)
    (hl : o ≠ .broke s) (hle : Onward t s k1 k2) : Ended t s k2 D' x o := by
  cases h with
  | normal => exact absurd rfl hne
  | @broke l hloop hin h hx =>
    have hsl : t.Inside s l :=
      (hd.loop_above ho hloop hin).resolve_left fun heq => hl (heq ▸ rfl)
    exact .broke hloop hsl (hle.pends hsl.1 h) (hx.later hle.toLater)
  | continued hx hel h => exact (Ended.continued (D := D') hx hel h).onward hle id
  | returned h hx => exact (Ended.returned (D := D') h hx).onward hle id
  | raised h hel hb => exact (Ended.raised (D := D') h hel hb).onward hle id

/-- The outcome of a node is that of the node above, unless it ends there. -/
theorem pass (h : Ended t c k1 D x o) (ho : t.Ordered) (hd : Direct t s c) (hl : o ≠ .broke s)
    (hle : Onward t s k1 k2) (hD : D → D') : Ended t s k2 D' x o := by
  by_cases hnormal : o = .normal
  · subst hnormal
    obtain ⟨hx, hfree⟩ := h.stands
    exact .normal (hD hx) (hfree.later hle.toLater)
  · exact h.rise hnormal ho hd hl hle

end Ended

section begun
variable {t : SyntaxTree} {s c d : NodeId} {V : Visitor} {k k0 k1 : Sketch}

/-- What a visit finds below a node on which a visit has begun. -/
theorem begun_below (ho : t.Ordered) (hs : Begun t s k) (hd : Direct t s c)
    (hloop : (t.kind s).isLoop = false) : Begun t c k where
  fresh := fresh_below ho hs.fresh hd.1.1
  cursor := hs.cursor
  sourced := hs.sourced
  headed := by
    intro x l hx hk hl hcl
    have hll := (ho.enclosing_loop_above hl).2.1
    refine hs.headed x l (ho.below_trans hx hd.1.1) hk hl ((hd.loop_above ho hll hcl).resolve_left ?_)
    rintro rfl
    rw [hll] at hloop
    cases hloop

theorem loose_range (hs : Sound t s k) {x : InstructionId} (hx : k.Loose x) : x.index < k.size := by
  rcases hx with hx | ⟨e, he, rfl⟩
  · exact hs.cursor x hx
  · exact hs.fresh.ranged e he

theorem sound_grown (hG : Grown t s k0 k) (hs : Sound t s k0) (hf : Fresh t c k) : Sound t c k where
  fresh := hf
  cursor := fun x hx => (hG.cursor_live x hx).1.2
  sourced := by
    intro a b hab
    rcases hG.origin a b hab with hab | ⟨ha, -⟩ | ⟨ha, -⟩ | ⟨ha, -⟩
    · exact Nat.lt_trans (hs.sourced a b hab) hG.size_lt
    · exact Nat.lt_trans (loose_range hs (loose_of_arrival ha)) hG.size_lt
    · exact ha.2
    · exact ha.2

/-- What a visit finds that begins in the course of another. -/
theorem begun_grown (ho : t.Ordered) (hs : Begun t s k0) (hG : Grown t s k0 k) (hd : Direct t s c)
    (hf : Fresh t c k) : Begun t c k where
  toSound := sound_grown hG hs.toSound hf
  headed := by
    intro x l hx hk hl hcl
    have hll := (ho.enclosing_loop_above hl).2.1
    rcases hd.loop_above ho hll hcl with rfl | hsl
    · exact ⟨k0.next, hG.headed hll⟩
    · exact hG.later.has (hs.headed x l (ho.below_trans hx hd.1.1) hk hl hsl)

/-- What a visit finds after the visit of another node apart from it. -/
theorem begun_visited (ho : t.Ordered) (hd : Begun t d k) (hc : Begun t c k) (hv : Visited t c k k1)
    (hapart : Apart t d c) : Begun t d k1 := by
  have hf := fresh_visited hd.fresh ho hv hapart
  rcases hv with rfl | ⟨hG, -⟩
  · exact hd
  · exact ⟨sound_grown hG hc.toSound hf, fun x l hx hk hl hin =>
      hG.later.has (hd.headed x l hx hk hl hin)⟩

end begun

section stands
variable {t : SyntaxTree} (ho : t.Ordered) {s c : NodeId} {k : Sketch} {x : InstructionId}
include ho

theorem Departs.stands (hc : c ∈ t.children s) (h : Departs t c k x) : Stands t s k x := by
  refine h.imp_right fun ⟨sc, hx, hin⟩ => ⟨sc, hx, fun hb => hin ?_⟩
  exact ho.inside_of_inside_below (inside_of_mem ho hc) hb

omit ho in
theorem Stands.departs (h : Stands t s k x) : Departs t s k x :=
  h.imp_right fun ⟨sc, hx, hb⟩ => ⟨sc, hx, fun hin => hb hin.1⟩

omit ho in
theorem departs_of_pends (h : k.Pends (some s) x) : Departs t s k x := .inr ⟨s, h, fun hin => hin.2 rfl⟩

/-- Flow that stands between the children arrives at the next one. -/
theorem Stands.arrives (hc : c ∈ t.children s) (hf : Fresh t c k) (h : Stands t s k x) :
    x ∈ k.arrivals t (some c) := by
  refine (mem_arrivals k t (some c) x).2 (h.imp_right fun ⟨sc, hx, hb⟩ => ?_)
  refine ⟨⟨some sc, x⟩, hx, lands_iff.2 ⟨sc, rfl, fun hcs => ?_⟩, rfl⟩
  rcases SyntaxTree.below_iff_eq_or_inside.1 hcs with rfl | hin
  · exact hf.unscoped _ hx c rfl (t.below_refl c)
  · exact hb (ho.below_of_inside_parent (ho.parent_of_mem hc) hin)

omit ho in
theorem stands_of_arrival (h : x ∈ k.arrivals t (some s)) : Stands t s k x := by
  refine ((mem_arrivals k t (some s) x).1 h).imp_right fun ⟨e, he, hl, hx⟩ => ?_
  obtain ⟨sc, hsc, hb⟩ := lands_iff.1 hl
  refine ⟨sc, ?_, hb⟩
  rw [Pends, ← hsc, ← hx]
  exact he

end stands

section each
variable {t : SyntaxTree} (ho : t.Ordered) {s : NodeId} {V : Visitor} {cs : List NodeId}
  {k : Sketch} (hcs : ∀ c ∈ cs, c ∈ t.children s) (hnodup : cs.Nodup) (hV : ∀ c ∈ cs, Grows t V c)
include ho hcs hnodup hV

theorem onward_each (hf : ∀ c ∈ cs, Fresh t c k) : Onward t s k (each V cs k) :=
  each_keeps ho hV (apart_children ho hnodup hcs) hf (P := Onward t s k) (.refl t s k)
    fun c hc k1 h hf1 => h.visited ho (inside_of_mem ho (hcs c hc)).1 (hV c hc k1 hf1)

/-- Runs of nodes side by side. An outcome that is not normal is there already when the rest of them
is visited. -/
theorem traces_each (hF : ∀ c ∈ cs, Traces t V c) (hB : ∀ c ∈ cs, Begun t c k) {w : List NodeId}
    {o : Outcome} {a : InstructionId} (h : Run t (.all cs) w o)
    (hloop : o ≠ .broke s) (ha : Stands t s k a) (hfree : Free t k a) :
    Goes t s k (each V cs k) (Stands t s (each V cs k)) a w o := by
  induction cs generalizing k w a with
  | nil =>
    obtain ⟨rfl, rfl⟩ := h.all_nil
    exact ⟨a, .here a, .normal ha hfree, .inr ⟨rfl, rfl, rfl⟩⟩
  | cons c cs ih =>
    have hc := hcs c (by simp)
    have hbegun := hB c (by simp)
    have hv := hV c (by simp) k hbegun.fresh
    obtain ⟨hne, hrest⟩ := List.nodup_cons.1 hnodup
    have hcs' : ∀ d ∈ cs, d ∈ t.children s := fun d hd => hcs d (by simp [hd])
    have hV' : ∀ d ∈ cs, Grows t V d := fun d hd => hV d (by simp [hd])
    have hB' : ∀ d ∈ cs, Begun t d (V c k) := fun d hd =>
      begun_visited ho (hB d (by simp [hd])) hbegun hv
        (apart_of_ne ho (hcs' d hd) hc fun heq => hne (heq ▸ hd))
    have hlater := onward_each ho hcs' hrest hV' fun d hd => (hB' d hd).fresh
    have harrives := ha.arrives ho hc hbegun.fresh
    cases h with
    | cons h htail =>
      obtain ⟨y, hread, hend, hnew⟩ := hF c (by simp) k _ _ a hbegun h harrives hfree
      obtain ⟨hy, hyfree⟩ := hend.stands
      obtain ⟨x, hread', hend', hnew'⟩ := ih hcs' hrest hV' (fun d hd => hF d (by simp [hd])) hB'
        htail (hy.stands ho hc) hyfree
      refine ⟨x, (hread.later hlater.toLater).trans hread', hend', ?_⟩
      rcases hnew' with hnew' | ⟨rfl, heq, rfl⟩
      · exact .inl (hnew'.earlier hv.later.size_le)
      · have heach : each V (c :: cs) k = V c k := heq
        rw [heach]
        exact hnew.imp_right fun ⟨_, hsame, hx⟩ => ⟨rfl, hsame, hx⟩
    | stop h hstop =>
      obtain ⟨x, hread, hend, hnew⟩ := hF c (by simp) k _ _ a hbegun h harrives hfree
      refine ⟨x, hread.later hlater.toLater, hend.rise hstop ho (direct_child ho hc) hloop hlater, ?_⟩
      exact .inl ((hnew.resolve_right fun h => hstop h.1).later hlater.size_le)

end each
end PythonFlow.Sketch
