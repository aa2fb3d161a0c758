import PythonFlow.Proofs.Census.Owner
import PythonFlow.Proofs.Course.Located
import PythonFlow.Proofs.Frame.Gate

/-!
# The one visit of a node

A node that no rule opens for itself is visited once at most. What a build makes inside it is made in
that visit, and what has been made there stays as the visit leaves it: but for the headers of loops, no
edge is led to it afterwards. So the predecessors of such an instruction can be read off one visit.
-/

set_option autoImplicit false

namespace PythonFlow

theorem InstructionGraph.label_eq (g : InstructionGraph) {id : InstructionId} (h : id.index < g.size) :
    g.labels[id.index]? = some ((g.instruction id).element, (g.instruction id).kind) := by
  simp [g.labels_eq, ids_eq, positions, h]

namespace Sketch

def label (k : Sketch) (id : InstructionId) : Option (Option NodeId × InstructionKind) := k.made[id.index]?

def Untouched (t : SyntaxTree) (s : NodeId) (k : Sketch) : Prop :=
  ∀ id el, k.element id = some el → ¬ t.Inside el s

def Targeted (k : Sketch) : Prop := ∀ a b, k.Edge a b → b.index < k.size

structure Clear (t : SyntaxTree) (s : NodeId) (k : Sketch) : Prop extends Sound t s k where
  untouched : Untouched t s k
  targeted : Targeted k

/-- The instruction was made inside `T`, and not for a loop. -/
def Enclosed (t : SyntaxTree) (T : NodeId) (k : Sketch) (id : InstructionId) : Prop :=
  ∃ el, k.element id = some el ∧ t.Inside el T ∧ (t.kind el).isLoop = false

/-- From `k` to `k'` nothing is done about what is made inside `T`, and nothing is added to it. -/
structure Spares (t : SyntaxTree) (T : NodeId) (k k' : Sketch) : Prop where
  later : Later k k'
  made : k.made <+: k'.made
  beside : ∀ id, New k k' id → ¬ Enclosed t T k' id
  closed : ∀ a b, Enclosed t T k b → k'.Edge a b → k.Edge a b

/-- Since `k` nothing has been made inside `T`, or else in one visit of `T`. -/
def Once (t : SyntaxTree) (T : NodeId) (k k' : Sketch) : Prop :=
  (∀ id, New k k' id → ¬ Enclosed t T k' id) ∨
    ∃ depth k0, Clear t T k0 ∧ Spares t T (visit t (depth + 1) T k0) k' ∧
      ∀ id, New k k' id → Enclosed t T k' id → New k0 (visit t (depth + 1) T k0) id

section label
variable {t : SyntaxTree} {k k' : Sketch} {id : InstructionId} {el : Option NodeId} {kind : InstructionKind}

theorem element_of_label (h : k.label id = some (el, kind)) : k.element id = el := by
  rw [element, ← label, h]
  rfl

theorem lt_size_of_label {l : Option NodeId × InstructionKind} (h : k.label id = some l) : id.index < k.size :=
  (List.getElem?_eq_some_iff.1 h).1

theorem label_of_made (h : k.made <+: k'.made) (hid : id.index < k.size) : k'.label id = k.label id := by
  obtain ⟨rest, hrest⟩ := h
  rw [label, ← hrest, List.getElem?_append_left hid, label]

theorem prefix_place (k : Sketch) (el : Option NodeId) (kind : InstructionKind) :
    k.made <+: (k.place t el kind).made := List.prefix_append _ _

theorem label_place_next : (k.place t el kind).label k.next = some (el, kind) :=
  List.getElem?_concat_length

theorem label_place_of_lt (h : id.index < k.size) : (k.place t el kind).label id = k.label id :=
  label_of_made (prefix_place k el kind) h

end label

section spares
variable {t : SyntaxTree} {T s c : NodeId} {k k1 k2 : Sketch} {id : InstructionId}

theorem Enclosed.later (h : Enclosed t T k id) (hle : Later k k1) : Enclosed t T k1 id := by
  obtain ⟨el, hel, h⟩ := h
  exact ⟨el, (hle.element (lt_size_of_element hel)).trans hel, h⟩

theorem Enclosed.earlier (h : Enclosed t T k1 id) (hle : Later k k1) (hid : id.index < k.size) :
    Enclosed t T k id := by
  obtain ⟨el, hel, h⟩ := h
  exact ⟨el, (hle.element hid).symm.trans hel, h⟩

theorem New.old_or_new (h : New k k2 id) (k1 : Sketch) : New k k1 id ∨ New k1 k2 id := by
  by_cases hid : id.index < k1.size
  · exact .inl ⟨h.1, hid⟩
  · exact .inr ⟨Nat.le_of_not_lt hid, h.2⟩

/-- A visit leads no edge to what was there before, but for headers of loops. -/
theorem Visited.edge_old (ho : t.Ordered) (hv : Visited t c k k1) {a b : InstructionId} {el : NodeId}
    (hel : k.element b = some el) (hloop : (t.kind el).isLoop = false) (hab : k1.Edge a b) : k.Edge a b := by
  rcases hv with rfl | ⟨hG, -⟩
  · exact hab
  have hold := lt_size_of_element hel
  rcases hG.origin a b hab with h | ⟨-, rfl⟩ | ⟨-, hb, -⟩ | ⟨-, x, l, -, -, hl, hlatest⟩
  · exact h
  · exact absurd hold (Nat.lt_irrefl _)
  · exact absurd hold (Nat.not_lt_of_le hb.1)
  · -- A jump leads to the header of a loop.
    obtain rfl := Option.some.inj (hel.symm.trans (latest_some hlatest).2)
    rw [(ho.enclosing_loop_above hl).2.1] at hloop
    cases hloop

namespace Spares

theorem refl (t : SyntaxTree) (T : NodeId) (k : Sketch) : Spares t T k k :=
  ⟨.refl k, List.prefix_rfl, fun _ hid => absurd hid.2 (Nat.not_lt_of_le hid.1), fun _ _ _ h => h⟩

theorem trans (h : Spares t T k k1) (h' : Spares t T k1 k2) : Spares t T k k2 where
  later := h.later.trans h'.later
  made := h.made.trans h'.made
  beside := by
    intro id hid hset
    rcases hid.old_or_new k1 with hold | hnew
    · exact h.beside id hold (hset.earlier h'.later hold.2)
    · exact h'.beside id hnew hset
  closed := fun a b hb hab => h.closed a b hb (h'.closed a b (hb.later h.later) hab)

/-- A step that makes no instruction, and leads no edge to what is there. -/
theorem of_made (hle : Later k k1) (hmade : k1.made = k.made)
    (hclosed : ∀ a b, Enclosed t T k b → k1.Edge a b → k.Edge a b) : Spares t T k k1 where
  later := hle
  made := hmade ▸ List.prefix_rfl
  beside := fun id hid => by
    have hsize : k1.size = k.size := congrArg List.length hmade
    exact absurd hid.2 (Nat.not_lt_of_le (hsize ▸ hid.1))
  closed := hclosed

theorem place {el : Option NodeId} (hel : ∀ x, el = some x → ¬ t.Inside x T) (kind : InstructionKind) :
    Spares t T k (k.place t el kind) where
  later := (Later.refl k).place el kind
  made := prefix_place k el kind
  beside := by
    rintro id hid ⟨x, hx, hin, -⟩
    rcases eq_next_of_new hid with rfl | hold
    · exact hel x (element_place_next.symm.trans hx) hin
    · exact absurd hold.2 (Nat.not_lt_of_le hold.1)
  closed := by
    rintro a b ⟨x, hx, -⟩ hab
    rcases (edge_place k t el kind a b).1 hab with hab | ⟨-, rfl⟩
    · exact hab
    · exact absurd (lt_size_of_element hx) (Nat.lt_irrefl _)

/-- A visit at which nothing stands inside `T`. -/
theorem visited (ho : t.Ordered) (hv : Visited t c k k1) (hmade : k.made <+: k1.made)
    (hcT : ¬ t.Inside c T) (hTc : ¬ t.Below T c) : Spares t T k k1 := by
  refine ⟨hv.later, hmade, ?_, fun a b ⟨el, hel, _, hloop⟩ hab => hv.edge_old ho hel hloop hab⟩
  rintro id hid ⟨el, hel, hin, -⟩
  rcases hv with rfl | ⟨hG, -⟩
  · exact absurd hid.2 (Nat.not_lt_of_le hid.1)
  obtain ⟨x, hx, hb⟩ := hG.element_new id hid
  obtain rfl := Option.some.inj (hx.symm.trans hel)
  rcases ho.below_total hb hin.1 with h | h
  · rcases SyntaxTree.below_iff_eq_or_inside.1 h with rfl | h
    · exact hTc (t.below_refl c)
    · exact hcT h
  · exact hTc h

end Spares

namespace Once

theorem extend (h : Once t T k k1) (hs : Spares t T k1 k2) : Once t T k k2 := by
  have hold : ∀ id, New k k2 id → Enclosed t T k2 id → New k k1 id ∧ Enclosed t T k1 id := by
    intro id hid hset
    rcases hid.old_or_new k1 with hold | hnew
    · exact ⟨hold, hset.earlier hs.later hold.2⟩
    · exact absurd hset (hs.beside id hnew)
  rcases h with h | ⟨depth, k0, hclear, hspares, hnew⟩
  · exact .inl fun id hid hset => h id (hold id hid hset).1 (hold id hid hset).2
  · exact .inr ⟨depth, k0, hclear, hspares.trans hs, fun id hid hset =>
      hnew id (hold id hid hset).1 (hold id hid hset).2⟩

/-- What came before is not inside `T`. -/
theorem earlier (h : Once t T k1 k2) (hle : Later k1 k2) (hk : Untouched t T k1) : Once t T k k2 := by
  have hnew : ∀ id, New k k2 id → Enclosed t T k2 id → New k1 k2 id := by
    intro id hid hset
    refine (hid.old_or_new k1).resolve_left fun hold => ?_
    obtain ⟨el, hel, hin, -⟩ := hset.earlier hle hold.2
    exact hk id el hel hin
  rcases h with h | ⟨depth, k0, hclear, hspares, hall⟩
  · exact .inl fun id hid hset => h id (hnew id hid hset) hset
  · exact .inr ⟨depth, k0, hclear, hspares, fun id hid hset => hall id (hnew id hid hset) hset⟩

end Once
end spares

section course
variable {t : SyntaxTree} {V : Visitor} {T s : NodeId} {plan R : List NodeId} {k k1 : Sketch}
  (hr : Ready t V s plan k)
include hr

namespace Course

/-- Nothing has been made inside the nodes still to be visited. -/
theorem untouched (hk : Untouched t s k) (h : Course t V s plan k R k1) : ∀ c ∈ R, Untouched t c k1 := by
  have ho := hr.ordered
  induction h with
  | start =>
    exact fun c hc id el hel hin => hk id el hel (ho.inside_of_inside_below hin (hr.direct c hc).1.1)
  | @place R k1 h x kind hsite ih =>
    intro c hc id el hel
    rw [element_place] at hel
    split at hel
    · have hc := h.suffix.subset hc
      exact Option.some.inj hel ▸ hsite.beside ho (hr.direct c hc).1 fun d hd => not_inside_planned hr hd hc
    · exact ih c hc id el hel
  | @visit c R k1 h ih =>
    intro d hd id el hel hin
    have hapart := (List.pairwise_cons.1 (hr.apart.sublist h.suffix.sublist)).1 d hd
    rcases h.visited hr with heq | ⟨hG, -⟩
    · rw [heq] at hel
      exact ih d (List.mem_cons_of_mem c hd) id el hel hin
    · by_cases hold : id.index < k1.size
      · rw [hG.element_old id hold] at hel
        exact ih d (List.mem_cons_of_mem c hd) id el hel hin
      · obtain ⟨x, hx, hb⟩ := hG.element_new id ⟨Nat.le_of_not_lt hold, lt_size_of_element hel⟩
        exact hapart el (Option.some.inj (hx.symm.trans hel) ▸ hb) hin.1
  | _ => assumption

theorem targeted (hk : Targeted k) (h : Course t V s plan k R k1) : Targeted k1 := by
  induction h with
  | start => exact hk
  | @place R k1 h el kind hsite ih =>
    intro a b hab
    rw [size_place]
    rcases (edge_place k1 t (some el) kind a b).1 hab with hab | ⟨-, rfl⟩
    · exact Nat.lt_succ_of_lt (ih a b hab)
    · exact Nat.lt_succ_self k1.size
  | linked h hl hx hat ih =>
    intro a b hab
    rcases (edge_linked _ a b _ _).1 hab with hab | ⟨-, rfl⟩
    · exact ih a b hab
    · exact hat.lt
  | visit h ih =>
    rcases h.visited hr with heq | ⟨hG, -⟩
    · rw [heq]
      exact ih
    · intro a b hab
      rcases hG.origin a b hab with hab | ⟨-, rfl⟩ | ⟨-, hb, -⟩ | ⟨-, c, l, -, -, -, hlatest⟩
      · exact Nat.lt_trans (ih a b hab) hG.size_lt
      · exact hG.size_lt
      · exact hb.2
      · exact Nat.lt_trans (latest_some hlatest).1 hG.size_lt
  | _ => assumption

theorem clear {c : NodeId} (hk : Clear t s k) (h : Course t V s plan k (c :: R) k1) : Clear t c k1 where
  toSound := h.sound hr hk.sourced
  untouched := h.untouched hr hk.untouched c List.mem_cons_self
  targeted := h.targeted hr hk.targeted

/-- What has been made is only added to, if the visits do so. -/
theorem made (hk : Sourced k) (hV : ∀ c ∈ plan, ∀ k, Sound t c k → k.made <+: (V c k).made)
    (h : Course t V s plan k R k1) : k.made <+: k1.made := by
  induction h with
  | start => exact List.prefix_rfl
  | place h hsite ih => exact ih.trans (prefix_place _ _ _)
  | visit h ih => exact ih.trans (hV _ h.head_mem _ (h.sound hr hk))
  | _ => assumption

/-- On an outcome an instruction is made inside the node only. -/
theorem chosen (hV : ∀ c ∈ plan, ∀ k, Sound t c k → k.made <+: (V c k).made) (hk : Sourced k)
    (h : Course t V s plan k R k1) {id : InstructionId} {el : NodeId} {co : Option NodeId} {o : Bool}
    (hid : New k k1 id) (hlabel : k1.label id = some (some el, .conditional co o)) : t.Inside el s := by
  induction h with
  | start => exact absurd hid.2 (Nat.not_lt_of_le hid.1)
  | place h hsite ih =>
    rcases eq_next_of_new hid with rfl | hold
    · rw [label_place_next] at hlabel
      cases hlabel
      exact hsite.chosen co o rfl
    · exact ih hold ((label_place_of_lt hold.2).symm.trans hlabel)
  | @visit c R k1 h ih =>
    rcases hid.old_or_new k1 with hold | hnew
    · exact ih hold ((label_of_made (hV c h.head_mem k1 (h.sound hr hk)) hold.2).symm.trans hlabel)
    · rcases h.visited hr with heq | ⟨hG, -⟩
      · rw [heq] at hnew
        exact absurd hnew.2 (Nat.not_lt_of_le hnew.1)
      · obtain ⟨x, hx, hb⟩ := hG.element_new id hnew
        obtain rfl := Option.some.inj (hx.symm.trans (element_of_label hlabel))
        exact hr.ordered.inside_of_below_inside hb (hr.direct c h.head_mem).1
  | _ => rename_i ih; exact ih hid hlabel

/-- Where the plan has nothing inside `T`, a course visits `T` once at most. -/
theorem once (hk : Clear t s k) (hV : ∀ c ∈ plan, ∀ k, Sound t c k → k.made <+: (V c k).made)
    (hT : t.Inside T s) (hplan : ∀ d ∈ plan, ¬ t.Inside d T)
    (hvisit : ∀ c ∈ plan, t.Below T c → ∀ k, Clear t c k → Once t T k (V c k))
    (h : Course t V s plan k R k1) : Once t T k k1 := by
  have ho := hr.ordered
  have hnone : ∀ {k}, Once t T k k := .inl fun _ hid => absurd hid.2 (Nat.not_lt_of_le hid.1)
  induction h with
  | start => exact hnone
  | place h hsite ih =>
    exact ih.extend (.place (fun x hx => Option.some.inj hx ▸ hsite.beside ho hT hplan) _)
  | moved h hc ih => exact ih.extend (.of_made ((Later.refl _).moved _) rfl fun _ _ _ h => h)
  | @linked R k1 h x l hl hx hat ih =>
    refine ih.extend (.of_made ((Later.refl _).linked _ _) rfl fun a b hset hab => ?_)
    refine ((edge_linked k1 a b x l).1 hab).resolve_right ?_
    rintro ⟨-, rfl⟩
    obtain ⟨el, hel, hin, hloop⟩ := hset
    obtain ⟨y, hy, hmeets⟩ := hat
    obtain rfl := Option.some.inj (hel.symm.trans hy)
    rcases hmeets with hmeets | hmeets
    · rw [hmeets] at hloop
      cases hloop
    · exact hplan el hmeets hin
  | pended h ho' hl ih => exact ih.extend (.of_made ((Later.refl _).pended _ _) rfl fun _ _ _ h => h)
  | drained h hn ih => exact ih.extend (.of_made ((Later.refl _).drained _) rfl fun _ _ _ h => h)
  | rescoped h hn ho' ih => exact ih.extend (.of_made ((Later.refl _).rescoped _ _) rfl fun _ _ _ h => h)
  | @visit c R k1 h ih =>
    have hmem := h.head_mem
    have hclear := h.clear hr hk
    by_cases hTc : t.Below T c
    · exact (hvisit c hmem hTc k1 hclear).earlier (h.visited hr).later fun id el hel hin =>
        hclear.untouched id el hel (ho.inside_of_inside_below hin hTc)
    · exact ih.extend (.visited ho (h.visited hr) (hV c hmem k1 hclear.toSound) (hplan c hmem) hTc)

end Course
end course

section visit
variable {t : SyntaxTree} (hg : t.Grammatical) {T s : NodeId} {k : Sketch}
include hg

theorem made_visit (depth : Nat) (hk : Sound t s k) : k.made <+: (visit t depth s k).made := by
  induction depth generalizing s k with
  | zero => exact prefix_place (t := t) k (some s) .plain
  | succ depth ih =>
    obtain ⟨k1, hcourse, -, hmade, -⟩ := course_visit hg depth hk
    rw [hmade]
    exact hcourse.made (ready_followed hg depth hk) hk.sourced fun _ _ _ hk => ih hk

/-- On an outcome a visit makes instructions inside the node only. -/
theorem inside_of_chosen (depth : Nat) (hk : Sound t s k) {id : InstructionId} {el : NodeId}
    {co : Option NodeId} {o : Bool} (hid : New k (visit t depth s k) id)
    (hlabel : (visit t depth s k).label id = some (some el, .conditional co o)) : t.Inside el s := by
  cases depth with
  | zero =>
    rcases eq_next_of_new (k := { k with truncated := s :: k.truncated }) hid with rfl | hold
    · cases (label_place_next (k := { k with truncated := s :: k.truncated })).symm.trans hlabel
    · exact absurd hold.2 (Nat.not_lt_of_le hold.1)
  | succ depth =>
    obtain ⟨k1, hcourse, -, hmade, -⟩ := course_visit hg depth hk
    unfold New size label at *
    rw [hmade] at hid hlabel
    exact hcourse.chosen (ready_followed hg depth hk) (fun _ _ _ hk => made_visit hg depth hk) hk.sourced
      hid hlabel

/-- A node that no rule opens for itself has no followed node inside it but those that it follows. -/
theorem not_inside_of_followed (hopened : (t.kind T).isOpened = false) (hT : t.Inside T s) {d : NodeId}
    (hd : d ∈ t.followed s) : ¬ t.Inside d T := by
  have ho := hg.ordered
  intro hin
  rcases SyntaxTree.followed_cases hd with hchild | ⟨p, hp, hk, hchild⟩
  · exact ho.not_below_of_inside hT (ho.below_of_inside_parent (ho.parent_of_mem hchild) hin)
  · rcases SyntaxTree.below_iff_eq_or_inside.1 (ho.below_of_inside_parent (ho.parent_of_mem hchild) hin)
      with rfl | hpT
    · rw [hk] at hopened
      cases hopened
    · exact ho.not_below_of_inside hT (ho.below_of_inside_parent (ho.parent_of_mem hp) hpT)

/-- In a visit, a node that no rule opens for itself is visited once at most. -/
theorem once_visit (hopened : (t.kind T).isOpened = false) (depth : Nat) (hT : t.Below T s)
    (hk : Clear t s k) : Once t T k (visit t depth s k) := by
  have ho := hg.ordered
  induction depth generalizing s k with
  | zero =>
    refine .inl fun id hid hset => ?_
    obtain ⟨el, hel, hin, -⟩ := hset
    rcases eq_next_of_new (k := { k with truncated := s :: k.truncated }) hid with rfl | hold
    · obtain rfl := Option.some.inj
        ((element_place_next (k := { k with truncated := s :: k.truncated })).symm.trans hel)
      exact ho.not_below_of_inside hin hT
    · exact absurd hold.2 (Nat.not_lt_of_le hold.1)
  | succ depth ih =>
    rcases SyntaxTree.below_iff_eq_or_inside.1 hT with rfl | hin
    · exact .inr ⟨depth, k, hk, .refl _ _ _, fun _ hid _ => hid⟩
    · obtain ⟨k1, hcourse, hle, hmade, hend⟩ := course_visit hg depth hk.toSound
      have honce := hcourse.once (ready_followed hg depth hk.toSound) hk
        (fun _ _ _ hk => made_visit hg depth hk) hin
        (fun _ hd => not_inside_of_followed hg hopened hin hd) fun c _ hTc k' hk' => ih hTc hk'
      refine honce.extend (.of_made hle hmade fun a b hset hab => (hend a b hab).resolve_right ?_)
      rintro ⟨p, hp, hel⟩
      obtain ⟨x, hx, hxT, -⟩ := hset
      obtain rfl := Option.some.inj (hx.symm.trans hel)
      exact ho.not_below_of_inside hin (ho.below_of_inside_parent (ho.parent_of_mem hp) hxT)

end visit

/-- The graph shows what the sketch `k` has made since `k0`, and inside `T`, but for headers of loops,
nothing else and no other edges to it. -/
structure Shows (t : SyntaxTree) (T : NodeId) (k0 k : Sketch) (f : ControlFlow) : Prop where
  labels : k.made <+: f.graph.labels
  new : ∀ id el, (f.graph.instruction id).element = some el → t.Inside el T →
    (t.kind el).isLoop = false → New k0 k id
  edge : ∀ id el, (f.graph.instruction id).element = some el → t.Inside el T →
    (t.kind el).isLoop = false → ∀ a, f.graph.Edge a id ↔ k.Edge a id

namespace Shows
variable {t : SyntaxTree} {T : NodeId} {k0 k : Sketch} {f : ControlFlow} (h : Shows t T k0 k f)
  {id : InstructionId}
include h

theorem lt_size (hid : id.index < k.size) : id.index < f.graph.size := by
  rw [← f.graph.length_labels]
  exact Nat.lt_of_lt_of_le hid h.labels.length_le

theorem label (hid : id.index < k.size) :
    k.label id = some ((f.graph.instruction id).element, (f.graph.instruction id).kind) := by
  obtain ⟨rest, hrest⟩ := h.labels
  rw [← f.graph.label_eq (h.lt_size hid), ← hrest, List.getElem?_append_left hid, Sketch.label]

theorem element (hid : id.index < k.size) : (f.graph.instruction id).element = k.element id :=
  (element_of_label (h.label hid)).symm

end Shows

section owner
variable {t : SyntaxTree} (hg : t.Grammatical) {depth : Nat} {owner T : NodeId} {f : ControlFlow}

theorem clear_opening (t : SyntaxTree) (owner : NodeId) : Clear t owner (opening t) where
  fresh := fresh_opening t owner
  cursor := fun x hx => Option.some.inj hx ▸ next_lt_place t blank none .plain
  sourced := sourced_opening t
  untouched := fun id el hel => by
    rw [element_opening] at hel
    cases hel
  targeted := fun a b hab => absurd hab (not_edge_opening t a b)

include hg

variable (depth) in
theorem once_interior (howner : (t.kind owner).isOwner = true) (hT : t.Inside T owner)
    (hopened : (t.kind T).isOpened = false) : Once t T (opening t) (interior t depth owner) := by
  have ho := hg.ordered
  refine (course_interior depth howner).once (ready_opening hg) (clear_opening t owner)
    (fun _ _ _ hk => made_visit hg depth hk) hT (fun d hd hin => ?_) fun c _ hTc k hk =>
      once_visit hg hopened depth hTc hk
  exact ho.not_below_of_inside hT (ho.below_of_inside_parent (ho.parent_of_mem hd) hin)

/-- The graph of an owner has no instructions but for the owner's code. -/
theorem Describes.element_below (h : Describes t depth owner f) {id : InstructionId} {el : NodeId}
    (hel : (f.graph.instruction id).element = some el) : t.Below el owner := by
  rw [h.element_eq] at hel
  have hel := element_interior hel
  obtain ⟨x, hx, hb⟩ := (grown_of_element hg hel).element_new id (new_of_element hg hel)
  exact Option.some.inj (hx.symm.trans hel) ▸ hb

/-- On an outcome it has instructions only for what is inside the owner. -/
theorem Describes.inside_of_chosen (h : Describes t depth owner f) (howner : (t.kind owner).isOwner = true)
    {id : InstructionId} {el : NodeId} {co : Option NodeId} {o : Bool}
    (hel : (f.graph.instruction id).element = some el)
    (hkind : (f.graph.instruction id).kind = .conditional co o) : t.Inside el owner := by
  have hel' := hel
  rw [h.element_eq] at hel'
  have hnew := new_of_element hg (element_interior hel')
  have hlt : id.index < f.graph.size := by
    rw [h.size_eq]
    exact lt_size_of_element hel'
  have hlabel : (build t depth owner).label id = some (some el, .conditional co o) := by
    rw [Sketch.label, ← h.labels, f.graph.label_eq hlt, hel, hkind]
  exact (course_interior depth howner).chosen (ready_opening hg) (fun _ _ _ hk => made_visit hg depth hk)
    (sourced_opening t) hnew ((label_place_of_lt hnew.2).symm.trans hlabel)

/-- Of a node of the owner that no rule opens for itself, the graph shows one visit. -/
theorem Describes.shows (h : Describes t depth owner f) (howner : (t.kind owner).isOwner = true)
    (hT : t.Inside T owner) (hopened : (t.kind T).isOpened = false) {id : InstructionId} {el : NodeId}
    (hel : (f.graph.instruction id).element = some el) (hin : t.Inside el T)
    (hloop : (t.kind el).isLoop = false) :
    ∃ d k0, Clear t T k0 ∧ Shows t T k0 (visit t (d + 1) T k0) f := by
  have henclosed : ∀ {id el}, (f.graph.instruction id).element = some el → t.Inside el T →
      (t.kind el).isLoop = false → New (opening t) (interior t depth owner) id ∧
        Enclosed t T (interior t depth owner) id := by
    intro id el hel hin hloop
    rw [h.element_eq] at hel
    exact ⟨new_of_element hg (element_interior hel), el, element_interior hel, hin, hloop⟩
  obtain ⟨hnew, hset⟩ := henclosed hel hin hloop
  rcases once_interior hg depth howner hT hopened with hnone | ⟨d, k0, hclear, hspares, hall⟩
  · exact absurd hset (hnone id hnew)
  refine ⟨d, k0, hclear, ?_, fun id el hel hin hloop => ?_, fun id el hel hin hloop a => ?_⟩
  · rw [h.labels]
    exact hspares.made.trans (prefix_place _ none .plain)
  · obtain ⟨hnew, hset⟩ := henclosed hel hin hloop
    exact hall id hnew hset
  · obtain ⟨hnew, hset⟩ := henclosed hel hin hloop
    have hid := (hall id hnew hset).2
    rw [h.edge_iff, build, edge_place]
    constructor
    · rintro (hab | ⟨-, rfl⟩)
      · exact hspares.closed a id (hset.earlier hspares.later hid) hab
      · exact absurd hnew.2 (Nat.lt_irrefl _)
    · exact fun hab => .inl (hspares.later.edge hab)

end owner

section one
variable {t : SyntaxTree} {depth : Nat} {owner : NodeId} {f : ControlFlow}

theorem erase_dups_all {l : List InstructionId} {p : InstructionId} (hp : p ∈ l) (h : ∀ a ∈ l, a = p) :
    l.eraseDups = [p] := by
  cases l with
  | nil => cases hp
  | cons a l =>
    obtain rfl := h a List.mem_cons_self
    have hrest : l.filter (fun b => !b == a) = [] :=
      List.filter_eq_nil_iff.2 fun b hb => by simp [h b (List.mem_cons_of_mem a hb)]
    rw [List.eraseDups_cons, hrest]
    rfl

theorem Describes.mem_predecessors (h : Describes t depth owner f) {a b : InstructionId} :
    a ∈ f.graph.predecessors b ↔ f.graph.Edge a b := (h.back_iff a b).trans (h.edge_iff a b).symm

/-- An instruction to which edges lead from one other only. -/
theorem Describes.predecessors_one (h : Describes t depth owner f) {b p : InstructionId}
    (hp : ∀ a, f.graph.Edge a b ↔ a = p) : f.graph.predecessors b = [p] := by
  have hmem : ∀ a, a ∈ ((build t depth owner).edges.filter fun e => e.2 == b).map Prod.fst ↔ a = p := by
    intro a
    rw [← hp a, ← h.mem_predecessors, h.predecessors, sources, List.mem_eraseDups]
  rw [h.predecessors]
  exact erase_dups_all ((hmem p).2 rfl) fun a ha => (hmem a).1 ha

end one
end Sketch
end PythonFlow
