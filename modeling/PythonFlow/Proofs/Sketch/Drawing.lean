import PythonFlow.Proofs.Graph.Edges
import PythonFlow.Proofs.Sketch.Rules
import PythonFlow.Proofs.Tree.Parts

/-!
# A build does what its sketch says

`Draws` relates a sketch to the state it describes, and `Yields` a step of a build to a step on
sketches. A step that yields never stops: while everything a sketch names is in range, no index is
missed, and the flag is not looked at while it is raised. Steps are put together by `Yields.bind`,
one lemma for each primitive and for each rule.
-/

set_option autoImplicit false

namespace PythonFlow.Sketch
open Build

structure Draws (k : Sketch) (st : BuildState) : Prop where
  labels : st.graph.labels = k.made
  successors : ∀ a, st.graph.successors a = k.targets a
  predecessors : ∀ b, st.graph.predecessors b = k.sources b
  pending : st.pending = k.pending
  cursor : st.cursor = k.cursor
  truncated : st.truncated = k.truncated

section draws
variable {k : Sketch} {st : BuildState} (h : Draws k st)
include h

theorem Draws.size_eq : st.graph.size = k.size := by
  rw [← st.graph.length_labels, h.labels, size]

theorem Draws.element_eq (id : InstructionId) : (st.graph.instruction id).element = k.element id := by
  rw [st.graph.element_eq, h.labels, element]

theorem Draws.edge_iff (a b : InstructionId) : st.graph.Edge a b ↔ k.Edge a b := by
  rw [InstructionGraph.Edge, h.successors, mem_targets]

end draws

structure InRange (t : SyntaxTree) (k : Sketch) : Prop where
  element : ∀ id el, k.element id = some el → el.index < t.size
  edge : ∀ a b, k.Edge a b → a.index < k.size ∧ b.index < k.size
  cursor : ∀ x, k.cursor = some x → x.index < k.size
  source : ∀ e ∈ k.pending, e.source.index < k.size
  scope : ∀ e ∈ k.pending, ∀ n, e.scope = some n → n.index < t.size

/-- Values whose instructions can be looked up in a graph of a given size. -/
class Ranged (α : Type) where
  InRange : α → Nat → Prop
  mono : ∀ {a : α} {m n : Nat}, m ≤ n → InRange a m → InRange a n

instance : Ranged Unit := ⟨fun _ _ => True, fun _ h => h⟩

instance : Ranged Bool := ⟨fun _ _ => True, fun _ h => h⟩

instance : Ranged NodeId := ⟨fun _ _ => True, fun _ h => h⟩

instance : Ranged InstructionId := ⟨fun id n => id.index < n, fun h h' => Nat.lt_of_lt_of_le h' h⟩

instance : Ranged PendingEdge :=
  ⟨fun e n => e.source.index < n, fun h h' => Nat.lt_of_lt_of_le h' h⟩

instance {α : Type} [Ranged α] : Ranged (Option α) :=
  ⟨fun o n => ∀ a, o = some a → Ranged.InRange a n, fun h h' a ha => Ranged.mono h (h' a ha)⟩

instance {α : Type} [Ranged α] : Ranged (List α) :=
  ⟨fun l n => ∀ a ∈ l, Ranged.InRange a n, fun h h' a ha => Ranged.mono h (h' a ha)⟩

instance {α β : Type} [Ranged α] [Ranged β] : Ranged (α × β) :=
  ⟨fun p n => Ranged.InRange p.1 n ∧ Ranged.InRange p.2 n,
    fun h h' => ⟨Ranged.mono h h'.1, Ranged.mono h h'.2⟩⟩

instance : Ranged Visit.Finally :=
  ⟨fun f n => Ranged.InRange f.entry n ∧ Ranged.InRange f.exits n,
    fun h h' => ⟨Ranged.mono h h'.1, Ranged.mono h h'.2⟩⟩

/-- Where `k` describes the state, the step gives `a`, and `k'` describes the state it leaves. -/
def Yields {α : Type} [Ranged α] (t : SyntaxTree) (raised : Bool) (p : Build α) (k : Sketch)
    (a : α) (k' : Sketch) : Prop :=
  k.InRange t → (k'.InRange t ∧ k.size ≤ k'.size ∧ Ranged.InRange a k'.size) ∧
    ∀ st, Draws k st → st.raised = raised →
      ∃ st', p.run st = (.ok a, st') ∧ Draws k' st' ∧ st'.raised = raised

theorem run_bind_ok {α β : Type} {p : Build α} (f : α → Build β) {st st' : BuildState} {a : α}
    (h : p.run st = (.ok a, st')) : (p >>= f).run st = (f a).run st' := by
  rw [ExceptT.run_bind]
  change StateT.bind p.run _ st = _
  unfold StateT.bind
  rw [h]
  rfl

section
variable {t : SyntaxTree} {r : Bool} {α β : Type} [Ranged α] [Ranged β]
  {k k' k'' : Sketch}

theorem yields_pure {a : α} (ha : Ranged.InRange a k.size) : Yields t r (pure a) k a k := fun hk =>
  ⟨⟨hk, Nat.le_refl _, ha⟩, fun st hd hr => ⟨st, rfl, hd, hr⟩⟩

theorem yields_unit : Yields t r (pure ()) k () k := yields_pure trivial

theorem Yields.bind {p : Build α} {f : α → Build β} {a : α} {b : β} (hp : Yields t r p k a k')
    (hf : k'.InRange t → k.size ≤ k'.size → Ranged.InRange a k'.size →
      Yields t r (f a) k' b k'') :
    Yields t r (p >>= f) k b k'' := by
  intro hk
  obtain ⟨⟨hk', hle, ha⟩, hrun⟩ := hp hk
  obtain ⟨⟨hk'', hle', hb⟩, hrun'⟩ := hf hk' hle ha hk'
  refine ⟨⟨hk'', by omega, hb⟩, fun st hd hr => ?_⟩
  obtain ⟨st', h1, hd', hr'⟩ := hrun st hd hr
  obtain ⟨st'', h2, hd'', hr''⟩ := hrun' st' hd' hr'
  refine ⟨st'', ?_, hd'', hr''⟩
  exact (run_bind_ok f h1).trans h2

/-- A step that reads a value and changes the state, and never stops. -/
theorem yields_of_run {p : Build α} {a : α} (v : BuildState → α) (f : BuildState → BuildState)
    (hrun : ∀ st, p.run st = (.ok (v st), f st)) (hraised : ∀ st, (f st).raised = st.raised)
    (hk : k.InRange t → k'.InRange t ∧ k.size ≤ k'.size ∧ Ranged.InRange a k'.size)
    (hd : ∀ st, Draws k st → v st = a ∧ Draws k' (f st)) : Yields t r p k a k' := by
  refine fun hin => ⟨hk hin, fun st hdr hr => ?_⟩
  obtain ⟨hv, hdr'⟩ := hd st hdr
  exact ⟨f st, by rw [hrun, hv], hdr', (hraised st).trans hr⟩

theorem Yields.discard {p : Build α} {a : α} (h : Yields t r p k a k') :
    Yields t r (Functor.discard p) k () k' :=
  Yields.bind h fun _ _ _ => yields_unit

theorem yields_check {a : α} {e : Except Fault α} (h : e = .ok a)
    (ha : Ranged.InRange a k.size) : Yields t r (check e) k a k := by
  rw [h]
  exact yields_pure ha

theorem yields_cursor : Yields t r Build.cursor k k.cursor k :=
  yields_of_run (·.cursor) id (fun _ => rfl) (fun _ => rfl) (fun h => ⟨h, Nat.le_refl _, h.cursor⟩)
    fun _ hd => ⟨hd.cursor, hd⟩

theorem yields_set_cursor {c : Option InstructionId} (hc : Ranged.InRange c k.size) :
    Yields t r (setCursor c) k () (k.moved c) := by
  refine yields_of_run (fun _ => ()) (fun st => { st with cursor := c }) (fun _ => rfl)
    (fun _ => rfl) (fun h => ⟨⟨h.element, h.edge, hc, h.source, h.scope⟩, Nat.le_refl _, trivial⟩)
    ?_
  intro st hd
  exact ⟨rfl, ⟨hd.labels, hd.successors, hd.predecessors, hd.pending, rfl, hd.truncated⟩⟩

theorem yields_abrupt : Yields t r abrupt k () (k.moved none) :=
  yields_set_cursor fun _ hx => by simp at hx

theorem yields_add_edge {a b : InstructionId} (ha : a.index < k.size) (hb : b.index < k.size) :
    Yields t r (addEdge a b) k () (k.linked b [a]) := by
  intro hin
  refine ⟨⟨?_, Nat.le_refl _, trivial⟩, fun st hd hr => ?_⟩
  · refine ⟨hin.element, ?_, hin.cursor, hin.source, hin.scope⟩
    intro x y hxy
    rcases (edge_linked k x y b [a]).1 hxy with h | ⟨hx, rfl⟩
    · exact hin.edge x y h
    · exact ⟨List.mem_singleton.1 hx ▸ ha, hb⟩
  · have hsize := hd.size_eq
    have ha' := hsize ▸ ha
    have hb' := hsize ▸ hb
    obtain ⟨⟨fresh, hok⟩, hlabels⟩ := InstructionGraph.add_edge_ok ha' hb'
    refine ⟨{ st with graph := (st.graph.addEdge a b).1 }, ?_, ?_, hr⟩
    · have hrun : (addEdge a b).run st =
          (discard (check (st.graph.addEdge a b).2)).run
            { st with graph := (st.graph.addEdge a b).1 } := rfl
      rw [hrun, hok]
      rfl
    · refine ⟨hlabels.trans hd.labels, fun x => ?_, fun x => ?_, hd.pending, hd.cursor, hd.truncated⟩
      · rw [InstructionGraph.successors_add_edge ha' hb', targets_linked, hd.successors, hd.successors]
      · rw [InstructionGraph.predecessors_add_edge ha' hb', sources_linked, hd.successors, hd.predecessors]

theorem linked_nil (b : InstructionId) : k.linked b [] = k := by simp [linked]

theorem linked_linked (b : InstructionId) (xs ys : List InstructionId) :
    (k.linked b xs).linked b ys = k.linked b (xs ++ ys) := by simp [linked]

theorem yields_add_edges {b : InstructionId} (hb : b.index < k.size) (l : List InstructionId)
    (hl : Ranged.InRange l k.size) : Yields t r (addEdges b l) k () (k.linked b l) := by
  induction l generalizing k with
  | nil =>
    rw [linked_nil]
    exact yields_unit
  | cons a l ih =>
    refine Yields.bind (yields_add_edge (hl a (by simp)) hb) fun _ _ _ => ?_
    have hrest := ih (k := k.linked b [a]) hb fun x hx => hl x (by simp [hx])
    rw [linked_linked] at hrest
    exact hrest

theorem yields_add_pending {n : Option NodeId} (hn : ∀ x, n = some x → x.index < t.size)
    {c : Option InstructionId} (hc : Ranged.InRange c k.size) :
    Yields t r (addPending n c) k () (k.pended n c.toList) := by
  refine yields_of_run (fun _ => ()) (fun st => { st with pending := st.pending.add n c })
    (fun _ => rfl) (fun _ => rfl) (fun h => ⟨⟨h.element, h.edge, h.cursor, ?_, ?_⟩, Nat.le_refl _, trivial⟩)
    ?_
  · intro e he
    rcases (mem_pending_pended k e n c.toList).1 he with he | ⟨-, he⟩
    · exact h.source e he
    · exact hc _ (Option.mem_toList.1 he)
  · intro e he x hx
    rcases (mem_pending_pended k e n c.toList).1 he with he | ⟨he, -⟩
    · exact h.scope e he x hx
    · exact hn x (he ▸ hx)
  · intro st hd
    refine ⟨rfl, hd.labels, hd.successors, hd.predecessors, ?_, hd.cursor, hd.truncated⟩
    cases c with
    | none => simp [PendingEdges.add, pended, hd.pending]
    | some x => simp [PendingEdges.add, pended, hd.pending]

theorem pended_nil (n : Option NodeId) : k.pended n [] = k := by simp [pended]

theorem pended_pended (n : Option NodeId) (xs ys : List InstructionId) :
    (k.pended n xs).pended n ys = k.pended n (xs ++ ys) := by simp [pended]

theorem yields_add_pendings {n : Option NodeId} (hn : ∀ x, n = some x → x.index < t.size)
    (l : List InstructionId) (hl : Ranged.InRange l k.size) :
    Yields t r (addPendings n l) k () (k.pended n l) := by
  induction l generalizing k with
  | nil =>
    rw [pended_nil]
    exact yields_unit
  | cons a l ih =>
    have ha : ∀ x, some a = some x → x.index < k.size := by
      intro x hx
      exact Option.some.inj hx ▸ hl a (by simp)
    refine Yields.bind (yields_add_pending hn ha) fun _ _ _ => ?_
    have hrest := ih (k := k.pended n [a]) fun x hx => hl x (by simp [hx])
    rw [pended_pended] at hrest
    exact hrest

theorem part_eq (test : PendingEdge → Except Fault Bool) (f : PendingEdge → Bool)
    (p : PendingEdges) (h : ∀ e ∈ p, test e = .ok (f e)) :
    PendingEdges.part test p = ⟨p.filter f, p.filter fun e => !f e, none⟩ := by
  induction p with
  | nil => rfl
  | cons e p ih =>
    have hrest := ih fun e he => h e (by simp [he])
    rw [PendingEdges.part, h e (by simp)]
    cases hf : f e <;> simp [hrest, hf]

theorem yields_take_part {f : PendingEdges → Parting} {g : PendingEdge → Bool}
    (hf : f k.pending = ⟨k.pending.filter g, k.pending.filter fun e => !g e, none⟩) :
    Yields t r (takePart f) k (k.pending.filter g)
      { k with pending := k.pending.filter fun e => !g e } := by
  intro hin
  refine ⟨⟨⟨hin.element, hin.edge, hin.cursor, ?_, ?_⟩, Nat.le_refl _, ?_⟩, fun st hd hr => ?_⟩
  · exact fun e he => hin.source e (List.mem_filter.1 he).1
  · exact fun e he => hin.scope e (List.mem_filter.1 he).1
  · exact fun e he => hin.source e (List.mem_filter.1 he).1
  · refine ⟨{ st with pending := k.pending.filter fun e => !g e }, ?_, ?_, hr⟩
    · rw [← hd.pending] at hf ⊢
      have hparted : (modifyGet fun st : BuildState =>
          (f st.pending, { st with pending := (f st.pending).kept }) : Build Parting).run st =
            (.ok (f st.pending), { st with pending := (f st.pending).kept }) := rfl
      unfold takePart
      rw [run_bind_ok _ hparted, hf]
      rfl
    · exact ⟨hd.labels, hd.successors, hd.predecessors, rfl, hd.cursor, hd.truncated⟩

theorem scoped_within_eq {e : PendingEdge} {n : NodeId}
    (h : ∀ x, e.scope = some x → x.index < t.size) : e.scopedWithin t n = .ok (e.within t n) := by
  obtain ⟨sc, x⟩ := e
  cases sc with
  | none => rfl
  | some sc =>
    simp only [PendingEdge.scopedWithin, SyntaxTree.descends_of_lt _ _ _ (h sc rfl)]
    congr 1
    rw [Bool.eq_iff_iff, SyntaxTree.is_descendant_of_iff]
    simp [PendingEdge.within]

theorem lands_on_eq {e : PendingEdge} {el : Option NodeId}
    (h : ∀ x, el = some x → x.index < t.size) : e.landsOn t el = .ok (e.lands t el) := by
  obtain ⟨sc, x⟩ := e
  cases el with
  | none => rfl
  | some el =>
    cases sc with
    | none => rfl
    | some sc =>
      simp only [PendingEdge.landsOn, SyntaxTree.descends_of_lt _ _ _ (h el rfl),
        PendingEdge.lands]
      congr 2
      rw [Bool.eq_iff_iff, SyntaxTree.is_descendant_of_iff]
      simp

theorem yields_drain (n : NodeId) :
    Yields t r (drainPendingWithin t n) k (k.inner t n) (k.drained t n) := fun hin =>
  yields_take_part (part_eq _ _ _ fun e he => scoped_within_eq (hin.scope e he)) hin

theorem yields_fallthrough (n : NodeId) :
    Yields t r (takeFallthrough t n) k (k.exits t n) (k.drained t n) := by
  refine Yields.bind yields_cursor fun hin _ _ => Yields.bind (yields_drain n) fun _ _ _ =>
    yields_pure fun x hx => ?_
  rcases (mem_exits k t n x).1 hx with hx | ⟨e, he, rfl⟩
  · exact hin.cursor x hx
  · exact hin.source e ((mem_inner k t e n).1 he).1

theorem yields_element_of {id : InstructionId} (h : id.index < k.size) :
    Yields t r (elementOf id) k (k.element id) k := by
  intro hin
  refine ⟨⟨hin, Nat.le_refl _, fun _ _ => trivial⟩, fun st hd hr => ⟨st, ?_, hd, hr⟩⟩
  have hsize := hd.size_eq
  have hok := (InstructionGraph.require_ok st.graph id).2 (hsize ▸ h)
  have hel := hd.element_eq id
  have hrun : (elementOf id).run st =
      (do check (st.graph.require id); return (st.graph.instruction id).element :
        Build (Option NodeId)).run st := rfl
  rw [hrun, hok, hel]
  rfl

theorem yields_latest (el : Option NodeId) :
    Yields t r (Build.latest el) k (el.bind k.latest) k := by
  refine yields_of_run (fun st => el.bind st.graph.latestFor) id (fun _ => rfl) (fun _ => rfl)
    (fun h => ⟨h, Nat.le_refl _, ?_⟩) fun st hd => ⟨?_, hd⟩
  · intro x hx
    obtain ⟨n, -, hn⟩ := Option.bind_eq_some_iff.1 hx
    exact (latest_some hn).1
  · rw [funext (latest_for_eq hd.labels)]

theorem yields_check_pending {id : InstructionId} (h : id.index < k.size) :
    Yields t r (checkPending t id) k () (k.checked t id) := by
  intro hin
  have hel : ∀ x, k.element id = some x → x.index < t.size := hin.element id
  refine Yields.bind (yields_element_of h) (fun _ _ _ => Yields.bind
    (yields_take_part (part_eq _ _ _ fun e _ => lands_on_eq hel)) fun _ _ _ => ?_) hin
  have hl := yields_add_edges (t := t) (r := r)
    (k := { k with pending := k.pending.filter fun e => !e.lands t (k.element id) }) h
    ((k.pending.filter fun e => e.lands t (k.element id)).map (·.source)) (by
      intro a ha
      obtain ⟨e, he, rfl⟩ := List.mem_map.1 ha
      exact hin.source e (List.mem_filter.1 he).1)
  simpa [linked, checked, Function.comp_def] using hl

def created (k : Sketch) (el : Option NodeId) (kind : InstructionKind) : Sketch :=
  { k with made := k.made ++ [(el, kind)] }

theorem element_created (t : SyntaxTree) (el : Option NodeId) (kind : InstructionKind) (id : InstructionId) :
    (k.created el kind).element id = if id = k.next then el else k.element id :=
  element_place k t el kind id

theorem yields_create {el : Option NodeId} {kind : InstructionKind}
    (h : ∀ x, el = some x → x.index < t.size) :
    Yields t r (create el kind) k k.next (k.created el kind) := by
  refine yields_of_run (fun st => ⟨st.graph.size⟩)
    (fun st => { st with graph := (st.graph.create el kind).1 }) (fun _ => rfl) (fun _ => rfl) ?_ ?_
  · intro hin
    have hlt : k.size < (k.created el kind).size := by simp [size, created]
    refine ⟨⟨fun id x hx => ?_, fun a b hab => ?_, fun x hx => ?_, fun e he => ?_, hin.scope⟩,
      Nat.le_of_lt hlt, hlt⟩
    · rw [element_created t] at hx
      split at hx
      · exact h x hx
      · exact hin.element id x hx
    · have hin' := hin.edge a b hab
      omega
    · have hin' := hin.cursor x hx
      omega
    · have hin' := hin.source e he
      omega
  · intro st hd
    have hsize := hd.size_eq
    refine ⟨by rw [hsize]; rfl, ?_, fun a => ?_, fun b => ?_, hd.pending, hd.cursor, hd.truncated⟩
    · rw [InstructionGraph.labels_create, hd.labels]
      rfl
    · rw [InstructionGraph.successors_create]
      exact hd.successors a
    · rw [InstructionGraph.predecessors_create]
      exact hd.predecessors b

theorem yields_arrive {id : InstructionId} (h : id.index < k.size) :
    Yields t r (do checkPending t id; setCursor (some id); return id) k id
      ((k.checked t id).moved (some id)) :=
  Yields.bind (yields_check_pending h) fun _ _ _ =>
    Yields.bind (yields_set_cursor fun _ hx => Option.some.inj hx ▸ h) fun _ _ _ => yields_pure h

theorem yields_add_node {el : Option NodeId} {kind : InstructionKind}
    (h : ∀ x, el = some x → x.index < t.size) :
    Yields t r (addNode t el kind) k k.next (k.place t el kind) := by
  intro hin
  have hcreate : Yields t r (create el kind) k k.next (k.created el kind) := yields_create h
  have hlt : k.next.index < (k.created el kind).size := by simp [next, size, created]
  have hel : (k.created el kind).element k.next = el := by rw [element_created t, if_pos rfl]
  have hplace : k.place t el kind =
      (((k.created el kind).linked k.next k.cursor.toList).checked t k.next).moved
        (some k.next) := by
    rw [checked, element_linked, hel]
    simp [place, created, arrivals, linked, moved, Function.comp_def]
  unfold addNode
  refine Yields.bind hcreate (fun _ _ _ => Yields.bind yields_cursor fun _ _ _ => ?_) hin
  have hcursor : (k.created el kind).cursor = k.cursor := rfl
  rw [hcursor]
  cases hc : k.cursor with
  | none =>
    rw [hplace, hc, Option.toList_none, linked_nil]
    exact yields_arrive hlt
  | some x =>
    have hx : x.index < (k.created el kind).size := by
      have hold := hin.cursor x hc
      simp only [size, created, List.length_append, List.length_singleton] at hold ⊢
      omega
    rw [hplace, hc, Option.toList_some]
    exact Yields.bind (yields_add_edge hx hlt) fun _ _ _ => yields_arrive hlt

theorem yields_start {s : NodeId} (hs : s.index < t.size) :
    Yields t r (startNode t s) k k.next (k.start t s) :=
  yields_add_node fun _ hx => Option.some.inj hx ▸ hs

theorem yields_place {s : NodeId} {kind : InstructionKind} (hs : s.index < t.size) :
    Yields t r (discard (addNode t (some s) kind)) k () (k.place t (some s) kind) :=
  (yields_add_node fun _ hx => Option.some.inj hx ▸ hs).discard

def sentTo (k : Sketch) (e : PendingEdge) (f : Fate) : Sketch :=
  { k with
    edges := k.edges ++ f.targets.map fun b => (e.source, b)
    pending := k.pending ++ f.left }

def sent (k : Sketch) (fate : PendingEdge → Fate) (es : List PendingEdge) : Sketch :=
  { k with
    edges := k.edges ++ es.flatMap fun e => (fate e).targets.map fun b => (e.source, b)
    pending := k.pending ++ es.flatMap fun e => (fate e).left }

theorem yields_send {handler : PendingEdge → Build Unit} {fate : PendingEdge → Fate}
    {made : List (Option NodeId × InstructionKind)} (es : List PendingEdge)
    (h : ∀ e ∈ es, ∀ k : Sketch, k.made = made →
      Yields t r (handler e) k () (k.sentTo e (fate e)))
    (hk : k.made = made) : Yields t r (forEach handler es) k () (k.sent fate es) := by
  induction es generalizing k with
  | nil =>
    have hnil : k.sent fate [] = k := by simp [sent]
    rw [hnil]
    exact yields_unit
  | cons e es ih =>
    have hcons : k.sent fate (e :: es) = (k.sentTo e (fate e)).sent fate es := by
      simp [sent, sentTo]
    rw [hcons]
    exact Yields.bind (h e (by simp) k hk) fun _ _ _ => ih (fun e' he => h e' (by simp [he])) hk

theorem yields_process {handler : PendingEdge → Build Unit} {fate : PendingEdge → Fate}
    (h : k.InRange t → ∀ e ∈ k.pending, ∀ k' : Sketch, k'.made = k.made →
      Yields t r (handler e) k' () (k'.sentTo e (fate e))) :
    Yields t r (processPending handler) k () (k.settled fate) := by
  intro hin
  have hempty : Yields t r (modifyGet fun st => (st.pending, { st with pending := [] })) k
      k.pending { k with pending := [] } := by
    refine yields_of_run (·.pending) (fun st => { st with pending := [] }) (fun _ => rfl)
      (fun _ => rfl)
      (fun h => ⟨⟨h.element, h.edge, h.cursor, ?_, ?_⟩, Nat.le_refl _, h.source⟩) ?_
    · simp
    · simp
    · exact fun st hd => ⟨hd.pending, hd.labels, hd.successors, hd.predecessors, rfl, hd.cursor,
        hd.truncated⟩
  exact Yields.bind hempty (fun _ _ _ => yields_send k.pending (h hin) rfl) hin

theorem rescoped_eq_settled (n : NodeId) (sc : Option NodeId) :
    k.rescoped t n sc = k.settled fun e => ⟨[], [rescope t n sc e]⟩ := by
  simp [rescoped, settled, List.map_eq_flatMap]

theorem yields_rescope (n : NodeId) {sc : Option NodeId}
    (hsc : ∀ x, sc = some x → x.index < t.size) :
    Yields t r (processPending (Visit.rescopeWithin t n sc)) k () (k.rescoped t n sc) := by
  rw [rescoped_eq_settled]
  refine yields_process fun hin e he k' hmade => ?_
  have hsource : ∀ x, some e.source = some x → x.index < k'.size := by
    intro x hx
    rw [size, hmade, ← Option.some.inj hx]
    exact hin.source e he
  refine Yields.bind (yields_check (scoped_within_eq (hin.scope e he)) trivial) fun _ _ _ => ?_
  have hsent : ∀ n', k'.pended n' (some e.source).toList = k'.sentTo e ⟨[], [⟨n', e.source⟩]⟩ := by
    simp [pended, sentTo]
  cases hw : e.within t n with
  | true =>
    have hrescope : rescope t n sc e = ⟨sc, e.source⟩ := by rw [rescope, hw, if_pos rfl]
    rw [hrescope, ← hsent]
    exact yields_add_pending hsc hsource
  | false =>
    have hrescope : rescope t n sc e = ⟨e.scope, e.source⟩ := by
      rw [rescope, hw, if_neg Bool.false_ne_true]
    rw [hrescope, ← hsent]
    exact yields_add_pending (hin.scope e he) hsource

theorem yields_each {visit : Visit.Visitor} {V : Visitor} (nodes : List NodeId)
    (h : ∀ n ∈ nodes, ∀ k, Yields t r (visit n) k () (V n k)) :
    Yields t r (forEach visit nodes) k () (each V nodes k) := by
  induction nodes generalizing k with
  | nil => exact yields_unit
  | cons n nodes ih =>
    exact Yields.bind (h n (by simp) k) fun _ _ _ => ih fun m hm => h m (by simp [hm])

end
end PythonFlow.Sketch
