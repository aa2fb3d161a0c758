import PythonFlow.Proofs.Locality.Region
import PythonFlow.Proofs.Sketch.Rules

/-!
# Sketches under a renaming

A renamed sketch has the same instructions, edges and cursor; only the nodes that it names are others. If
the parts of two owners are alike and a sketch names nodes of the first part alone, then every step on the
renamed sketch, in the second tree and at the image of the node, is the renamed step. A rule is made of
such steps and of visits below its node, so each rule carries on from sketches that mirror each other to
sketches that do.
-/

set_option autoImplicit false

namespace PythonFlow

def InstructionKind.renamed (φ : NodeId → NodeId) : InstructionKind → InstructionKind
  | .plain => .plain
  | .write name => .write name
  | .conditional condition outcome => .conditional (condition.map φ) outcome

def PendingEdge.renamed (φ : NodeId → NodeId) (e : PendingEdge) : PendingEdge :=
  ⟨e.scope.map φ, e.source⟩

def Visit.Finally.renamed (φ : NodeId → NodeId) (f : Visit.Finally) : Visit.Finally :=
  { f with part := φ f.part }

namespace Sketch

def renamed (φ : NodeId → NodeId) (k : Sketch) : Sketch where
  made := k.made.map fun m => (m.1.map φ, m.2.renamed φ)
  edges := k.edges
  pending := k.pending.map (·.renamed φ)
  cursor := k.cursor
  truncated := k.truncated.map φ

def Fate.renamed (φ : NodeId → NodeId) (f : Fate) : Fate := ⟨f.targets, f.left.map (·.renamed φ)⟩

structure Names (P : NodeId → Prop) (k : Sketch) : Prop where
  element : ∀ id el, k.element id = some el → P el
  scope : ∀ e ∈ k.pending, ∀ n, e.scope = some n → P n

section renamed
variable (φ : NodeId → NodeId) (k : Sketch)

theorem size_renamed : (k.renamed φ).size = k.size := by simp [size, renamed]

theorem next_renamed : (k.renamed φ).next = k.next := by rw [next, size_renamed, next]

theorem element_renamed (id : InstructionId) :
    (k.renamed φ).element id = (k.element id).map φ := by
  simp only [element, renamed, List.getElem?_map]
  cases k.made[id.index]? <;> rfl

end renamed

structure Mirrors (φ : NodeId → NodeId) (P : NodeId → Prop) (k k' : Sketch) : Prop where
  names : k.Names P
  eq : k' = k.renamed φ

namespace Mirrors
variable {φ : NodeId → NodeId} {P : NodeId → Prop} {k k' : Sketch} (m : Mirrors φ P k k')
include m

theorem cursor : k'.cursor = k.cursor := by rw [m.eq]; rfl

theorem next : k'.next = k.next := by rw [m.eq, next_renamed]

theorem element (id : InstructionId) : k'.element id = (k.element id).map φ := by
  rw [m.eq, element_renamed]

theorem moved (c : Option InstructionId) : Mirrors φ P (k.moved c) (k'.moved c) := by
  refine ⟨⟨m.names.element, m.names.scope⟩, ?_⟩
  rw [m.eq]
  rfl

theorem linked (x : InstructionId) (l : List InstructionId) :
    Mirrors φ P (k.linked x l) (k'.linked x l) := by
  refine ⟨⟨m.names.element, m.names.scope⟩, ?_⟩
  rw [m.eq]
  rfl

theorem pended {n : Option NodeId} (hn : ∀ x, n = some x → P x) (l : List InstructionId) :
    Mirrors φ P (k.pended n l) (k'.pended (n.map φ) l) := by
  refine ⟨⟨m.names.element, fun e he x hx => ?_⟩, ?_⟩
  · rcases (mem_pending_pended k e n l).1 he with he | ⟨hsc, -⟩
    · exact m.names.scope e he x hx
    · exact hn x (hsc.symm.trans hx)
  · rw [m.eq]
    simp [Sketch.pended, renamed, PendingEdge.renamed, Function.comp_def]

theorem pended_some {n : NodeId} (hn : P n) (l : List InstructionId) :
    Mirrors φ P (k.pended (some n) l) (k'.pended (some (φ n)) l) :=
  m.pended (fun _ hx => Option.some.inj hx ▸ hn) l

end Mirrors
end Sketch

/-- What the build of an owner sees: its part down to the definitions and lambdas in it. -/
abbrev SyntaxTree.Own (t : SyntaxTree) (owner : NodeId) : NodeId → Prop :=
  t.PartOf SyntaxKind.isSealed owner

structure SyntaxTree.Paired (t t' : SyntaxTree) (owner owner' : NodeId) (φ : NodeId → NodeId) :
    Prop where
  alike : t.Alike t' SyntaxKind.isSealed owner owner' φ
  ordered : t.Ordered
  ordered' : t'.Ordered
  isOwner : (t.kind owner).isOwner = true
  isOwner' : (t'.kind owner').isOwner = true

namespace SyntaxTree.Paired
variable {t t' : SyntaxTree} {owner owner' : NodeId} {φ : NodeId → NodeId}
  (h : t.Paired t' owner owner' φ) {x y : NodeId}
include h

theorem injective (hx : t.Own owner x)
    (hy : t.Own owner y) : φ x = φ y ↔ x = y :=
  ⟨h.alike.injective h.ordered h.ordered' hx hy, congrArg φ⟩

theorem below_iff (hx : t.Own owner x)
    (hy : t.Own owner y) : t'.Below (φ x) (φ y) ↔ t.Below x y :=
  h.alike.below_iff h.ordered h.ordered' hx hy

theorem lands {e : PendingEdge} {el : Option NodeId}
    (he : ∀ n, e.scope = some n → t.Own owner n)
    (hel : ∀ n, el = some n → t.Own owner n) :
    (e.renamed φ).lands t' (el.map φ) = e.lands t el := by
  obtain ⟨scope, source⟩ := e
  cases el with
  | none => rfl
  | some el =>
    cases scope with
    | none => rfl
    | some n =>
      have hiff := h.below_iff (hel el rfl) (he n rfl)
      simp [PendingEdge.lands, PendingEdge.renamed, hiff]

theorem within {e : PendingEdge} {n : NodeId}
    (he : ∀ n, e.scope = some n → t.Own owner n)
    (hn : t.Own owner n) : (e.renamed φ).within t' (φ n) = e.within t n := by
  obtain ⟨scope, source⟩ := e
  cases scope with
  | none => rfl
  | some m =>
    have hiff := h.below_iff (he m rfl) hn
    simp [PendingEdge.within, PendingEdge.renamed, hiff]

end SyntaxTree.Paired

namespace Sketch

abbrev Twins (t : SyntaxTree) (owner : NodeId) (φ : NodeId → NodeId) (k k' : Sketch) : Prop :=
  Mirrors φ (t.Own owner) k k'

namespace Mirrors
variable {t t' : SyntaxTree} {owner owner' : NodeId} {φ : NodeId → NodeId}
  (h : t.Paired t' owner owner' φ) {k k' : Sketch} (m : Twins t owner φ k k')
include h m

omit h in
/-- The edges that pass a test are the images of those that pass it in the first tree. -/
theorem filter_pending {q q' : PendingEdge → Bool}
    (hq : ∀ e ∈ k.pending, q' (e.renamed φ) = q e) :
    k'.pending.filter q' = (k.pending.filter q).map (·.renamed φ) := by
  rw [m.eq]
  show (k.pending.map (·.renamed φ)).filter q' = _
  rw [List.filter_map]
  exact congrArg (List.map _) (List.filter_congr hq)

theorem landing {el : Option NodeId}
    (hel : ∀ n, el = some n → t.Own owner n) :
    k'.pending.filter (fun e => e.lands t' (el.map φ)) =
      (k.pending.filter fun e => e.lands t el).map (·.renamed φ) :=
  m.filter_pending fun e he => h.lands (m.names.scope e he) hel

theorem staying {el : Option NodeId}
    (hel : ∀ n, el = some n → t.Own owner n) :
    k'.pending.filter (fun e => !e.lands t' (el.map φ)) =
      (k.pending.filter fun e => !e.lands t el).map (·.renamed φ) :=
  m.filter_pending fun e he => by rw [h.lands (m.names.scope e he) hel]

theorem place {el : Option NodeId}
    (hel : ∀ n, el = some n → t.Own owner n) (kind : InstructionKind) :
    Twins t owner φ (k.place t el kind) (k'.place t' (el.map φ) (kind.renamed φ)) := by
  refine ⟨⟨fun id x hx => ?_, fun e he => ?_⟩, ?_⟩
  · rw [element_place] at hx
    split at hx
    · exact hel x hx
    · exact m.names.element id x hx
  · exact m.names.scope e ((mem_pending_place k t el kind e).1 he).1
  · have harrive : k'.arrivals t' (el.map φ) = k.arrivals t el := by
      rw [arrivals, arrivals, m.landing h hel, m.cursor, List.map_map]
      rfl
    have hmade : k'.made = k.made.map fun m => (m.1.map φ, m.2.renamed φ) := by rw [m.eq]; rfl
    have hedges : k'.edges = k.edges := by rw [m.eq]; rfl
    have htruncated : k'.truncated = k.truncated.map φ := by rw [m.eq]; rfl
    simp only [Sketch.place, renamed, harrive, m.next, m.staying h hel, hmade, hedges, htruncated,
      List.map_append, List.map_cons, List.map_nil]

theorem place_some {n : NodeId} (hn : t.Own owner n) (kind : InstructionKind) :
    Twins t owner φ (k.place t (some n) kind) (k'.place t' (some (φ n)) (kind.renamed φ)) :=
  m.place h (fun _ hx => Option.some.inj hx ▸ hn) kind

theorem start {n : NodeId} (hn : t.Own owner n) :
    Twins t owner φ (k.start t n) (k'.start t' (φ n)) := m.place_some h hn .plain

/-- A node that flow enters from the listed instructions as well. -/
theorem entered {n : NodeId} (hn : t.Own owner n) (l : List InstructionId) :
    Twins t owner φ ((k.start t n).linked k.next l) ((k'.start t' (φ n)).linked k'.next l) := by
  rw [m.next]
  exact (m.start h hn).linked k.next l

theorem checked (id : InstructionId) :
    Twins t owner φ (k.checked t id) (k'.checked t' id) := by
  have hel : ∀ n, k.element id = some n → t.Own owner n :=
    m.names.element id
  refine ⟨⟨m.names.element, fun e he => ?_⟩, ?_⟩
  · exact m.names.scope e ((mem_pending_checked k t e id).1 he).1
  · have hland := m.landing h hel
    have hstay := m.staying h hel
    rw [Sketch.checked, m.element, hland, hstay, m.eq]
    simp [Sketch.checked, renamed, PendingEdge.renamed, Function.comp_def]

theorem drained {n : NodeId} (hn : t.Own owner n) :
    Twins t owner φ (k.drained t n) (k'.drained t' (φ n)) := by
  refine ⟨⟨m.names.element, fun e he => ?_⟩, ?_⟩
  · exact m.names.scope e ((mem_pending_drained k t e n).1 he).1
  · have hstay : (k'.pending.filter fun e => !e.within t' (φ n)) =
        (k.pending.filter fun e => !e.within t n).map (·.renamed φ) :=
      m.filter_pending fun e he => by rw [h.within (m.names.scope e he) hn]
    rw [Sketch.drained, hstay, m.eq]
    rfl

theorem inner {n : NodeId} (hn : t.Own owner n) :
    k'.inner t' (φ n) = (k.inner t n).map (·.renamed φ) :=
  m.filter_pending fun e he => h.within (m.names.scope e he) hn

theorem exits {n : NodeId} (hn : t.Own owner n) :
    k'.exits t' (φ n) = k.exits t n := by
  rw [Sketch.exits, Sketch.exits, m.inner h hn, m.cursor, List.foldl_map]
  rfl

theorem rescoped {n : NodeId} (hn : t.Own owner n) {sc : Option NodeId}
    (hsc : ∀ x, sc = some x → t.Own owner x) :
    Twins t owner φ (k.rescoped t n sc) (k'.rescoped t' (φ n) (sc.map φ)) := by
  refine ⟨⟨m.names.element, fun e he x hx => ?_⟩, ?_⟩
  · obtain ⟨e', he', rfl⟩ := (mem_pending_rescoped k t e n sc).1 he
    unfold rescope at hx
    split at hx
    · exact hsc x hx
    · exact m.names.scope e' he' x hx
  · have hpending : k'.pending.map (rescope t' (φ n) (sc.map φ)) =
        (k.pending.map (rescope t n sc)).map (·.renamed φ) := by
      rw [m.eq]
      show (k.pending.map (·.renamed φ)).map _ = _
      rw [List.map_map, List.map_map]
      refine List.map_congr_left fun e he => ?_
      show rescope t' (φ n) (sc.map φ) (e.renamed φ) = (rescope t n sc e).renamed φ
      unfold rescope
      rw [h.within (m.names.scope e he) hn]
      split <;> rfl
    rw [Sketch.rescoped, hpending, m.eq]
    rfl

omit h in
theorem settled {fate fate' : PendingEdge → Fate}
    (hfate : ∀ e ∈ k.pending, fate' (e.renamed φ) = (fate e).renamed φ)
    (hscope : ∀ e ∈ k.pending, ∀ e' ∈ (fate e).left, ∀ n, e'.scope = some n →
      t.Own owner n) :
    Twins t owner φ (k.settled fate) (k'.settled fate') := by
  refine ⟨⟨m.names.element, fun e he n hn => ?_⟩, ?_⟩
  · obtain ⟨e', he', hleft⟩ := (mem_pending_settled k e fate).1 he
    exact hscope e' he' e hleft n hn
  · have hedges : (k'.pending.flatMap fun e => (fate' e).targets.map fun b => (e.source, b)) =
        k.pending.flatMap fun e => (fate e).targets.map fun b => (e.source, b) := by
      rw [m.eq]
      show (k.pending.map (·.renamed φ)).flatMap _ = _
      rw [List.flatMap_map]
      refine congrArg List.flatten (List.map_congr_left fun e he => ?_)
      rw [hfate e he]
      rfl
    have hleft : (k'.pending.flatMap fun e => (fate' e).left) =
        (k.pending.flatMap fun e => (fate e).left).map (·.renamed φ) := by
      rw [m.eq]
      show (k.pending.map (·.renamed φ)).flatMap _ = _
      rw [List.flatMap_map, List.map_flatMap]
      refine congrArg List.flatten (List.map_congr_left fun e he => ?_)
      rw [hfate e he]
      rfl
    rw [Sketch.settled, hedges, hleft, m.eq]
    rfl

omit h in
/-- Where flow goes on from the cursor. -/
theorem pended_cursor {sc : Option NodeId} (hsc : ∀ x, sc = some x → t.Own owner x) :
    Twins t owner φ (k.pended sc k.cursor.toList) (k'.pended (sc.map φ) k'.cursor.toList) := by
  rw [m.cursor]
  exact m.pended hsc _

/-- Where flow goes on from all the ways out of a node. -/
theorem pended_exits {n s : NodeId} (hn : t.Own owner n) (hs : t.Own owner s) :
    Twins t owner φ ((k.drained t n).pended (some s) (k.exits t n))
      ((k'.drained t' (φ n)).pended (some (φ s)) (k'.exits t' (φ n))) := by
  rw [m.exits h hn]
  exact (m.drained h hn).pended_some hs _

theorem linked_exits {n : NodeId} (hn : t.Own owner n) (x : InstructionId) :
    Twins t owner φ ((k.drained t n).linked x (k.exits t n))
      ((k'.drained t' (φ n)).linked x (k'.exits t' (φ n))) := by
  rw [m.exits h hn]
  exact (m.drained h hn).linked x _

end Mirrors
end Sketch
end PythonFlow
