import PythonFlow.Flow.Visit
import PythonFlow.Proofs.Graph.Edges
import PythonFlow.Proofs.Tree.Below

/-!
# Sketches of a build

A sketch is what a build has done so far, without the ways in which it can stop: what each
instruction was created for, the edges, the pending edges and the cursor. A step of a build is a
function on sketches, defined wherever its arguments come from. That a build does what its sketch
says is shown apart from here, and everything else is shown about sketches.
-/

set_option autoImplicit false

namespace PythonFlow

structure Sketch where
  made : List (Option NodeId × InstructionKind)
  edges : List (InstructionId × InstructionId)
  pending : PendingEdges
  cursor : Option InstructionId
  truncated : List NodeId

def PendingEdge.lands (t : SyntaxTree) (element : Option NodeId) (e : PendingEdge) : Bool :=
  match element, e.scope with
  | none, _ => true
  | some _, none => false
  | some el, some scope => !decide (t.Below el scope)

/-- Whether a pending edge has its scope at or below `node`. -/
def PendingEdge.within (t : SyntaxTree) (node : NodeId) (e : PendingEdge) : Bool :=
  match e.scope with
  | none => false
  | some scope => decide (t.Below scope node)

namespace Sketch

def blank : Sketch := ⟨[], [], [], none, []⟩

def size (k : Sketch) : Nat := k.made.length

def next (k : Sketch) : InstructionId := ⟨k.size⟩

def element (k : Sketch) (id : InstructionId) : Option NodeId :=
  (k.made[id.index]?).bind Prod.fst

def latestBelow (k : Sketch) (el : NodeId) : Nat → Option InstructionId
  | 0 => none
  | n + 1 => if k.element ⟨n⟩ = some el then some ⟨n⟩ else k.latestBelow el n

def latest (k : Sketch) (el : NodeId) : Option InstructionId := k.latestBelow el k.size

/-- The sources of the edges that land on `el`, the cursor first. -/
def arrivals (k : Sketch) (t : SyntaxTree) (el : Option NodeId) : List InstructionId :=
  k.cursor.toList ++ (k.pending.filter fun e => e.lands t el).map (·.source)

def place (k : Sketch) (t : SyntaxTree) (el : Option NodeId) (kind : InstructionKind) : Sketch where
  made := k.made ++ [(el, kind)]
  edges := k.edges ++ (k.arrivals t el).map fun source => (source, k.next)
  pending := k.pending.filter fun e => !e.lands t el
  cursor := some k.next
  truncated := k.truncated

def start (k : Sketch) (t : SyntaxTree) (s : NodeId) : Sketch := k.place t (some s) .plain

def checked (k : Sketch) (t : SyntaxTree) (id : InstructionId) : Sketch :=
  { k with
    edges := k.edges ++
      (k.pending.filter fun e => e.lands t (k.element id)).map fun e => (e.source, id)
    pending := k.pending.filter fun e => !e.lands t (k.element id) }

def moved (k : Sketch) (c : Option InstructionId) : Sketch := { k with cursor := c }

def linked (k : Sketch) (target : InstructionId) (sources : List InstructionId) : Sketch :=
  { k with edges := k.edges ++ sources.map fun source => (source, target) }

def pended (k : Sketch) (scope : Option NodeId) (sources : List InstructionId) : Sketch :=
  { k with pending := k.pending ++ sources.map fun source => ⟨scope, source⟩ }

def drained (k : Sketch) (t : SyntaxTree) (node : NodeId) : Sketch :=
  { k with pending := k.pending.filter fun e => !e.within t node }

def inner (k : Sketch) (t : SyntaxTree) (node : NodeId) : List PendingEdge :=
  k.pending.filter fun e => e.within t node

def exits (k : Sketch) (t : SyntaxTree) (node : NodeId) : List InstructionId :=
  (k.inner t node).foldl
    (fun exits e => if exits.contains e.source then exits else exits ++ [e.source])
    k.cursor.toList

def rescope (t : SyntaxTree) (node : NodeId) (scope : Option NodeId) (e : PendingEdge) :
    PendingEdge :=
  if e.within t node then ⟨scope, e.source⟩ else e

def rescoped (k : Sketch) (t : SyntaxTree) (node : NodeId) (scope : Option NodeId) : Sketch :=
  { k with pending := k.pending.map (rescope t node scope) }

/-- What becomes of a pending edge: the targets it is linked to and the edges left pending. -/
structure Fate where
  targets : List InstructionId
  left : List PendingEdge

def settled (k : Sketch) (fate : PendingEdge → Fate) : Sketch :=
  { k with
    edges := k.edges ++ k.pending.flatMap fun e => (fate e).targets.map fun b => (e.source, b)
    pending := k.pending.flatMap fun e => (fate e).left }

def Edge (k : Sketch) (a b : InstructionId) : Prop := (a, b) ∈ k.edges

def targets (k : Sketch) (a : InstructionId) : List InstructionId :=
  ((k.edges.filter fun e => e.1 == a).map Prod.snd).eraseDups

def sources (k : Sketch) (b : InstructionId) : List InstructionId :=
  ((k.edges.filter fun e => e.2 == b).map Prod.fst).eraseDups

def Pends (k : Sketch) (scope : Option NodeId) (x : InstructionId) : Prop :=
  ⟨scope, x⟩ ∈ k.pending

/-- Flow has yet to go on from `x`. -/
def Loose (k : Sketch) (x : InstructionId) : Prop :=
  k.cursor = some x ∨ ∃ e ∈ k.pending, e.source = x

def Has (k : Sketch) (el : NodeId) : Prop := ∃ id, k.element id = some el

theorem mem_map_pair (l : List InstructionId) (x a b : InstructionId) :
    (a, b) ∈ l.map (fun source => (source, x)) ↔ a ∈ l ∧ b = x := by
  simp only [List.mem_map, Prod.mk.injEq]
  constructor
  · rintro ⟨y, hy, rfl, rfl⟩
    exact ⟨hy, rfl⟩
  · rintro ⟨ha, rfl⟩
    exact ⟨a, ha, rfl, rfl⟩

section lists
variable (k : Sketch) {a b : InstructionId}

theorem mem_targets : b ∈ k.targets a ↔ k.Edge a b := by
  simp only [targets, Edge, List.mem_eraseDups, List.mem_map, List.mem_filter, beq_iff_eq]
  constructor
  · rintro ⟨⟨x, y⟩, ⟨hxy, rfl⟩, rfl⟩
    exact hxy
  · exact fun h => ⟨(a, b), ⟨h, rfl⟩, rfl⟩

theorem mem_sources : a ∈ k.sources b ↔ k.Edge a b := by
  simp only [sources, Edge, List.mem_eraseDups, List.mem_map, List.mem_filter, beq_iff_eq]
  constructor
  · rintro ⟨⟨x, y⟩, ⟨hxy, rfl⟩, rfl⟩
    exact hxy
  · exact fun h => ⟨(a, b), ⟨h, rfl⟩, rfl⟩

theorem erase_dups_concat (l : List InstructionId) (x : InstructionId) :
    (l ++ [x]).eraseDups = if x ∈ l then l.eraseDups else l.eraseDups ++ [x] := by
  rw [List.eraseDups_append]
  by_cases h : x ∈ l
  · simp [List.removeAll, h]
  · simp [List.removeAll, h, List.eraseDups_cons]

theorem targets_linked (x : InstructionId) : (k.linked b [a]).targets x =
    if x = a ∧ b ∉ k.targets a then k.targets x ++ [b] else k.targets x := by
  by_cases hx : x = a
  · subst hx
    have hmem : b ∈ (k.edges.filter fun e => e.1 == x).map Prod.snd ↔ b ∈ k.targets x :=
      List.mem_eraseDups.symm
    have hlist : (k.linked b [x]).targets x =
        ((k.edges.filter fun e => e.1 == x).map Prod.snd ++ [b]).eraseDups := by
      simp [targets, linked, List.filter_append]
    rw [hlist, erase_dups_concat]
    by_cases he : b ∈ k.targets x
    · rw [if_pos (hmem.2 he), if_neg fun h => h.2 he]
      rfl
    · rw [if_neg fun h => he (hmem.1 h), if_pos ⟨rfl, he⟩]
      rfl
  · have hne : ¬ a = x := fun h => hx h.symm
    simp [targets, linked, List.filter_append, hx, hne]

theorem sources_linked (x : InstructionId) : (k.linked b [a]).sources x =
    if x = b ∧ b ∉ k.targets a then k.sources x ++ [a] else k.sources x := by
  by_cases hx : x = b
  · subst hx
    have hmem : a ∈ (k.edges.filter fun e => e.2 == x).map Prod.fst ↔ x ∈ k.targets a :=
      List.mem_eraseDups.symm.trans ((mem_sources k).trans (mem_targets k).symm)
    have hlist : (k.linked x [a]).sources x =
        ((k.edges.filter fun e => e.2 == x).map Prod.fst ++ [a]).eraseDups := by
      simp [sources, linked, List.filter_append]
    rw [hlist, erase_dups_concat]
    by_cases he : x ∈ k.targets a
    · rw [if_pos (hmem.2 he), if_neg fun h => h.2 he]
      rfl
    · rw [if_neg fun h => he (hmem.1 h), if_pos ⟨rfl, he⟩]
      rfl
  · have hne : ¬ b = x := fun h => hx h.symm
    simp [sources, linked, List.filter_append, hx, hne]

end lists

section place
variable (k : Sketch) (t : SyntaxTree) (el : Option NodeId) (kind : InstructionKind)

@[simp] theorem size_place : (k.place t el kind).size = k.size + 1 := by simp [size, place]

@[simp] theorem cursor_place : (k.place t el kind).cursor = some k.next := rfl

@[simp] theorem truncated_place : (k.place t el kind).truncated = k.truncated := rfl

@[simp] theorem edge_place (a b : InstructionId) :
    (k.place t el kind).Edge a b ↔ k.Edge a b ∨ a ∈ k.arrivals t el ∧ b = k.next := by
  simp only [Edge, place, List.mem_append, mem_map_pair]

@[simp] theorem mem_pending_place (e : PendingEdge) :
    e ∈ (k.place t el kind).pending ↔ e ∈ k.pending ∧ e.lands t el = false := by
  simp [place]

theorem element_place (id : InstructionId) :
    (k.place t el kind).element id = if id = k.next then el else k.element id := by
  have hiff : id = k.next ↔ id.index = k.made.length := by
    cases id
    simp [next, size]
  simp only [element, place, hiff]
  by_cases h : id.index = k.made.length
  · simp [h]
  · rw [if_neg h, List.getElem?_append, List.getElem?_singleton]
    split
    · rfl
    · rw [List.getElem?_eq_none (by omega), if_neg (by omega)]

theorem mem_arrivals (a : InstructionId) :
    a ∈ k.arrivals t el ↔ k.cursor = some a ∨ ∃ e ∈ k.pending, e.lands t el = true ∧ e.source = a := by
  simp [arrivals, and_assoc]

end place

section steps
variable (k : Sketch) (t : SyntaxTree) (a b : InstructionId) (e : PendingEdge)

@[simp] theorem size_moved (c : Option InstructionId) : (k.moved c).size = k.size := rfl

@[simp] theorem next_moved (c : Option InstructionId) : (k.moved c).next = k.next := rfl

@[simp] theorem element_moved (c : Option InstructionId) : (k.moved c).element = k.element := rfl

@[simp] theorem edge_moved (c : Option InstructionId) : (k.moved c).Edge a b ↔ k.Edge a b := .rfl

@[simp] theorem pending_moved (c : Option InstructionId) : (k.moved c).pending = k.pending := rfl

@[simp] theorem cursor_moved (c : Option InstructionId) : (k.moved c).cursor = c := rfl

@[simp] theorem truncated_moved (c : Option InstructionId) :
    (k.moved c).truncated = k.truncated := rfl

@[simp] theorem size_linked (x : InstructionId) (l : List InstructionId) :
    (k.linked x l).size = k.size := rfl

@[simp] theorem next_linked (x : InstructionId) (l : List InstructionId) :
    (k.linked x l).next = k.next := rfl

@[simp] theorem element_linked (x : InstructionId) (l : List InstructionId) :
    (k.linked x l).element = k.element := rfl

@[simp] theorem edge_linked (x : InstructionId) (l : List InstructionId) :
    (k.linked x l).Edge a b ↔ k.Edge a b ∨ a ∈ l ∧ b = x := by
  simp only [Edge, linked, List.mem_append, mem_map_pair]

@[simp] theorem pending_linked (x : InstructionId) (l : List InstructionId) :
    (k.linked x l).pending = k.pending := rfl

@[simp] theorem cursor_linked (x : InstructionId) (l : List InstructionId) :
    (k.linked x l).cursor = k.cursor := rfl

@[simp] theorem truncated_linked (x : InstructionId) (l : List InstructionId) :
    (k.linked x l).truncated = k.truncated := rfl

@[simp] theorem size_pended (n : Option NodeId) (l : List InstructionId) :
    (k.pended n l).size = k.size := rfl

@[simp] theorem next_pended (n : Option NodeId) (l : List InstructionId) :
    (k.pended n l).next = k.next := rfl

@[simp] theorem element_pended (n : Option NodeId) (l : List InstructionId) :
    (k.pended n l).element = k.element := rfl

@[simp] theorem edge_pended (n : Option NodeId) (l : List InstructionId) :
    (k.pended n l).Edge a b ↔ k.Edge a b := .rfl

@[simp] theorem mem_pending_pended (n : Option NodeId) (l : List InstructionId) :
    e ∈ (k.pended n l).pending ↔ e ∈ k.pending ∨ e.scope = n ∧ e.source ∈ l := by
  obtain ⟨sc, x⟩ := e
  simp only [pended, List.mem_append, List.mem_map, PendingEdge.mk.injEq]
  constructor
  · rintro (h | ⟨y, hy, rfl, rfl⟩)
    · exact .inl h
    · exact .inr ⟨rfl, hy⟩
  · rintro (h | ⟨rfl, hx⟩)
    · exact .inl h
    · exact .inr ⟨x, hx, rfl, rfl⟩

@[simp] theorem cursor_pended (n : Option NodeId) (l : List InstructionId) :
    (k.pended n l).cursor = k.cursor := rfl

@[simp] theorem truncated_pended (n : Option NodeId) (l : List InstructionId) :
    (k.pended n l).truncated = k.truncated := rfl

@[simp] theorem size_drained (n : NodeId) : (k.drained t n).size = k.size := rfl

@[simp] theorem next_drained (n : NodeId) : (k.drained t n).next = k.next := rfl

@[simp] theorem element_drained (n : NodeId) : (k.drained t n).element = k.element := rfl

@[simp] theorem edge_drained (n : NodeId) : (k.drained t n).Edge a b ↔ k.Edge a b := .rfl

@[simp] theorem mem_pending_drained (n : NodeId) :
    e ∈ (k.drained t n).pending ↔ e ∈ k.pending ∧ e.within t n = false := by
  simp [drained]

@[simp] theorem cursor_drained (n : NodeId) : (k.drained t n).cursor = k.cursor := rfl

@[simp] theorem truncated_drained (n : NodeId) : (k.drained t n).truncated = k.truncated := rfl

@[simp] theorem size_rescoped (n : NodeId) (sc : Option NodeId) :
    (k.rescoped t n sc).size = k.size := rfl

@[simp] theorem next_rescoped (n : NodeId) (sc : Option NodeId) :
    (k.rescoped t n sc).next = k.next := rfl

@[simp] theorem element_rescoped (n : NodeId) (sc : Option NodeId) :
    (k.rescoped t n sc).element = k.element := rfl

@[simp] theorem edge_rescoped (n : NodeId) (sc : Option NodeId) :
    (k.rescoped t n sc).Edge a b ↔ k.Edge a b := .rfl

@[simp] theorem mem_pending_rescoped (n : NodeId) (sc : Option NodeId) :
    e ∈ (k.rescoped t n sc).pending ↔ ∃ e' ∈ k.pending, rescope t n sc e' = e := by
  simp [rescoped]

@[simp] theorem cursor_rescoped (n : NodeId) (sc : Option NodeId) :
    (k.rescoped t n sc).cursor = k.cursor := rfl

@[simp] theorem truncated_rescoped (n : NodeId) (sc : Option NodeId) :
    (k.rescoped t n sc).truncated = k.truncated := rfl

@[simp] theorem size_checked : (k.checked t a).size = k.size := rfl

@[simp] theorem next_checked : (k.checked t a).next = k.next := rfl

@[simp] theorem element_checked : (k.checked t a).element = k.element := rfl

@[simp] theorem cursor_checked : (k.checked t a).cursor = k.cursor := rfl

@[simp] theorem truncated_checked : (k.checked t a).truncated = k.truncated := rfl

@[simp] theorem edge_checked (x : InstructionId) :
    (k.checked t x).Edge a b ↔
      k.Edge a b ∨ (∃ e ∈ k.pending, e.lands t (k.element x) = true ∧ e.source = a) ∧ b = x := by
  simp only [Edge, checked, List.mem_append, List.mem_map, List.mem_filter, Prod.mk.injEq]
  constructor
  · rintro (h | ⟨e, ⟨he, hl⟩, rfl, rfl⟩)
    · exact .inl h
    · exact .inr ⟨⟨e, he, hl, rfl⟩, rfl⟩
  · rintro (h | ⟨⟨e, he, hl, rfl⟩, rfl⟩)
    · exact .inl h
    · exact .inr ⟨e, ⟨he, hl⟩, rfl, rfl⟩

@[simp] theorem mem_pending_checked (x : InstructionId) :
    e ∈ (k.checked t x).pending ↔ e ∈ k.pending ∧ e.lands t (k.element x) = false := by
  simp [checked]

theorem mem_inner (n : NodeId) : e ∈ k.inner t n ↔ e ∈ k.pending ∧ e.within t n = true := by
  simp [inner]

@[simp] theorem size_settled (fate : PendingEdge → Fate) : (k.settled fate).size = k.size := rfl

@[simp] theorem next_settled (fate : PendingEdge → Fate) : (k.settled fate).next = k.next := rfl

@[simp] theorem element_settled (fate : PendingEdge → Fate) :
    (k.settled fate).element = k.element := rfl

@[simp] theorem cursor_settled (fate : PendingEdge → Fate) :
    (k.settled fate).cursor = k.cursor := rfl

@[simp] theorem truncated_settled (fate : PendingEdge → Fate) :
    (k.settled fate).truncated = k.truncated := rfl

@[simp] theorem edge_settled (fate : PendingEdge → Fate) :
    (k.settled fate).Edge a b ↔
      k.Edge a b ∨ ∃ e ∈ k.pending, e.source = a ∧ b ∈ (fate e).targets := by
  simp only [Edge, settled, List.mem_append, List.mem_flatMap, List.mem_map, Prod.mk.injEq]
  constructor
  · rintro (h | ⟨e, he, b, hb, rfl, rfl⟩)
    · exact .inl h
    · exact .inr ⟨e, he, rfl, hb⟩
  · rintro (h | ⟨e, he, rfl, hb⟩)
    · exact .inl h
    · exact .inr ⟨e, he, b, hb, rfl, rfl⟩

@[simp] theorem mem_pending_settled (fate : PendingEdge → Fate) :
    e ∈ (k.settled fate).pending ↔ ∃ e' ∈ k.pending, e ∈ (fate e').left := by
  simp [settled]

end steps

theorem lt_size_of_element {k : Sketch} {id : InstructionId} {el : NodeId}
    (h : k.element id = some el) : id.index < k.size := by
  by_cases hlt : id.index < k.size
  · exact hlt
  · have hnone : k.made[id.index]? = none := List.getElem?_eq_none (Nat.le_of_not_lt hlt)
    simp [element, hnone] at h

section latest
variable {k k' : Sketch} {el : NodeId}

theorem latest_below_iff (n : Nat) (id : InstructionId) : k.latestBelow el n = some id ↔
    id.index < n ∧ k.element id = some el ∧
      ∀ j, id.index < j → j < n → k.element ⟨j⟩ ≠ some el := by
  induction n with
  | zero => simp [latestBelow]
  | succ n ih =>
    rw [latestBelow]
    by_cases hel : k.element ⟨n⟩ = some el
    · rw [if_pos hel]
      constructor
      · rintro h
        obtain rfl := Option.some.inj h
        exact ⟨Nat.lt_succ_self n, hel, fun j hlo hhi => by simp only at hlo; omega⟩
      · rintro ⟨hlt, -, hlast⟩
        have hge : ¬ id.index < n := fun h => hlast n h (Nat.lt_succ_self n) hel
        exact congrArg some (congrArg InstructionId.mk (by omega))
    · rw [if_neg hel, ih]
      constructor
      · rintro ⟨hlt, hid, hlast⟩
        refine ⟨by omega, hid, fun j hlo hhi => ?_⟩
        by_cases hj : j = n
        · exact hj ▸ hel
        · exact hlast j hlo (by omega)
      · rintro ⟨hlt, hid, hlast⟩
        have hne : id.index ≠ n := fun heq => hel (heq ▸ hid)
        exact ⟨by omega, hid, fun j hlo hhi => hlast j hlo (by omega)⟩

theorem latest_iff (id : InstructionId) : k.latest el = some id ↔ k.element id = some el ∧
    ∀ later : InstructionId, id.index < later.index → k.element later ≠ some el := by
  rw [latest, latest_below_iff]
  constructor
  · rintro ⟨-, hel, hlast⟩
    exact ⟨hel, fun later hlt hlater => hlast later.index hlt (lt_size_of_element hlater) hlater⟩
  · rintro ⟨hel, hlast⟩
    exact ⟨lt_size_of_element hel, hel, fun j hlo _ => hlast ⟨j⟩ hlo⟩

theorem latest_some {h : InstructionId} (hl : k.latest el = some h) :
    h.index < k.size ∧ k.element h = some el := by
  have hel := ((latest_iff h).1 hl).1
  exact ⟨lt_size_of_element hel, hel⟩

theorem not_has_of_latest (hl : k.latest el = none) : ¬ k.Has el := by
  rintro ⟨id, hid⟩
  have hnone : ∀ n, k.latestBelow el n = none → n ≤ id.index := by
    intro n
    induction n with
    | zero => exact fun _ => Nat.zero_le _
    | succ n ih =>
      intro h
      rw [latestBelow] at h
      split at h
      · cases h
      · next hne =>
        have hle := ih h
        have hneq : id.index ≠ n := fun heq => hne (heq ▸ hid)
        omega
  exact Nat.not_lt_of_le (hnone _ hl) (lt_size_of_element hid)

theorem latest_none_iff : k.latest el = none ↔ ∀ id, k.element id ≠ some el := by
  constructor
  · exact fun hl id hid => not_has_of_latest hl ⟨id, hid⟩
  · intro hall
    refine Option.eq_none_iff_forall_ne_some.2 fun id hid => ?_
    exact hall id (latest_some hid).2

/-- Later instructions for other nodes do not change which one was made last for a node. -/
theorem latest_congr
    (hsame : ∀ id : InstructionId, id.index < k.size → k'.element id = k.element id)
    (hother : ∀ id : InstructionId, k.size ≤ id.index → id.index < k'.size →
      k'.element id ≠ some el) : k'.latest el = k.latest el := by
  have helement : ∀ id, k'.element id = some el ↔ k.element id = some el := by
    intro id
    by_cases hid : id.index < k.size
    · rw [hsame id hid]
    · refine iff_of_false (fun hel => ?_) fun hel => hid (lt_size_of_element hel)
      exact hother id (Nat.le_of_not_lt hid) (lt_size_of_element hel) hel
  refine Option.ext fun id => ?_
  simp only [latest_iff, ne_eq, helement]

/-- The index of a graph keeps the instruction that was made last. -/
theorem latest_for_eq {g : InstructionGraph} (hlabels : g.labels = k.made) (el : NodeId) :
    g.latestFor el = k.latest el := by
  have hsize : g.instructions.toList.length = k.size := by
    rw [size, ← hlabels, g.length_labels]
    rfl
  have hbelow : ∀ n, n ≤ k.size →
      (ElementIndex.ofList (g.instructions.toList.take n)).lookup el = k.latestBelow el n := by
    intro n
    induction n with
    | zero => exact fun _ => rfl
    | succ n ih =>
      intro hn
      have hin : n < g.instructions.toList.length := by omega
      have hid : g.instructions.toList[n].id = ⟨n⟩ := g.numbered n hin
      have helement : g.instructions.toList[n].element = k.element ⟨n⟩ := by
        rw [element, ← hlabels, ← g.element_eq]
        simp [InstructionGraph.instruction, Array.getD, Array.length_toList ▸ hin]
      rw [List.take_add_one, List.getElem?_eq_getElem hin, Option.toList_some,
        ElementIndex.of_list_concat, ElementIndex.lookup_enter, ih (by omega), hid, helement, latestBelow]
  rw [InstructionGraph.latestFor, g.indexed, latest, ← hbelow k.size (Nat.le_refl _), ← hsize, List.take_length]

end latest

section
variable (k : Sketch) (t : SyntaxTree)

theorem mem_exits (node : NodeId) (x : InstructionId) :
    x ∈ k.exits t node ↔ k.cursor = some x ∨ ∃ e ∈ k.inner t node, e.source = x := by
  have hfold : ∀ (l : List PendingEdge) (first : List InstructionId),
      x ∈ l.foldl (fun exits e =>
        if exits.contains e.source then exits else exits ++ [e.source]) first ↔
        x ∈ first ∨ ∃ e ∈ l, e.source = x := by
    intro l
    induction l with
    | nil => simp
    | cons e l ih =>
      intro first
      rw [List.foldl_cons, ih]
      by_cases h : first.contains e.source = true
      · have hmem : e.source ∈ first := List.contains_iff_mem.1 h
        rw [if_pos h]
        constructor
        · rintro (hx | ⟨e', he', hx⟩)
          · exact .inl hx
          · exact .inr ⟨e', by simp [he'], hx⟩
        · rintro (hx | ⟨e', he', rfl⟩)
          · exact .inl hx
          · rcases List.mem_cons.1 he' with rfl | he'
            · exact .inl hmem
            · exact .inr ⟨e', he', rfl⟩
      · rw [if_neg h]
        simp [or_assoc, eq_comm]
  rw [exits, hfold]
  simp

end
end Sketch
end PythonFlow
