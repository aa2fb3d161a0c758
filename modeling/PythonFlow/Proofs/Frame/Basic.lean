import PythonFlow.Proofs.Sketch.Rules
import PythonFlow.Proofs.Tree.Grammar
import PythonFlow.Proofs.Tree.Loops
import PythonFlow.Proofs.Tree.Parts

/-!
# The frame of a visit

`Fresh` is what a visit of a node relies on, and `Grown` what it leaves: new instructions for nodes
at or below the node, edges among them and edges of `continue` jumps, and one instruction, the first,
on which everything lands that lands on the node at all. What was pending before and does not land is
still pending. Every step of a rule preserves `Grown`, and so does a visit further below.
-/

set_option autoImplicit false

namespace PythonFlow.Sketch

section scopes
variable {t : SyntaxTree} {e : PendingEdge} {n : NodeId}

theorem lands_iff : e.lands t (some n) = true ↔ ∃ sc, e.scope = some sc ∧ ¬ t.Below n sc := by
  obtain ⟨sc, x⟩ := e
  cases sc <;> simp [PendingEdge.lands]

theorem stays_iff : e.lands t (some n) = false ↔ ∀ sc, e.scope = some sc → t.Below n sc := by
  obtain ⟨sc, x⟩ := e
  cases sc <;> simp [PendingEdge.lands]

theorem within_iff : e.within t n = true ↔ ∃ sc, e.scope = some sc ∧ t.Below sc n := by
  obtain ⟨sc, x⟩ := e
  cases sc <;> simp [PendingEdge.within]

theorem beyond_iff : e.within t n = false ↔ ∀ sc, e.scope = some sc → ¬ t.Below sc n := by
  obtain ⟨sc, x⟩ := e
  cases sc <;> simp [PendingEdge.within]

end scopes

def Apart (t : SyntaxTree) (a b : NodeId) : Prop := ∀ x, t.Below x a → ¬ t.Below x b

/-- `c` is strictly under `s`, and no statement is between them. -/
def Direct (t : SyntaxTree) (s c : NodeId) : Prop :=
  t.Inside c s ∧ ∀ m, t.Inside c m → t.Inside m s → (t.kind m).isStatement = false

/-- A node that heads no loop and has no clauses to guard. -/
def Open (t : SyntaxTree) (s : NodeId) : Prop :=
  (t.kind s).isLoop = false ∧ t.kind s ≠ .tryStatement

/-- What a visit of `s` relies on: no pending edge has a scope at or below `s`, and no statement
there has an instruction. -/
structure Fresh (t : SyntaxTree) (s : NodeId) (k : Sketch) : Prop where
  ranged : ∀ e ∈ k.pending, e.source.index < k.size
  unscoped : ∀ e ∈ k.pending, ∀ sc, e.scope = some sc → ¬ t.Below sc s
  bare : ∀ T, t.Below T s → (t.kind T).isStatement = true →
    ∀ id el, k.element id = some el → ¬ t.Below el T

/-- A `try` statement and its `finally` clause, where the statement was not truncated. -/
def Guards (t : SyntaxTree) (cut : List NodeId) (T F : NodeId) : Prop :=
  t.kind T = .tryStatement ∧ t.finallyPart T = some F ∧ T ∉ cut

/-- Of every guarded statement inside `s`, `el` is at most in the clause. -/
def Calm (t : SyntaxTree) (cut : List NodeId) (s el : NodeId) : Prop :=
  ∀ T F, Guards t cut T F → t.Inside T s → t.Below el T → t.Below el F

/-- An edge that leaves no guarded statement inside `s` past its clause, or that goes from a
`continue` to its loop. -/
def Gated (t : SyntaxTree) (cut : List NodeId) (s a b : NodeId) : Prop :=
  (t.kind a = .continueJump ∧ t.enclosingLoop a = some b) ∨
    ∀ T F, Guards t cut T F → t.Inside T s → t.Below a T → t.Below a F ∨ t.Below b T

def New (k k' : Sketch) (id : InstructionId) : Prop := k.size ≤ id.index ∧ id.index < k'.size

/-- Instructions made since `k` from which flow may go on. -/
def Live (t : SyntaxTree) (s : NodeId) (k k' : Sketch) (id : InstructionId) : Prop :=
  New k k' id ∧ ∀ el, k'.element id = some el → Calm t k'.truncated s el

def Jump (t : SyntaxTree) (k k' : Sketch) (a b : InstructionId) : Prop :=
  ∃ c l, k'.element a = some c ∧ t.kind c = .continueJump ∧ t.enclosingLoop c = some l ∧
    k.latest l = some b

/-- How an edge of `k'` came about in a visit that began with `k`. -/
inductive Origin (t : SyntaxTree) (s : NodeId) (k k' : Sketch) (a b : InstructionId) : Prop
  | old (h : k.Edge a b)
  | entering (h : a ∈ k.arrivals t (some s)) (hb : b = k.next)
  | inside (ha : New k k' a) (hb : New k k' b)
      (gate : ∀ x y, k'.element a = some x → k'.element b = some y → Gated t k'.truncated s x y)
  | jump (ha : New k k' a) (h : Jump t k k' a b)

/-- The scopes under which a visit of `s` leaves edges pending. -/
def Scoped (t : SyntaxTree) (s : NodeId) : Option NodeId → Prop
  | none => ∃ x, t.Below x s ∧ (t.kind x = .returnExit ∨ t.kind x = .raiseExit)
  | some sc => t.Below sc s ∨
      t.Inside s sc ∧ ∃ b, t.Below b s ∧ t.kind b = .breakJump ∧ t.enclosingLoop b = some sc

def staying (k : Sketch) (t : SyntaxTree) (s : NodeId) : List PendingEdge :=
  k.pending.filter fun e => !e.lands t (some s)

/-- What is pending in `k'`: what has stayed there since `k`, and behind it what a visit of `s` has left. -/
def Appends (t : SyntaxTree) (s : NodeId) (k k' : Sketch) : Prop :=
  ∃ added, k'.pending = k.staying t s ++ added ∧
    ∀ e ∈ added, Live t s k k' e.source ∧ Scoped t s e.scope

inductive Waits (t : SyntaxTree) (s : NodeId) (k k' : Sketch) (e : PendingEdge) : Prop
  | kept (h : e ∈ k.pending) (hs : e.lands t (some s) = false)
  | added (h : Live t s k k' e.source) (near : Scoped t s e.scope)

/-- What a new instruction `a` for a `continue` of the loop `l` has come to. -/
inductive Wired (t : SyntaxTree) (s : NodeId) (k k' : Sketch) (a : InstructionId) (c l : NodeId) :
    Prop
  | truncated (h : c ∈ k'.truncated)
  | linked (header : InstructionId) (hel : k'.element header = some l) (h : k'.Edge a header)
  | unmade (hin : t.Inside s l) (h : ¬ k.Has l)

/-- What a visit of `s` that makes an instruction leaves, apart from its `continue` jumps. -/
structure Framed (t : SyntaxTree) (s : NodeId) (k k' : Sketch) : Prop where
  size_lt : k.size < k'.size
  element_old : ∀ id : InstructionId, id.index < k.size → k'.element id = k.element id
  element_new : ∀ id, New k k' id → ∃ el, k'.element id = some el ∧ t.Below el s
  edge_old : ∀ a b, k.Edge a b → k'.Edge a b
  entered : ∀ a ∈ k.arrivals t (some s), k'.Edge a k.next
  origin : ∀ a b, k'.Edge a b → Origin t s k k' a b
  cursor_live : ∀ x, k'.cursor = some x → Live t s k k' x
  left : Appends t s k k'
  truncated_old : ∀ c ∈ k.truncated, c ∈ k'.truncated
  headed : (t.kind s).isLoop = true → k'.element k.next = some s
  first : ∀ id, New k k' id → k'.element id = some s → id = k.next

structure Grown (t : SyntaxTree) (s : NodeId) (k k' : Sketch) : Prop extends Framed t s k k' where
  wired : ∀ a, New k k' a → ∀ c l, k'.element a = some c → t.kind c = .continueJump →
    t.enclosingLoop c = some l → Wired t s k k' a c l

/-- Flow goes on from a guarded statement in its clause only. -/
def Sealed (t : SyntaxTree) (s : NodeId) (k k' : Sketch) : Prop :=
  ∀ F, Guards t k'.truncated s F → ∀ x el, k'.Loose x → New k k' x → k'.element x = some el → t.Below el F

def Visited (t : SyntaxTree) (s : NodeId) (k k' : Sketch) : Prop :=
  k' = k ∨ Grown t s k k' ∧ Sealed t s k k'

section left
variable {t : SyntaxTree} {s : NodeId} {k k' : Sketch} {e : PendingEdge}

theorem mem_staying : e ∈ k.staying t s ↔ e ∈ k.pending ∧ e.lands t (some s) = false := by
  simp [staying]

/-- What stays beyond `s` stays beyond every node below it. -/
theorem staying_below (ho : t.Ordered) {c : NodeId} (hc : t.Below c s) :
    ∀ e ∈ k.staying t s, (!e.lands t (some c)) = true := by
  intro e he
  rw [Bool.not_eq_true']
  exact stays_iff.2 fun sc hsc => ho.below_trans hc (stays_iff.1 (mem_staying.1 he).2 sc hsc)

theorem Framed.kept (h : Framed t s k k') : ∀ e ∈ k.pending, e.lands t (some s) = false → e ∈ k'.pending := by
  obtain ⟨added, hpending, -⟩ := h.left
  intro e he hs
  rw [hpending]
  exact List.mem_append_left added (mem_staying.2 ⟨he, hs⟩)

theorem Framed.waits (h : Framed t s k k') : ∀ e ∈ k'.pending, Waits t s k k' e := by
  obtain ⟨added, hpending, hadded⟩ := h.left
  intro e he
  rw [hpending] at he
  rcases List.mem_append.1 he with he | he
  · exact .kept (mem_staying.1 he).1 (mem_staying.1 he).2
  · exact .added (hadded e he).1 (hadded e he).2

end left

theorem Scoped.near {t : SyntaxTree} {s sc : NodeId} (h : Scoped t s (some sc)) :
    t.Below sc s ∨ t.Below s sc := by
  rcases h with h | ⟨h, -⟩
  · exact .inl h
  · exact .inr h.1

theorem Guards.mono {t : SyntaxTree} {cut cut' : List NodeId} {T F : NodeId}
    (hcut : ∀ c ∈ cut, c ∈ cut') (h : Guards t cut' T F) : Guards t cut T F :=
  ⟨h.1, h.2.1, fun hmem => h.2.2 (hcut T hmem)⟩

theorem Calm.gated {t : SyntaxTree} {cut : List NodeId} {s a : NodeId} (h : Calm t cut s a)
    (b : NodeId) : Gated t cut s a b := .inr fun T F hT hin ha => .inl (h T F hT hin ha)

theorem open_of_plain {t : SyntaxTree} {s : NodeId} (h : (t.kind s).isStatement = false) :
    Open t s := by
  unfold Open
  revert h
  cases t.kind s <;> simp [SyntaxKind.isStatement, SyntaxKind.isLoop]

theorem open_of_owner {t : SyntaxTree} {s : NodeId} (h : (t.kind s).isOwner = true) : Open t s := by
  unfold Open
  revert h
  cases t.kind s <;> simp [SyntaxKind.isOwner, SyntaxKind.isLoop]

theorem apart_symm {t : SyntaxTree} {a b : NodeId} (h : Apart t a b) : Apart t b a :=
  fun x hb ha => h x ha hb

section
variable {t : SyntaxTree} (ho : t.Ordered) {s c : NodeId} {k k' k'' : Sketch}

include ho

theorem apart_of_siblings {p : NodeId} (hs : t.parent s = some p) (hc : t.parent c = some p)
    (hne : s ≠ c) : Apart t s c := fun _ hxs hxc => hne (ho.siblings_apart hs hc hxs hxc)

theorem apart_below {a b : NodeId} (h : Apart t s c) (ha : t.Below a s) (hb : t.Below b c) :
    Apart t a b := fun x hxa hxb => h x (ho.below_trans hxa ha) (ho.below_trans hxb hb)

theorem fresh_below (h : Fresh t s k) (hc : t.Below c s) : Fresh t c k where
  ranged := h.ranged
  unscoped := fun e he sc hsc hb => h.unscoped e he sc hsc (ho.below_trans hb hc)
  bare := fun T hT => h.bare T (ho.below_trans hT hc)

end

section fresh
variable {t : SyntaxTree} {s : NodeId} {k k' : Sketch} (h : Fresh t s k)
include h

theorem fresh_place {el : NodeId} {kind : InstructionKind}
    (hel : ∀ T, t.Below T s → (t.kind T).isStatement = true → ¬ t.Below el T) :
    Fresh t s (k.place t (some el) kind) where
  ranged := by
    intro e he
    rw [size_place]
    exact Nat.lt_succ_of_lt (h.ranged e ((mem_pending_place k t (some el) kind e).1 he).1)
  unscoped := fun e he => h.unscoped e ((mem_pending_place k t (some el) kind e).1 he).1
  bare := by
    intro T hT hstatement id x hx
    rw [element_place] at hx
    split at hx
    · obtain rfl : el = x := Option.some.inj hx
      exact hel T hT hstatement
    · exact h.bare T hT hstatement id x hx

theorem fresh_moved (c : Option InstructionId) : Fresh t s (k.moved c) :=
  ⟨h.ranged, h.unscoped, h.bare⟩

theorem fresh_linked (x : InstructionId) (l : List InstructionId) : Fresh t s (k.linked x l) :=
  ⟨h.ranged, h.unscoped, h.bare⟩

theorem fresh_drained (n : NodeId) : Fresh t s (k.drained t n) :=
  ⟨fun e he => h.ranged e ((mem_pending_drained k t e n).1 he).1,
    fun e he => h.unscoped e ((mem_pending_drained k t e n).1 he).1, h.bare⟩

theorem fresh_pended {n : NodeId} (hn : ¬ t.Below n s) {l : List InstructionId}
    (hl : ∀ a ∈ l, a.index < k.size) : Fresh t s (k.pended (some n) l) where
  ranged := by
    intro e he
    rcases (mem_pending_pended k e (some n) l).1 he with he | ⟨-, hsource⟩
    · exact h.ranged e he
    · exact hl e.source hsource
  unscoped := by
    intro e he sc hsc
    rcases (mem_pending_pended k e (some n) l).1 he with he | ⟨he, -⟩
    · exact h.unscoped e he sc hsc
    · rw [he] at hsc
      exact Option.some.inj hsc ▸ hn
  bare := h.bare

theorem fresh_rescoped {n m : NodeId} (hm : ¬ t.Below m s) :
    Fresh t s (k.rescoped t n (some m)) where
  ranged := by
    intro e he
    obtain ⟨e', he', rfl⟩ := (mem_pending_rescoped k t e n (some m)).1 he
    unfold rescope
    split
    · exact h.ranged e' he'
    · exact h.ranged e' he'
  unscoped := by
    intro e he sc hsc
    obtain ⟨e', he', rfl⟩ := (mem_pending_rescoped k t e n (some m)).1 he
    unfold rescope at hsc
    split at hsc
    · exact Option.some.inj hsc ▸ hm
    · exact h.unscoped e' he' sc hsc
  bare := h.bare

theorem pending_ranged {c : NodeId} (hg : Grown t c k k') :
    ∀ e ∈ k'.pending, e.source.index < k'.size := by
  intro e he
  rcases hg.waits e he with ⟨he, -⟩ | ⟨hlive, -⟩
  · exact Nat.lt_trans (h.ranged e he) hg.size_lt
  · exact hlive.1.2

theorem fresh_visited (ho : t.Ordered) {c : NodeId} (hv : Visited t c k k') (hapart : Apart t s c) :
    Fresh t s k' := by
  rcases hv with rfl | ⟨hg, -⟩
  · exact h
  constructor
  · exact pending_ranged h hg
  · intro e he sc hsc hb
    rcases hg.waits e he with ⟨he, -⟩ | ⟨-, hscoped⟩
    · exact h.unscoped e he sc hsc hb
    · rw [hsc] at hscoped
      rcases hscoped.near with hin | hout
      · exact hapart sc hb hin
      · exact hapart c (ho.below_trans hout hb) (t.below_refl c)
  · intro T hT hstatement id el hel hb
    by_cases hold : id.index < k.size
    · exact h.bare T hT hstatement id el (hg.element_old id hold ▸ hel) hb
    · obtain ⟨el', hel', hc⟩ := hg.element_new id ⟨by omega, lt_size_of_element hel⟩
      obtain rfl : el = el' := Option.some.inj (hel.symm.trans hel')
      exact hapart el (ho.below_trans hb hT) hc

end fresh

section new
variable {k k1 k2 : Sketch} {id : InstructionId}

theorem New.later (h : New k k1 id) (hle : k1.size ≤ k2.size) : New k k2 id :=
  ⟨h.1, Nat.lt_of_lt_of_le h.2 hle⟩

theorem New.earlier (h : New k1 k2 id) (hle : k.size ≤ k1.size) : New k k2 id :=
  ⟨Nat.le_trans hle h.1, h.2⟩

theorem new_next (h : k.size ≤ k1.size) (hlt : k1.size < k2.size) : New k k2 k1.next := ⟨h, hlt⟩

/-- What is the entry, or has come after it, is new if the entry is. -/
theorem New.since {e : InstructionId} (h : New k k1 e) (hle : k1.size ≤ k2.size)
    (hid : id = e ∨ New k1 k2 id) : New k k2 id := by
  rcases hid with rfl | hid
  · exact h.later hle
  · exact hid.earlier (Nat.le_of_lt (Nat.lt_of_le_of_lt h.1 h.2))

end new

structure Later (k k' : Sketch) : Prop where
  size_le : k.size ≤ k'.size
  element : ∀ {id : InstructionId}, id.index < k.size → k'.element id = k.element id
  edge : ∀ {a b}, k.Edge a b → k'.Edge a b
  truncated : ∀ c ∈ k.truncated, c ∈ k'.truncated

section place
variable {t : SyntaxTree} {k : Sketch} {el : Option NodeId} {kind : InstructionKind}

theorem element_place_of_lt {id : InstructionId} (h : id.index < k.size) :
    (k.place t el kind).element id = k.element id := by
  rw [element_place, if_neg]
  rintro rfl
  exact Nat.lt_irrefl _ h

theorem element_place_next : (k.place t el kind).element k.next = el := by
  rw [element_place, if_pos rfl]

theorem eq_next_of_new {k0 : Sketch} {id : InstructionId} (h : New k0 (k.place t el kind) id) :
    id = k.next ∨ New k0 k id := by
  have hlt := h.2
  rw [size_place] at hlt
  by_cases heq : id.index < k.size
  · exact .inr ⟨h.1, heq⟩
  · left
    cases id
    simp only [next, InstructionId.mk.injEq] at *
    omega

end place

namespace Later
variable {k k1 k2 : Sketch} {t : SyntaxTree}

theorem refl (k : Sketch) : Later k k :=
  ⟨Nat.le_refl _, fun _ => rfl, fun h => h, fun _ h => h⟩

theorem trans (h : Later k k1) (h' : Later k1 k2) : Later k k2 where
  size_le := Nat.le_trans h.size_le h'.size_le
  element := fun hid => (h'.element (Nat.lt_of_lt_of_le hid h.size_le)).trans (h.element hid)
  edge := fun hab => h'.edge (h.edge hab)
  truncated := fun c hc => h'.truncated c (h.truncated c hc)

variable (h : Later k k1)
include h

theorem has {el : NodeId} (hk : k.Has el) : k1.Has el := by
  obtain ⟨id, hid⟩ := hk
  exact ⟨id, (h.element (lt_size_of_element hid)).trans hid⟩

theorem place (el : Option NodeId) (kind : InstructionKind) : Later k (k1.place t el kind) where
  size_le := by
    rw [size_place]
    exact Nat.le_succ_of_le h.size_le
  element := fun hid =>
    (element_place_of_lt (Nat.lt_of_lt_of_le hid h.size_le)).trans (h.element hid)
  edge := fun hab => (edge_place k1 t el kind _ _).2 (.inl (h.edge hab))
  truncated := h.truncated

theorem moved (c : Option InstructionId) : Later k (k1.moved c) :=
  ⟨h.size_le, h.element, h.edge, h.truncated⟩

theorem linked (x : InstructionId) (l : List InstructionId) : Later k (k1.linked x l) :=
  ⟨h.size_le, h.element, fun hab => (edge_linked k1 _ _ x l).2 (.inl (h.edge hab)), h.truncated⟩

theorem pended (n : Option NodeId) (l : List InstructionId) : Later k (k1.pended n l) :=
  ⟨h.size_le, h.element, h.edge, h.truncated⟩

theorem drained (n : NodeId) : Later k (k1.drained t n) :=
  ⟨h.size_le, h.element, h.edge, h.truncated⟩

theorem rescoped (n : NodeId) (m : Option NodeId) : Later k (k1.rescoped t n m) :=
  ⟨h.size_le, h.element, h.edge, h.truncated⟩

theorem settled (fate : PendingEdge → Fate) : Later k (k1.settled fate) :=
  ⟨h.size_le, h.element, fun hab => (edge_settled k1 _ _ fate).2 (.inl (h.edge hab)), h.truncated⟩

end Later

theorem Framed.later {t : SyntaxTree} {s : NodeId} {k k' : Sketch} (h : Framed t s k k') :
    Later k k' :=
  ⟨Nat.le_of_lt h.size_lt, fun hid => h.element_old _ hid, fun hab => h.edge_old _ _ hab,
    h.truncated_old⟩

theorem Visited.later {t : SyntaxTree} {s : NodeId} {k k' : Sketch} (h : Visited t s k k') :
    Later k k' := by
  rcases h with rfl | h
  · exact .refl _
  · exact h.1.later

section later
variable {t : SyntaxTree} {s : NodeId} {k k1 k2 : Sketch}

section
variable (hle : Later k1 k2)
include hle

theorem Live.later {x : InstructionId} (h : Live t s k k1 x) : Live t s k k2 x :=
  ⟨h.1.later hle.size_le, fun el hel T F hT => h.2 el ((hle.element h.1.2).symm.trans hel) T F
    (hT.mono hle.truncated)⟩

theorem Origin.later {a b : InstructionId} (h : Origin t s k k1 a b) : Origin t s k k2 a b := by
  rcases h with h | ⟨h, hb⟩ | ⟨ha, hb, hgate⟩ | ⟨ha, c, l, hc, hj⟩
  · exact .old h
  · exact .entering h hb
  · refine .inside (ha.later hle.size_le) (hb.later hle.size_le) fun x y hx hy => ?_
    rw [hle.element ha.2] at hx
    rw [hle.element hb.2] at hy
    exact (hgate x y hx hy).imp_right fun h T F hT => h T F (hT.mono hle.truncated)
  · exact .jump (ha.later hle.size_le) ⟨c, l, (hle.element ha.2).trans hc, hj⟩

/-- The edges that have stayed pass the test, and others are added behind. -/
theorem Appends.step (h : Appends t s k k1) {p : PendingEdge → Bool} (hp : ∀ e ∈ k.staying t s, p e = true)
    {l : List PendingEdge} (hl : ∀ e ∈ l, Live t s k k2 e.source ∧ Scoped t s e.scope)
    (hpending : k2.pending = k1.pending.filter p ++ l) : Appends t s k k2 := by
  obtain ⟨added, heq, hadded⟩ := h
  refine ⟨added.filter p ++ l, ?_, fun e he => ?_⟩
  · rw [hpending, heq, List.filter_append, List.filter_eq_self.2 hp, List.append_assoc]
  · rcases List.mem_append.1 he with he | he
    · obtain ⟨hlive, hscoped⟩ := hadded e (List.mem_filter.1 he).1
      exact ⟨hlive.later hle, hscoped⟩
    · exact hl e he

theorem Appends.filter (h : Appends t s k k1) {p : PendingEdge → Bool} (hp : ∀ e ∈ k.staying t s, p e = true)
    (hpending : k2.pending = k1.pending.filter p) : Appends t s k k2 :=
  h.step hle hp (l := []) (fun _ he => by cases he) (hpending.trans (List.append_nil _).symm)

theorem Appends.append (h : Appends t s k k1) {l : List PendingEdge}
    (hl : ∀ e ∈ l, Live t s k k2 e.source ∧ Scoped t s e.scope) (hpending : k2.pending = k1.pending ++ l) :
    Appends t s k k2 :=
  h.step hle (p := fun _ => true) (fun _ _ => rfl) hl
    (by rw [hpending, List.filter_eq_self.2 fun _ _ => rfl])

theorem Appends.same (h : Appends t s k k1) (hpending : k2.pending = k1.pending) : Appends t s k k2 :=
  h.append hle (l := []) (fun _ he => by cases he) (hpending.trans (List.append_nil _).symm)

/-- Every edge is replaced by a list, and those that have stayed by themselves. -/
theorem Appends.flatMap (h : Appends t s k k1) {f : PendingEdge → List PendingEdge}
    (hold : ∀ e ∈ k.pending, e.lands t (some s) = false → f e = [e])
    (hnew : ∀ e ∈ k1.pending, Live t s k k1 e.source → Scoped t s e.scope →
      ∀ e' ∈ f e, Live t s k k1 e'.source ∧ Scoped t s e'.scope)
    (hpending : k2.pending = k1.pending.flatMap f) : Appends t s k k2 := by
  obtain ⟨added, heq, hadded⟩ := h
  have hstay : (k.staying t s).flatMap f = k.staying t s := by
    rw [List.flatMap_def, List.map_congr_left fun e he => hold e (mem_staying.1 he).1 (mem_staying.1 he).2,
      ← List.flatMap_def]
    exact (List.map_eq_flatMap (f := id)).symm.trans (List.map_id _)
  refine ⟨added.flatMap f, by rw [hpending, heq, List.flatMap_append, hstay], fun e he => ?_⟩
  obtain ⟨e', he', hin⟩ := List.mem_flatMap.1 he
  obtain ⟨hlive, hscoped⟩ := hnew e' (heq ▸ List.mem_append_right _ he') (hadded e' he').1 (hadded e' he').2 e hin
  exact ⟨hlive.later hle, hscoped⟩

theorem Wired.later {a : InstructionId} {c l : NodeId} (h : Wired t s k k1 a c l) :
    Wired t s k k2 a c l := by
  rcases h with h | ⟨header, hel, h⟩ | ⟨hin, h⟩
  · exact .truncated (hle.truncated c h)
  · exact .linked header ((hle.element (lt_size_of_element hel)).trans hel) (hle.edge h)
  · exact .unmade hin h

end

/-- An edge from where flow may go on leaves nothing past its clause. -/
theorem Live.inside {a b : InstructionId} (ha : Live t s k k1 a) (hb : New k k1 b) :
    Origin t s k k1 a b :=
  .inside ha.1 hb fun x y hx _ => (ha.2 x hx).gated y

end later

end PythonFlow.Sketch
