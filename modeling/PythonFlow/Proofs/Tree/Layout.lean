import PythonFlow.Lowering.Shape
import PythonFlow.Proofs.Tree.Below

/-!
# The layout of a shape

`Laid` says that a shape stands in a tree from one index on, node by node. It holds of the tree a
shape is laid out to, and all facts about such a tree are read off it: the tree is ordered, and what
holds of every node of the shape and its children holds of every node of the tree.
-/

set_option autoImplicit false

namespace PythonFlow.Shape

mutual

/-- The shape stands in the tree from index `next` on, below `parent`. -/
def Laid (t : SyntaxTree) (parent : Option NodeId) (next : Nat) : Shape → Prop
  | node kind role span name text children =>
    t.nodes[next]? = some ⟨kind, role, parent, indices (next + 1) children, span, name, text⟩ ∧
      LaidAll t ⟨next⟩ (next + 1) children

def LaidAll (t : SyntaxTree) (parent : NodeId) (next : Nat) : List Shape → Prop
  | [] => True
  | s :: rest => s.Laid t (some parent) next ∧ LaidAll t parent (next + s.size) rest

end

mutual

theorem lay_out_keeps (parent : Option NodeId) (nodes : Array SyntaxNode) (s : Shape) (i : Nat)
    (hi : i < nodes.size) : (s.layOut parent nodes)[i]? = nodes[i]? := by
  cases s with
  | node k r sp n t cs =>
    rw [layOut, lay_out_all_keeps _ _ cs i (by simp; omega)]
    rw [Array.getElem?_push]
    split
    · omega
    · rfl

theorem lay_out_all_keeps (parent : NodeId) (nodes : Array SyntaxNode) (ss : List Shape) (i : Nat)
    (hi : i < nodes.size) : (layOutAll parent nodes ss)[i]? = nodes[i]? := by
  cases ss with
  | nil => rfl
  | cons s rest =>
    rw [layOutAll, lay_out_all_keeps _ _ rest i (by rw [size_lay_out]; omega)]
    exact lay_out_keeps _ nodes s i hi

end

mutual

theorem laid_of_agree (parent : Option NodeId) (nodes : Array SyntaxNode) (s : Shape)
    (t : SyntaxTree)
    (h : ∀ i, i < nodes.size + s.size → t.nodes[i]? = (s.layOut parent nodes)[i]?) :
    s.Laid t parent nodes.size := by
  cases s with
  | node k r sp n tx cs =>
    refine ⟨?_, ?_⟩
    · rw [h _ (by simp [size]), layOut, lay_out_all_keeps _ _ cs _ (by simp)]
      simp
    · have hall := laid_all_of_agree ⟨nodes.size⟩
        (nodes.push ⟨k, r, parent, indices (nodes.size + 1) cs, sp, n, tx⟩) cs t ?_
      · simpa using hall
      · intro i hi
        rw [h i (by simp only [size, Array.size_push] at *; omega), layOut]

theorem laid_all_of_agree (parent : NodeId) (nodes : Array SyntaxNode) (ss : List Shape)
    (t : SyntaxTree)
    (h : ∀ i, i < nodes.size + sizeAll ss → t.nodes[i]? = (layOutAll parent nodes ss)[i]?) :
    LaidAll t parent nodes.size ss := by
  cases ss with
  | nil => trivial
  | cons s rest =>
    refine ⟨laid_of_agree (some parent) nodes s t ?_, ?_⟩
    · intro i hi
      rw [h i (by simp only [sizeAll]; omega), layOutAll,
        lay_out_all_keeps _ _ rest i (by rw [size_lay_out]; omega)]
    · rw [← size_lay_out (some parent) nodes s]
      refine laid_all_of_agree parent _ rest t ?_
      intro i hi
      rw [h i (by simp only [sizeAll, size_lay_out] at *; omega), layOutAll]

end

theorem laid_to_tree (s : Shape) : s.Laid s.toTree none 0 :=
  laid_of_agree none #[] s s.toTree fun _ _ => rfl

def kind : Shape → SyntaxKind
  | node k _ _ _ _ _ => k

def role : Shape → Role
  | node _ r _ _ _ _ => r

def children : Shape → List Shape
  | node _ _ _ _ _ cs => cs

theorem laid_node {t : SyntaxTree} {parent : Option NodeId} {next : Nat} {s : Shape}
    (h : s.Laid t parent next) :
    next < t.size ∧ t.kind ⟨next⟩ = s.kind ∧ t.role ⟨next⟩ = s.role ∧ t.parent ⟨next⟩ = parent ∧
      t.children ⟨next⟩ = indices (next + 1) s.children := by
  cases s with
  | node k r sp n tx cs =>
    have hat : t.nodes[next]? = some ⟨k, r, parent, indices (next + 1) cs, sp, n, tx⟩ := h.1
    obtain ⟨hlt, hval⟩ := Array.getElem?_eq_some_iff.1 hat
    have hget : t.node ⟨next⟩ = ⟨k, r, parent, indices (next + 1) cs, sp, n, tx⟩ := by
      simp only [SyntaxTree.node, Array.getD, hlt, dite_true]
      exact hval
    simp [SyntaxTree.kind, SyntaxTree.role, SyntaxTree.parent, SyntaxTree.children,
      SyntaxTree.size, hget, kind, role, children, hlt]

theorem laid_children {t : SyntaxTree} {parent : Option NodeId} {next : Nat} {s : Shape}
    (h : s.Laid t parent next) : LaidAll t ⟨next⟩ (next + 1) s.children := by
  cases s with
  | node k r sp n tx cs => exact h.2

theorem size_eq (s : Shape) : s.size = sizeAll s.children + 1 := by
  cases s
  rfl

/-- What a list of indices names: each is the start of one of the shapes laid out there. -/
theorem mem_indices {t : SyntaxTree} {parent : NodeId} {next : Nat} {ss : List Shape}
    (h : LaidAll t parent next ss) (c : NodeId) (hc : c ∈ indices next ss) :
    next ≤ c.index ∧ ∃ s ∈ ss, s.Laid t (some parent) c.index := by
  induction ss generalizing next with
  | nil => simp [indices] at hc
  | cons s rest ih =>
    simp only [indices, List.mem_cons] at hc
    rcases hc with rfl | hc
    · exact ⟨Nat.le_refl _, s, by simp, h.1⟩
    · obtain ⟨hle, s', hs', hl⟩ := ih h.2 hc
      exact ⟨by omega, s', by simp [hs'], hl⟩

theorem indices_ge (next : Nat) (ss : List Shape) : ∀ c ∈ indices next ss, next ≤ c.index := by
  induction ss generalizing next with
  | nil => simp [indices]
  | cons s rest ih =>
    intro c hc
    simp only [indices, List.mem_cons] at hc
    rcases hc with rfl | hc
    · exact Nat.le_refl _
    · have hle := ih _ c hc
      omega

theorem indices_nodup (next : Nat) (ss : List Shape) : (indices next ss).Nodup := by
  induction ss generalizing next with
  | nil => simp [indices]
  | cons s rest ih =>
    simp only [indices, List.nodup_cons]
    refine ⟨fun hmem => ?_, ih _⟩
    have hge := indices_ge _ rest _ hmem
    have hpos : 0 < s.size := by rw [size_eq]; omega
    simp only at hge
    omega

mutual

/-- Whatever holds of a shape laid out and passes from a shape to its children holds of some shape
at each index that is taken. -/
theorem laid_at {t : SyntaxTree} {parent : Option NodeId} {next : Nat} (s : Shape)
    (h : s.Laid t parent next) {P : Shape → Prop}
    (down : ∀ s, P s → ∀ c ∈ s.children, P c) (hs : P s) (i : Nat) (hlo : next ≤ i)
    (hhi : i < next + s.size) :
    ∃ s' q, P s' ∧ s'.Laid t q i ∧ (i = next ∧ q = parent ∨
      ∃ p, q = some p ∧ next ≤ p.index ∧ p.index < i ∧ ⟨i⟩ ∈ t.children p) := by
  cases s with
  | node k r sp n tx cs =>
    by_cases hi : i = next
    · subst hi
      exact ⟨_, parent, hs, h, .inl ⟨rfl, rfl⟩⟩
    · have hsub := laid_all_at cs h.2 down (fun c hc => down _ hs c hc) i (by omega)
        (by simp only [size] at hhi; omega)
      obtain ⟨s', q, hp, hl, hq⟩ := hsub
      refine ⟨s', q, hp, hl, .inr ?_⟩
      rcases hq with ⟨hmem, rfl⟩ | ⟨p, rfl, hlo', hlt, hmem⟩
      · refine ⟨⟨next⟩, rfl, Nat.le_refl _, by simp only; omega, ?_⟩
        rw [(laid_node h).2.2.2.2]
        exact hmem
      · exact ⟨p, rfl, by omega, hlt, hmem⟩

theorem laid_all_at {t : SyntaxTree} {parent : NodeId} {next : Nat} (ss : List Shape)
    (h : LaidAll t parent next ss) {P : Shape → Prop}
    (down : ∀ s, P s → ∀ c ∈ s.children, P c) (hs : ∀ s ∈ ss, P s) (i : Nat) (hlo : next ≤ i)
    (hhi : i < next + sizeAll ss) :
    ∃ s' q, P s' ∧ s'.Laid t q i ∧ (⟨i⟩ ∈ indices next ss ∧ q = some parent ∨
      ∃ p, q = some p ∧ next ≤ p.index ∧ p.index < i ∧ ⟨i⟩ ∈ t.children p) := by
  cases ss with
  | nil => simp only [sizeAll] at hhi; omega
  | cons s rest =>
    by_cases hi : i < next + s.size
    · obtain ⟨s', q, hp, hl, hq⟩ := laid_at s h.1 down (hs s (by simp)) i hlo hi
      refine ⟨s', q, hp, hl, ?_⟩
      rcases hq with ⟨rfl, rfl⟩ | hq
      · exact .inl ⟨by simp [indices], rfl⟩
      · exact .inr hq
    · obtain ⟨s', q, hp, hl, hq⟩ := laid_all_at rest h.2 down (fun c hc => hs c (by simp [hc])) i
        (by omega) (by simp only [sizeAll] at hhi; omega)
      refine ⟨s', q, hp, hl, ?_⟩
      rcases hq with ⟨hmem, rfl⟩ | ⟨p, rfl, hlo', hlt, hmem⟩
      · exact .inl ⟨by simp [indices, hmem], rfl⟩
      · exact .inr ⟨p, rfl, by omega, hlt, hmem⟩

end

/-- Each node of the tree of a shape is the start of a shape for which `P` holds. -/
theorem to_tree_at (s : Shape) {P : Shape → Prop} (down : ∀ s, P s → ∀ c ∈ s.children, P c)
    (hs : P s) (i : Nat) (hi : i < s.toTree.size) :
    ∃ s' q, P s' ∧ s'.Laid s.toTree q i ∧ (i = 0 ∧ q = none ∨
      ∃ p, q = some p ∧ p.index < i ∧ ⟨i⟩ ∈ s.toTree.children p) := by
  rw [size_to_tree] at hi
  obtain ⟨s', q, hp, hl, hq⟩ := laid_at s (laid_to_tree s) down hs i (Nat.zero_le i) (by omega)
  refine ⟨s', q, hp, hl, hq.imp id ?_⟩
  rintro ⟨p, hqp, -, hlt, hmem⟩
  exact ⟨p, hqp, hlt, hmem⟩

theorem parent_to_tree (s : Shape) (i : NodeId) :
    s.toTree.parent i = none ∨
      ∃ p, s.toTree.parent i = some p ∧ p.index < i.index ∧ i ∈ s.toTree.children p := by
  by_cases hi : i.index < s.toTree.size
  · obtain ⟨s', q, -, hl, hq⟩ := to_tree_at s (P := fun _ => True) (by simp) trivial i.index hi
    have hpar := (laid_node hl).2.2.2.1
    rcases hq with ⟨-, rfl⟩ | ⟨p, rfl, hlt, hmem⟩
    · exact .inl hpar
    · exact .inr ⟨p, hpar, hlt, hmem⟩
  · refine .inl ?_
    have hnode : s.toTree.node i = .blank := by
      have hi' : ¬ i.index < s.toTree.nodes.size := hi
      simp only [SyntaxTree.node, Array.getD, hi', dite_false]
    simp [SyntaxTree.parent, hnode, SyntaxNode.blank, SyntaxNode.fresh]

/-- The start of a shape for which `P` holds, read off at an index of its tree. -/
theorem children_to_tree (s : Shape) {P : Shape → Prop}
    (down : ∀ s, P s → ∀ c ∈ s.children, P c) (hs : P s) {p c : NodeId}
    (h : c ∈ s.toTree.children p) :
    ∃ s' ∈ {s' | P s'}, s.toTree.kind p = s'.kind ∧ s.toTree.role p = s'.role ∧
      s.toTree.children p = indices (p.index + 1) s'.children ∧
      ∃ d ∈ s'.children, d.Laid s.toTree (some p) c.index := by
  by_cases hp : p.index < s.toTree.size
  · obtain ⟨s', q, hps, hl, -⟩ := to_tree_at s down hs p.index hp
    obtain ⟨-, hk, hr, -, hc⟩ := laid_node hl
    have hmem : c ∈ indices (p.index + 1) s'.children := hc ▸ h
    obtain ⟨-, d, hd, hdl⟩ := mem_indices (laid_children hl) c hmem
    exact ⟨s', hps, hk, hr, hc, d, hd, hdl⟩
  · have hnode : s.toTree.node p = .blank := by
      have hp' : ¬ p.index < s.toTree.nodes.size := hp
      simp only [SyntaxTree.node, Array.getD, hp', dite_false]
    simp [SyntaxTree.children, hnode, SyntaxNode.blank, SyntaxNode.fresh] at h

theorem ordered_to_tree (s : Shape) : s.toTree.Ordered where
  parent_lt := by
    intro id p h
    rcases parent_to_tree s id with hn | ⟨q, hq, hlt, -⟩
    · rw [hn] at h
      exact absurd h (by simp)
    · rw [hq, Option.some.injEq] at h
      exact h ▸ hlt
  mem_children := by
    intro p c
    constructor
    · intro h
      obtain ⟨-, -, -, -, -, d, -, hl⟩ := children_to_tree s (P := fun _ => True) (by simp) trivial h
      exact ⟨(laid_node hl).1, (laid_node hl).2.2.2.1⟩
    · rintro ⟨-, h⟩
      rcases parent_to_tree s c with hn | ⟨q, hq, -, hmem⟩
      · rw [hn] at h
        exact absurd h (by simp)
      · rw [hq, Option.some.injEq] at h
        exact h ▸ hmem
  children_nodup := by
    intro p
    rcases List.eq_nil_or_concat (s.toTree.children p) with h | ⟨l, c, h⟩
    · rw [h]
      exact List.nodup_nil
    · obtain ⟨s', -, -, -, hc, -⟩ := children_to_tree s (P := fun _ => True) (by simp) trivial
        (show c ∈ s.toTree.children p by simp [h])
      rw [hc]
      exact indices_nodup _ _

end PythonFlow.Shape
