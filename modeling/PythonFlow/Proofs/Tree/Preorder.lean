import PythonFlow.Proofs.Tree.Layout
import PythonFlow.Proofs.Tree.Pushed

/-!
# Numbering in pre-order

A tree is numbered in pre-order if it has one root, the nodes below each one are a run of indices that
starts at it, and the children of each ascend. The layout of a shape is numbered like that. It is also
what comes out when the nodes of the shape are pushed one by one, each before its children: a node's
children are then entered in its list as they come, and the list grows to the one that the layout writes
at once.
-/

set_option autoImplicit false

namespace PythonFlow

structure SyntaxTree.Preordered (t : SyntaxTree) : Prop where
  rooted : ∀ id ∈ t.ids, t.Below id SyntaxTree.root
  contiguous : ∀ id ∈ t.ids, ∃ n, id.index + n ≤ t.size ∧
    ∀ x, t.Below x id ↔ id.index ≤ x.index ∧ x.index < id.index + n
  ascending : ∀ id, (t.children id).Pairwise fun c d => c.index < d.index

namespace Shape

section range
variable {t : SyntaxTree} {next : Nat}

/-- Whatever has an index among those of a laid out shape stands in it. -/
theorem laid_below (ho : t.Ordered) {parent : Option NodeId} {s : Shape}
    (h : s.Laid t parent next) (i : Nat) (hlo : next ≤ i) (hhi : i < next + s.size) :
    t.Below ⟨i⟩ ⟨next⟩ := by
  induction i using Nat.strongRecOn with
  | ind i ih =>
    obtain ⟨-, q, -, -, hq⟩ := laid_at s h (P := fun _ => True) (by simp) trivial i hlo hhi
    rcases hq with ⟨rfl, -⟩ | ⟨p, -, hle, hlt, hmem⟩
    · exact SyntaxTree.below_refl t _
    · have hp : t.Below p ⟨next⟩ := ih p.index hlt hle (by omega)
      exact ho.below_trans (ho.below_parent (ho.parent_of_mem hmem)) hp

mutual

theorem laid_range (ho : t.Ordered) {parent : Option NodeId} {next : Nat} (s : Shape)
    (h : s.Laid t parent next) (x : NodeId) (hx : t.Below x ⟨next⟩) :
    x.index < next + s.size := by
  rcases SyntaxTree.below_iff_eq_or_inside.1 hx with rfl | hin
  · simp only [size_eq]
    omega
  · obtain ⟨c, hc, hxc⟩ := ho.exists_child hin
    have hmem : c ∈ t.children ⟨next⟩ :=
      ho.mem_children.2 ⟨SyntaxTree.index_lt_size_of_parent hc, hc⟩
    rw [(laid_node h).2.2.2.2] at hmem
    cases s with
    | node k r sp n tx cs =>
      have hlt := laid_all_range ho cs h.2 c hmem x hxc
      simp only [size]
      omega

theorem laid_all_range (ho : t.Ordered) {parent : NodeId} {next : Nat} (ss : List Shape)
    (h : LaidAll t parent next ss) (c : NodeId) (hc : c ∈ indices next ss) (x : NodeId)
    (hx : t.Below x c) : x.index < next + sizeAll ss := by
  cases ss with
  | nil => cases hc
  | cons s rest =>
    simp only [sizeAll]
    rcases List.mem_cons.1 hc with rfl | hc
    · have hlt := laid_range ho s h.1 x hx
      omega
    · have hlt := laid_all_range ho rest h.2 c hc x hx
      omega

end

theorem indices_ascend (next : Nat) (ss : List Shape) :
    (indices next ss).Pairwise fun c d => c.index < d.index := by
  induction ss generalizing next with
  | nil => exact .nil
  | cons s rest ih =>
    refine List.pairwise_cons.2 ⟨fun d hd => ?_, ih _⟩
    have hge := indices_ge _ rest d hd
    have hpos : 0 < s.size := by rw [size_eq]; omega
    simp only
    omega

end range

theorem preordered_to_tree (s : Shape) : s.toTree.Preordered where
  rooted := by
    intro id hid
    obtain ⟨i, hi, rfl⟩ := List.mem_map.1 hid
    have hlt := List.mem_range.1 hi
    rw [size_to_tree] at hlt
    exact laid_below (ordered_to_tree s) (laid_to_tree s) i (Nat.zero_le i) (by omega)
  contiguous := by
    intro id hid
    obtain ⟨i, hi, rfl⟩ := List.mem_map.1 hid
    have ho := ordered_to_tree s
    obtain ⟨s', q, hs', hl, -⟩ :=
      to_tree_at s (P := fun _ => True) (by simp) trivial i (List.mem_range.1 hi)
    have hrange : ∀ x, s.toTree.Below x ⟨i⟩ ↔ i ≤ x.index ∧ x.index < i + s'.size :=
      fun x => ⟨fun hx => ⟨ho.index_le hx, laid_range ho s' hl x hx⟩,
        fun hx => laid_below ho hl x.index hx.1 hx.2⟩
    refine ⟨s'.size, ?_, hrange⟩
    -- The last index of the run is that of a node, so it lies within the tree.
    have hpos : 0 < s'.size := by rw [size_eq]; omega
    have hlast : s.toTree.Below ⟨i + s'.size - 1⟩ ⟨i⟩ := (hrange _).2 (by simp only; omega)
    rcases SyntaxTree.below_iff_eq_or_inside.1 hlast with heq | hin
    · have hi' := List.mem_range.1 hi
      have := congrArg NodeId.index heq
      simp only at this ⊢
      omega
    · have hlt := ho.index_lt_size_of_inside hin
      simp only at hlt ⊢
      omega
  ascending := by
    intro id
    rcases List.eq_nil_or_concat (s.toTree.children id) with h | ⟨l, c, h⟩
    · rw [h]
      exact .nil
    · obtain ⟨s', -, -, -, hc, -⟩ := children_to_tree s (P := fun _ => True) (by simp) trivial
        (show c ∈ s.toTree.children id by simp [h])
      rw [hc]
      exact indices_ascend _ _

section pushing

def adopt (ids : List NodeId) (n : SyntaxNode) : SyntaxNode :=
  { n with children := n.children ++ ids }

def dress (t : SyntaxTree) (id : NodeId) (name : Option String) (text : String) : SyntaxTree :=
  match name with
  | some name => (t.setName id name).setText id text
  | none => t.setText id text

mutual

def pushTo (t : SyntaxTree) (parent : NodeId) : Shape → SyntaxTree
  | node kind role span name text children =>
    pushAllTo (dress (t.push parent kind role span).1 ⟨t.size⟩ name text) ⟨t.size⟩ children

def pushAllTo (t : SyntaxTree) (parent : NodeId) : List Shape → SyntaxTree
  | [] => t
  | s :: rest => pushAllTo (s.pushTo t parent) parent rest

end

/-- The tree that begins as the root of a shape and to which the other nodes are pushed. -/
def pushed : Shape → SyntaxTree
  | node kind _ span name text children =>
    pushAllTo (dress (.singleton kind span) SyntaxTree.root name text) SyntaxTree.root children

section layout
variable {nodes : Array SyntaxNode} {i : Nat} (f : SyntaxNode → SyntaxNode)

theorem modify_push_lt (hi : i < nodes.size) (n : SyntaxNode) :
    (nodes.push n).modify i f = (nodes.modify i f).push n := by
  apply Array.ext_getElem?
  intro j
  simp only [Array.getElem?_modify, Array.getElem?_push, Array.size_modify]
  split
  · have hj : j ≠ nodes.size := by omega
    rw [if_neg hj, if_neg hj]
  · rfl

theorem modify_push_last (hi : i = nodes.size) (n : SyntaxNode) :
    (nodes.push n).modify i f = nodes.push (f n) := by
  subst hi
  apply Array.ext_getElem?
  intro j
  simp only [Array.getElem?_modify, Array.getElem?_push]
  by_cases hj : j = nodes.size
  · simp [hj]
  · simp [hj, Ne.symm hj]

theorem modify_adopt_nil (nodes : Array SyntaxNode) (i : Nat) : nodes.modify i (adopt []) = nodes := by
  apply Array.ext_getElem?
  intro j
  rw [Array.getElem?_modify]
  split
  · cases nodes[j]? <;> simp [adopt]
  · rfl

theorem modify_adopt_adopt (nodes : Array SyntaxNode) (i : Nat) (ids more : List NodeId) :
    (nodes.modify i (adopt ids)).modify i (adopt more) = nodes.modify i (adopt (ids ++ more)) := by
  apply Array.ext_getElem?
  intro j
  simp only [Array.getElem?_modify]
  split
  · cases nodes[j]? <;> simp [adopt]
  · rfl

mutual

/-- What is laid out behind a node leaves a change of the node as it is. -/
theorem modify_lay_out (parent : Option NodeId) (s : Shape) (nodes : Array SyntaxNode)
    (hi : i < nodes.size) :
    (s.layOut parent nodes).modify i f = s.layOut parent (nodes.modify i f) := by
  cases s with
  | node k r sp n tx cs =>
    rw [layOut, layOut, modify_lay_out_all ⟨nodes.size⟩ cs _ (by simp; omega), modify_push_lt f hi,
      Array.size_modify]

theorem modify_lay_out_all (parent : NodeId) (ss : List Shape) (nodes : Array SyntaxNode)
    (hi : i < nodes.size) :
    (layOutAll parent nodes ss).modify i f = layOutAll parent (nodes.modify i f) ss := by
  cases ss with
  | nil => rfl
  | cons s rest =>
    rw [layOutAll, layOutAll,
      modify_lay_out_all parent rest _ (by rw [size_lay_out]; omega), modify_lay_out _ s nodes hi]

end

/-- A pushed node stands at the end, and its parent has it as the last child. -/
theorem nodes_push_fresh (t : SyntaxTree) {p : NodeId} (hp : p.index < t.size) (k : SyntaxKind)
    (r : Role) (sp : Span) : (t.push p k r sp).1.nodes =
      (t.nodes.modify p.index (adopt [⟨t.size⟩])).push (.fresh (some p) k r sp) := by
  have hlt : p.index < (⟨t.nodes.push (.fresh (some p) k r sp)⟩ : SyntaxTree).size := by
    simp only [SyntaxTree.size, Array.size_push] at hp ⊢
    omega
  rw [SyntaxTree.push, (SyntaxTree.require_ok _ _).2 hlt]
  exact modify_push_lt (adopt [⟨t.size⟩]) hp _

/-- With its name and its text, it is complete but for children. -/
theorem nodes_push (t : SyntaxTree) {p : NodeId} (hp : p.index < t.size) (k : SyntaxKind) (r : Role)
    (sp : Span) (n : Option String) (tx : String) :
    (dress (t.push p k r sp).1 ⟨t.size⟩ n tx).nodes =
      (t.nodes.modify p.index (adopt [⟨t.size⟩])).push ⟨k, r, some p, [], sp, n, tx⟩ := by
  have hsize : (t.nodes.modify p.index (adopt [⟨t.size⟩])).size = t.size := by
    rw [Array.size_modify]
    rfl
  have hgrown := nodes_push_fresh t hp k r sp
  have hlast : ∀ (g : SyntaxNode → SyntaxNode) (m : SyntaxNode),
      ((t.nodes.modify p.index (adopt [⟨t.size⟩])).push m).modify t.size g =
        (t.nodes.modify p.index (adopt [⟨t.size⟩])).push (g m) :=
    fun g m => modify_push_last g hsize.symm m
  cases n with
  | none => simp only [dress, SyntaxTree.setText, SyntaxTree.update, hgrown, hlast, SyntaxNode.fresh]
  | some n =>
    simp only [dress, SyntaxTree.setText, SyntaxTree.setName, SyntaxTree.update, hgrown, hlast,
      SyntaxNode.fresh]

mutual

theorem push_to_nodes (s : Shape) (t : SyntaxTree) {p : NodeId} (hp : p.index < t.size) :
    (s.pushTo t p).nodes = s.layOut (some p) (t.nodes.modify p.index (adopt [⟨t.size⟩])) := by
  cases s with
  | node k r sp n tx cs =>
    have hnodes := nodes_push t hp k r sp n tx
    have hsize : (dress (t.push p k r sp).1 ⟨t.size⟩ n tx).size = t.size + 1 := by
      rw [SyntaxTree.size, hnodes, Array.size_push, Array.size_modify]
      rfl
    rw [pushTo, push_all_to_nodes cs _ (by rw [hsize]; exact Nat.lt_succ_self _), hnodes, hsize,
      modify_push_last _ (by rw [Array.size_modify]; rfl), layOut, Array.size_modify]
    rfl

theorem push_all_to_nodes (ss : List Shape) (t : SyntaxTree) {p : NodeId} (hp : p.index < t.size) :
    (pushAllTo t p ss).nodes =
      layOutAll p (t.nodes.modify p.index (adopt (indices t.size ss))) ss := by
  cases ss with
  | nil => exact (modify_adopt_nil t.nodes p.index).symm
  | cons s rest =>
    have hnodes := push_to_nodes s t hp
    have hsize : (s.pushTo t p).size = t.size + s.size := by
      rw [SyntaxTree.size, hnodes, size_lay_out, Array.size_modify]
      rfl
    have hlt : p.index < (t.nodes.modify p.index (adopt [⟨t.size⟩])).size := by
      rw [Array.size_modify]
      exact hp
    rw [pushAllTo, push_all_to_nodes rest _ (by omega), hnodes, hsize, modify_lay_out _ _ _ _ hlt,
      modify_adopt_adopt, layOutAll]
    rfl

end

end layout

/-- Pushing the nodes of a shape one by one gives its layout. -/
theorem pushed_eq_to_tree (s : Shape) (h : s.role = .plain) : s.pushed = s.toTree := by
  cases s with
  | node k r sp n tx cs =>
    obtain rfl : r = .plain := h
    have hroot : (dress (.singleton k sp) SyntaxTree.root n tx).nodes =
        #[⟨k, .plain, none, [], sp, n, tx⟩] := by
      cases n <;> rfl
    have hsize : (dress (.singleton k sp) SyntaxTree.root n tx).size = 1 := by
      rw [SyntaxTree.size, hroot]
      rfl
    have hnodes := push_all_to_nodes cs (dress (.singleton k sp) SyntaxTree.root n tx)
      (p := SyntaxTree.root) (by rw [hsize]; exact Nat.one_pos)
    rw [hroot, hsize] at hnodes
    exact congrArg SyntaxTree.mk hnodes

theorem pushed_dress {t : SyntaxTree} (h : t.Pushed) (id : NodeId) (name : Option String)
    (text : String) : (dress t id name text).Pushed := by
  cases name with
  | none => exact h.setText id text
  | some name => exact (h.setName id name).setText id text

theorem size_dress (t : SyntaxTree) (id : NodeId) (name : Option String) (text : String) :
    (dress t id name text).size = t.size := by
  cases name <;> simp [dress, SyntaxTree.setText, SyntaxTree.setName, SyntaxTree.size_update]

mutual

theorem pushed_push_to (s : Shape) {t : SyntaxTree} (h : t.Pushed) {p : NodeId}
    (hp : p.index < t.size) : (s.pushTo t p).Pushed ∧ t.size < (s.pushTo t p).size := by
  cases s with
  | node k r sp n tx cs =>
    have hsize : (dress (t.push p k r sp).1 ⟨t.size⟩ n tx).size = t.size + 1 := by
      rw [size_dress, SyntaxTree.size_push]
    have hall := pushed_push_all_to cs (pushed_dress (h.push hp k r sp) ⟨t.size⟩ n tx)
      (p := ⟨t.size⟩) (by rw [hsize]; exact Nat.lt_succ_self _)
    exact ⟨hall.1, by rw [hsize] at hall; exact hall.2⟩

theorem pushed_push_all_to (ss : List Shape) {t : SyntaxTree} (h : t.Pushed) {p : NodeId}
    (hp : p.index < t.size) : (pushAllTo t p ss).Pushed ∧ t.size ≤ (pushAllTo t p ss).size := by
  cases ss with
  | nil => exact ⟨h, Nat.le_refl _⟩
  | cons s rest =>
    have hfirst := pushed_push_to s h hp
    have hrest := pushed_push_all_to rest hfirst.1 (p := p) (by omega)
    exact ⟨hrest.1, by rw [pushAllTo]; omega⟩

end

/-- Every push of a shape's nodes finds its parent there. -/
theorem pushed_to_tree (s : Shape) (h : s.role = .plain) : s.toTree.Pushed := by
  rw [← pushed_eq_to_tree s h]
  cases s with
  | node k r sp n tx cs =>
    have hroot := pushed_dress (.singleton k sp) SyntaxTree.root n tx
    refine (pushed_push_all_to cs hroot ?_).1
    rw [size_dress]
    exact Nat.one_pos

end pushing

end Shape
end PythonFlow
