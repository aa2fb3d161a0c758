import PythonFlow.Proofs.Census.Visits
import PythonFlow.Proofs.Sketch.Faithful

/-!
# The instructions of an owner's graph

What a gauge shows of the graph of an owner, whose code nothing was cut off from: nothing that the
owner does not own, and what it owns as often as the rule of that node makes it. From this follows that
the graphs of the owners share out the statements of a tree.
-/

set_option autoImplicit false

namespace PythonFlow

theorem InstructionGraph.labels_eq (g : InstructionGraph) :
    g.labels = g.ids.map fun id => ((g.instruction id).element, (g.instruction id).kind) := by
  rw [labels, instructions_eq, List.map_map, ids_eq]
  rfl

namespace Sketch
variable {t : SyntaxTree} {depth : Nat} {owner x : NodeId} {stray : Bool}
  {entry : NodeId → Option String → Bool}

section build
variable (hg : t.Grammatical) (howner : (t.kind owner).isOwner = true)
include hg howner

/-- Of what the owner does not own there is no instruction. -/
theorem seen_none
    (h : ∀ y, t.Owns owner y → entry y none = false ∧ ∀ e ∈ t.instances y, entry e.1 e.2 = false) :
    (Gauge.seeing stray entry).of (build t depth owner) = 0 := by
  have howned : ∀ {c y}, c ∈ t.children owner → t.Holds c y → t.Owns owner y := fun hc hy =>
    (owns_of_child hg.ordered hc).held hg.ordered hy
  rw [of_build hg howner fun c hc d _ hd => (h d (howned hc hd)).1]
  exact total_eq_zero.2 fun c hc =>
    share_none hg (hg.kind_of_child hc) fun y hy => h y (howned hc hy)

/-- Where nothing was cut off, no visit of a child reaches its last level. -/
theorem fits_of_build (hcut : (build t depth owner).truncated = []) :
    ∀ c ∈ t.children owner, Fits t depth c := by
  have hcuts : total (Gauge.cuts.share t depth) (t.children owner) = 0 := by
    rw [← of_build (m := .cuts) hg howner fun _ _ _ _ _ => rfl]
    have hblind : (build t depth owner).made.countP Gauge.cuts.sees = 0 :=
      List.countP_eq_zero.2 fun x _ => by rcases x with ⟨_ | _, _⟩ <;> simp [Gauge.sees, Gauge.cuts]
    rw [Gauge.of, hcut, hblind]
    rfl
  exact fun c hc => fits_of_share (total_eq_zero.1 hcuts c hc)

section one
variable (hsee : ∀ y name, y ≠ x → entry y name = false)
  (hmark : (t.kind x).isStatement = true ∨ entry x none = false)
include hsee hmark

omit hg howner in
theorem blind_of_seen (s : NodeId) : (Gauge.seeing stray entry).Blind t s := by
  intro c hterm _
  by_cases heq : c = x
  · subst heq
    refine hmark.resolve_left fun hstat => ?_
    rw [SyntaxTree.not_statement_of_quiet (SyntaxTree.is_quiet_of_term hterm)] at hstat
    cases hstat
  · exact hsee c none heq

/-- The owned node stands below one child of the owner, and the others hold nothing of it. -/
theorem seen_in_child (depth : Nat) (hx : t.Owns owner x) :
    ∃ c ∈ t.children owner, t.Holds c x ∧
      (Gauge.seeing stray entry).of (build t depth owner) = (Gauge.seeing stray entry).share t depth c := by
  obtain ⟨c, hc, hxc⟩ := hg.ordered.exists_child hx.1
  have hc := hg.ordered.mem_children.2 ⟨SyntaxTree.index_lt_size_of_parent hc, hc⟩
  have hin := inside_of_mem hg.ordered hc
  refine ⟨c, hc, ⟨hxc, fun m hm hmc => hx.2 m hm (hg.ordered.inside_of_below_inside hmc hin)⟩, ?_⟩
  rw [of_build hg howner fun c _ => blind_of_seen hsee hmark c]
  refine total_of_apart (apart_children hg.ordered (hg.ordered.children_nodup owner) fun _ h => h) hc
    fun d hd hapart => share_none hg (hg.kind_of_child hd) fun y hy => unseen_of_ne hsee ?_
  rintro rfl
  exact hapart y hxc hy.1

theorem seen_once (hslots : t.Slotted) (hone : t.SingleClauses)
    (hcut : (build t depth owner).truncated = []) (hx : t.Owns owner x)
    (hopen : (t.kind x).isOpened = false) (hlost : ∀ l, t.Owns owner l → ¬ t.Loses l x) :
    (Gauge.seeing stray entry).of (build t depth owner) = (Gauge.seeing stray entry).count (t.instances x) := by
  obtain ⟨c, hc, hholds, hshare⟩ := seen_in_child hg howner hsee hmark depth hx
  rw [hshare]
  exact share_once hsee hmark hg hslots hone (hg.kind_of_child hc)
    (fits_of_build hg howner hcut c hc) hholds hopen fun l hl =>
      hlost l ((owns_of_child hg.ordered hc).held hg.ordered hl)

theorem seen_lost {l : NodeId} (hl : t.Owns owner l) (hlost : t.Loses l x) (hx : t.Owns owner x) :
    (Gauge.seeing stray entry).of (build t depth owner) = 0 := by
  obtain ⟨c, hc, hholds, hshare⟩ := seen_in_child hg howner hsee hmark depth hx
  rw [hshare]
  have hxl : t.Below x l := by
    obtain ⟨-, -, d, hd, hxd⟩ := hlost
    exact hg.ordered.below_trans hxd (inside_of_mem hg.ordered (SyntaxTree.mem_targets.1 hd).1).1
  have hin := inside_of_mem hg.ordered hc
  have hlc : t.Below l c := by
    refine (hg.ordered.below_child_or_above (hg.ordered.parent_of_mem hc) hholds.1 hxl).resolve_right ?_
    exact hg.ordered.not_below_of_inside hl.1
  exact share_lost hsee hmark hg (hg.kind_of_child hc)
    ⟨hlc, fun m hm hmc => hl.2 m hm (hg.ordered.inside_of_below_inside hmc hin)⟩ hlost

end one
end build

/-- What a gauge shows of a sketch it shows of the graph. -/
theorem Describes.count_labels {f : ControlFlow} (h : Describes t depth owner f)
    (stray : Bool) (entry : NodeId → Option String → Bool) :
    f.graph.ids.countP (fun id => Gauge.sees (.seeing stray entry)
      ((f.graph.instruction id).element, (f.graph.instruction id).kind)) =
        (Gauge.seeing stray entry).of (build t depth owner) := by
  have hcuts : (build t depth owner).truncated.countP (Gauge.seeing stray entry).cut = 0 :=
    List.countP_eq_zero.2 fun _ _ => by simp [Gauge.seeing]
  rw [Gauge.of, hcuts, ← h.labels, InstructionGraph.labels_eq, List.countP_map]
  rfl

end Sketch

section partition
variable {t : SyntaxTree}

theorem SyntaxTree.mem_ids_of_statement {s : NodeId} (h : (t.kind s).isStatement = true) :
    s ∈ t.ids := by
  refine mem_ids.2 ?_
  by_contra hs
  have hnode : t.node s = .blank := by
    have hs' : ¬ s.index < t.nodes.size := hs
    simp only [node, Array.getD, hs', dite_false]
  rw [kind, hnode] at h
  cases h

theorem SyntaxTree.index_lt_size_of_id {s : NodeId} (h : s ∈ t.ids) : s.index < t.size :=
  mem_ids.1 h

/-- Every node under the root has a nearest owner above it. -/
theorem SyntaxTree.exists_owner (ho : t.Ordered) {root x : NodeId} (hroot : (t.kind root).isOwner = true)
    (hx : t.Inside x root) : ∃ owner ∈ t.owners, t.Owns owner x := by
  induction x using ho.up_induction with
  | step x ih =>
    obtain ⟨p, hp, hpr⟩ := ho.exists_parent hx
    by_cases hpo : (t.kind p).isOwner = true
    · have hlt := ho.parent_lt hp
      have hsize := SyntaxTree.index_lt_size_of_parent hp
      have hid : p ∈ t.ids := SyntaxTree.mem_ids.2 (by omega)
      refine ⟨p, List.mem_filter.2 ⟨hid, hpo⟩, ho.inside_parent hp, fun m hm hmp => ?_⟩
      exact absurd (ho.below_of_inside_parent hp hm) (ho.not_below_of_inside hmp)
    · have hne : p ≠ root := fun h => hpo (h ▸ hroot)
      obtain ⟨owner, howner, hown⟩ := ih p hp ⟨hpr, hne⟩
      refine ⟨owner, howner, ho.inside_of_below_inside (ho.below_parent hp) hown.1, fun m hm hmo => ?_⟩
      by_cases heq : p = m
      · rw [← heq]
        simpa using hpo
      · exact hown.2 m ⟨ho.below_of_inside_parent hp hm, heq⟩ hmo

/-- A node has one nearest owner. -/
theorem SyntaxTree.Owns.unique (ho : t.Ordered) {o o' x : NodeId} (h : t.Owns o x) (h' : t.Owns o' x)
    (hk : (t.kind o).isOwner = true) (hk' : (t.kind o').isOwner = true) : o = o' := by
  by_contra hne
  rcases ho.below_total h.1.1 h'.1.1 with hb | hb
  · rw [h'.2 o h.1 ⟨hb, hne⟩] at hk
    cases hk
  · rw [h.2 o' h'.1 ⟨hb, Ne.symm hne⟩] at hk'
    cases hk'

end partition
end PythonFlow
