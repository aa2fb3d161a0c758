import PythonFlow.Proofs.Build.Respects
import PythonFlow.Proofs.Build.Run
import PythonFlow.Proofs.Graph.Tidy
import PythonFlow.Proofs.Sketch.Faithful
import PythonFlow.Proofs.Sketch.Rooted
import PythonFlow.Proofs.Tree.Pushed

/-!
# Every tree gets its graphs

No arrangement of kinds and roles keeps a build from its end. Its graph has the entry first and the exit
last, alone without a node, and with nothing before the one and after the other. Successor and predecessor
lists say the same, without repetitions, and the count of edges is right.
-/

set_option autoImplicit false

namespace PythonFlow

structure ControlFlow.Shaped (f : ControlFlow) (t : SyntaxTree) : Prop where
  entry_first : f.entry.index = 0
  exit_last : f.exit.index + 1 = f.graph.size
  apart : f.entry ≠ f.exit
  entered : f.graph.predecessors f.entry = []
  left : f.graph.successors f.exit = []
  bare : ∀ id : InstructionId, id.index < f.graph.size →
    ((f.graph.instruction id).element = none ↔ id = f.entry ∨ id = f.exit)
  made_for : ∀ (id : InstructionId) (el : NodeId),
    (f.graph.instruction id).element = some el → el.index < t.size
  leads : ∀ a b, f.graph.Edge a b → a.index < f.graph.size ∧ b.index < f.graph.size
  tidy : f.graph.Tidy

namespace Build

def Tidies {α : Type} (p : Build α) : Prop :=
  ∀ st, st.graph.Tidy → ∀ a, (p.run st).1 = .ok a → (p.run st).2.graph.Tidy

/-- A step that loses no edge beside those that are lost, unless it is stopped. -/
def TidiesBut (lost : List (InstructionId × InstructionId)) {α : Type} (p : Build α) : Prop :=
  ∀ st, st.graph.TidyBut lost → ∀ a, (p.run st).1 = .ok a → (p.run st).2.graph.TidyBut lost

section steps
variable {α β : Type} {lost : List (InstructionId × InstructionId)}

theorem tidies_iff {p : Build α} : Tidies p ↔ TidiesBut [] p := by
  simp only [Tidies, TidiesBut, InstructionGraph.tidy_iff]

theorem tidies_but_of_kept {p : Build α} (h : ∀ st, (p.run st).2.graph = st.graph) : TidiesBut lost p :=
  fun st hst _ _ => (h st).symm ▸ hst

theorem tidies_of_kept {p : Build α} (h : ∀ st, (p.run st).2.graph = st.graph) : Tidies p :=
  tidies_iff.2 (tidies_but_of_kept h)

theorem TidiesBut.bind {p : Build α} {f : α → Build β} (hp : TidiesBut lost p)
    (hf : ∀ a, TidiesBut lost (f a)) : TidiesBut lost (p >>= f) := by
  intro st hst b hb
  have hfirst := hp st hst
  rw [run_bind] at hb ⊢
  cases hrun : p.run st with
  | mk outcome st' =>
    rw [hrun] at hb hfirst
    cases outcome with
    | error e => cases hb
    | ok a => exact hf a st' (hfirst a rfl) b hb

theorem Tidies.bind {p : Build α} {f : α → Build β} (hp : Tidies p) (hf : ∀ a, Tidies (f a)) :
    Tidies (p >>= f) :=
  tidies_iff.2 ((tidies_iff.1 hp).bind fun a => tidies_iff.1 (hf a))

theorem respects_tidies_but (lost : List (InstructionId × InstructionId)) :
    Respects fun _ p _ => TidiesBut lost p where
  pure _ := tidies_but_of_kept fun _ => rfl
  bind := TidiesBut.bind
  fail _ := tidies_but_of_kept fun _ => rfl
  cursor := tidies_but_of_kept fun _ => rfl
  set_cursor _ := tidies_but_of_kept fun _ => rfl
  create el kind := fun _ hst _ _ => hst.create el kind
  add_edge a b := by
    intro st hst _ hok
    rw [run_add_edge] at hok ⊢
    cases hadd : (st.graph.addEdge a b).2 with
    | ok fresh => exact hst.add_edge hadd
    | error e =>
      rw [hadd] at hok
      cases hok
  add_pending _ _ := tidies_but_of_kept fun _ => rfl
  take_part f := tidies_but_of_kept fun st => by rw [run_take_part]
  take_all := tidies_but_of_kept fun _ => rfl
  element_of id := tidies_but_of_kept fun st => by rw [run_element_of]
  latest _ := tidies_but_of_kept fun _ => rfl

theorem respects_tidies : Respects fun _ p _ => Tidies p := by
  simpa only [tidies_iff] using respects_tidies_but []

end steps
end Build

namespace Visit
open Build

theorem tidies_enter (s : Setting) (n : NodeId) : Tidies (enter s n) := by
  refine (respects_tidies.check _).bind fun _ => tidies_of_kept fun st => ?_
  split
  · rw [run_checkpoint]
  · rfl

theorem tidies_truncate (t : SyntaxTree) (n : NodeId) : Tidies (truncate t n) := by
  have hnote : Tidies (modify fun st => { st with truncated := n :: st.truncated }) :=
    tidies_of_kept fun _ => rfl
  exact hnote.bind fun _ => Tidies.bind (respects_tidies.start_node n) fun _ => respects_tidies.unit

theorem tidies_owner (s : Setting) (owner : NodeId) : Tidies (visitOwner s owner) := by
  have hfollow : Tidies (followOwner s (enter s) owner) :=
    @follow_owner_respects _ respects_tidies s s rfl rfl (enter s) (enter s) (tidies_enter s)
      (tidies_truncate s.tree) owner
  intro st hst a hok
  rw [run_visit_owner] at hok ⊢
  exact hfollow st hst a hok

end Visit

/-- Whatever a build begins with, the graph that it gives is tidy. -/
theorem tidy_of_build (t : SyntaxTree) {visit : NodeId → Build Unit} {owner : NodeId}
    (h : Build.Tidies (visit owner)) {st : BuildState} {f : ControlFlow}
    (hok : ((Build.build t visit owner).run st).1 = .ok f) : f.owner = owner ∧ f.graph.Tidy := by
  have hnode := Build.respects_tidies.add_node t none .plain
  obtain ⟨st', hrun⟩ : ∃ st', (Build.build t visit owner).run st = (.ok f, st') :=
    ⟨_, Prod.ext hok rfl⟩
  obtain ⟨entry, st1, hstart, hrun⟩ := Build.ok_of_bind hrun
  obtain ⟨⟨⟩, st2, hvisit, hrun⟩ := Build.ok_of_bind hrun
  obtain ⟨exit, st3, hexit, hrun⟩ := Build.ok_of_bind hrun
  have hf : f = ⟨owner, entry, exit, st3.graph⟩ := by
    cases hrun
    rfl
  have h1 : st1.graph.Tidy := by
    have hentry := hnode st.cleared InstructionGraph.tidy_empty entry
    have heq : (Build.start t).run st = (Build.addNode t none .plain).run st.cleared := rfl
    rw [← heq, hstart] at hentry
    exact hentry rfl
  have h2 := h st1 h1 ()
  rw [hvisit] at h2
  have h3 := hnode st2 (h2 rfl) exit
  rw [hexit] at h3
  rw [hf]
  exact ⟨rfl, h3 rfl⟩

namespace Sketch
variable {t : SyntaxTree} {depth : Nat} {owner : NodeId} {f : ControlFlow}

/-- Everything that the sketch of an owner names is there. -/
theorem in_range_interior (ho : t.Ordered) (depth : Nat) (hin : owner.index < t.size) :
    (interior t depth owner).InRange t := by
  have hnone : ∀ x : NodeId, none = some x → x.index < t.size := fun x hx => by simp at hx
  have hopening : (blank.place t none .plain).InRange t :=
    (yields_add_node (r := false) hnone (in_range_blank t)).1.1
  exact (yields_owner (r := false) ho ⟨t, depth, false⟩ rfl rfl hin hopening).1.1

/-- No edge leaves the exit, and none goes back to the entry. -/
theorem edge_build_bounds (ho : t.Ordered) (hin : owner.index < t.size) {a b : InstructionId}
    (hab : (build t depth owner).Edge a b) : a.index < (interior t depth owner).size ∧ 0 < b.index := by
  have hroot := rooted_interior t depth owner
  have hinner := in_range_interior ho depth hin
  rcases (edge_place _ t none .plain a b).1 hab with hab | ⟨ha, rfl⟩
  · exact ⟨(hinner.edge a b hab).1, hroot.edge a b hab⟩
  · refine ⟨?_, hroot.size_pos⟩
    rcases (mem_arrivals _ t none a).1 ha with ha | ⟨e, he, -, rfl⟩
    · exact hinner.cursor a ha
    · exact hinner.source e he

/-- Only the entry and the exit were made for no node. -/
theorem element_build_none {id : InstructionId} (hid : id.index < (build t depth owner).size) :
    (build t depth owner).element id = none ↔ id = ⟨0⟩ ∨ id = (interior t depth owner).next := by
  have hroot := rooted_interior t depth owner
  rw [build, size_place] at hid
  rw [build, element_place]
  constructor
  · split
    · next heq => exact fun _ => .inr heq
    · next hne =>
      intro hnone
      refine .inl (congrArg InstructionId.mk (Nat.eq_zero_of_not_pos fun hpos => ?_))
      have hid' : id.index ≠ (interior t depth owner).size :=
        fun heq => hne (congrArg InstructionId.mk heq)
      exact hroot.element id hpos (by omega) hnone
  · rintro (rfl | rfl)
    · have hne : (⟨0⟩ : InstructionId) ≠ (interior t depth owner).next := fun heq =>
        Nat.ne_of_lt hroot.size_pos (congrArg InstructionId.index heq)
      rw [if_neg hne, hroot.entry]
    · rw [if_pos rfl]

theorem Describes.shaped (h : Describes t depth owner f) (ho : t.Ordered)
    (hin : owner.index < t.size) (htidy : f.graph.Tidy) : f.Shaped t := by
  constructor
  · rw [h.entry]
  · rw [h.exit, h.size_eq, build, size_place]
    rfl
  · intro heq
    rw [h.entry, h.exit] at heq
    exact Nat.ne_of_lt (rooted_interior t depth owner).size_pos (congrArg InstructionId.index heq)
  · refine List.eq_nil_iff_forall_not_mem.2 fun a ha => ?_
    have hpos := (edge_build_bounds ho hin ((h.back_iff a f.entry).1 ha)).2
    rw [h.entry] at hpos
    exact absurd hpos (Nat.lt_irrefl 0)
  · refine List.eq_nil_iff_forall_not_mem.2 fun b hb => ?_
    have hlt := (edge_build_bounds ho hin ((h.edge_iff f.exit b).1 hb)).1
    rw [h.exit] at hlt
    exact absurd hlt (Nat.lt_irrefl _)
  · intro id hid
    rw [h.element_eq, h.entry, h.exit]
    exact element_build_none (h.size_eq ▸ hid)
  · intro id el hel
    rw [h.element_eq] at hel
    exact h.in_range.element id el hel
  · intro a b hab
    rw [h.size_eq]
    exact h.in_range.edge a b ((h.edge_iff a b).1 hab)
  · exact htidy

end Sketch

/-- Every build of a tree that was made by pushing comes to its end, at every depth and for every node,
and its graph has the shape of a finished graph. Nothing that the tree names is missing from it. -/
theorem construction_succeeds {t : SyntaxTree} (ht : t.Pushed) (c : Config) {cancel : Option Bool}
    (hc : cancel ≠ some true) {owner : NodeId} (hin : owner.index < t.size) :
    t.Closed ∧ ∃ f, (buildOwner t c cancel owner).outcome = .ok f ∧ f.owner = owner ∧ f.Shaped t := by
  have ho := ht.ordered
  obtain ⟨f, hf, hd, -⟩ := Sketch.build_describes ho c hc hin
  obtain ⟨howner, htidy⟩ := tidy_of_build t (Visit.tidies_owner (Setting.ofConfig t c cancel) owner) hf
  exact ⟨ho.closed, f, hf, howner, hd.shaped ho hin htidy⟩

/-- A loop that breaks in its own condition and has a lambda for its body, beside an `else` clause that
belongs to nothing. -/
def oddTree : SyntaxTree :=
  let root := SyntaxTree.singleton .module .zero
  let loop := (root.push ⟨0⟩ .whileLoop .plain .zero).1
  let asked := (loop.push ⟨1⟩ .breakJump .condition .zero).1
  let body := (asked.push ⟨1⟩ .lambda .body .zero).1
  (body.push ⟨0⟩ .elsePart .plain .zero).1

theorem odd_tree_builds :
    oddTree.Closed ∧ ∃ f, (buildOwner oddTree .standard none ⟨0⟩).outcome = .ok f ∧
      f.owner = ⟨0⟩ ∧ f.Shaped oddTree :=
  construction_succeeds
    (.push (.push (.push (.push (.singleton .module .zero) (by decide) .whileLoop .plain .zero)
      (by decide) .breakJump .condition .zero) (by decide) .lambda .body .zero) (by decide)
      .elsePart .plain .zero)
    .standard (by decide) (by decide)

end PythonFlow
