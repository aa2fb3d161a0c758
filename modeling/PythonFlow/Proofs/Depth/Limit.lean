import PythonFlow.Owner.Build
import PythonFlow.Proofs.Build.Respects
import PythonFlow.Proofs.Build.Run
import PythonFlow.Proofs.Sketch.Faithful
import PythonFlow.Proofs.Tree.Grammar

/-!
# A limit that cut nothing off

Where no subtree was too deep for the limit of a build, a build with a higher limit takes the same steps.
The two are compared step by step: `Deepens p q` says that `p` loses no record of a truncated subtree, and
that `q` does what `p` does wherever `p` makes none. One level more for both changes nothing about what a
rule does by itself, and the visit that is cut off at the lower limit leaves a record. What a build is
cancelled by, or which index it misses, makes no difference.
-/

set_option autoImplicit false

namespace PythonFlow
namespace Build

structure Deepens {α : Type} (p q : Build α) : Prop where
  grows : ∀ st, st.truncated.length ≤ (p.run st).2.truncated.length
  agrees : ∀ st, (p.run st).2.truncated.length = st.truncated.length → q.run st = p.run st

section steps
variable {α β : Type}

/-- A step that records nothing. -/
theorem deepens_of_kept {p : Build α} (h : ∀ st, (p.run st).2.truncated = st.truncated) :
    Deepens p p :=
  ⟨fun st => Nat.le_of_eq (congrArg List.length (h st).symm), fun _ _ => rfl⟩

/-- The records of the two parts add up, so that a run without a record has none in either part. -/
theorem Deepens.bind {p q : Build α} {f g : α → Build β} (hp : Deepens p q)
    (hf : ∀ a, Deepens (f a) (g a)) : Deepens (p >>= f) (q >>= g) := by
  constructor
  · intro st
    have hfirst := hp.grows st
    rw [run_bind]
    cases hrun : p.run st with
    | mk outcome st' =>
      rw [hrun] at hfirst
      cases outcome with
      | error e => exact hfirst
      | ok a => exact Nat.le_trans hfirst ((hf a).grows st')
  · intro st hnone
    have hfirst := hp.grows st
    have hsame := hp.agrees st
    rw [run_bind] at hnone
    rw [run_bind, run_bind]
    cases hrun : p.run st with
    | mk outcome st' =>
      rw [hrun] at hfirst hsame hnone
      cases outcome with
      | error e => rw [hsame hnone]
      | ok a =>
        have hrest := (hf a).grows st'
        have hlength : st'.truncated.length = st.truncated.length := by
          dsimp only at hnone hfirst
          omega
        rw [hsame hlength]
        refine (hf a).agrees st' ?_
        dsimp only at hnone
        omega

theorem respects_deepens : Respects fun _ => Deepens where
  pure _ := deepens_of_kept fun _ => rfl
  bind := Deepens.bind
  fail _ := deepens_of_kept fun _ => rfl
  cursor := deepens_of_kept fun _ => rfl
  set_cursor _ := deepens_of_kept fun _ => rfl
  create _ _ := deepens_of_kept fun _ => rfl
  add_edge a b := deepens_of_kept fun st => by rw [run_add_edge]
  add_pending _ _ := deepens_of_kept fun _ => rfl
  take_part f := deepens_of_kept fun st => by rw [run_take_part]
  take_all := deepens_of_kept fun _ => rfl
  element_of id := deepens_of_kept fun st => by rw [run_element_of]
  latest _ := deepens_of_kept fun _ => rfl

end steps
end Build

namespace Visit
open Build

theorem deepens_enter (s : Setting) (n : NodeId) : Deepens (enter s n) (enter s n) := by
  refine (respects_deepens.check _).bind fun _ => deepens_of_kept fun st => ?_
  split
  · have hrun : (checkpoint s).run st =
        (if s.cancellable && st.raised then throw .cancelled else pure () : Build Unit).run st := rfl
    rw [hrun]
    split <;> rfl
  · rfl

/-- A visit that is cut off leaves a record, so that whatever a deeper visit does agrees with it. -/
theorem deepens_truncate (t : SyntaxTree) (n : NodeId) (p : Build Unit) :
    Deepens (truncate t n) p := by
  have hrun : ∀ st, (truncate t n).run st =
      (discard (startNode t n)).run { st with truncated := n :: st.truncated } := fun _ => rfl
  have hmore : ∀ st, st.truncated.length < ((truncate t n).run st).2.truncated.length := by
    intro st
    rw [hrun]
    exact (respects_deepens.discard (respects_deepens.start_node (t := t) n)).grows
      { st with truncated := n :: st.truncated }
  exact ⟨fun st => Nat.le_of_lt (hmore st), fun st hnone => absurd hnone (Nat.ne_of_gt (hmore st))⟩

/-- With more levels to follow, a visit does the same unless it was cut off somewhere. -/
theorem deepens_visit (s s' : Setting) (htree : s'.tree = s.tree)
    (hflag : s'.cancellable = s.cancellable) {depth depth' : Nat} (hle : depth ≤ depth') (n : NodeId) :
    Deepens (follow s (enter s) depth n) (follow s' (enter s') depth' n) := by
  have henter : ∀ m, enter s' m = enter s m := fun m => by simp [enter, checkpoint, htree, hflag]
  induction depth generalizing depth' n with
  | zero =>
    have hcut : ∀ p : Build Unit, Deepens (do enter s n; truncate s.tree n) (do enter s' n; p) := by
      intro p
      rw [henter]
      exact (deepens_enter s n).bind fun _ => deepens_truncate s.tree n p
    cases depth' with
    | zero => exact hcut _
    | succ depth' => exact hcut _
  | succ depth ih =>
    obtain ⟨depth', rfl⟩ : ∃ d, depth' = d + 1 := ⟨depth' - 1, by omega⟩
    unfold follow
    rw [henter, htree]
    exact (deepens_enter s n).bind fun _ =>
      respects_deepens.rule (ih (Nat.le_of_succ_le_succ hle)) n

theorem deepens_owner (s s' : Setting) (htree : s'.tree = s.tree)
    (hflag : s'.cancellable = s.cancellable) (hle : s.maxDepth ≤ s'.maxDepth) (owner : NodeId) :
    Deepens (visitOwner s owner) (visitOwner s' owner) := by
  have hV := deepens_visit s s' htree hflag hle
  have hfollow : Deepens (followOwner s (enter s) owner) (followOwner s' (enter s') owner) := by
    unfold followOwner
    rw [htree]
    refine (respects_deepens.check _).bind fun _ => ?_
    split
    · exact respects_deepens.children hV owner
    · exact hV owner
  constructor
  · intro st
    rw [run_visit_owner]
    exact hfollow.grows st
  · intro st hnone
    rw [run_visit_owner] at hnone
    rw [run_visit_owner, run_visit_owner, hfollow.agrees st hnone]

end Visit

namespace Build

theorem deepens_build (t : SyntaxTree) {visit visit' : NodeId → Build Unit} (owner : NodeId)
    (h : Deepens (visit owner) (visit' owner)) :
    Deepens (build t visit owner) (build t visit' owner) := by
  have hclear : Deepens (modify BuildState.cleared : Build Unit) (modify BuildState.cleared) :=
    deepens_of_kept fun _ => rfl
  have hread : Deepens (get : Build BuildState) get := deepens_of_kept fun _ => rfl
  have hstart : Deepens (start t) (start t) := hclear.bind fun _ => respects_deepens.add_node t _ _
  exact hstart.bind fun _ => h.bind fun _ => (respects_deepens.add_node t _ _).bind fun _ =>
    hread.bind fun _ => respects_deepens.pure _

end Build

/-- Whatever a build that cut nothing off comes to, a build with a higher limit comes to the same. -/
theorem build_owner_deepens (t : SyntaxTree) {c c' : Config} (hle : c.depth ≤ c'.depth)
    (cancel : Option Bool) (owner : NodeId) (hcut : (buildOwner t c cancel owner).truncated = []) :
    buildOwner t c' cancel owner = buildOwner t c cancel owner := by
  have hdeepens := Build.deepens_build t owner
    (Visit.deepens_owner (Setting.ofConfig t c cancel) (Setting.ofConfig t c' cancel) rfl rfl hle owner)
  have hnone := List.reverse_eq_nil_iff.1 hcut
  have hsame := hdeepens.agrees (BuildState.initial (cancel.getD false)) (congrArg List.length hnone)
  unfold buildOwner
  dsimp only
  rw [hsame]

/-- Where a limit cut nothing off, every higher limit gives the same graph. -/
theorem higher_limit_same_graph {t : SyntaxTree} (ho : t.Ordered) {c c' : Config}
    (hle : c.depth ≤ c'.depth) (cancel : Option Bool) {owner : NodeId} (hin : owner.index < t.size)
    (hcut : (buildOwner t c cancel owner).truncated = []) :
    buildOwner t c' cancel owner = buildOwner t c cancel owner ∧
      (cancel ≠ some true → ∃ f, (buildOwner t c' cancel owner).outcome = .ok f ∧
        (buildOwner t c' cancel owner).truncated = []) := by
  have hsame := build_owner_deepens t hle cancel owner hcut
  refine ⟨hsame, fun hc => ?_⟩
  obtain ⟨f, hf, -, -⟩ := Sketch.build_describes ho c hc hin
  rw [hsame]
  exact ⟨f, hf, hcut⟩

/-- The concrete tree of `while x: while x: break`, without its positions. -/
def nestedBreak : Concrete :=
  let loop (body : Concrete) : Concrete :=
    .node "while_statement" true none default
      [.node "identifier" true (some "condition") default [],
        .node "block" true (some "body") default [body]]
  .node "module" true none default [loop (loop (.node "break_statement" true none default []))]

/-- The innermost statement is four levels below its owner, so five levels are enough. -/
theorem nested_break_at_five_levels :
    buildOwner (Lowering.tree "" nestedBreak) .standard none ⟨0⟩ =
        buildOwner (Lowering.tree "" nestedBreak) { Config.standard with maxDepth := 5 } none ⟨0⟩ ∧
      ((none : Option Bool) ≠ some true →
        ∃ f, (buildOwner (Lowering.tree "" nestedBreak) .standard none ⟨0⟩).outcome = .ok f ∧
          (buildOwner (Lowering.tree "" nestedBreak) .standard none ⟨0⟩).truncated = []) :=
  higher_limit_same_graph (Lowering.tree_grammatical "" nestedBreak).ordered (by decide) none
    (by decide +kernel) (by decide +kernel)

end PythonFlow
