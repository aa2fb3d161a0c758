import PythonFlow.Proofs.Census.Owner
import PythonFlow.Proofs.Reach.Exit
import PythonFlow.Proofs.Trace.Visits

/-!
# Runs and paths of an owner

What the code of an owner may emit until it finishes is what some path of its graph reads, from the
entry to the exit. A `continue` goes back to its loop past any `finally` clause, and a `raise` may go
straight to a handler, so that neither is to be in a `try` statement with such a clause.
-/

set_option autoImplicit false

namespace PythonFlow

def ControlFlow.statementsOn (f : ControlFlow) (t : SyntaxTree) (p : List InstructionId) : List NodeId :=
  p.flatMap fun id => (f.graph.instruction id).element.toList.filter fun el => (t.kind el).isSimple

/-- In the code of the owner no `continue` and no `raise` is in a `try` statement with a `finally`
clause. -/
def SyntaxTree.TameCode (t : SyntaxTree) (owner : NodeId) : Prop :=
  ∀ T j, t.Owns owner T → t.kind T = .tryStatement → t.finallyPart T ≠ none → t.Owns owner j →
    t.Inside j T → t.kind j ≠ .continueJump ∧ t.kind j ≠ .raiseExit

namespace Sketch
variable {t : SyntaxTree} {depth : Nat} {owner c : NodeId} {k : Sketch} {x y : InstructionId}
  {w : List NodeId} {o : Outcome} {f : ControlFlow}

theorem tame_child (ho : t.Ordered) (h : t.TameCode owner) (hc : c ∈ t.children owner) : t.Tame c := by
  intro T F j hT hk hF hj
  have hT' : t.Owns owner T := (owns_of_child ho hc).held ho hT
  by_cases heq : j = T
  · subst heq
    simp [hk]
  · exact h T j hT' hk (by simp [hF]) (hT'.held ho hj) ⟨hj.1, heq⟩

/-- Only a term stands inside a `raise`. -/
theorem unraised_of_loud (hg : t.Grammatical) (hq : (t.kind c).isQuiet = false) : Unraised t c := by
  intro r hr hin
  obtain ⟨d, hd, hcd⟩ := hg.ordered.exists_child hin
  have hmem := hg.ordered.mem_children.2 ⟨SyntaxTree.index_lt_size_of_parent hd, hd⟩
  have hadmits := hg.admitted hmem
  rw [hr] at hadmits
  rw [hg.quiet_below (SyntaxTree.is_quiet_of_term hadmits) hcd] at hq
  cases hq

theorem shown_entry (hg : t.Grammatical) (depth : Nat) (owner : NodeId) :
    (build t depth owner).shown t ⟨0⟩ = [] := by
  have hlater : Later (opening t) (build t depth owner) :=
    (visited_owner hg depth owner).later.trans (later_build t depth owner)
  have hel : (build t depth owner).element ⟨0⟩ = none :=
    (hlater.element (next_lt_place t blank none .plain)).trans (element_opening t blank.next)
  rw [shown, hel]

section interior
variable (hg : t.Grammatical) (howner : (t.kind owner).isOwner = true)
include hg howner

/-- A finished run of the code of the owner, from the entry to where flow is on its way to the exit. -/
theorem goes_interior (hcut : (build t depth owner).truncated = []) (htame : t.TameCode owner)
    (h : Finished t owner w) :
    ∃ x, Reads t (interior t depth owner) ⟨0⟩ w x ∧ (interior t depth owner).Loose x := by
  have ho := hg.ordered
  have hnodup := ho.children_nodup owner
  have hfresh : ∀ c, Fresh t c (opening t) := fresh_opening t
  obtain ⟨o, hrun, hfinal⟩ := h
  rw [interior, visitOwner, if_pos howner]
  by_cases hq : (t.kind owner).isQuiet = true
  -- The code of a lambda may stand inside a `raise`, but nothing runs in it.
  · have hquiet : ∀ c ∈ t.children owner, (t.kind c).isQuiet = true := fun c hc => hg.quiet_child hq hc
    obtain ⟨rfl, rfl⟩ := hrun.all_quiet_inv hquiet
    obtain ⟨y, hy, hread⟩ := forwards_each hg (fun c _ => grows_visit hg depth c)
      (fun c hc => steady_visit hg depth c (hquiet c hc)) (apart_children ho hnodup fun _ hc => hc)
      (fun c _ => hfresh c) (k := opening t) ⟨0⟩ rfl
    exact ⟨y, hread, .inl hy⟩
  · have hq : (t.kind owner).isQuiet = false := by simpa using hq
    have hraise : t.kind owner ≠ .raiseExit := by
      rintro hk
      rw [hk] at howner
      cases howner
    have hloop : (t.kind owner).isLoop = false := (open_of_owner howner).1
    have htraces : ∀ c ∈ t.children owner, Traces t (visit t depth) c := fun c hc =>
      traces_visit hg (fits_of_build hg howner hcut c hc)
        ((unraised_of_loud hg hq).child ho hraise hc) (tame_child ho htame hc)
    have hbegun : ∀ c ∈ t.children owner, Begun t c (opening t) := by
      refine fun c hc => ⟨⟨hfresh c, fun x hx => ?_, sourced_opening t⟩, fun j l hj _ hl hcl => ?_⟩
      · exact Option.some.inj hx ▸ next_lt_place t blank none .plain
      -- No loop is above the code of the owner.
      have howned := (ho.enclosing_loop_above hl).2.2 owner
      have hol := ho.below_of_inside_parent (ho.parent_of_mem hc) hcl
      rw [howned (ho.inside_of_below_inside hj (inside_of_mem ho hc)) hol] at howner
      cases howner
    obtain ⟨x, hread, hend, -⟩ := traces_each ho (fun _ hc => hc) hnodup
      (fun c _ => grows_visit hg depth c) htraces hbegun hrun (hrun.not_broke ho hloop)
      (a := ⟨0⟩) (.inl rfl) ⟨next_lt_place t blank none .plain, fun el r hel => by
        rw [element_opening] at hel
        cases hel⟩
    refine ⟨x, hread, ?_⟩
    cases hend with
    | normal hx =>
      rcases hx with hx | ⟨sc, hx, -⟩
      · exact .inl hx
      · exact .inr ⟨_, hx, rfl⟩
    | returned hx | raised hx => exact .inr ⟨_, hx, rfl⟩
    | _ => cases hfinal

theorem goes_build (hcut : (build t depth owner).truncated = []) (htame : t.TameCode owner)
    (h : Finished t owner w) : Reads t (build t depth owner) ⟨0⟩ w (interior t depth owner).next := by
  obtain ⟨x, hread, hx⟩ := goes_interior hg howner hcut htame h
  have hlast := reads_edge (t := t) (edge_exit hx) (next_lt_place t (interior t depth owner) none .plain)
  have hshown : (build t depth owner).shown t (interior t depth owner).next = [] := by
    rw [shown, build, element_place_next]
  rw [hshown] at hlast
  rw [← List.append_nil w]
  exact (hread.later (later_build t depth owner)).trans hlast

end interior

section describes
variable (h : Describes t depth owner f)
include h

theorem Describes.statements_cons (id : InstructionId) (p : List InstructionId) :
    f.statementsOn t (id :: p) = (build t depth owner).shown t id ++ f.statementsOn t p := by
  rw [ControlFlow.statementsOn, List.flatMap_cons, h.element_eq, shown, ← ControlFlow.statementsOn]
  congr 1
  cases (build t depth owner).element id with
  | none => rfl
  | some el =>
    show [el].filter _ = mark t el
    rw [mark, List.filter_cons]
    rfl

/-- A walk through the sketch is a path of the graph. -/
theorem Describes.path_of_reads (hread : Reads t (build t depth owner) x w y) :
    ∃ p, Path f.graph.Edge x p y ∧ f.statementsOn t p = (build t depth owner).shown t x ++ w := by
  induction hread with
  | here x => exact ⟨[x], .here x, h.statements_cons x []⟩
  | step hedge _ _ ih =>
    obtain ⟨p, hp, hw⟩ := ih
    refine ⟨_ :: p, .step ((h.edge_iff _ _).2 hedge) hp, ?_⟩
    rw [h.statements_cons, hw]

end describes
end Sketch

/-- Whatever the code of an owner may emit until it finishes is read on a path of its graph, where no
`continue` and no `raise` is in a `try` statement with a `finally` clause. -/
theorem finished_runs_on_paths (source : String) (root : Concrete) (c : Config)
    {cancel : Option Bool} (hc : cancel ≠ some true) {owner : NodeId}
    (ho : owner ∈ (Lowering.tree source root).owners)
    (hcut : (buildOwner (Lowering.tree source root) c cancel owner).truncated = [])
    (htame : (Lowering.tree source root).TameCode owner) :
    ∃ f, (buildOwner (Lowering.tree source root) c cancel owner).outcome = .ok f ∧
      ∀ w, Finished (Lowering.tree source root) owner w →
        ∃ p, Path f.graph.Edge f.entry p f.exit ∧ f.statementsOn (Lowering.tree source root) p = w := by
  have hg := Lowering.tree_grammatical source root
  have howner : ((Lowering.tree source root).kind owner).isOwner = true := (List.mem_filter.1 ho).2
  obtain ⟨f, hf, hd, htruncated⟩ :=
    Sketch.build_describes hg.ordered c hc (SyntaxTree.lt_of_mem_owners ho)
  rw [htruncated, List.reverse_eq_nil_iff] at hcut
  refine ⟨f, hf, fun w hw => ?_⟩
  obtain ⟨p, hp, hread⟩ := hd.path_of_reads (Sketch.goes_build hg howner hcut htame hw)
  refine ⟨p, by rwa [hd.entry, hd.exit], hread.trans ?_⟩
  have hentry : (Sketch.build (Lowering.tree source root) c.depth owner).shown
      (Lowering.tree source root) ⟨0⟩ = [] := Sketch.shown_entry hg _ _
  rw [hentry, List.nil_append]

/-- The concrete tree of `while x:` and, in its body, `try: break finally: pass`. -/
def breakThroughFinally : Concrete :=
  .node "module" true none default
    [.node "while_statement" true none default
      [.node "identifier" true (some "condition") default [],
        .node "block" true (some "body") default
          [.node "try_statement" true none default
            [.node "block" true (some "body") default [.node "break_statement" true none default []],
              .node "finally_clause" true none default
                [.node "block" true none default [.node "pass_statement" true none default []]]]]]]

/-- The `break` runs the `finally` clause and then leaves the loop. -/
theorem break_through_finally_finishes :
    Finished (Lowering.tree "" breakThroughFinally) ⟨0⟩ [⟨7⟩, ⟨10⟩] := by
  -- A suite runs the one node under it.
  have hsuite : ∀ n m w o, ((Lowering.tree "" breakThroughFinally).kind n).isSuite = true →
      (Lowering.tree "" breakThroughFinally).children n = [m] →
      Run (Lowering.tree "" breakThroughFinally) (.node m) w o →
      Run (Lowering.tree "" breakThroughFinally) (.node n) w o :=
    fun n m w o hk hc h => .suite hk (hc ▸ h.only)
  have hbreak : Run (Lowering.tree "" breakThroughFinally) (.node ⟨7⟩) [⟨7⟩] (.broke ⟨1⟩) :=
    .broke (by decide +kernel) (by decide +kernel)
  have hpass : Run (Lowering.tree "" breakThroughFinally) (.node ⟨10⟩) [⟨10⟩] .normal := by
    refine .statement (by decide +kernel) ?_
    rw [show (Lowering.tree "" breakThroughFinally).children ⟨10⟩ = [] by decide +kernel]
    exact .nil
  have hbody := hsuite ⟨5⟩ ⟨6⟩ _ _ (by decide +kernel) (by decide +kernel)
    (hsuite ⟨6⟩ ⟨7⟩ _ _ (by decide +kernel) (by decide +kernel) hbreak)
  have hclause := hsuite ⟨8⟩ ⟨9⟩ _ _ (by decide +kernel) (by decide +kernel)
    (hsuite ⟨9⟩ ⟨10⟩ _ _ (by decide +kernel) (by decide +kernel) hpass)
  have htry : Run (Lowering.tree "" breakThroughFinally) (.node ⟨4⟩) [⟨7⟩, ⟨10⟩] (.broke ⟨1⟩) := by
    have hattempt : Run (Lowering.tree "" breakThroughFinally) (.attempt ⟨4⟩) [⟨7⟩] (.broke ⟨1⟩) := by
      refine .failed ?_ (by decide) (by simp)
      rw [show (Lowering.tree "" breakThroughFinally).tryPart ⟨4⟩ = some ⟨5⟩ by decide +kernel]
      exact hbody.only
    exact .resumed (n := ⟨4⟩) (f := ⟨8⟩) (by decide +kernel) (by decide +kernel) hattempt hclause
  have hloop : Run (Lowering.tree "" breakThroughFinally) (.node ⟨1⟩) [⟨7⟩, ⟨10⟩] .normal :=
    .loop (by decide +kernel) (.left (b := ⟨3⟩) (o := .broke ⟨1⟩) (by decide +kernel)
      (hsuite ⟨3⟩ ⟨4⟩ _ _ (by decide +kernel) (by decide +kernel) htry) (by decide))
  refine ⟨.normal, ?_, rfl⟩
  rw [show (Lowering.tree "" breakThroughFinally).children ⟨0⟩ = [⟨1⟩] by decide +kernel]
  exact hloop.only

theorem break_through_finally_on_path :
    ∃ f, (buildOwner (Lowering.tree "" breakThroughFinally) .standard none ⟨0⟩).outcome = .ok f ∧
      ∃ p, Path f.graph.Edge f.entry p f.exit ∧
        f.statementsOn (Lowering.tree "" breakThroughFinally) p = [⟨7⟩, ⟨10⟩] := by
  have hnone : ∀ j ∈ (Lowering.tree "" breakThroughFinally).ids,
      (Lowering.tree "" breakThroughFinally).kind j ≠ .continueJump ∧
        (Lowering.tree "" breakThroughFinally).kind j ≠ .raiseExit := by
    decide +kernel
  have hc : (none : Option Bool) ≠ some true := by decide
  have ho : (⟨0⟩ : NodeId) ∈ (Lowering.tree "" breakThroughFinally).owners := by decide +kernel
  obtain ⟨f, hf, hpaths⟩ := finished_runs_on_paths "" breakThroughFinally .standard hc ho
    (by decide +kernel) fun _ j _ _ _ _ _ =>
      ⟨fun hj => (hnone j (SyntaxTree.mem_ids_of_statement (by rw [hj]; rfl))).1 hj,
        fun hj => (hnone j (SyntaxTree.mem_ids_of_statement (by rw [hj]; rfl))).2 hj⟩
  exact ⟨f, hf, hpaths _ break_through_finally_finishes⟩

end PythonFlow
