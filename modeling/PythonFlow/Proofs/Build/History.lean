import PythonFlow.Proofs.Graph.Construction

/-!
# Builds that share a builder

One builder and one visitor serve many builds in turn. What a build leaves behind, its graph and its
pending edges, the cursor and the visitor's counts, is there when the next one begins, and a build that
is cancelled leaves them half-way. None of it reaches the next build: two builds that begin with the
flag in the same state take the same steps, and one of them only keeps older records of truncated
subtrees behind its own. The flag may also go up from outside in the middle of a traversal; a `Turn`
says at which nodes it does.
-/

set_option autoImplicit false

namespace PythonFlow

namespace BuildState

/-- The states agree on what the rules work on. -/
structure Alike (st st' : BuildState) : Prop where
  graph : st'.graph = st.graph
  pending : st'.pending = st.pending
  cursor : st'.cursor = st.cursor

/-- The second state is the first with older records of truncated subtrees. The counts of levels may
differ. -/
structure Extends (old : List NodeId) (st st' : BuildState) : Prop extends Alike st st' where
  raised : st'.raised = st.raised
  truncated : st'.truncated = st.truncated ++ old

end BuildState

namespace Build
open BuildState

/-- A step of the rules: it reads and changes nothing but what they work on. -/
structure Local {α : Type} (p : Build α) : Prop where
  raised : ∀ st, (p.run st).2.raised = st.raised
  truncated : ∀ st, (p.run st).2.truncated = st.truncated
  same : ∀ st st', Alike st st' →
    (p.run st').1 = (p.run st).1 ∧ Alike (p.run st).2 (p.run st').2

section steps
variable {α β : Type}

theorem Local.bind {p : Build α} {f : α → Build β} (hp : Local p) (hf : ∀ a, Local (f a)) :
    Local (p >>= f) := by
  constructor
  · intro st
    have hfirst := hp.raised st
    rw [run_bind]
    cases hrun : p.run st with
    | mk outcome st1 =>
      rw [hrun] at hfirst
      cases outcome with
      | error e => exact hfirst
      | ok a => exact ((hf a).raised st1).trans hfirst
  · intro st
    have hfirst := hp.truncated st
    rw [run_bind]
    cases hrun : p.run st with
    | mk outcome st1 =>
      rw [hrun] at hfirst
      cases outcome with
      | error e => exact hfirst
      | ok a => exact ((hf a).truncated st1).trans hfirst
  · intro st st' h
    have hfirst := hp.same st st' h
    rw [run_bind, run_bind]
    cases hrun : p.run st with
    | mk outcome st1 =>
      cases hrun' : p.run st' with
      | mk outcome' st1' =>
        rw [hrun, hrun'] at hfirst
        obtain ⟨rfl, hst⟩ := hfirst
        cases outcome' with
        | error e => exact ⟨rfl, hst⟩
        | ok a => exact (hf a).same st1 st1' hst

theorem respects_local : Respects fun _ p _ => Local p where
  pure _ := ⟨fun _ => rfl, fun _ => rfl, fun _ _ h => ⟨rfl, h⟩⟩
  bind := Local.bind
  fail _ := ⟨fun _ => rfl, fun _ => rfl, fun _ _ h => ⟨rfl, h⟩⟩
  cursor := ⟨fun _ => rfl, fun _ => rfl, fun _ _ h => ⟨congrArg Except.ok h.cursor, h⟩⟩
  set_cursor _ := ⟨fun _ => rfl, fun _ => rfl, fun _ _ h => ⟨rfl, h.graph, h.pending, rfl⟩⟩
  create el kind := by
    refine ⟨fun _ => rfl, fun _ => rfl, fun st st' h => ?_⟩
    have hrun : ∀ st : BuildState, (create el kind).run st =
        (.ok (st.graph.create el kind).2, { st with graph := (st.graph.create el kind).1 }) :=
      fun _ => rfl
    rw [hrun, hrun, h.graph]
    exact ⟨rfl, rfl, h.pending, h.cursor⟩
  add_edge a b := by
    refine ⟨fun st => by rw [run_add_edge], fun st => by rw [run_add_edge], fun st st' h => ?_⟩
    rw [run_add_edge, run_add_edge, h.graph]
    exact ⟨rfl, rfl, h.pending, h.cursor⟩
  add_pending n c := by
    refine ⟨fun _ => rfl, fun _ => rfl, fun st st' h => ⟨rfl, h.graph, ?_, h.cursor⟩⟩
    show st'.pending.add n c = st.pending.add n c
    rw [h.pending]
  take_part f := by
    refine ⟨fun st => by rw [run_take_part], fun st => by rw [run_take_part], fun st st' h => ?_⟩
    rw [run_take_part, run_take_part, h.pending]
    exact ⟨rfl, h.graph, rfl, h.cursor⟩
  take_all :=
    ⟨fun _ => rfl, fun _ => rfl, fun _ _ h => ⟨congrArg Except.ok h.pending, h.graph, rfl, h.cursor⟩⟩
  element_of id := by
    refine ⟨fun st => by rw [run_element_of], fun st => by rw [run_element_of], fun st st' h => ?_⟩
    rw [run_element_of, run_element_of, h.graph]
    exact ⟨rfl, h⟩
  latest el := by
    refine ⟨fun _ => rfl, fun _ => rfl, fun st st' h => ⟨?_, h⟩⟩
    show Except.ok (el.bind st'.graph.latestFor) = Except.ok (el.bind st.graph.latestFor)
    rw [h.graph]

def Carries (old : List NodeId) (p : Build α) : Prop :=
  ∀ st st', Extends old st st' →
    (p.run st').1 = (p.run st).1 ∧ Extends old (p.run st).2 (p.run st').2

theorem Local.carries {p : Build α} (h : Local p) (old : List NodeId) : Carries old p := by
  intro st st' hst
  obtain ⟨hout, hlike⟩ := h.same st st' hst.toAlike
  refine ⟨hout, hlike, ?_, ?_⟩
  · rw [h.raised, h.raised, hst.raised]
  · rw [h.truncated, h.truncated, hst.truncated]

theorem Carries.bind {old : List NodeId} {p : Build α} {f : α → Build β} (hp : Carries old p)
    (hf : ∀ a, Carries old (f a)) : Carries old (p >>= f) := by
  intro st st' h
  have hfirst := hp st st' h
  rw [run_bind, run_bind]
  cases hrun : p.run st with
  | mk outcome st1 =>
    cases hrun' : p.run st' with
    | mk outcome' st1' =>
      rw [hrun, hrun'] at hfirst
      obtain ⟨rfl, hst⟩ := hfirst
      cases outcome' with
      | error e => exact ⟨rfl, hst⟩
      | ok a => exact hf a st1 st1' hst

theorem respects_carries (old : List NodeId) : Respects fun _ p _ => Carries old p where
  pure a := (respects_local.pure a).carries old
  bind := Carries.bind
  fail e := (respects_local.fail e).carries old
  cursor := respects_local.cursor.carries old
  set_cursor c := (respects_local.set_cursor c).carries old
  create el kind := (respects_local.create el kind).carries old
  add_edge a b := (respects_local.add_edge a b).carries old
  add_pending n c := (respects_local.add_pending n c).carries old
  take_part f := (respects_local.take_part f).carries old
  take_all := respects_local.take_all.carries old
  element_of id := (respects_local.element_of id).carries old
  latest el := (respects_local.latest el).carries old

/-- The first step is cancelled, or it does what the second does. -/
def Cuts (p q : Build α) : Prop :=
  ∀ st st', Alike st st' → (p.run st).1 = .error .cancelled ∨
    ((q.run st').1 = (p.run st).1 ∧ Alike (p.run st).2 (q.run st').2)

theorem Local.cuts {p : Build α} (h : Local p) : Cuts p p := fun st st' hst =>
  .inr (h.same st st' hst)

theorem Cuts.bind {p q : Build α} {f g : α → Build β} (hp : Cuts p q) (hf : ∀ a, Cuts (f a) (g a)) :
    Cuts (p >>= f) (q >>= g) := by
  intro st st' h
  have hfirst := hp st st' h
  rw [run_bind, run_bind]
  cases hrun : p.run st with
  | mk outcome st1 =>
    cases hrun' : q.run st' with
    | mk outcome' st1' =>
      rw [hrun, hrun'] at hfirst
      rcases hfirst with hcut | ⟨rfl, hst⟩
      · obtain rfl : outcome = .error .cancelled := hcut
        exact .inl rfl
      · cases outcome' with
        | error e => exact .inr ⟨rfl, hst⟩
        | ok a => exact hf a st1 st1' hst

theorem respects_cuts : Respects fun _ => Cuts where
  pure a := (respects_local.pure a).cuts
  bind := Cuts.bind
  fail e := (respects_local.fail e).cuts
  cursor := respects_local.cursor.cuts
  set_cursor c := (respects_local.set_cursor c).cuts
  create el kind := (respects_local.create el kind).cuts
  add_edge a b := (respects_local.add_edge a b).cuts
  add_pending n c := (respects_local.add_pending n c).cuts
  take_part f := (respects_local.take_part f).cuts
  take_all := respects_local.take_all.cuts
  element_of id := (respects_local.element_of id).cuts
  latest el := (respects_local.latest el).cuts

end steps
end Build

namespace Visit
open Build BuildState

/-- Somebody raises the flag when the traversal comes to one of these nodes. -/
def raising (raisedAt : NodeId → Bool) (n : NodeId) : Build Unit :=
  if raisedAt n then raiseFlag else pure ()

/-- On the way into a node the flag may go up from outside, before the build looks at it. -/
def enterAmid (s : Setting) (raisedAt : NodeId → Bool) (n : NodeId) : Build Unit := do
  raising raisedAt n
  enter s n

theorem enter_amid_none (s : Setting) : enterAmid s (fun _ => false) = enter s := rfl

section visit
variable (s : Setting) (raisedAt : NodeId → Bool) (n : NodeId)

theorem carries_enter_amid (old : List NodeId) : Carries old (enterAmid s raisedAt n) := by
  refine Carries.bind ?_ fun _ => Carries.bind ((respects_carries old).check _) fun _ => ?_
  · unfold raising
    split
    · exact fun st st' h => ⟨rfl, ⟨h.graph, h.pending, h.cursor⟩, rfl, h.truncated⟩
    · exact (respects_carries old).unit
  · split
    · intro st st' h
      rw [run_checkpoint, run_checkpoint, h.raised]
      exact ⟨rfl, h⟩
    · exact (respects_carries old).unit

theorem carries_truncate (t : SyntaxTree) (old : List NodeId) : Carries old (truncate t n) := by
  have hnote : Carries old (modify fun st => { st with truncated := n :: st.truncated } : Build Unit) :=
    fun st st' h => ⟨rfl, ⟨h.graph, h.pending, h.cursor⟩, h.raised, by
      show n :: st'.truncated = n :: st.truncated ++ old
      rw [h.truncated, List.cons_append]⟩
  exact hnote.bind fun _ => Carries.bind ((respects_carries old).start_node n) fun _ =>
    (respects_carries old).unit

/-- Looking at the flag is all that a visit does besides what a visit without a flag does. -/
theorem cuts_enter_amid {s' : Setting} (htree : s'.tree = s.tree) (hnever : s'.cancellable = false) :
    Cuts (enterAmid s raisedAt n) (enter s' n) := by
  have hraise : Cuts (raising raisedAt n) (pure ()) := by
    unfold raising
    split
    · exact fun st st' h => .inr ⟨rfl, h.graph, h.pending, h.cursor⟩
    · exact respects_cuts.unit
  have hlook : Cuts (checkpoint s) (checkpoint s') := by
    intro st st' h
    rw [run_checkpoint, run_checkpoint, hnever]
    cases hcut : s.cancellable && st.raised with
    | true => exact .inl rfl
    | false => exact .inr ⟨rfl, h⟩
  have henter : Cuts (enter s n) (enter s' n) := by
    unfold enter
    rw [htree]
    refine (respects_cuts.check _).bind fun _ => ?_
    split
    · exact hlook
    · exact respects_cuts.unit
  intro st st' h
  have hafter := hraise.bind fun _ => henter
  exact hafter st st' h

theorem cuts_truncate (t : SyntaxTree) : Cuts (truncate t n) (truncate t n) := by
  have hnote : Cuts (modify fun st => { st with truncated := n :: st.truncated } : Build Unit)
      (modify fun st => { st with truncated := n :: st.truncated }) :=
    fun st st' h => .inr ⟨rfl, h.graph, h.pending, h.cursor⟩
  exact hnote.bind fun _ => respects_cuts.discard (respects_cuts.start_node n)

theorem at_level_enter_amid (d : Nat) :
    AtLevel d (enterAmid s raisedAt n) (enterAmid s raisedAt n) := by
  refine AtLevel.bind ?_ fun _ => at_level_enter s d n
  unfold raising
  split <;> exact fun _ => rfl

theorem carries_visit_owner_amid (old : List NodeId) :
    Carries old (visitOwnerWith s (enterAmid s raisedAt) n) := by
  have hfollow : Carries old (followOwner s (enterAmid s raisedAt) n) :=
    @follow_owner_respects _ (respects_carries old) s s rfl rfl (enterAmid s raisedAt)
      (enterAmid s raisedAt) (fun m => carries_enter_amid s raisedAt m old)
      (fun m => carries_truncate m s.tree old) n
  intro st st' h
  have hlevels : ∀ d m, AtLevel d (enterAmid s raisedAt m) (enterAmid s raisedAt m) :=
    fun d m => at_level_enter_amid s raisedAt m d
  rw [run_visit_owner_with hlevels, run_visit_owner_with hlevels]
  obtain ⟨hout, hext⟩ := hfollow st st' h
  exact ⟨hout, ⟨hext.graph, hext.pending, hext.cursor⟩, hext.raised, hext.truncated⟩

theorem cuts_visit_owner_amid {s' : Setting} (htree : s'.tree = s.tree)
    (hdepth : s'.maxDepth = s.maxDepth) (hnever : s'.cancellable = false) :
    Cuts (visitOwnerWith s (enterAmid s raisedAt) n) (visitOwner s' n) := by
  have hfollow : Cuts (followOwner s (enterAmid s raisedAt) n) (followOwner s' (enter s') n) :=
    follow_owner_respects respects_cuts htree hdepth
      (fun m => cuts_enter_amid s raisedAt m htree hnever) (fun m => cuts_truncate m s.tree) n
  intro st st' h
  have hlevels : ∀ d m, AtLevel d (enterAmid s raisedAt m) (enterAmid s raisedAt m) :=
    fun d m => at_level_enter_amid s raisedAt m d
  rw [run_visit_owner_with hlevels, run_visit_owner]
  rcases hfollow st st' h with hcut | ⟨hout, hlike⟩
  · exact .inl hcut
  · exact .inr ⟨hout, hlike.graph, hlike.pending, hlike.cursor⟩

end visit
end Visit

namespace Build
open BuildState

def afterClear (t : SyntaxTree) (visit : NodeId → Build Unit) (owner : NodeId) :
    Build ControlFlow := do
  let entry ← addNode t none .plain
  visit owner
  finish t owner entry

theorem run_build (t : SyntaxTree) (visit : NodeId → Build Unit) (owner : NodeId)
    (st : BuildState) : (build t visit owner).run st = (afterClear t visit owner).run st.cleared := by
  have hstart : (start t).run st = (addNode t none .plain).run st.cleared := rfl
  rw [build, afterClear, run_bind, run_bind, hstart]

theorem carries_after_clear {old : List NodeId} (t : SyntaxTree) {visit : NodeId → Build Unit}
    {owner : NodeId} (h : Carries old (visit owner)) : Carries old (afterClear t visit owner) := by
  have hnode : Carries old (addNode t none .plain) := (respects_carries old).add_node t none .plain
  refine hnode.bind fun entry => h.bind fun _ => hnode.bind fun exit => ?_
  intro st st' hst
  exact ⟨congrArg (fun g => (.ok ⟨owner, entry, exit, g⟩ : Except Stop ControlFlow)) hst.graph, hst⟩

theorem cuts_after_clear (t : SyntaxTree) {visit visit' : NodeId → Build Unit} {owner : NodeId}
    (h : Cuts (visit owner) (visit' owner)) :
    Cuts (afterClear t visit owner) (afterClear t visit' owner) := by
  have hnode : Cuts (addNode t none .plain) (addNode t none .plain) :=
    respects_cuts.add_node t none .plain
  refine hnode.bind fun entry => h.bind fun _ => hnode.bind fun exit => ?_
  intro st st' hst
  exact .inr
    ⟨congrArg (fun g => (.ok ⟨owner, entry, exit, g⟩ : Except Stop ControlFlow)) hst.graph, hst⟩

end Build

/-- One build on a builder and a visitor that are in use. -/
structure Turn where
  owner : NodeId
  /-- The flag when the build begins. -/
  raised : Bool
  /-- The nodes at which somebody raises the flag during the traversal. -/
  raisedAt : NodeId → Bool

namespace Turn

def run (s : Setting) (turn : Turn) (st : BuildState) : Except Stop ControlFlow × BuildState :=
  (Build.build s.tree (Visit.visitOwnerWith s (Visit.enterAmid s turn.raisedAt)) turn.owner).run
    { st with raised := turn.raised }

def replay (s : Setting) : List Turn → BuildState → BuildState
  | [], st => st
  | turn :: rest, st => replay s rest (turn.run s st).2

/-- Where nobody interferes, a turn is the build as it runs. -/
theorem run_quiet (s : Setting) (owner : NodeId) (raised : Bool) (st : BuildState) :
    run s ⟨owner, raised, fun _ => false⟩ st =
      (Build.build s.tree (Visit.visitOwner s) owner).run { st with raised := raised } := rfl

/-- Whatever state a build finds, it does what it does from the initial one. -/
theorem run_forgets (s : Setting) (turn : Turn) (st : BuildState) :
    (turn.run s st).1 = (turn.run s (.initial turn.raised)).1 ∧
      BuildState.Extends st.truncated (turn.run s (.initial turn.raised)).2 (turn.run s st).2 := by
  have hcarries := Build.carries_after_clear s.tree
    (Visit.carries_visit_owner_amid s turn.raisedAt turn.owner st.truncated)
  rw [run, run, Build.run_build, Build.run_build]
  exact hcarries _ _ ⟨⟨rfl, rfl, rfl⟩, rfl, rfl⟩

/-- A build either is cancelled or comes to what it comes to when nobody looks at the flag. -/
theorem run_cut (t : SyntaxTree) (c : Config) (cancellable : Bool) (turn : Turn) (st : BuildState) :
    (turn.run ⟨t, c.depth, cancellable⟩ st).1 = .error .cancelled ∨
      (turn.run ⟨t, c.depth, cancellable⟩ st).1 = (buildOwner t c none turn.owner).outcome := by
  have hvisits : Build.Cuts
      (Visit.visitOwnerWith ⟨t, c.depth, cancellable⟩
        (Visit.enterAmid ⟨t, c.depth, cancellable⟩ turn.raisedAt) turn.owner)
      (Visit.visitOwner (Setting.ofConfig t c none) turn.owner) :=
    Visit.cuts_visit_owner_amid ⟨t, c.depth, cancellable⟩ turn.raisedAt turn.owner rfl rfl rfl
  have hcuts := Build.cuts_after_clear t hvisits
  have hplain : (buildOwner t c none turn.owner).outcome =
      ((Build.afterClear t (Visit.visitOwner (Setting.ofConfig t c none)) turn.owner).run
        (BuildState.initial false).cleared).1 := by
    rw [← Build.run_build]
    rfl
  rw [run, Build.run_build, hplain]
  rcases hcuts ({ st with raised := turn.raised } : BuildState).cleared
    (BuildState.initial false).cleared ⟨rfl, rfl, rfl⟩ with hcut | ⟨hout, -⟩
  · exact .inl hcut
  · exact .inr hout.symm

/-- In a tree that was made by pushing there is such a graph. -/
theorem run_ends {t : SyntaxTree} (ht : t.Pushed) (c : Config) (cancellable : Bool) (turn : Turn)
    (hin : turn.owner.index < t.size) (st : BuildState) :
    (turn.run ⟨t, c.depth, cancellable⟩ st).1 = .error .cancelled ∨
      ∃ f, (turn.run ⟨t, c.depth, cancellable⟩ st).1 = .ok f ∧
        (buildOwner t c none turn.owner).outcome = .ok f := by
  have hfree : (none : Option Bool) ≠ some true := by simp
  obtain ⟨-, f, hf, -⟩ := construction_succeeds ht c hfree hin
  rcases turn.run_cut t c cancellable st with hcut | hsame
  · exact .inl hcut
  · exact .inr ⟨f, hsame.trans hf, hf⟩

end Turn

/-- What a build gives, it gives also when nobody looks at the flag. -/
theorem built_without_flag {t : SyntaxTree} {c : Config} {cancel : Option Bool} {owner : NodeId}
    {f : ControlFlow} (hf : (buildOwner t c cancel owner).outcome = .ok f) :
    (buildOwner t c none owner).outcome = .ok f := by
  have hrun : (Turn.run (Setting.ofConfig t c cancel) ⟨owner, cancel.getD false, fun _ => false⟩
      (.initial (cancel.getD false))).1 = .ok f := hf
  rcases Turn.run_cut t c cancel.isSome ⟨owner, cancel.getD false, fun _ => false⟩
    (.initial (cancel.getD false)) with hcut | hsame
  · cases hcut.symm.trans hrun
  · exact hsame.symm.trans hrun

/-- After any history of builds, cancelled or not, the next build comes to what it comes to on a fresh
builder with a fresh visitor, and adds as many records of truncated subtrees as it makes there. -/
theorem builds_isolated {t : SyntaxTree} (ht : t.Pushed) (c : Config) (cancellable : Bool)
    (history : List Turn) (next : Turn) (hin : next.owner.index < t.size) :
    let s : Setting := ⟨t, c.depth, cancellable⟩
    let used := Turn.replay s history (.initial false)
    let fresh := next.run s (.initial false)
    let again := next.run s used
    again.1 = fresh.1 ∧ again.2.truncated = fresh.2.truncated ++ used.truncated ∧
      (again.1 = .error .cancelled ∨
        ∃ f, again.1 = .ok f ∧ (buildOwner t c none next.owner).outcome = .ok f) := by
  intro s used fresh again
  obtain ⟨hused, hext⟩ := next.run_forgets s used
  obtain ⟨hfresh, hext'⟩ := next.run_forgets s (.initial false)
  refine ⟨hused.trans hfresh.symm, ?_, next.run_ends ht c cancellable hin used⟩
  have htruncated := hext'.truncated
  rw [show (BuildState.initial false).truncated = [] from rfl, List.append_nil] at htruncated
  show (next.run s used).2.truncated = (next.run s (.initial false)).2.truncated ++ used.truncated
  rw [hext.truncated, htruncated]

def twoStatements : SyntaxTree :=
  let root := SyntaxTree.singleton .module .zero
  let first := (root.push ⟨0⟩ .statement .plain .zero).1
  let inner := (first.push ⟨1⟩ .expression .plain .zero).1
  (inner.push ⟨0⟩ .statement .plain .zero).1

def Config.shallow : Config := { Config.standard with maxDepth := 1 }

def Setting.shallow : Setting := ⟨twoStatements, Config.shallow.depth, true⟩

def cutState : BuildState :=
  Turn.replay .shallow [⟨⟨0⟩, false, fun n => n == ⟨3⟩⟩] (.initial false)

/-- Half a graph, a cursor and a record are left, and the next build does as if there were none. -/
theorem isolated_after_cancellation :
    cutState.graph.size = 3 ∧ cutState.cursor = some ⟨2⟩ ∧ cutState.truncated = [⟨2⟩] ∧
      (Turn.run .shallow ⟨⟨0⟩, false, fun _ => false⟩ cutState).1 =
        (Turn.run .shallow ⟨⟨0⟩, false, fun _ => false⟩ (.initial false)).1 ∧
      (Turn.run .shallow ⟨⟨0⟩, false, fun _ => false⟩ cutState).2.truncated =
        (Turn.run .shallow ⟨⟨0⟩, false, fun _ => false⟩ (.initial false)).2.truncated ++
          cutState.truncated := by
  have hpushed : twoStatements.Pushed :=
    .push (.push (.push (.singleton .module .zero) (by decide) .statement .plain .zero) (by decide)
      .expression .plain .zero) (by decide) .statement .plain .zero
  have hnext := builds_isolated hpushed .shallow true
    [⟨⟨0⟩, false, fun n => n == ⟨3⟩⟩] ⟨⟨0⟩, false, fun _ => false⟩ (by decide)
  refine ⟨by decide +kernel, by decide +kernel, by decide +kernel, hnext.1, ?_⟩
  unfold cutState Setting.shallow
  exact hnext.2.1

end PythonFlow
