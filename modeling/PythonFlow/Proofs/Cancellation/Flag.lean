import PythonFlow.Analysis
import PythonFlow.Proofs.Arrival.Pause
import PythonFlow.Proofs.Cancellation.Stops

/-!
# Cancelled builds

A build looks at the flag on the way into a statement and nowhere else. So a flag that was raised beforehand
ends it exactly when it comes to some statement at all, be it one at the limit of depth; a build that comes
to none, and one whose flag stays down, gives what it gives without a flag. An analysis is cancelled when one
of its builds is, in whatever order they are made.
-/

set_option autoImplicit false

namespace PythonFlow
open Build BuildState

namespace Visit
variable (r : Bool)

/-- Where a build looks at a flag that is raised, it may and must be stopped on the way into a statement. -/
theorem stops_enter (s s' : Setting) (htree : s'.tree = s.tree) (hnever : s'.cancellable = false)
    (n : NodeId) :
    Stops r (fun n => (s.cancellable && r && (s.tree.kind n).isStatement) = true)
      (fun n => (s.cancellable && r && (s.tree.kind n).isStatement) = true) [n] (enter s n) (enter s' n) := by
  unfold enter
  rw [htree]
  refine (respects_local.check _).and_then fun _ st st' hr hst => ?_
  by_cases hk : (s.tree.kind n).isStatement = true
  · rw [if_pos hk, if_pos hk, run_checkpoint, run_checkpoint, hr, hnever]
    by_cases hup : (s.cancellable && r) = true
    · exact .inl ⟨by simp [hup], n, List.mem_singleton.2 rfl, by simp [hup, hk]⟩
    · exact .inr ⟨by simp [hup], rfl, hst, by simp [hup]⟩
  · rw [if_neg hk, if_neg hk]
    exact .inr ⟨rfl, hr, hst, by simp [hk]⟩

theorem stops_pausing {s : Setting} (hnever : s.cancellable = false) (n : NodeId)
    (stop : BuildState → Bool) (m : NodeId) :
    Stops r (fun m => m = n) (fun m => m = n ∧ ∀ st, stop st = true) [m] (pausing s n stop m)
      (enter s m) := by
  intro st st' hr hst
  rw [run_pausing]
  by_cases hstop : (m == n && stop { st with depth := 0 }) = true
  · rw [if_pos hstop]
    exact .inl ⟨rfl, m, List.mem_singleton.2 rfl, eq_of_beq (Bool.and_eq_true_iff.1 hstop).1⟩
  · rw [if_neg hstop]
    have hsame := stops_enter r s s rfl hnever m st st' hr hst
    simp only [hnever, Bool.false_and, Bool.false_eq_true, and_false, exists_false, false_or] at hsame
    obtain ⟨hout, hr1, hst1, -⟩ := hsame
    refine .inr ⟨hout, hr1, hst1, fun a _ k hk hmust => hstop ?_⟩
    obtain rfl := List.mem_singleton.1 hk
    simp [hmust.1, hmust.2]

end Visit

/-- A build with a flag is cut short because the flag is up and the build met what makes it look, or else it
is whole and gives what it gives without a flag. -/
def Heeds {α : Type} (build : Option Bool → α) (cut whole : α → Prop) (met : Prop) : Prop :=
  ∀ cancel, cut (build cancel) ∧ cancel = some true ∧ met ∨
    whole (build cancel) ∧ build cancel = build none ∧ (cancel = some true → ¬ met)

theorem Heeds.decided {α : Type} {build : Option Bool → α} {cut whole : α → Prop} {met : Prop}
    (h : Heeds build cut whole met) (hapart : ∀ a, cut a → ¬ whole a) :
    (cut (build (some true)) ↔ met) ∧ (¬ met → build (some true) = build none) ∧
      build (some false) = build none ∧ whole (build none) := by
  refine ⟨?_, fun hnone => ?_, ?_, ?_⟩
  · rcases h (some true) with ⟨hcut, -, hmet⟩ | ⟨hwhole, -, hnone⟩
    · exact iff_of_true hcut hmet
    · exact iff_of_false (fun hcut => hapart _ hcut hwhole) (hnone rfl)
  · rcases h (some true) with ⟨-, -, hmet⟩ | ⟨-, hsame, -⟩
    · exact absurd hmet hnone
    · exact hsame
  · rcases h (some false) with ⟨-, hflag, -⟩ | ⟨-, hsame, -⟩
    · cases hflag
    · exact hsame
  · rcases h none with ⟨-, hflag, -⟩ | ⟨hwhole, -⟩
    · cases hflag
    · exact hwhole

section owner
variable {t : SyntaxTree} (c : Config) {owner : NodeId}

theorem build_owner_eq (t : SyntaxTree) (cancel : Option Bool) (owner : NodeId) :
    buildOwner t c cancel owner =
      let ran := (afterClear t (Visit.visitOwner (.ofConfig t c cancel)) owner).run
        (BuildState.initial (cancel.getD false)).cleared
      ⟨ran.1, ran.2.truncated.reverse⟩ := by
  rw [← run_build]
  rfl

variable (ho : t.Ordered) (hin : owner.index < t.size)
include ho hin

/-- A build with a flag is cancelled, or it gives what the build without a flag gives. -/
theorem build_owner_cases (cancel : Option Bool) :
    (buildOwner t c cancel owner).outcome = .error .cancelled ∧ cancel = some true ∧
      (∃ n ∈ t.visitedIn c.depth owner, (t.kind n).isStatement = true) ∨
    (∃ f, (buildOwner t c cancel owner).outcome = .ok f) ∧
      buildOwner t c cancel owner = buildOwner t c none owner ∧
      (cancel = some true → ¬ ∃ n ∈ t.visitedIn c.depth owner, (t.kind n).isStatement = true) := by
  have hup : ∀ n, ((Setting.ofConfig t c cancel).cancellable && cancel.getD false &&
      (t.kind n).isStatement) = true ↔ cancel = some true ∧ (t.kind n).isStatement = true := by
    intro n
    rcases cancel with _ | _ | _ <;> simp [Setting.ofConfig]
  obtain ⟨f, hf, -, -⟩ := Sketch.build_describes ho c (Option.some_ne_none true).symm hin
  have htree : (Setting.ofConfig t c none).tree = (Setting.ofConfig t c cancel).tree := rfl
  have hstops := Visit.stops_build htree (Visit.stops_enter (cancel.getD false) _ _ htree rfl) rfl
    (Visit.at_level_enter _) (Visit.at_level_enter _) owner
    (BuildState.initial (cancel.getD false)).cleared (BuildState.initial false).cleared rfl
    ⟨⟨rfl, rfl, rfl⟩, rfl⟩
  simp only [show (Setting.ofConfig t c cancel).tree = t from rfl, hup] at hstops
  rw [build_owner_eq] at hf
  rw [build_owner_eq, build_owner_eq]
  rcases hstops with ⟨hcut, n, hn, hflag, hk⟩ | ⟨hout, -, hlike, hnone⟩
  · exact .inl ⟨hcut, hflag, n, hn, hk⟩
  · refine .inr ⟨⟨f, hout.symm.trans hf⟩, ?_, ?_⟩
    · exact congrArg₂ Built.mk hout.symm (congrArg List.reverse hlike.truncated.symm)
    · rintro hflag ⟨n, hn, hk⟩
      exact hnone f (hout.symm.trans hf) n hn ⟨hflag, hk⟩

/-- The listed nodes are those just before which a build without a flag can be stopped. -/
theorem mem_visited_in_iff (n : NodeId) : n ∈ t.visitedIn c.depth owner ↔
    ∃ st, Visit.Reached (.ofConfig t c none) owner n false st := by
  have htree : (Setting.ofConfig t c none).tree = (Setting.ofConfig t c none).tree := rfl
  have hstops (stop : BuildState → Bool) := Visit.stops_build htree
    (Visit.stops_pausing false (s := .ofConfig t c none) rfl n stop) rfl
    (Visit.at_level_pausing _ n stop) (Visit.at_level_enter _) owner
    (BuildState.initial false).cleared (BuildState.initial false).cleared rfl ⟨⟨rfl, rfl, rfl⟩, rfl⟩
  obtain ⟨f, hf, -, -⟩ := Sketch.build_describes ho c (Option.some_ne_none true).symm hin
  rw [build_owner_eq] at hf
  constructor
  · intro hn
    refine ⟨_, fun _ => true, (run_build _ _ _ _).trans (Prod.ext ?_ rfl)⟩
    rcases hstops (fun _ => true) with ⟨hcut, -⟩ | ⟨hout, -, -, hnone⟩
    · exact hcut
    · exact (hnone f (hout.symm.trans hf) n hn ⟨rfl, fun _ => rfl⟩).elim
  · rintro ⟨st, stop, hrun⟩
    rw [run_build] at hrun
    rcases hstops stop with ⟨-, m, hm, rfl⟩ | ⟨hout, -⟩
    · exact hm
    · have hcut := (congrArg Prod.fst hrun).symm.trans (hout.symm.trans hf)
      cases hcut

end owner

def ownerFlow (t : SyntaxTree) (c : Config) (cancel : Option Bool) (owner : NodeId) : Except Stop OwnerFlow :=
  (buildOwner t c cancel owner).outcome.map fun flow =>
    ⟨owner, t.kind owner, t.qualifiedName owner, flow, (buildOwner t c cancel owner).truncated⟩

/-- What may come of results that are gathered in whatever order they are ready: all of them in their
places, or any one reason among those why some are missing. -/
def Gathers {α : Type} (results : List (Except Stop α)) : Except Stop (List α) → Prop
  | .ok found => results = found.map .ok
  | .error stop => .error stop ∈ results

section owners
variable {t : SyntaxTree} (c : Config) (cancel : Option Bool)

theorem gathers_build_owners (owners : List NodeId) :
    Gathers (owners.map (ownerFlow t c cancel)) (buildOwners t c cancel owners) := by
  induction owners with
  | nil => rfl
  | cons owner owners ih =>
    rw [buildOwners, List.map_cons]
    cases hbuilt : (buildOwner t c cancel owner).outcome with
    | error stop =>
      refine List.mem_cons.2 (.inl ?_)
      rw [ownerFlow, hbuilt]
      rfl
    | ok flow =>
      dsimp only
      cases hrest : buildOwners t c cancel owners with
      | error stop =>
        rw [hrest] at ih
        exact List.mem_cons_of_mem _ ih
      | ok flows =>
        rw [hrest] at ih
        refine congrArg₂ List.cons ?_ ih
        rw [ownerFlow, hbuilt]
        rfl

/-- Where there is only one reason to miss anything, the order does not matter. -/
theorem Gathers.unique {α : Type} {results : List (Except Stop α)} {r r' : Except Stop (List α)} {stop : Stop}
    (hone : ∀ e, .error e ∈ results → e = stop) (h : Gathers results r) (h' : Gathers results r') :
    r = r' := by
  have hnone {found : List α} {e : Stop} (hall : results = found.map .ok) : ¬ .error e ∈ results := by
    rw [hall]
    simp
  cases r with
  | error e =>
    cases r' with
    | error e' => rw [hone e h, hone e' h']
    | ok found' => exact (hnone h' h).elim
  | ok found =>
    cases r' with
    | error e' => exact (hnone h h').elim
    | ok found' =>
      have hsame := h.symm.trans h'
      exact congrArg Except.ok (List.map_injective_iff.2 (fun _ _ heq => Except.ok.inj heq) hsame)

section ordered
variable (ho : t.Ordered)
include ho

theorem only_cancelled {owners : List NodeId} (hin : ∀ o ∈ owners, o.index < t.size) (e : Stop)
    (he : .error e ∈ owners.map (ownerFlow t c cancel)) : e = .cancelled := by
  obtain ⟨o, ho', hflow⟩ := List.mem_map.1 he
  rw [ownerFlow] at hflow
  rcases build_owner_cases c ho (hin o ho') cancel with ⟨hcut, -⟩ | ⟨⟨f, hf⟩, -⟩
  · rw [hcut] at hflow
    cases hflow
    rfl
  · rw [hf] at hflow
    cases hflow

/-- The builds of several owners are cancelled if one of them is. -/
theorem build_owners_cases {owners : List NodeId} (hin : ∀ o ∈ owners, o.index < t.size) :
    buildOwners t c cancel owners = .error .cancelled ∧ cancel = some true ∧
      (∃ o ∈ owners, ∃ n ∈ t.visitedIn c.depth o, (t.kind n).isStatement = true) ∨
    (∃ flows, buildOwners t c cancel owners = .ok flows) ∧
      buildOwners t c cancel owners = buildOwners t c none owners ∧
      (cancel = some true →
        ¬ ∃ o ∈ owners, ∃ n ∈ t.visitedIn c.depth o, (t.kind n).isStatement = true) := by
  induction owners with
  | nil => exact .inr ⟨⟨[], rfl⟩, rfl, fun _ => by simp⟩
  | cons owner owners ih =>
    obtain ⟨howner, hrest⟩ := List.forall_mem_cons.1 hin
    rw [buildOwners, buildOwners]
    rcases build_owner_cases c ho howner cancel with ⟨hcut, hflag, hmet⟩ | ⟨⟨f, hf⟩, hsame, hnone⟩
    · refine .inl ⟨?_, hflag, owner, List.mem_cons_self, hmet⟩
      rw [hcut]
    · rw [← hsame, hf]
      rcases ih hrest with ⟨hcut, hflag, o, hmem, hmet⟩ | ⟨⟨flows, hflows⟩, hsame', hnone'⟩
      · refine .inl ⟨?_, hflag, o, List.mem_cons_of_mem owner hmem, hmet⟩
        dsimp only
        rw [hcut]
      · dsimp only
        rw [← hsame', hflows]
        refine .inr ⟨⟨_, rfl⟩, rfl, ?_⟩
        rintro hflag ⟨o, hmem, hmet⟩
        rcases List.mem_cons.1 hmem with rfl | hmem
        · exact hnone hflag hmet
        · exact hnone' hflag ⟨o, hmem, hmet⟩

end ordered
end owners

/-- A build that finds the flag raised is cancelled if and only if it comes to a statement; the nodes that
it comes to are those just before which the build without a flag can be stopped. Otherwise, and where the
flag stays down, it gives what is given without a flag. An analysis of the tree is cancelled if and only if
this happens to one of the owners that are selected. Their builds may be made at the same time and gathered
in any order. -/
theorem cancelled_iff_statement_visited {t : SyntaxTree} (ho : t.Ordered) (c : Config) :
    (∀ owner : NodeId, owner.index < t.size →
      (∀ n, n ∈ t.visitedIn c.depth owner ↔
        ∃ st, Visit.Reached (.ofConfig t c none) owner n false st) ∧
      ((buildOwner t c (some true) owner).outcome = .error .cancelled ↔
        ∃ n ∈ t.visitedIn c.depth owner, (t.kind n).isStatement = true) ∧
      ((¬ ∃ n ∈ t.visitedIn c.depth owner, (t.kind n).isStatement = true) →
        buildOwner t c (some true) owner = buildOwner t c none owner) ∧
      buildOwner t c (some false) owner = buildOwner t c none owner ∧
      ∃ f, (buildOwner t c none owner).outcome = .ok f) ∧
    (∀ cancel r, Gathers ((t.selectOwners c).map (ownerFlow t c cancel)) r ↔ buildFlows t c cancel = r) ∧
    (c.validate = .ok () →
      (analyze t c (some true) = .error (.stopped .cancelled) ↔
        ∃ o ∈ t.selectOwners c, ∃ n ∈ t.visitedIn c.depth o, (t.kind n).isStatement = true) ∧
      ((¬ ∃ o ∈ t.selectOwners c, ∃ n ∈ t.visitedIn c.depth o, (t.kind n).isStatement = true) →
        analyze t c (some true) = analyze t c none) ∧
      analyze t c (some false) = analyze t c none ∧
      ∃ flows, analyze t c none = .ok flows) := by
  have hselected : ∀ o ∈ t.selectOwners c, o.index < t.size := fun o h =>
    SyntaxTree.mem_ids.1 (List.mem_of_mem_filter (List.mem_of_mem_filter h))
  refine ⟨fun owner hin => ⟨mem_visited_in_iff c ho hin, ?_⟩, fun cancel r => ?_, fun hvalid => ?_⟩
  · have hheeds : Heeds (buildOwner t c · owner) (·.outcome = .error .cancelled) (∃ f, ·.outcome = .ok f) _ :=
      build_owner_cases c ho hin
    exact hheeds.decided fun built hcut ⟨f, hf⟩ => nomatch hcut.symm.trans hf
  · have hloop := gathers_build_owners c cancel (t := t) (t.selectOwners c)
    constructor
    · exact fun h => hloop.unique (only_cancelled c cancel ho hselected) h
    · rintro rfl
      exact hloop
  · have hheeds : Heeds (analyze t c ·) (· = .error (.stopped .cancelled)) (∃ flows, · = .ok flows)
        (∃ o ∈ t.selectOwners c, ∃ n ∈ t.visitedIn c.depth o, (t.kind n).isStatement = true) := by
      intro cancel
      simp only [analyze, hvalid, buildFlows]
      rcases build_owners_cases c cancel ho hselected with ⟨hcut, hup⟩ | ⟨⟨flows, hflows⟩, hsame, hdown⟩
      · rw [hcut]
        exact .inl ⟨rfl, hup⟩
      · rw [← hsame, hflows]
        exact .inr ⟨⟨flows, rfl⟩, rfl, hdown⟩
    exact hheeds.decided fun result hcut ⟨flows, hflows⟩ => nomatch hcut.symm.trans hflows

def lambdaStatement : SyntaxTree :=
  let root := SyntaxTree.singleton .module .zero
  let statement := (root.push ⟨0⟩ .statement .plain .zero).1
  let function := (statement.push ⟨1⟩ .lambda .plain .zero).1
  (function.push ⟨2⟩ .expression .body .zero).1

/-- A raised flag cancels the module's build and not the lambda's, and so it cancels an analysis of both. -/
theorem lambda_statement_cancelled :
    let c : Config := ⟨1, true, true, true⟩
    (buildOwner lambdaStatement c (some true) ⟨0⟩).outcome = .error .cancelled ∧
      buildOwner lambdaStatement c (some true) ⟨2⟩ = buildOwner lambdaStatement c none ⟨2⟩ ∧
      analyze lambdaStatement c (some true) = .error (.stopped .cancelled) ∧
      analyze lambdaStatement c (some false) = analyze lambdaStatement c none := by
  intro c
  have hpushed : lambdaStatement.Pushed :=
    .push (.push (.push (.singleton .module .zero) (by decide) .statement .plain .zero) (by decide)
      .lambda .plain .zero) (by decide) .expression .body .zero
  obtain ⟨howner, -, hall⟩ := cancelled_iff_statement_visited hpushed.ordered c
  obtain ⟨-, hmodule, -⟩ := howner ⟨0⟩ (by decide)
  obtain ⟨-, -, hlambda, -⟩ := howner ⟨2⟩ (by decide)
  obtain ⟨hanalysis, -, hdown, -⟩ := hall rfl
  exact ⟨hmodule.2 (by decide), hlambda (by decide), hanalysis.2 (by decide), hdown⟩

end PythonFlow
