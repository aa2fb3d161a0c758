import PythonFlow.Proofs.Account.Visits
import PythonFlow.Proofs.Frame.Gate
import PythonFlow.Proofs.Trace.Paths

/-!
# Paths of an owner without `try` statements

Where the code of an owner has no `try` statement, the entry may be labelled with what the code may emit
until it finishes, so that whatever a path to the exit reads is a finished run. With the walks that follow
the runs, the runs and the paths of an owner come to the same.
-/

set_option autoImplicit false

namespace PythonFlow
namespace Sketch
variable {t : SyntaxTree} {depth : Nat} {owner : NodeId} {k : Sketch} {C : Labels} {x y : InstructionId}
  {w : List NodeId} {f : ControlFlow}

/-- Nothing is read after the code of an owner has finished, and it finishes with no other outcome. -/
def ending : Sequel := fun o => {w | o.isFinal = true ∧ w = []}

theorem then_ending : Then t (.all (t.children owner)) ending = {w | Finished t owner w} := by
  ext w
  constructor
  · rintro ⟨w1, o, w2, rfl, hrun, hfinal, rfl⟩
    exact ⟨o, by rwa [List.append_nil], hfinal⟩
  · rintro ⟨o, hrun, hfinal⟩
    exact ⟨w, o, [], (List.append_nil w).symm, hrun, hfinal, rfl⟩

theorem account_opening (t : SyntaxTree) (C : Labels) : Account t (opening t) C where
  ranged := fun a b hab => absurd hab (not_edge_opening t a b)
  reads := fun a b hab => absurd hab (not_edge_opening t a b)

section owner
variable (hg : t.Grammatical) (howner : (t.kind owner).isOwner = true)
  (hcut : (build t depth owner).truncated = []) (htry : ∀ T, t.Owns owner T → t.kind T ≠ .tryStatement)
include hg howner

/-- What is pending in the end is so under the owner or a node below it, or under none. -/
theorem pending_interior {e : PendingEdge} (he : e ∈ (interior t depth owner).pending) :
    New (opening t) (interior t depth owner) e.source ∧ ∀ sc, e.scope = some sc → t.Below sc owner := by
  rcases pending_since (visited_owner hg depth owner) he with he | ⟨hnew, hscoped⟩
  · cases he
  refine ⟨hnew, fun sc hsc => ?_⟩
  rw [hsc] at hscoped
  refine hscoped.resolve_right ?_
  rintro ⟨hin, b, hb, hk, hl⟩
  have hne : b ≠ owner := by
    rintro rfl
    rw [hk] at howner
    cases howner
  exact hg.ordered.not_inside_enclosing_loop howner ⟨hb, hne⟩ hl hin

include hcut htry

theorem outset_opening : Outset t (visit t depth) owner (t.children owner) (opening t) C ending := by
  have ho := hg.ordered
  refine ⟨ready_opening hg, ⟨⟨fresh_opening t owner, fun x hx => ?_, sourced_opening t⟩, ?_⟩,
    ⟨promised_opening t owner _, fun _ => subset_rfl⟩, fun c hc => ?_⟩
  · exact Option.some.inj hx ▸ next_lt_place t blank none .plain
  · intro j l hj hk hl hin
    have hne : j ≠ owner := by
      rintro rfl
      rw [hk] at howner
      cases howner
    exact absurd hin (ho.not_inside_enclosing_loop howner ⟨hj, hne⟩ hl)
  · have hkind : t.kind owner ≠ .ifStatement := fun hk => by
      rw [hk] at howner
      cases howner
    exact accounts_visit hg (fits_of_build hg howner hcut c hc)
      (SyntaxKind.is_visited_of_admits hkind (hg.admitted hc))
      fun T hT => htry T ((owns_of_child ho hc).held ho hT)

/-- From the entry on a finished run may be read, and nothing where the exit lands. -/
theorem account_interior : ∃ C, Account t (interior t depth owner) C ∧
    C ⟨0⟩ = {w | Finished t owner w} ∧ ∀ x, (interior t depth owner).Loose x → [] ∈ C x := by
  have hO := outset_opening (C := fun _ => {w | Finished t owner w}) hg howner hcut htry
  have hstart : Poised t owner (opening t) (fun _ => {w | Finished t owner w})
      (Then t (.all (t.children owner)) (ending.after (ending .normal))) := by
    intro x _
    rw [ending.after_self, then_ending]
  obtain ⟨C, h, hagrees, hp⟩ := Ledger.each (R := []) hg hO (fun _ hc => hc)
    (fun _ _ => not_refers_of_kind hg (open_of_owner howner).1)
    (by rw [List.append_nil]; exact Ledger.start hO (account_opening t _)) hstart
  have hinterior : interior t depth owner = each (visit t depth) (t.children owner) (opening t) := by
    rw [interior, visitOwner, if_pos howner]
  rw [← hinterior] at h hp
  refine ⟨C, h.toAccount, hagrees ⟨0⟩ (next_lt_place t blank none .plain), ?_⟩
  rintro x (hx | ⟨e, he, rfl⟩)
  · exact hp x (.inl hx) ⟨rfl, rfl⟩
  obtain ⟨hnew, hscope⟩ := pending_interior hg howner he
  have hx : (interior t depth owner).Pends e.scope e.source := he
  cases hsc : e.scope with
  | none => exact h.left none e.source (by simp) (hsc ▸ hx) hnew ⟨rfl, rfl⟩
  | some sc =>
    rw [hsc] at hx
    rcases SyntaxTree.below_iff_eq_or_inside.1 (hscope sc hsc) with rfl | hin
    · exact h.own e.source hx ⟨rfl, rfl⟩
    · exact hp e.source (.inr ⟨sc, hx, hg.ordered.not_below_of_inside hin⟩) ⟨rfl, rfl⟩

/-- The exit is where nothing is left to be read. -/
theorem account_build : ∃ C, Account t (build t depth owner) C ∧
    C ⟨0⟩ = {w | Finished t owner w} ∧ [] ∈ C (interior t depth owner).next := by
  obtain ⟨C, haccount, hentry, hexit⟩ := account_interior hg howner hcut htry
  have hO := outset_opening (C := C) hg howner hcut htry
  have hcourse := course_interior depth howner
  have hone : (0 : Nat) < (interior t depth owner).size :=
    Nat.lt_of_lt_of_le (next_lt_place t blank none .plain) (hcourse.later hO.ready).size_le
  refine ⟨Function.update C (interior t depth owner).next {[]},
    haccount.place (hcourse.loose_lt hO.ready) fun a ha w hw => ?_, ?_, ?_⟩
  · have hshown : (build t depth owner).shown t (interior t depth owner).next = [] := by
      rw [shown, build, element_place_next]
    rw [← build, hshown, hw]
    exact hexit a (loose_of_arrival ha)
  · rw [agrees_update _ C {[]} ⟨0⟩ hone, hentry]
  · rw [Function.update_self]
    rfl

end owner

/-- What a path reads may be read from where it begins. -/
theorem Describes.statements_of_path (h : Describes t depth owner f)
    (haccount : Account t (build t depth owner) C) {p : List InstructionId} (hp : Path f.graph.Edge x p y)
    (hy : [] ∈ C y) : ∃ w ∈ C x, f.statementsOn t p = (build t depth owner).shown t x ++ w := by
  induction hp with
  | here x => exact ⟨[], hy, h.statements_cons x []⟩
  | step hedge _ ih =>
    obtain ⟨w, hw, hread⟩ := ih hy
    exact ⟨_, haccount.reads _ _ ((h.edge_iff _ _).1 hedge) w hw, by rw [h.statements_cons, hread]⟩

end Sketch

/-- Where the code of an owner has no `try` statement, it may emit until it finishes what the paths of its
graph from the entry to the exit read, and nothing else. -/
theorem finished_iff_on_path (source : String) (root : Concrete) (c : Config)
    {cancel : Option Bool} (hc : cancel ≠ some true) {owner : NodeId}
    (ho : owner ∈ (Lowering.tree source root).owners)
    (hcut : (buildOwner (Lowering.tree source root) c cancel owner).truncated = [])
    (htry : ∀ T, (Lowering.tree source root).Owns owner T →
      (Lowering.tree source root).kind T ≠ .tryStatement) :
    ∃ f, (buildOwner (Lowering.tree source root) c cancel owner).outcome = .ok f ∧
      ∀ w, Finished (Lowering.tree source root) owner w ↔
        ∃ p, Path f.graph.Edge f.entry p f.exit ∧ f.statementsOn (Lowering.tree source root) p = w := by
  have hg := Lowering.tree_grammatical source root
  have howner : ((Lowering.tree source root).kind owner).isOwner = true := (List.mem_filter.1 ho).2
  obtain ⟨f, hf, hd, htruncated⟩ :=
    Sketch.build_describes hg.ordered c hc (SyntaxTree.lt_of_mem_owners ho)
  rw [htruncated, List.reverse_eq_nil_iff] at hcut
  have htame : (Lowering.tree source root).TameCode owner := fun T _ hT hk _ _ _ => absurd hk (htry T hT)
  have hentry : (Sketch.build (Lowering.tree source root) c.depth owner).shown
      (Lowering.tree source root) ⟨0⟩ = [] := Sketch.shown_entry hg _ _
  refine ⟨f, hf, fun w => ⟨fun hw => ?_, ?_⟩⟩
  · obtain ⟨p, hp, hread⟩ := hd.path_of_reads (Sketch.goes_build hg howner hcut htame hw)
    exact ⟨p, by rwa [hd.entry, hd.exit], hread.trans (by rw [hentry, List.nil_append])⟩
  · rintro ⟨p, hp, rfl⟩
    obtain ⟨C, haccount, hfinished, hend⟩ := Sketch.account_build hg howner hcut htry
    rw [hd.entry, hd.exit] at hp
    obtain ⟨w, hw, hread⟩ := hd.statements_of_path haccount hp hend
    rw [hentry, List.nil_append] at hread
    rw [hread]
    exact (hfinished ▸ hw : w ∈ {w | Finished (Lowering.tree source root) owner w})

/-- The concrete tree of `while x: break` with `else: pass`. -/
def breakPastElse : Concrete :=
  .node "module" true none default
    [.node "while_statement" true none default
      [.node "identifier" true (some "condition") default [],
        .node "block" true (some "body") default [.node "break_statement" true none default []],
        .node "else_clause" true (some "alternative") default
          [.node "block" true (some "body") default [.node "pass_statement" true none default []]]]]

theorem break_past_else_finishes : Finished (Lowering.tree "" breakPastElse) ⟨0⟩ [⟨4⟩] := by
  have hbreak : Run (Lowering.tree "" breakPastElse) (.node ⟨4⟩) [⟨4⟩] (.broke ⟨1⟩) :=
    .broke (by decide +kernel) (by decide +kernel)
  have hbody : Run (Lowering.tree "" breakPastElse) (.node ⟨3⟩) [⟨4⟩] (.broke ⟨1⟩) := by
    refine .suite (by decide +kernel) ?_
    rw [show (Lowering.tree "" breakPastElse).children ⟨3⟩ = [⟨4⟩] by decide +kernel]
    exact hbreak.only
  have hloop : Run (Lowering.tree "" breakPastElse) (.node ⟨1⟩) [⟨4⟩] .normal :=
    .loop (by decide +kernel) (.left (b := ⟨3⟩) (o := .broke ⟨1⟩) (by decide +kernel) hbody (by decide))
  refine ⟨.normal, ?_, rfl⟩
  rw [show (Lowering.tree "" breakPastElse).children ⟨0⟩ = [⟨1⟩] by decide +kernel]
  exact hloop.only

/-- The `break` leaves the loop past its `else` clause. -/
theorem break_past_else_only {w : List NodeId} (h : Finished (Lowering.tree "" breakPastElse) ⟨0⟩ w) :
    w = [⟨4⟩] ∨ w = [⟨7⟩] := by
  have hone : ∀ {ns n w o}, ns = [n] → Run (Lowering.tree "" breakPastElse) (.all ns) w o →
      Run (Lowering.tree "" breakPastElse) (.node n) w o := fun hns h => (hns ▸ h).of_only
  have hbody : ∀ {w o}, Run (Lowering.tree "" breakPastElse) (.node ⟨3⟩) w o →
      w = [⟨4⟩] ∧ o = .broke ⟨1⟩ := by
    intro w o h
    have h := hone (n := ⟨4⟩) (by decide +kernel) (h.suite_inv (by decide +kernel))
    obtain ⟨rfl, ⟨hnone, -⟩ | ⟨l, hl, rfl⟩⟩ := h.break_inv (by decide +kernel)
    · rw [show (Lowering.tree "" breakPastElse).enclosingLoop ⟨4⟩ = some ⟨1⟩ by decide +kernel] at hnone
      cases hnone
    · rw [show (Lowering.tree "" breakPastElse).enclosingLoop ⟨4⟩ = some ⟨1⟩ by decide +kernel] at hl
      exact ⟨rfl, Option.some.inj hl ▸ rfl⟩
  have hpart : (Lowering.tree "" breakPastElse).body ⟨1⟩ = some ⟨3⟩ := by decide +kernel
  obtain ⟨o, hrun, -⟩ := h
  have hloop := (hone (n := ⟨1⟩) (by decide +kernel) hrun).loop_inv (by decide +kernel)
  cases hloop with
  | round hb h hagain =>
    obtain rfl := Option.some.inj (hpart.symm.trans hb)
    obtain ⟨-, rfl⟩ := hbody h
    cases hagain
  | left hb h _ =>
    obtain rfl := Option.some.inj (hpart.symm.trans hb)
    exact .inl (hbody h).1
  | exhausted h =>
    have helse := hone (n := ⟨5⟩) (by decide +kernel) h
    have hblock := hone (n := ⟨6⟩) (by decide +kernel) (helse.suite_inv (by decide +kernel))
    have hpass := hone (n := ⟨7⟩) (by decide +kernel) (hblock.suite_inv (by decide +kernel))
    obtain ⟨w', rfl, hrest⟩ := hpass.statement_inv (by decide +kernel)
    rw [show (Lowering.tree "" breakPastElse).children ⟨7⟩ = [] by decide +kernel] at hrest
    rw [hrest.all_nil.1]
    exact .inr rfl

theorem break_past_else_paths :
    ∃ f, (buildOwner (Lowering.tree "" breakPastElse) .standard none ⟨0⟩).outcome = .ok f ∧
      (∃ p, Path f.graph.Edge f.entry p f.exit ∧
        f.statementsOn (Lowering.tree "" breakPastElse) p = [⟨4⟩]) ∧
      ∀ p, Path f.graph.Edge f.entry p f.exit →
        f.statementsOn (Lowering.tree "" breakPastElse) p = [⟨4⟩] ∨
          f.statementsOn (Lowering.tree "" breakPastElse) p = [⟨7⟩] := by
  have hnone : ∀ j ∈ (Lowering.tree "" breakPastElse).ids,
      (Lowering.tree "" breakPastElse).kind j ≠ .tryStatement := by
    decide +kernel
  have hc : (none : Option Bool) ≠ some true := by decide
  have ho : (⟨0⟩ : NodeId) ∈ (Lowering.tree "" breakPastElse).owners := by decide +kernel
  obtain ⟨f, hf, hpaths⟩ := finished_iff_on_path "" breakPastElse .standard hc ho (by decide +kernel)
    fun T _ hT => hnone T (SyntaxTree.mem_ids_of_statement (by rw [hT]; rfl)) hT
  exact ⟨f, hf, (hpaths _).1 break_past_else_finishes,
    fun p hp => break_past_else_only ((hpaths _).2 ⟨p, hp, rfl⟩)⟩

end PythonFlow
