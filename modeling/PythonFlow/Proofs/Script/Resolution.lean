import PythonFlow.Proofs.Script.Steps
import PythonFlow.Proofs.Sketch.Faithful

/-!
# Pending edges are resolved as the script says

A scripted build keeps one list of pending edges and filters it at every instruction that it makes. What
comes of it is the rule of the script: each instruction follows where control stood and the edges that
land on it first, in the order in which they were left pending, and there are no other edges.
-/

set_option autoImplicit false

namespace PythonFlow
open Build

def BuildStep.draw (t : SyntaxTree) (step : BuildStep) (k : Sketch) : Sketch :=
  match step with
  | .node element => k.place t (some element) .plain
  | .conditional element condition outcome => k.place t (some element) (.conditional condition outcome)
  | .write element name => k.place t (some element) (.write name)
  | .abrupt => k.moved none
  | .setCursor cursor => k.moved cursor
  | .pending scope source => k.pended scope source.toList
  | _ => k

namespace Script
open Sketch

def visit (s : Setting) (steps : List BuildStep) : NodeId → Build Unit :=
  fun _ => forEach (fun step => discard (step.perform s)) steps

def drawAll (t : SyntaxTree) (steps : List BuildStep) (k : Sketch) : Sketch :=
  steps.foldl (fun k step => step.draw t k) k

def whole (t : SyntaxTree) (steps : List BuildStep) (k : Sketch) : Sketch :=
  (drawAll t steps k).place t none .plain

def standing (k : Sketch) : Standing := ⟨k.size, k.cursor⟩

theorem standing_draw (t : SyntaxTree) (step : BuildStep) (k : Sketch) :
    standing (step.draw t k) = (standing k).after step := by
  cases step <;> simp [BuildStep.draw, standing, Standing.after, Standing.next, Sketch.next]

theorem standing_draw_all (t : SyntaxTree) (steps : List BuildStep) (k : Sketch) :
    standing (drawAll t steps k) = (standing k).afterAll steps := by
  induction steps generalizing k with
  | nil => rfl
  | cons step steps ih => exact (ih (step.draw t k)).trans (by rw [standing_draw]; rfl)

section yields
variable {s : Setting} {r : Bool} {k : Sketch}

instance : Ranged Reply := ⟨fun _ _ => True, fun _ h => h⟩

theorem yields_reply {α : Type} [Ranged α] {k' : Sketch} {p : Build α} {a : α} (f : α → Reply)
    (h : Yields s.tree r p k a k') : Yields s.tree r (discard (do return f (← p))) k () k' := by
  have hreply : Yields s.tree r (do return f (← p)) k (f a) k' := h.bind fun _ _ _ => yields_pure trivial
  exact hreply.discard

theorem yields_step {step : BuildStep} {rest : List BuildStep}
    (hv : Valid s.tree (standing k) (step :: rest)) :
    Yields s.tree r (discard (step.perform s)) k () (step.draw s.tree k) := by
  have hstep := hv.1
  cases step with
  | node element | conditional element _ _ | write element _ =>
    exact yields_reply .created (yields_add_node fun _ hx => Option.some.inj hx ▸ hstep)
  | abrupt => exact yields_reply (fun _ => .nothing) yields_abrupt
  | setCursor cursor => exact yields_reply (fun _ => .nothing) (yields_set_cursor hstep)
  | pending scope source =>
    exact yields_reply (fun _ => .nothing) (yields_add_pending hstep.1 hstep.2)
  | _ => exact hstep.elim

theorem yields_steps {steps : List BuildStep} (hv : Valid s.tree (standing k) steps) :
    Yields s.tree r (forEach (fun step => discard (step.perform s)) steps) k ()
      (drawAll s.tree steps k) := by
  induction steps generalizing k with
  | nil => exact yields_unit
  | cons step steps ih =>
    refine Yields.bind (yields_step hv) fun _ _ _ => ih ?_
    rw [standing_draw]
    exact hv.2

end yields

/-- The sources of the edges to an instruction as they were added, repetitions included. -/
def into (k : Sketch) (j : InstructionId) : List InstructionId :=
  (k.edges.filter fun e => e.2 == j).map Prod.fst

section into
variable {t : SyntaxTree} {k : Sketch} {j : InstructionId} {steps before : List BuildStep}

theorem into_place (el : Option NodeId) (kind : InstructionKind) :
    into (k.place t el kind) j = into k j ++ if j = k.next then k.arrivals t el else [] := by
  by_cases hj : j = k.next
  · subst hj
    simp [into, place, List.filter_append, List.filter_map, Function.comp_def]
  · have hne : ¬ k.next = j := fun h => hj h.symm
    simp [into, place, List.filter_append, List.filter_map, Function.comp_def, hj, hne]

theorem mem_into {a : InstructionId} : a ∈ into k j ↔ k.Edge a j := by
  simp only [into, Edge, List.mem_map, List.mem_filter, beq_iff_eq]
  constructor
  · rintro ⟨⟨x, y⟩, ⟨hedge, rfl⟩, rfl⟩
    exact hedge
  · exact fun h => ⟨(a, j), ⟨h, rfl⟩, rfl⟩

theorem into_nil (hj : ∀ a, ¬ k.Edge a j) : into k j = [] :=
  List.eq_nil_iff_forall_not_mem.2 fun a ha => hj a (mem_into.1 ha)

/-- What a step does by itself: it makes one instruction, or leaves the edges as they are. -/
theorem draw_of_makes {step : BuildStep} {m : NodeId × InstructionKind} (h : step.makes = some m) :
    step.draw t k = k.place t (some m.1) m.2 := by
  cases step <;> cases h <;> rfl

theorem edges_of_none {step : BuildStep} (h : step.makes = none) :
    (step.draw t k).edges = k.edges := by
  cases step with
  | node | conditional | write => cases h
  | _ => rfl

theorem size_of_none {step : BuildStep} (h : step.makes = none) : (step.draw t k).size = k.size := by
  have hmade := made_after (standing k) step
  rw [← standing_draw t, h] at hmade
  exact hmade

theorem size_of_some {step : BuildStep} {m : NodeId × InstructionKind} (h : step.makes = some m) :
    (step.draw t k).size = k.size + 1 := by rw [draw_of_makes h, size_place]

/-- Later steps lead to later instructions. -/
theorem into_whole_old (hj : j.index < k.size) : into (whole t steps k) j = into k j := by
  induction steps generalizing k with
  | nil =>
    have hne : j ≠ k.next := fun h => Nat.ne_of_lt hj (congrArg InstructionId.index h)
    rw [whole, drawAll, List.foldl_nil, into_place, if_neg hne, List.append_nil]
  | cons step steps ih =>
    cases hm : step.makes with
    | none =>
      have hrest := ih (k := step.draw t k) (by rw [size_of_none hm]; exact hj)
      exact hrest.trans (by rw [into, edges_of_none hm, into])
    | some m =>
      have hrest := ih (k := step.draw t k) (by rw [size_of_some hm]; omega)
      have hne : j ≠ k.next := fun h => Nat.ne_of_lt hj (congrArg InstructionId.index h)
      refine hrest.trans ?_
      rw [draw_of_makes hm, into_place, if_neg hne, List.append_nil]

/-- The edges of the list that land on `j` when these steps are played. -/
def landed (t : SyntaxTree) (p : PendingEdges) (n : Nat) (steps : List BuildStep) (j : InstructionId) :
    List InstructionId :=
  (p.filter fun e => landing t e n steps == some j).map (·.source)

/-- A step that makes an instruction leaves nothing pending. -/
theorem claimed_of_makes {step : BuildStep} {m : NodeId × InstructionKind} (h : step.makes = some m) :
    claimed t (standing k) (step :: steps) j = claimed t ((standing k).after step) steps j := by
  have hclaim : claim t k.size steps step = [] := by
    cases step <;> first | rfl | cases h
  rw [claimed, claimed, claims]
  simp only [standing, hclaim, List.nil_append]

theorem claimed_nil (p : Standing) (hj : j.index < p.made) : claimed t p steps j = [] :=
  List.eq_nil_iff_forall_not_mem.2 fun _ ha =>
    absurd hj (Nat.not_lt_of_le (le_of_claim (mem_claimed.1 ha)))

/-- What one step does to the edges that wait for `j`: those that land are taken, and one may be added
behind them. -/
theorem waiting_step (step : BuildStep) (hj : (step.draw t k).size ≤ j.index) :
    landed t (step.draw t k).pending (step.draw t k).size steps j ++
        claimed t ((standing k).after step) steps j =
      landed t k.pending k.size (step :: steps) j ++
        claimed t (standing k) (step :: steps) j := by
  cases hm : step.makes with
  | some m =>
    have hsize := size_of_some (t := t) (k := k) hm
    have hne : k.next ≠ j := by
      rintro rfl
      rw [hsize] at hj
      exact absurd hj (Nat.not_succ_le_self k.size)
    have hsame : ∀ e : PendingEdge, (landing t e k.size (step :: steps) == some j) =
        (landing t e (k.size + 1) steps == some j && !e.lands t (some m.1)) := by
      intro e
      rw [landing_of_makes hm]
      cases e.lands t (some m.1) with
      | true => simpa [Sketch.next] using hne
      | false => simp
    rw [claimed_of_makes hm]
    congr 1
    rw [landed, landed, hsize, draw_of_makes hm]
    simp only [place, List.filter_filter, hsame]
  | none =>
    have hsame : ∀ e : PendingEdge, landing t e k.size (step :: steps) = landing t e k.size steps :=
      fun e => landing_of_none hm
    rw [size_of_none hm]
    simp only [landed, hsame, claimed, claims, List.filter_append, List.map_append]
    rw [← List.append_assoc]
    congr 1
    cases step with
    | node | conditional | write => cases hm
    | pending scope source =>
      cases source with
      | none => simp [BuildStep.draw, pended, claim]
      | some source =>
        simp only [BuildStep.draw, pended, claim, standing, Option.toList_some, List.map_cons,
          List.map_nil, List.filter_append, List.map_append, List.filter_cons, List.filter_nil]
        split <;> rfl
    | _ => simp [BuildStep.draw, moved, claim]

theorem edge_draw_lt (hk : ∀ a b, k.Edge a b → b.index < k.size) (step : BuildStep) :
    ∀ a b, (step.draw t k).Edge a b → b.index < (step.draw t k).size := by
  intro a b hab
  cases hm : step.makes with
  | none =>
    rw [Sketch.Edge, edges_of_none hm] at hab
    rw [size_of_none hm]
    exact hk a b hab
  | some m =>
    rw [draw_of_makes hm] at hab
    rw [size_of_some hm]
    rcases (edge_place k t _ _ a b).1 hab with hab | ⟨-, rfl⟩
    · exact Nat.lt_succ_of_lt (hk a b hab)
    · exact Nat.lt_succ_self k.size

/-- The edges that land on the instruction of a step when it is made. -/
theorem landed_of_makes {step : BuildStep} {m : NodeId × InstructionKind} (h : step.makes = some m) :
    landed t k.pending k.size (step :: steps) k.next =
      (k.pending.filter fun e => e.lands t (some m.1)).map (·.source) := by
  have hland : ∀ e : PendingEdge, (landing t e k.size (step :: steps) == some k.next) =
      e.lands t (some m.1) := by
    intro e
    rw [landing_of_makes h]
    cases e.lands t (some m.1) with
    | true => simp [Sketch.next]
    | false =>
      have hlater : landing t e (k.size + 1) steps ≠ some k.next := fun heq =>
        absurd (le_of_landing heq) (Nat.not_succ_le_self k.size)
      simpa using hlater
  rw [landed]
  simp only [hland]

/-- The instruction of the first step follows where control stands and what lands on it. -/
theorem into_whole_next (hk : ∀ a b, k.Edge a b → b.index < k.size) {step : BuildStep}
    (h : step.makes.isSome = true) :
    into (whole t (step :: steps) k) k.next = k.cursor.toList ++
      (landed t k.pending k.size (step :: steps) k.next ++ claimed t (standing k) (step :: steps) k.next) := by
  obtain ⟨m, hm⟩ := Option.isSome_iff_exists.1 h
  have hlt : k.next.index < (step.draw t k).size := by
    rw [size_of_some hm]
    exact Nat.lt_succ_self k.size
  have hnone : into k k.next = [] := into_nil fun a ha => absurd (hk a _ ha) (Nat.lt_irrefl _)
  have hclaims : claimed t (standing k) (step :: steps) k.next = [] := by
    rw [claimed_of_makes hm, ← standing_draw t]
    exact claimed_nil _ hlt
  have hwhole : into (whole t (step :: steps) k) k.next = into (step.draw t k) k.next :=
    into_whole_old hlt
  rw [hwhole, draw_of_makes hm, into_place, if_pos rfl, hnone, hclaims, List.append_nil,
    landed_of_makes hm]
  rfl

/-- The instruction made after the steps `before` follows where control stood then, the edges that were
pending at the start and land on it, and those that the steps leave pending and that land on it. -/
theorem into_whole (hk : ∀ a b, k.Edge a b → b.index < k.size) (h : Makes steps before)
    (hj : ((standing k).afterAll before).next = j) :
    into (whole t steps k) j = ((standing k).afterAll before).cursor.toList ++
      (landed t k.pending k.size steps j ++ claimed t (standing k) steps j) := by
  induction steps generalizing k before with
  | nil =>
    obtain rfl := makes_nil.1 h
    obtain rfl : k.next = j := hj
    have hnone : into k k.next = [] := into_nil fun a ha => absurd (hk a _ ha) (Nat.lt_irrefl _)
    have hland : landed t k.pending k.size [] k.next = k.pending.map (·.source) :=
      congrArg (List.map _) (List.filter_eq_self.2 fun e _ => by simp [landing_nil, Sketch.next])
    have harrive : k.arrivals t none = k.cursor.toList ++ k.pending.map (·.source) :=
      congrArg (k.cursor.toList ++ List.map _ ·) (List.filter_eq_self.2 fun _ _ => rfl)
    rw [whole, drawAll, List.foldl_nil, into_place, if_pos rfl, hnone, hland, harrive, claimed,
      claims, List.filter_nil, List.map_nil, List.append_nil, List.nil_append]
    rfl
  | cons step steps ih =>
    rcases (makes_cons step steps).1 h with ⟨rfl, hm⟩ | ⟨before, rfl, hrest⟩
    · obtain rfl : k.next = j := hj
      exact into_whole_next hk hm
    · have hafter := standing_draw t step k
      have hle : (step.draw t k).size ≤ j.index := by
        have hmade := made_le_after_all (standing (step.draw t k)) before
        rw [hafter] at hmade
        have hsize : (step.draw t k).size = ((standing k).after step).made := by rw [← hafter]; rfl
        rw [← hj, hsize]
        exact hmade
      have hinto := ih (k := step.draw t k) (edge_draw_lt hk step) hrest (by rw [hafter]; exact hj)
      rw [hafter, waiting_step step hle] at hinto
      exact hinto

end into

section whole
variable {t : SyntaxTree} {steps : List BuildStep} {k : Sketch}

def labels (steps : List BuildStep) : List (Option NodeId × InstructionKind) :=
  (steps.filterMap BuildStep.makes).map fun m => (some m.1, m.2)

theorem made_draw_all : (drawAll t steps k).made = k.made ++ labels steps := by
  induction steps generalizing k with
  | nil => exact (List.append_nil k.made).symm
  | cons step steps ih =>
    refine (ih (k := step.draw t k)).trans ?_
    cases hm : step.makes with
    | some m =>
      rw [draw_of_makes hm, labels, labels, List.filterMap_cons_some hm, List.map_cons]
      exact List.append_assoc _ _ _
    | none =>
      have hmade : (step.draw t k).made = k.made := by
        cases step with
        | node | conditional | write => cases hm
        | _ => rfl
      rw [hmade, labels, labels, List.filterMap_cons_none hm]

def opened (truncated : List NodeId) : Sketch := ⟨[(none, .plain)], [], [], some ⟨0⟩, truncated⟩

theorem standing_opened (truncated : List NodeId) : standing (opened truncated) = .initial := rfl

theorem into_opened {before : List BuildStep} {j : InstructionId} (truncated : List NodeId)
    (h : Makes steps before) (hj : (Standing.initial.afterAll before).next = j) :
    into (whole t steps (opened truncated)) j =
      (Standing.initial.afterAll before).cursor.toList ++ claimed t .initial steps j :=
  into_whole (fun _ _ hab => (List.not_mem_nil hab).elim) h hj

theorem into_entry (truncated : List NodeId) : into (whole t steps (opened truncated)) ⟨0⟩ = [] :=
  into_whole_old Nat.zero_lt_one

theorem size_whole (truncated : List NodeId) :
    (whole t steps (opened truncated)).size = (Standing.initial.afterAll steps).made + 1 := by
  have hdrawn := congrArg Standing.made (standing_draw_all t steps (opened truncated))
  rw [whole, size_place]
  exact congrArg (· + 1) hdrawn

theorem after_pending (p : Standing) (before after : List BuildStep) (scope : Option NodeId)
    (source : Option InstructionId) :
    p.afterAll (before ++ .pending scope source :: after) = (p.afterAll before).afterAll after :=
  List.foldl_append

/-- An edge leads on from where control stood, or from where it was left pending. -/
theorem edge_whole (truncated : List NodeId)
    (hin : (whole t steps (opened truncated)).InRange t) (a b : InstructionId) :
    (whole t steps (opened truncated)).Edge a b ↔
      (∃ before, Makes steps before ∧ (Standing.initial.afterAll before).next = b ∧
        (Standing.initial.afterAll before).cursor = some a) ∨
      ∃ before scope after, steps = before ++ .pending scope (some a) :: after ∧
        landing t ⟨scope, a⟩ (Standing.initial.afterAll before).made after = some b := by
  rw [← mem_claims]
  constructor
  · intro hab
    have hmem := mem_into.2 hab
    have hlo : 1 ≤ b.index := by
      by_contra hlt
      obtain rfl : b = ⟨0⟩ := congrArg InstructionId.mk (Nat.lt_one_iff.1 (Nat.lt_of_not_le hlt))
      rw [into_entry] at hmem
      exact List.not_mem_nil hmem
    have hhi := (hin.edge a b hab).2
    rw [size_whole] at hhi
    obtain ⟨before, hb, hnext⟩ := exists_makes (p := .initial) hlo (Nat.le_of_lt_succ hhi)
    rw [into_opened truncated hb hnext, List.mem_append, Option.mem_toList] at hmem
    exact hmem.imp (fun hc => ⟨before, hb, hnext, hc⟩) mem_claimed.1
  · intro h
    have hb : ∃ before, Makes steps before ∧ (Standing.initial.afterAll before).next = b ∧
        ((Standing.initial.afterAll before).cursor = some a ∨
          (a, some b) ∈ claims t .initial steps) := by
      rcases h with ⟨before, hb, hnext, hc⟩ | hclaim
      · exact ⟨before, hb, hnext, .inl hc⟩
      · obtain ⟨before, scope, after, rfl, hland⟩ := mem_claims.1 hclaim
        have hhi := landing_le hland
        rw [← after_pending] at hhi
        obtain ⟨made, hmade, hnext⟩ := exists_makes (le_of_claim hclaim) hhi
        exact ⟨made, hmade, hnext, .inr hclaim⟩
    obtain ⟨before, hb, hnext, ha⟩ := hb
    rw [← mem_into, into_opened truncated hb hnext, List.mem_append, Option.mem_toList, mem_claimed]
    exact ha

end whole

/-- The graph that a script must give. An instruction is made by each step that names a node for it and
at the end; it follows where control stood, and the edges that land on it first. Its predecessors are in
the order in which they came. -/
structure Resolves (t : SyntaxTree) (steps : List BuildStep) (f : ControlFlow) : Prop where
  entry : f.entry = ⟨0⟩
  exit : f.exit = (Standing.initial.afterAll steps).next
  labels : f.graph.labels = (none, .plain) :: (labels steps ++ [(none, .plain)])
  edge_iff : ∀ a b, f.graph.Edge a b ↔
    (∃ before, Makes steps before ∧ (Standing.initial.afterAll before).next = b ∧
      (Standing.initial.afterAll before).cursor = some a) ∨
    ∃ before scope after, steps = before ++ .pending scope (some a) :: after ∧
      landing t ⟨scope, a⟩ (Standing.initial.afterAll before).made after = some b
  lands : ∀ before scope a after, steps = before ++ .pending scope (some a) :: after →
    ∃ b, landing t ⟨scope, a⟩ (Standing.initial.afterAll before).made after = some b
  rooted : f.graph.predecessors f.entry = []
  predecessors : ∀ before j, Makes steps before → (Standing.initial.afterAll before).next = j →
    f.graph.predecessors j =
      ((Standing.initial.afterAll before).cursor.toList ++ claimed t .initial steps j).eraseDups

/-- What a script's build comes to, from the state that a build starts in. -/
theorem yields_whole {s : Setting} {steps : List BuildStep} (hv : Valid s.tree .initial steps)
    (st : BuildState) : ∃ st', Draws (whole s.tree steps (opened st.truncated)) st' ∧
      (whole s.tree steps (opened st.truncated)).InRange s.tree ∧
      ∀ owner, (Build.build s.tree (visit s steps) owner).run st =
        (.ok ⟨owner, ⟨0⟩, (Standing.initial.afterAll steps).next, st'.graph⟩, st') := by
  have hnone : ∀ x : NodeId, none = some x → x.index < s.tree.size := fun x hx => by simp at hx
  let k : Sketch := { blank with truncated := st.truncated }
  have hk : k.InRange s.tree := by
    have hblank := in_range_blank s.tree
    exact ⟨hblank.element, hblank.edge, hblank.cursor, hblank.source, hblank.scope⟩
  have hstart : Yields s.tree st.raised (addNode s.tree none .plain) k ⟨0⟩ (opened st.truncated) :=
    yields_add_node hnone
  have hsteps : Yields s.tree st.raised (forEach (fun step => discard (step.perform s)) steps)
      (opened st.truncated) () (drawAll s.tree steps (opened st.truncated)) := yields_steps hv
  have hexit : Yields s.tree st.raised (addNode s.tree none .plain)
      (drawAll s.tree steps (opened st.truncated)) (Standing.initial.afterAll steps).next
      (whole s.tree steps (opened st.truncated)) := by
    have hstanding := standing_draw_all s.tree steps (opened st.truncated)
    have hnext := congrArg Standing.next hstanding
    rw [standing_opened] at hnext
    rw [← hnext]
    exact yields_add_node hnone
  have hdraws : Draws k st.cleared := by
    have hblank := draws_blank false
    exact ⟨hblank.labels, hblank.successors, hblank.predecessors, rfl, rfl, rfl⟩
  obtain ⟨⟨hin1, -⟩, hrun1⟩ := hstart hk
  obtain ⟨⟨hin2, -⟩, hrun2⟩ := hsteps hin1
  obtain ⟨⟨hin3, -⟩, hrun3⟩ := hexit hin2
  obtain ⟨st1, h1, hd1, hr1⟩ := hrun1 st.cleared hdraws rfl
  obtain ⟨st2, h2, hd2, hr2⟩ := hrun2 st1 hd1 hr1
  obtain ⟨st3, h3, hd3, -⟩ := hrun3 st2 hd2 hr2
  refine ⟨st3, hd3, hin3, fun owner => ?_⟩
  have hcleared : (Build.build s.tree (visit s steps) owner).run st =
      (do
        let entry ← addNode s.tree none .plain
        forEach (fun step => discard (step.perform s)) steps
        finish s.tree owner entry : Build ControlFlow).run st.cleared := rfl
  unfold finish at hcleared
  rw [hcleared, run_bind_ok _ h1, run_bind_ok _ h2, run_bind_ok _ h3]
  rfl

/-- Every script of elementary steps comes to its end, whatever was built before it, with the graph that
it must give. -/
theorem build_resolves (s : Setting) (owner : NodeId) (steps : List BuildStep)
    (hv : Valid s.tree .initial steps) (st : BuildState) :
    ∃ f st', (Build.build s.tree (visit s steps) owner).run st = (.ok f, st') ∧ f.owner = owner ∧
      Resolves s.tree steps f := by
  obtain ⟨st', hd, hin, hrun⟩ := yields_whole hv st
  have hinto : ∀ j, st'.graph.predecessors j =
      (into (whole s.tree steps (opened st.truncated)) j).eraseDups := hd.predecessors
  refine ⟨_, st', hrun owner, rfl, rfl, rfl, ?_, fun a b => ?_, fun before scope a after _ => ?_, ?_, ?_⟩
  · rw [hd.labels, whole, place, made_draw_all]
    rfl
  · rw [InstructionGraph.Edge, hd.successors, mem_targets]
    exact edge_whole st.truncated hin a b
  · exact exists_landing
  · rw [hinto, into_entry]
    rfl
  · intro before j h hj
    rw [hinto, into_opened st.truncated h hj]

def scopedTree : SyntaxTree :=
  let root := SyntaxTree.singleton .module .zero
  let loop := (root.push ⟨0⟩ .whileLoop .plain .zero).1
  let asked := (loop.push ⟨1⟩ .ifStatement .plain .zero).1
  let inner := (asked.push ⟨2⟩ .statement .plain .zero).1
  let outer := (inner.push ⟨1⟩ .statement .plain .zero).1
  (outer.push ⟨0⟩ .statement .plain .zero).1

/-- Edges are left pending under both scopes and under none, one of them twice. -/
def scopedScript : List BuildStep :=
  [.node ⟨1⟩, .pending (some ⟨1⟩) (some ⟨1⟩), .node ⟨3⟩, .pending (some ⟨2⟩) (some ⟨2⟩),
    .pending none (some ⟨2⟩), .pending (some ⟨2⟩) (some ⟨2⟩), .abrupt, .node ⟨4⟩,
    .setCursor (some ⟨1⟩), .write ⟨5⟩ "x"]

theorem scoped_script_resolves : ∃ f st', (Build.build scopedTree
      (visit ⟨scopedTree, 0, false⟩ scopedScript) ⟨0⟩).run (BuildState.initial false) = (.ok f, st') ∧
    f.owner = ⟨0⟩ ∧ Resolves scopedTree scopedScript f :=
  build_resolves ⟨scopedTree, 0, false⟩ ⟨0⟩ scopedScript
    (by
      have hsize : scopedTree.size = 6 := by decide
      simp [Valid, scopedScript, hsize, Standing.after, Standing.initial, Standing.next])
    (BuildState.initial false)

example : (List.range 6).map (fun j => claimed scopedTree .initial scopedScript ⟨j⟩) =
    [[], [], [], [⟨2⟩, ⟨2⟩], [⟨1⟩], [⟨2⟩]] := by decide +kernel

end Script
end PythonFlow
