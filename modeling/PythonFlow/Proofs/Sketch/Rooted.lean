import PythonFlow.Proofs.Sketch.Rules

/-!
# Nothing leads to the entry

Whatever the tree is, a rule links to instructions that it has made, or to the header of a loop, and so
never to the entry, which was made for no node and before any rule began. A new instruction is always made
for a node. Both are kept by every step, and by every rule whose visits keep them.
-/

set_option autoImplicit false

namespace PythonFlow.Sketch

/-- The entry stands first and alone has no node, and no edge leads to it. -/
structure Rooted (k : Sketch) : Prop where
  entry : k.element ⟨0⟩ = none
  element : ∀ id : InstructionId, 0 < id.index → id.index < k.size → k.element id ≠ none
  size_pos : 0 < k.size
  edge : ∀ a b, k.Edge a b → 0 < b.index

section steps
variable {t : SyntaxTree} {k : Sketch} (h : k.Rooted)
include h

theorem Rooted.next_pos : 0 < k.next.index := h.size_pos

theorem Rooted.place (n : NodeId) (kind : InstructionKind) : (k.place t (some n) kind).Rooted where
  entry := by
    have hne : (⟨0⟩ : InstructionId) ≠ k.next := fun heq =>
      Nat.ne_of_lt h.size_pos (congrArg InstructionId.index heq)
    rw [element_place, if_neg hne]
    exact h.entry
  element := by
    intro id hpos hlt
    rw [element_place]
    split
    · simp
    · next hne =>
      rw [size_place] at hlt
      have hid : id.index ≠ k.size := fun heq => hne (congrArg InstructionId.mk heq)
      exact h.element id hpos (by omega)
  size_pos := by
    rw [size_place]
    exact Nat.succ_pos _
  edge := by
    intro a b hab
    rcases (edge_place k t (some n) kind a b).1 hab with hab | ⟨-, rfl⟩
    · exact h.edge a b hab
    · exact h.next_pos

theorem Rooted.start (n : NodeId) : (k.start t n).Rooted := h.place n .plain

theorem Rooted.moved (c : Option InstructionId) : (k.moved c).Rooted :=
  ⟨h.entry, h.element, h.size_pos, h.edge⟩

theorem Rooted.pended (n : Option NodeId) (l : List InstructionId) : (k.pended n l).Rooted :=
  ⟨h.entry, h.element, h.size_pos, h.edge⟩

theorem Rooted.drained (n : NodeId) : (k.drained t n).Rooted :=
  ⟨h.entry, h.element, h.size_pos, h.edge⟩

theorem Rooted.rescoped (n : NodeId) (sc : Option NodeId) : (k.rescoped t n sc).Rooted :=
  ⟨h.entry, h.element, h.size_pos, h.edge⟩

theorem Rooted.linked {x : InstructionId} (hx : 0 < x.index) (l : List InstructionId) :
    (k.linked x l).Rooted := by
  refine ⟨h.entry, h.element, h.size_pos, fun a b hab => ?_⟩
  rcases (edge_linked k a b x l).1 hab with hab | ⟨-, rfl⟩
  · exact h.edge a b hab
  · exact hx

theorem Rooted.checked {x : InstructionId} (hx : 0 < x.index) : (k.checked t x).Rooted := by
  refine ⟨h.entry, h.element, h.size_pos, fun a b hab => ?_⟩
  rcases (edge_checked k t a b x).1 hab with hab | ⟨-, rfl⟩
  · exact h.edge a b hab
  · exact hx

theorem Rooted.settled {fate : PendingEdge → Fate}
    (hfate : ∀ e ∈ k.pending, ∀ b ∈ (fate e).targets, 0 < b.index) : (k.settled fate).Rooted := by
  refine ⟨h.entry, h.element, h.size_pos, fun a b hab => ?_⟩
  rcases (edge_settled k a b fate).1 hab with hab | ⟨e, he, -, hb⟩
  · exact h.edge a b hab
  · exact hfate e he b hb

/-- A header was made for its loop, and so is not the entry. -/
theorem Rooted.latest_pos {n : NodeId} {x : InstructionId} (hx : k.latest n = some x) :
    0 < x.index := by
  refine Nat.pos_of_ne_zero fun hzero => ?_
  obtain rfl : x = ⟨0⟩ := congrArg InstructionId.mk hzero
  have hel := (latest_some hx).2
  rw [h.entry] at hel
  cases hel

end steps

section rules
variable {t : SyntaxTree} {V : Visitor} {s : NodeId} {k : Sketch}
  (hV : ∀ n k, Rooted k → Rooted (V n k)) (h : k.Rooted)

include hV h in
theorem Rooted.each (nodes : List NodeId) : (Sketch.each V nodes k).Rooted := by
  induction nodes generalizing k with
  | nil => exact h
  | cons n nodes ih => exact ih (hV n k h)

include h in
theorem Rooted.definition : (Sketch.definition t s k).Rooted := by
  unfold Sketch.definition
  split <;> exact h.place s _

include h in
theorem Rooted.breakJump : (Sketch.breakJump t s k).Rooted := by
  unfold Sketch.breakJump
  split
  · exact ((h.start s).pended _ _).moved none
  · exact h.start s

include h in
theorem Rooted.continueJump : (Sketch.continueJump t s k).Rooted := by
  unfold Sketch.continueJump
  split
  · next header hheader =>
    obtain ⟨l, -, hl⟩ := Option.bind_eq_some_iff.1 hheader
    have hpos := (h.start (t := t) s).latest_pos hl
    exact ((h.start s).linked hpos _).moved none
  · exact h.start s

include h in
theorem Rooted.joined (n : NodeId) : (Sketch.joined t n k).Rooted := by
  unfold Sketch.joined
  split
  · exact h.drained n
  · exact ((h.drained n).start n).linked h.next_pos _

include h in
theorem Rooted.partEntry (first : Bool) (head : Option InstructionId) (last : Option NodeId)
    (p : NodeId) : (Sketch.partEntry t first head last p k).Rooted := by
  unfold Sketch.partEntry
  split
  · exact h
  · exact (h.moved head).place p _

include h in
theorem Rooted.skipped (head : Option InstructionId) : (Sketch.skipped t s head k).Rooted := by
  unfold Sketch.skipped
  split
  · exact h.pended _ _
  · exact h

include h in
theorem Rooted.closeRound {first : InstructionId} (hfirst : 0 < first.index)
    (exits : List InstructionId) : (Sketch.closeRound t s first exits k).1.Rooted := by
  unfold Sketch.closeRound
  split
  · exact h.linked hfirst exits
  · exact (h.linked hfirst exits).pended _ _

include hV h

theorem Rooted.sequence (nodes : List NodeId) : (Sketch.sequence t V s nodes k).Rooted :=
  (h.start s).each hV nodes

theorem Rooted.binding : (Sketch.binding t V s k).Rooted := by
  unfold Sketch.binding
  split
  · exact h.place s _
  · exact h.each hV _

theorem Rooted.leaving : (Sketch.leaving t V s k).Rooted :=
  (((h.sequence hV _).rescoped s none).pended none _).moved none

theorem Rooted.conditioned (o : Option NodeId) : (Sketch.conditioned t V o k).Rooted := by
  cases o with
  | none => exact h
  | some n => exact (hV n k h).joined n

theorem Rooted.ifParts (first : Bool) (head : Option InstructionId) (last : Option NodeId)
    (ps : List NodeId) : (Sketch.ifParts t V s first head last ps k).1.Rooted := by
  induction ps generalizing k first head last with
  | nil => exact h
  | cons p ps ih =>
    have hasked := (h.partEntry (t := t) first head last p).conditioned (t := t) hV (t.condition p)
    have hbody := ((hasked.place (t := t) ((t.body p).getD p) (.conditional (t.condition p) true)).each hV
      (t.body p).toList)
    exact ih ((hbody.rescoped (t := t) p (some s)).pended (some s) _) _ _ _

theorem Rooted.conditional : (Sketch.conditional t V s k).Rooted := by
  have hparts := (h.start (t := t) s).ifParts (t := t) (s := s) hV true (some k.next) none (t.ifParts s)
  unfold Sketch.conditional ifElse
  dsimp only
  split
  · exact ((hV _ _ ((hparts.moved _).place _ _)).pended _ _).moved none
  · exact ((hparts.moved _).pended _ _).moved none

theorem Rooted.whileLoop : (Sketch.whileLoop t V s k).Rooted := by
  have hasked : (whileAsked t V s k).Rooted := (h.start s).conditioned hV (t.condition s)
  have hrounds : (whileRounds t V s k).Rooted := by
    unfold whileRounds whileBody
    split
    · exact ((hV _ _ ((hasked.skipped _).place _ _)).drained _).linked h.next_pos _
    · exact hasked.skipped _
  have hexit : (whileExit t V s k).Rooted := by
    unfold whileExit whileElse
    split
    · exact ((hV _ _ ((hrounds.moved _).place _ _)).drained _).pended _ _
    · exact hrounds
  exact (hexit.moved none).checked h.next_pos

theorem Rooted.forLoop : (Sketch.forLoop t V s k).Rooted := by
  have hasked : (forAsked t V s k).Rooted := (h.start s).each hV (t.iterable s).toList
  have hrounds : (forRounds t V s k).1.Rooted := by
    have hskipped := hasked.skipped (t := t) (s := s) (forAsked t V s k).cursor
    unfold forRounds forBody
    split
    · exact ((hV _ _ ((hskipped.start _).each hV _)).drained _).closeRound hskipped.next_pos _
    · exact hskipped
  have hexit : (forExit t V s k).Rooted := by
    have hmoved := hrounds.moved (forAsked t V s k).cursor
    unfold forExit forElse
    split
    · exact ((hV _ _ ((hmoved.start _).linked hmoved.next_pos _)).drained _).pended _ _
    · exact hmoved
  exact hexit.moved none

theorem Rooted.handlers (entry : InstructionId) (exits : List InstructionId) (ps : List NodeId) :
    (Sketch.handlers t V s entry exits ps k).1.Rooted ∧
      ∀ x ∈ (Sketch.handlers t V s entry exits ps k).2, 0 < x.index := by
  induction ps generalizing k with
  | nil => exact ⟨h, by simp [Sketch.handlers]⟩
  | cons p ps ih =>
    have hentered := ((((h.moved none).start (t := t) p).linked h.next_pos [entry]).linked h.next_pos exits)
    obtain ⟨hrest, hpos⟩ := ih (k := handler t V s entry exits p k)
      (((hV p _ hentered).drained (t := t) p).pended (some s) _)
    refine ⟨hrest, fun x hx => ?_⟩
    rcases List.mem_cons.1 hx with rfl | hx
    · exact h.next_pos
    · exact hpos x hx

theorem Rooted.tryStatement : (Sketch.tryStatement t V s k).Rooted := by
  have htried : (tryTried t V s k).1.Rooted := by
    unfold tryTried tryBody
    split
    · exact (hV _ _ ((h.start s).start _)).drained _
    · exact h.start s
  have hothers : (tryOthers t V s k).Rooted := by
    have hmoved := htried.moved none
    unfold tryOthers tryElse
    split
    · exact ((hV _ _ ((hmoved.start _).linked hmoved.next_pos _)).drained _).pended _ _
    · exact htried.pended _ _
  obtain ⟨hcaught, hhandlers⟩ := hothers.handlers (t := t) (s := s) hV (tryTried t V s k).2.1
    (tryTried t V s k).2.2 (t.exceptParts s)
  have hlast : (tryLast t V s k).1.Rooted ∧
      ∀ f, (tryLast t V s k).2 = some f → 0 < f.entry.index := by
    unfold tryLast finallyClause
    split
    · refine ⟨((hV _ _ ((hcaught.moved none).start _)).drained _).pended _ _, fun f hf => ?_⟩
      rw [← Option.some.inj hf]
      exact hcaught.next_pos
    · exact ⟨hcaught, fun f hf => by cases hf⟩
  refine (hlast.1.settled fun e _ b hb => ?_).moved none
  rcases settle_cases t s (tryCaught t V s k).2 (tryLast t V s k).2 (tryLast t V s k).1 e with
    heq | ⟨-, heq, -⟩ | ⟨f, hf, heq⟩
  · rw [heq] at hb
    cases hb
  · rw [heq] at hb
    exact hhandlers b hb
  · rw [heq] at hb
    rw [List.mem_singleton.1 hb]
    exact hlast.2 f hf

theorem Rooted.filterClause (clause : NodeId) : (Sketch.filterClause t V s clause k).Rooted := by
  unfold Sketch.filterClause
  split
  · exact ((((((hV _ _ h).place _ _).moved _).place _ _).pended _ _).moved _)
  · exact h

theorem Rooted.comprehension : (Sketch.comprehension t V s k).Rooted := by
  have hfiltered := (h.start (t := t) s).each (V := Sketch.filterClause t V s)
    (fun n _ hn => hn.filterClause hV n) (t.comprehensionIfs s)
  have hbound := hfiltered.each (V := Sketch.forClause t V)
    (fun _ _ hn => (hn.each hV _).each hV _) (t.comprehensionFors s)
  exact hbound.each hV _

theorem Rooted.dispatch : (Sketch.dispatch t V s k).Rooted := by
  unfold Sketch.dispatch
  cases t.kind s with
  | functionDef | classDef => exact h.definition
  | lambda => exact h
  | statement | importStatement | assignment => exact h.sequence hV _
  | target | parameter | importBinding => exact h.binding hV
  | ifStatement => exact h.conditional hV
  | whileLoop => exact h.whileLoop hV
  | forLoop => exact h.forLoop hV
  | breakJump => exact h.breakJump
  | continueJump => exact h.continueJump
  | returnExit | raiseExit => exact h.leaving hV
  | tryStatement => exact h.tryStatement hV
  | comprehension => exact h.comprehension hV
  | module | parameters | block | ifPart | elifPart | elsePart | tryPart | exceptPart
  | finallyPart | comprehensionFor | comprehensionIf | expression => exact h.each hV _

end rules

variable {t : SyntaxTree} {k : Sketch}

theorem Rooted.visit (h : k.Rooted) (depth : Nat) (n : NodeId) :
    (Sketch.visit t depth n k).Rooted := by
  induction depth generalizing n k with
  | zero =>
    have hcut : Rooted { k with truncated := n :: k.truncated } := ⟨h.entry, h.element, h.size_pos, h.edge⟩
    exact hcut.start n
  | succ depth ih => exact h.dispatch fun m _ hm => ih hm m

theorem rooted_interior (t : SyntaxTree) (depth : Nat) (owner : NodeId) :
    (interior t depth owner).Rooted := by
  have hopening : (blank.place t none .plain).Rooted := by
    refine ⟨rfl, fun id hpos hlt => ?_, Nat.one_pos, fun a b hab => ?_⟩
    · rw [size_place] at hlt
      exact absurd hlt (by simp only [blank, size, List.length_nil]; omega)
    · simp [Edge, place, blank, arrivals] at hab
  unfold interior visitOwner
  split
  · exact hopening.each (fun n _ hn => hn.visit depth n) _
  · exact hopening.visit depth owner

end PythonFlow.Sketch
