import PythonFlow.Proofs.Locality.Renaming

/-!
# The rules under a renaming

A rule asks the tree about its node, the node's parts and the loop around it. All of these belong to the
part of the owner, so the answers in the other tree are the images, and the rule runs through images of
the same steps. From visits that carry twins to twins come rules that do, and from the rules the visits
one level up.
-/

set_option autoImplicit false

namespace PythonFlow

namespace SyntaxTree.Paired
variable {t t' : SyntaxTree} {owner owner' : NodeId} {φ : NodeId → NodeId}
  (h : t.Paired t' owner owner' φ) {s : NodeId} (hs : t.Own owner s)
include h hs

/-- The loop of a jump belongs to the part as the jump does. -/
theorem loop_part {l : NodeId} (hl : t.enclosingLoop s = some l) :
    t.Own owner l := by
  have habove := h.ordered.enclosing_loop_above hl
  have hnot := h.ordered.not_inside_enclosing_loop h.isOwner hs.1 hl
  have hne : l ≠ owner := by
    rintro rfl
    have hloop := habove.2.1
    have howner := h.isOwner
    cases hk : t.kind l <;> simp_all [SyntaxKind.isLoop, SyntaxKind.isOwner]
  refine hs.above h.ordered habove.1.1 ⟨?_, hne⟩
  exact (h.ordered.below_total habove.1.1 hs.1.1).resolve_right fun hb => hnot ⟨hb, hne.symm⟩

theorem loop_eq : t'.enclosingLoop (φ s) = (t.enclosingLoop s).map φ :=
  h.alike.enclosing_loop h.ordered h.ordered' h.isOwner h.isOwner' hs

theorem through {f : Visit.Finally} {e : PendingEdge}
    (he : ∀ n, e.scope = some n → t.Own owner n) :
    Sketch.through t' (φ s) (f.renamed φ) (e.renamed φ) = (Sketch.through t s f e).renamed φ := by
  unfold Sketch.through
  rw [h.within he hs]
  cases e.within t s with
  | true => rfl
  | false => simp [Sketch.Fate.renamed, PendingEdge.renamed, Visit.Finally.renamed]

variable (hopen : (t.kind s).isSealed = false)
include hopen

theorem child {c : NodeId} (hc : c ∈ t.children s) : t.Own owner c :=
  hs.child h.ordered hopen hc

theorem child_with_role (r : Role) : t'.childWithRole (φ s) r = (t.childWithRole s r).map φ :=
  h.alike.child_with_role h.ordered hs hopen r

theorem first_child_of_kind (k : SyntaxKind) :
    t'.firstChildOfKind (φ s) k = (t.firstChildOfKind s k).map φ :=
  h.alike.first_child_of_kind h.ordered hs hopen k

theorem part_with_role {r : Role} {c : NodeId} (hc : t.childWithRole s r = some c) :
    t.Own owner c :=
  h.child hs hopen (mem_of_child_with_role hc).1

theorem part_of_kind {k : SyntaxKind} {c : NodeId} (hc : t.firstChildOfKind s k = some c) :
    t.Own owner c :=
  h.child hs hopen (mem_of_first_child hc).1

end SyntaxTree.Paired

namespace Sketch.Mirrors
variable {t t' : SyntaxTree} {owner owner' : NodeId} {φ : NodeId → NodeId}
  (h : t.Paired t' owner owner' φ) {V V' : Visitor} {k k' : Sketch} {s : NodeId}
include h

/-- The latest instruction for a node is the latest for its image. -/
theorem latest (m : Twins t owner φ k k') {el : NodeId}
    (hel : t.Own owner el) : k'.latest (φ el) = k.latest el := by
  have hsize : k'.size = k.size := by rw [m.eq, size_renamed]
  have hbelow : ∀ n, k'.latestBelow (φ el) n = k.latestBelow el n := by
    intro n
    induction n with
    | zero => rfl
    | succ n ih =>
      have hiff : k'.element ⟨n⟩ = some (φ el) ↔ k.element ⟨n⟩ = some el := by
        rw [m.element, Option.map_eq_some_iff]
        constructor
        · rintro ⟨x, hx, heq⟩
          rw [hx, (h.injective (m.names.element _ _ hx) hel).1 heq]
        · exact fun hx => ⟨el, hx, rfl⟩
      simp only [latestBelow, hiff, ih]
  rw [Sketch.latest, hsize, hbelow, Sketch.latest]

omit h in
theorem each {l : List NodeId}
    (hV : ∀ n ∈ l, ∀ k k', Twins t owner φ k k' → Twins t owner φ (V n k) (V' (φ n) k'))
    (m : Twins t owner φ k k') : Twins t owner φ (Sketch.each V l k) (Sketch.each V' (l.map φ) k') := by
  induction l generalizing k k' with
  | nil => exact m
  | cons n l ih =>
    exact ih (fun x hx => hV x (by simp [hx])) (hV n (by simp) _ _ m)

section plain
variable (m : Twins t owner φ k k') (hs : t.Own owner s)
include m hs

theorem definition : Twins t owner φ (Sketch.definition t s k) (Sketch.definition t' (φ s) k') := by
  unfold Sketch.definition
  rw [h.alike.name s hs]
  cases t.name s with
  | none => exact m.start h hs
  | some name => exact m.place_some h hs (.write name)

theorem breakJump : Twins t owner φ (Sketch.breakJump t s k) (Sketch.breakJump t' (φ s) k') := by
  have hstart := m.start h hs
  unfold Sketch.breakJump
  rw [h.loop_eq hs, m.next]
  cases hl : t.enclosingLoop s with
  | none => exact hstart
  | some l => exact (hstart.pended_some (h.loop_part hs hl) _).moved none

theorem continueJump :
    Twins t owner φ (Sketch.continueJump t s k) (Sketch.continueJump t' (φ s) k') := by
  have hstart := m.start h hs
  unfold Sketch.continueJump
  rw [h.loop_eq hs, m.next]
  cases hl : t.enclosingLoop s with
  | none => exact hstart
  | some l =>
    simp only [Option.map_some, Option.bind_some, hstart.latest h (h.loop_part hs hl)]
    cases (k.start t s).latest l with
    | none => exact hstart
    | some header => exact (hstart.linked header _).moved none

theorem joined : Twins t owner φ (Sketch.joined t s k) (Sketch.joined t' (φ s) k') := by
  have hdrained := m.drained h hs
  unfold Sketch.joined
  rw [m.inner h hs]
  cases k.inner t s with
  | nil => exact hdrained
  | cons e inner =>
    have hlinked := (hdrained.start h hs).linked k.next ((e :: inner).map (·.source))
    have hsources : ((e :: inner).map (·.renamed φ)).map (·.source) = (e :: inner).map (·.source) := by
      rw [List.map_map]
      rfl
    rw [m.next]
    show Twins t owner φ _ (((k'.drained t' (φ s)).start t' (φ s)).linked k.next
      (((e :: inner).map (·.renamed φ)).map (·.source)))
    rw [hsources]
    exact hlinked

theorem partEntry (first : Bool) (head : Option InstructionId) {last : Option NodeId} :
    Twins t owner φ (Sketch.partEntry t first head last s k)
      (Sketch.partEntry t' first head (last.map φ) (φ s) k') := by
  unfold Sketch.partEntry
  cases first with
  | true => exact m
  | false =>
    exact (m.moved head).place_some h hs (.conditional last false)

theorem partLeft {part : NodeId} (hpart : t.Own owner part) :
    Twins t owner φ (Sketch.partLeft t s part k) (Sketch.partLeft t' (φ s) (φ part) k') := by
  have hscope : ∀ x, some s = some x → t.Own owner x :=
    fun _ hx => Option.some.inj hx ▸ hs
  exact (m.rescoped h hpart hscope).pended_cursor hscope

variable (hopen : (t.kind s).isSealed = false)
include hopen

theorem skipped (head : Option InstructionId) :
    Twins t owner φ (Sketch.skipped t s head k) (Sketch.skipped t' (φ s) head k') := by
  unfold Sketch.skipped SyntaxTree.elsePart
  rw [h.first_child_of_kind hs hopen, Option.isNone_map]
  split
  · exact m.pended_some hs _
  · exact m

theorem closeRound {first first' : InstructionId} {exits exits' : List InstructionId}
    (hfirst : first' = first) (hexits : exits' = exits) :
    Twins t owner φ (Sketch.closeRound t s first exits k).1
        (Sketch.closeRound t' (φ s) first' exits' k').1 ∧
      (Sketch.closeRound t' (φ s) first' exits' k').2 = (Sketch.closeRound t s first exits k).2 := by
  subst hfirst hexits
  have hlinked := m.linked first' exits'
  unfold Sketch.closeRound SyntaxTree.elsePart
  rw [h.first_child_of_kind hs hopen, Option.isSome_map]
  split
  · exact ⟨hlinked, rfl⟩
  · exact ⟨hlinked.pended_some hs _, rfl⟩

end plain

section rules
variable (hV : ∀ n, t.Own owner n → ∀ k k', Twins t owner φ k k' →
    Twins t owner φ (V n k) (V' (φ n) k'))
  (m : Twins t owner φ k k')

section visits
include hV m

omit h in
theorem visits {l : List NodeId} (hl : ∀ n ∈ l, t.Own owner n) :
    Twins t owner φ (Sketch.each V l k) (Sketch.each V' (l.map φ) k') :=
  m.each fun n hn => hV n (hl n hn)

omit h in
theorem visits_option {o : Option NodeId}
    (ho : ∀ n, o = some n → t.Own owner n) :
    Twins t owner φ (Sketch.each V o.toList k) (Sketch.each V' (o.map φ).toList k') := by
  cases o with
  | none => exact m
  | some n => exact hV n (ho n rfl) _ _ m

theorem conditioned {o : Option NodeId}
    (ho : ∀ n, o = some n → t.Own owner n) :
    Twins t owner φ (Sketch.conditioned t V o k) (Sketch.conditioned t' V' (o.map φ) k') := by
  cases o with
  | none => exact m
  | some n => exact (hV n (ho n rfl) _ _ m).joined h (ho n rfl)

end visits

variable (hs : t.Own owner s) (hopen : (t.kind s).isSealed = false)
include hV m hs hopen

theorem visits_children :
    Twins t owner φ (Sketch.each V (t.children s) k) (Sketch.each V' (t'.children (φ s)) k') := by
  rw [h.alike.children s hs hopen]
  exact m.visits hV fun c hc => h.child hs hopen hc

theorem sequence :
    Twins t owner φ (Sketch.sequence t V s (t.children s) k)
      (Sketch.sequence t' V' (φ s) (t'.children (φ s)) k') :=
  (m.start h hs).visits_children h hV hs hopen

theorem assigned :
    Twins t owner φ (Sketch.sequence t V s ((t.assignedValue s).toList ++ t.targets s) k)
      (Sketch.sequence t' V' (φ s) ((t'.assignedValue (φ s)).toList ++ t'.targets (φ s)) k') := by
  have hvalue : t'.assignedValue (φ s) = (t.assignedValue s).map φ := h.child_with_role hs hopen .value
  have htargets : t'.targets (φ s) = (t.targets s).map φ :=
    h.alike.children_with_role h.ordered hs hopen .target
  have hvalued := (m.start h hs).visits_option (o := t.assignedValue s) hV
    fun n hn => h.part_with_role hs hopen hn
  have hbound := hvalued.visits (l := t.targets s) hV
    fun n hn => h.child hs hopen (SyntaxTree.mem_targets.1 hn).1
  unfold Sketch.sequence
  rw [hvalue, htargets, each_append, each_append]
  exact hbound

theorem binding : Twins t owner φ (Sketch.binding t V s k) (Sketch.binding t' V' (φ s) k') := by
  unfold Sketch.binding
  rw [h.alike.name s hs]
  cases t.name s with
  | none => exact m.visits_children h hV hs hopen
  | some name => exact m.place_some h hs (.write name)

theorem leaving : Twins t owner φ (Sketch.leaving t V s k) (Sketch.leaving t' V' (φ s) k') := by
  have hdone := m.sequence h hV hs hopen
  have hnone : ∀ x : NodeId, none = some x → t.Own owner x :=
    fun x hx => by cases hx
  exact ((hdone.rescoped h hs hnone).pended_cursor hnone).moved none

omit hs hopen in
/-- The condition and the body of a part, and the flow out of it. -/
theorem partDone (hs : t.Own owner s) {part : NodeId}
    (hpart : t.Own owner part) (hopen : (t.kind part).isSealed = false) :
    Twins t owner φ (Sketch.partDone t V s part k) (Sketch.partDone t' V' (φ s) (φ part) k') := by
  have hcondition : t'.condition (φ part) = (t.condition part).map φ :=
    h.child_with_role hpart hopen .condition
  have hbody : t'.body (φ part) = (t.body part).map φ := h.child_with_role hpart hopen .body
  have hinside : ∀ n, t.body part = some n → t.Own owner n :=
    fun n hn => h.part_with_role hpart hopen hn
  have hfirst : t.Own owner ((t.body part).getD part) := by
    cases hb : t.body part with
    | none => exact hpart
    | some n => exact hinside n hb
  have hentered := m.place_some h hfirst
    (.conditional (t.condition part) true)
  have himage : φ ((t.body part).getD part) = (t'.body (φ part)).getD (φ part) := by
    rw [hbody]
    cases t.body part <;> rfl
  have hran := hentered.visits_option hV hinside
  unfold Sketch.partDone Sketch.partBody
  rw [← himage, hbody, hcondition]
  exact hran.partLeft h hs hpart

omit hs hopen in
theorem ifParts (hs : t.Own owner s) (first : Bool)
    (head : Option InstructionId) (last : Option NodeId) (ps : List NodeId)
    (hps : ∀ p ∈ ps, t.Own owner p ∧ (t.kind p).isSealed = false) :
    Twins t owner φ (Sketch.ifParts t V s first head last ps k).1
        (Sketch.ifParts t' V' (φ s) first head (last.map φ) (ps.map φ) k').1 ∧
      (Sketch.ifParts t' V' (φ s) first head (last.map φ) (ps.map φ) k').2 =
        ((Sketch.ifParts t V s first head last ps k).2.1,
          (Sketch.ifParts t V s first head last ps k).2.2.map φ) := by
  induction ps generalizing k k' first head last with
  | nil => exact ⟨m, rfl⟩
  | cons p ps ih =>
    obtain ⟨hpart, hopen⟩ := hps p (by simp)
    have hcondition : t'.condition (φ p) = (t.condition p).map φ :=
      h.child_with_role hpart hopen .condition
    have hasked : Twins t owner φ (Sketch.asked t V first head last p k)
        (Sketch.asked t' V' first head (last.map φ) (φ p) k') := by
      unfold Sketch.asked
      rw [hcondition]
      exact (m.partEntry h hpart first head).conditioned h hV
        fun n hn => h.part_with_role hpart hopen hn
    have hrest := ih (hasked.partDone h hV hs hpart hopen) false
      (Sketch.asked t V first head last p k).cursor (t.condition p) fun q hq => hps q (by simp [hq])
    rw [List.map_cons, Sketch.ifParts, Sketch.ifParts]
    rw [hcondition, hasked.cursor]
    exact hrest

theorem conditional :
    Twins t owner φ (Sketch.conditional t V s k) (Sketch.conditional t' V' (φ s) k') := by
  have hifs : t'.ifParts (φ s) = (t.ifParts s).map φ := h.alike.if_parts h.ordered hs hopen
  have helse : t'.elsePart (φ s) = (t.elsePart s).map φ := h.first_child_of_kind hs hopen .elsePart
  have hscope : ∀ x, some s = some x → t.Own owner x :=
    fun _ hx => Option.some.inj hx ▸ hs
  obtain ⟨hparts, hlast⟩ := (m.start h hs).ifParts h hV hs true (some k.next) none (t.ifParts s)
    fun p hp => by
      obtain ⟨hmem, hkind⟩ := SyntaxTree.mem_if_parts.1 hp
      refine ⟨h.child hs hopen hmem, ?_⟩
      rcases hkind with hk | hk <;> rw [hk] <;> rfl
  rw [Option.map_none] at hparts hlast
  unfold Sketch.conditional Sketch.ifElse
  rw [hifs, helse, m.next]
  dsimp only
  rw [hlast]
  have hmoved := hparts.moved (Sketch.ifParts t V s true (some k.next) none (t.ifParts s) (k.start t s)).2.1
  cases hp : t.elsePart s with
  | none => exact (hmoved.pended_some hs _).moved none
  | some part =>
    have hpart := h.part_of_kind hs hopen hp
    have hdone := hV part hpart _ _ (hmoved.place_some h hpart
      (.conditional (Sketch.ifParts t V s true (some k.next) none (t.ifParts s) (k.start t s)).2.2 false))
    exact (hdone.pended_cursor hscope).moved none

theorem whileLoop : Twins t owner φ (Sketch.whileLoop t V s k) (Sketch.whileLoop t' V' (φ s) k') := by
  have hcondition : t'.condition (φ s) = (t.condition s).map φ := h.child_with_role hs hopen .condition
  have hbody : t'.body (φ s) = (t.body s).map φ := h.child_with_role hs hopen .body
  have helse : t'.elsePart (φ s) = (t.elsePart s).map φ := h.first_child_of_kind hs hopen .elsePart
  have hasked : Twins t owner φ (whileAsked t V s k) (whileAsked t' V' (φ s) k') := by
    unfold whileAsked
    rw [hcondition]
    exact (m.start h hs).conditioned h hV fun n hn => h.part_with_role hs hopen hn
  have hskipped := hasked.skipped h hs hopen (whileAsked t V s k).cursor
  have hrounds : Twins t owner φ (whileRounds t V s k) (whileRounds t' V' (φ s) k') := by
    unfold whileRounds whileBody
    rw [hbody, hcondition, hasked.cursor, m.next]
    cases hb : t.body s with
    | none => exact hskipped
    | some body =>
      have hpart := h.part_with_role hs hopen hb
      have hdone := hV body hpart _ _ (hskipped.place_some h hpart
        (.conditional (t.condition s) true))
      exact hdone.linked_exits h hpart k.next
  have hexit : Twins t owner φ (whileExit t V s k) (whileExit t' V' (φ s) k') := by
    unfold whileExit whileElse
    rw [helse, hcondition, hasked.cursor]
    cases hp : t.elsePart s with
    | none => exact hrounds
    | some part =>
      have hpart := h.part_of_kind hs hopen hp
      have hentered := (hrounds.moved (whileAsked t V s k).cursor).place_some h hpart
        (.conditional (t.condition s) false)
      have hdone := hV part hpart _ _ hentered
      exact hdone.pended_exits h hpart hs
  unfold Sketch.whileLoop
  rw [m.next]
  exact (hexit.moved none).checked h k.next

theorem forLoop : Twins t owner φ (Sketch.forLoop t V s k) (Sketch.forLoop t' V' (φ s) k') := by
  have hiterable : t'.iterable (φ s) = (t.iterable s).map φ := h.child_with_role hs hopen .iterable
  have htargets : t'.targets (φ s) = (t.targets s).map φ :=
    h.alike.children_with_role h.ordered hs hopen .target
  have hbody : t'.body (φ s) = (t.body s).map φ := h.child_with_role hs hopen .body
  have helse : t'.elsePart (φ s) = (t.elsePart s).map φ := h.first_child_of_kind hs hopen .elsePart
  have hasked : Twins t owner φ (forAsked t V s k) (forAsked t' V' (φ s) k') := by
    unfold forAsked
    rw [hiterable]
    exact (m.start h hs).visits_option hV fun n hn => h.part_with_role hs hopen hn
  have hskipped := hasked.skipped h hs hopen (forAsked t V s k).cursor
  have hrounds : Twins t owner φ (forRounds t V s k).1 (forRounds t' V' (φ s) k').1 ∧
      (forRounds t' V' (φ s) k').2 = (forRounds t V s k).2 := by
    unfold forRounds forBody
    rw [hbody, htargets, hasked.cursor]
    cases hb : t.body s with
    | none => exact ⟨hskipped, rfl⟩
    | some body =>
      have hpart := h.part_with_role hs hopen hb
      have hbound := (hskipped.start h hpart).visits (l := t.targets s) hV
        fun n hn => h.child hs hopen (SyntaxTree.mem_targets.1 hn).1
      have hdone := hV body hpart _ _ hbound
      exact (hdone.drained h hpart).closeRound h hs hopen hskipped.next (hdone.exits h hpart)
  have hmoved := hrounds.1.moved (forAsked t V s k).cursor
  have hexit : Twins t owner φ (forExit t V s k) (forExit t' V' (φ s) k') := by
    unfold forExit forElse
    rw [helse, hasked.cursor, hrounds.2]
    cases hp : t.elsePart s with
    | none => exact hmoved
    | some part =>
      have hpart := h.part_of_kind hs hopen hp
      have hdone := hV part hpart _ _ (hmoved.entered h hpart (forRounds t V s k).2)
      exact hdone.pended_exits h hpart hs
  exact hexit.moved none

omit hs hopen in
theorem handler (hs : t.Own owner s) (entry : InstructionId) (exits : List InstructionId)
    {part : NodeId} (hpart : t.Own owner part) :
    Twins t owner φ (Sketch.handler t V s entry exits part k)
      (Sketch.handler t' V' (φ s) entry exits (φ part) k') := by
  have hentered : Twins t owner φ
      ((((k.moved none).start t part).linked k.next [entry]).linked k.next exits)
      ((((k'.moved none).start t' (φ part)).linked k'.next [entry]).linked k'.next exits) := by
    rw [m.next]
    exact (((m.moved none).start h hpart).linked k.next [entry]).linked k.next exits
  exact (hV part hpart _ _ hentered).pended_exits h hpart hs

omit hs hopen in
theorem handlers (hs : t.Own owner s) (entry : InstructionId) (exits : List InstructionId)
    {ps : List NodeId} (hps : ∀ p ∈ ps, t.Own owner p) :
    Twins t owner φ (Sketch.handlers t V s entry exits ps k).1
        (Sketch.handlers t' V' (φ s) entry exits (ps.map φ) k').1 ∧
      (Sketch.handlers t' V' (φ s) entry exits (ps.map φ) k').2 =
        (Sketch.handlers t V s entry exits ps k).2 := by
  induction ps generalizing k k' with
  | nil => exact ⟨m, rfl⟩
  | cons p ps ih =>
    obtain ⟨hrest, hentries⟩ := ih (m.handler h hV hs entry exits (hps p (by simp)))
      fun q hq => hps q (by simp [hq])
    rw [List.map_cons, Sketch.handlers, Sketch.handlers]
    exact ⟨hrest, congrArg₂ List.cons m.next hentries⟩

omit hV hopen in
/-- The fate of a pending edge at the end of a `try` statement. -/
theorem settle (hopen : (t.kind s).isSealed = false) (handlers : List InstructionId)
    {clause : Option Visit.Finally} (hclause : ∀ f, clause = some f → t.Own owner f.part)
    {e : PendingEdge} (he : ∀ n, e.scope = some n → t.Own owner n) :
    Sketch.settle t' (φ s) handlers (clause.map (·.renamed φ)) k' (e.renamed φ) =
      (Sketch.settle t s handlers clause k e).renamed φ := by
  have htry : t'.tryPart (φ s) = (t.tryPart s).map φ := h.first_child_of_kind hs hopen .tryPart
  have hsource : (e.renamed φ).source = e.source := rfl
  unfold Sketch.settle
  rw [hsource, m.element]
  cases hel : k.element e.source with
  | none => rfl
  | some el =>
    have hin := m.names.element _ _ hel
    have hraised : Visit.raisedInBody t' (t'.tryPart (φ s)) (φ el) =
        Visit.raisedInBody t (t.tryPart s) el := by
      rw [htry]
      cases hp : t.tryPart s with
      | none => rfl
      | some part =>
        exact h.alike.raised_in_body h.ordered h.ordered' hin (h.part_of_kind hs hopen hp)
    simp only [Option.map_some, h.below_iff hin hs, hraised]
    split
    · split
      · rfl
      cases clause with
      | none => rfl
      | some f =>
        have hpart := hclause f rfl
        have hscope : (e.renamed φ).scope ≠ some (f.renamed φ).part ↔ e.scope ≠ some f.part := by
          refine not_congr ?_
          show e.scope.map φ = some (φ f.part) ↔ _
          rw [Option.map_eq_some_iff]
          constructor
          · rintro ⟨x, hx, heq⟩
            rw [hx, (h.injective (he x hx) hpart).1 heq]
          · exact fun hx => ⟨f.part, hx, rfl⟩
        have hbelow : t'.Below (φ el) (f.renamed φ).part ↔ t.Below el f.part := h.below_iff hin hpart
        simp only [Option.map_some, hscope, hbelow]
        rw [h.through hs he]
        split <;> rfl
    · rfl

theorem tried : Twins t owner φ (tryTried t V s k).1 (tryTried t' V' (φ s) k').1 ∧
    (tryTried t' V' (φ s) k').2 = (tryTried t V s k).2 := by
  have htry : t'.tryPart (φ s) = (t.tryPart s).map φ := h.first_child_of_kind hs hopen .tryPart
  have hstart := m.start h hs
  unfold tryTried tryBody
  rw [htry, m.next]
  cases hp : t.tryPart s with
  | none => exact ⟨hstart, rfl⟩
  | some part =>
    have hpart := h.part_of_kind hs hopen hp
    have hdone := hV part hpart _ _ (hstart.start h hpart)
    exact ⟨hdone.drained h hpart, congrArg₂ Prod.mk hstart.next (hdone.exits h hpart)⟩

theorem others : Twins t owner φ (tryOthers t V s k) (tryOthers t' V' (φ s) k') := by
  have helse : t'.elsePart (φ s) = (t.elsePart s).map φ := h.first_child_of_kind hs hopen .elsePart
  obtain ⟨htried, hexits⟩ := m.tried h hV hs hopen
  unfold tryOthers tryElse
  rw [helse, hexits]
  cases hp : t.elsePart s with
  | none => exact htried.pended_some hs _
  | some part =>
    have hpart := h.part_of_kind hs hopen hp
    have hdone := hV part hpart _ _ ((htried.moved none).entered h hpart (tryTried t V s k).2.2)
    exact hdone.pended_exits h hpart hs

theorem caught : Twins t owner φ (tryCaught t V s k).1 (tryCaught t' V' (φ s) k').1 ∧
    (tryCaught t' V' (φ s) k').2 = (tryCaught t V s k).2 := by
  have hexcept : t'.exceptParts (φ s) = (t.exceptParts s).map φ :=
    h.alike.children_of_kind h.ordered hs hopen .exceptPart
  unfold tryCaught
  rw [hexcept, (m.tried h hV hs hopen).2]
  exact (m.others h hV hs hopen).handlers h hV hs _ _
    fun p hp => h.child hs hopen (SyntaxTree.mem_except_parts.1 hp).1

theorem last : Twins t owner φ (tryLast t V s k).1 (tryLast t' V' (φ s) k').1 ∧
    (tryLast t' V' (φ s) k').2 = (tryLast t V s k).2.map (·.renamed φ) ∧
    ∀ f, (tryLast t V s k).2 = some f → t.Own owner f.part := by
  have hfinally : t'.finallyPart (φ s) = (t.finallyPart s).map φ :=
    h.first_child_of_kind hs hopen .finallyPart
  obtain ⟨hcaught, -⟩ := m.caught h hV hs hopen
  unfold tryLast finallyClause
  rw [hfinally]
  cases hp : t.finallyPart s with
  | none => exact ⟨hcaught, rfl, fun f hf => by cases hf⟩
  | some part =>
    have hpart := h.part_of_kind hs hopen hp
    have hdone := hV part hpart _ _ ((hcaught.moved none).start h hpart)
    refine ⟨hdone.pended_exits h hpart hpart, ?_, fun f hf => Option.some.inj hf ▸ hpart⟩
    exact congrArg some (congrArg₂ (Visit.Finally.mk (φ part)) hcaught.next (hdone.exits h hpart))

omit h hV hs hopen in
/-- What stays pending after the statement waits at nodes of the owner still. -/
theorem left_scope (handlers : List InstructionId) (clause : Option Visit.Finally) {e e' : PendingEdge}
    (he : e ∈ k.pending) (he' : e' ∈ (Sketch.settle t s handlers clause k e).left) {n : NodeId}
    (hn : e'.scope = some n) : t.Own owner n := by
  rcases settle_cases t s handlers clause k e with heq | ⟨-, heq, -⟩ | ⟨f, -, heq⟩ <;> rw [heq] at he'
  · rw [List.mem_singleton.1 he'] at hn
    exact m.names.scope e he n hn
  · cases he'
  · exact m.names.scope e he n ((mem_through he').2 ▸ hn)

theorem tryStatement :
    Twins t owner φ (Sketch.tryStatement t V s k) (Sketch.tryStatement t' V' (φ s) k') := by
  obtain ⟨-, hhandlers⟩ := m.caught h hV hs hopen
  obtain ⟨hlast, hclause, hpart⟩ := m.last h hV hs hopen
  have hfate : ∀ e ∈ (tryLast t V s k).1.pending,
      Sketch.settle t' (φ s) (tryCaught t' V' (φ s) k').2 (tryLast t' V' (φ s) k').2
          (tryLast t' V' (φ s) k').1 (e.renamed φ) =
        (Sketch.settle t s (tryCaught t V s k).2 (tryLast t V s k).2 (tryLast t V s k).1 e).renamed φ := by
    intro e he
    rw [hhandlers, hclause]
    exact hlast.settle h hs hopen _ hpart (hlast.names.scope e he)
  have hleft : ∀ e ∈ (tryLast t V s k).1.pending,
      ∀ e' ∈ (Sketch.settle t s (tryCaught t V s k).2 (tryLast t V s k).2 (tryLast t V s k).1 e).left,
        ∀ n, e'.scope = some n → t.Own owner n :=
    fun e he e' he' n hn => hlast.left_scope _ _ he he' hn
  exact (hlast.settled hfate hleft).moved none

omit hopen hs in
theorem filterClause (hs : t.Own owner s) {clause : NodeId} (hclause : t.Own owner clause)
    (hopen : (t.kind clause).isSealed = false) :
    Twins t owner φ (Sketch.filterClause t V s clause k)
      (Sketch.filterClause t' V' (φ s) (φ clause) k') := by
  have hcondition : t'.condition (φ clause) = (t.condition clause).map φ :=
    h.child_with_role hclause hopen .condition
  unfold Sketch.filterClause
  rw [hcondition]
  cases hc : t.condition clause with
  | none => exact m
  | some c =>
    have hpart := h.part_with_role hclause hopen hc
    have hasked := hV c hpart _ _ m
    have hkept := hasked.place_some h hpart (.conditional (some c) true)
    have hrefused := (hkept.moved (V c k).cursor).place_some h hpart (.conditional (some c) false)
    have hnext : ((V' (φ c) k').place t' (some (φ c)) (.conditional (some (φ c)) true)).next =
        ((V c k).place t (some c) (.conditional (some c) true)).next := hkept.next
    have hout := (hrefused.pended_some hs
      [((V c k).place t (some c) (.conditional (some c) true)).next]).moved (some (V c k).next)
    simp only [Option.map_some]
    rw [hasked.cursor, hasked.next, hnext]
    exact hout

omit hopen hs in
theorem forClause {clause : NodeId} (hclause : t.Own owner clause)
    (hopen : (t.kind clause).isSealed = false) :
    Twins t owner φ (Sketch.forClause t V clause k) (Sketch.forClause t' V' (φ clause) k') := by
  have hiterable : t'.iterable (φ clause) = (t.iterable clause).map φ :=
    h.child_with_role hclause hopen .iterable
  have htargets : t'.targets (φ clause) = (t.targets clause).map φ :=
    h.alike.children_with_role h.ordered hclause hopen .target
  have hasked := m.visits_option (o := t.iterable clause) hV fun n hn => h.part_with_role hclause hopen hn
  unfold Sketch.forClause
  rw [hiterable, htargets]
  exact hasked.visits hV fun n hn => h.child hclause hopen (SyntaxTree.mem_targets.1 hn).1

theorem comprehension :
    Twins t owner φ (Sketch.comprehension t V s k) (Sketch.comprehension t' V' (φ s) k') := by
  have hifs : t'.comprehensionIfs (φ s) = (t.comprehensionIfs s).map φ :=
    h.alike.children_of_kind h.ordered hs hopen .comprehensionIf
  have hfors : t'.comprehensionFors (φ s) = (t.comprehensionFors s).map φ :=
    h.alike.children_of_kind h.ordered hs hopen .comprehensionFor
  have hresult : t'.comprehensionResult (φ s) = (t.comprehensionResult s).map φ :=
    h.child_with_role hs hopen .result
  have hfiltered : Twins t owner φ
      (Sketch.each (Sketch.filterClause t V s) (t.comprehensionIfs s) (k.start t s))
      (Sketch.each (Sketch.filterClause t' V' (φ s)) ((t.comprehensionIfs s).map φ)
        (k'.start t' (φ s))) := by
    refine (m.start h hs).each fun c hc _ _ hm => ?_
    obtain ⟨hmem, hkind⟩ := SyntaxTree.mem_comprehension_ifs.1 hc
    exact hm.filterClause h hV hs (h.child hs hopen hmem) (by rw [hkind]; rfl)
  have hbound : ∀ a a', Twins t owner φ a a' → Twins t owner φ
      (Sketch.each (Sketch.forClause t V) (t.comprehensionFors s) a)
      (Sketch.each (Sketch.forClause t' V') ((t.comprehensionFors s).map φ) a') := by
    refine fun a a' ha => ha.each fun c hc _ _ hm => ?_
    obtain ⟨hmem, hkind⟩ := SyntaxTree.mem_comprehension_fors.1 hc
    exact hm.forClause h hV (h.child hs hopen hmem) (by rw [hkind]; rfl)
  unfold Sketch.comprehension
  rw [hifs, hfors, hresult]
  exact (hbound _ _ hfiltered).visits_option hV fun n hn => h.part_with_role hs hopen hn

omit hopen in
theorem dispatch : Twins t owner φ (Sketch.dispatch t V s k) (Sketch.dispatch t' V' (φ s) k') := by
  unfold Sketch.dispatch
  rw [h.alike.kind s hs]
  cases hk : t.kind s with
  | functionDef | classDef => exact m.definition h hs
  | lambda => exact m
  | statement | importStatement => exact m.sequence h hV hs (hk ▸ rfl)
  | assignment => exact m.assigned h hV hs (hk ▸ rfl)
  | target | parameter | importBinding => exact m.binding h hV hs (hk ▸ rfl)
  | ifStatement => exact m.conditional h hV hs (hk ▸ rfl)
  | whileLoop => exact m.whileLoop h hV hs (hk ▸ rfl)
  | forLoop => exact m.forLoop h hV hs (hk ▸ rfl)
  | breakJump => exact m.breakJump h hs
  | continueJump => exact m.continueJump h hs
  | returnExit | raiseExit => exact m.leaving h hV hs (hk ▸ rfl)
  | tryStatement => exact m.tryStatement h hV hs (hk ▸ rfl)
  | comprehension => exact m.comprehension h hV hs (hk ▸ rfl)
  | module | parameters | block | ifPart | elifPart | elsePart | tryPart | exceptPart
  | finallyPart | comprehensionFor | comprehensionIf | expression =>
    exact m.visits_children h hV hs (hk ▸ rfl)

end rules

theorem visit (m : Twins t owner φ k k') (depth : Nat) (hs : t.Own owner s) :
    Twins t owner φ (Sketch.visit t depth s k) (Sketch.visit t' depth (φ s) k') := by
  induction depth generalizing s k k' with
  | zero =>
    have hcut : Twins t owner φ { k with truncated := s :: k.truncated }
        { k' with truncated := φ s :: k'.truncated } := by
      refine ⟨⟨m.names.element, m.names.scope⟩, ?_⟩
      rw [m.eq]
      rfl
    exact hcut.start h hs
  | succ depth ih => exact m.dispatch h (fun n hn _ _ hm => ih hm hn) hs

end Sketch.Mirrors

/-- The builds of paired owners mirror each other. -/
theorem Sketch.build_twins {t t' : SyntaxTree} {owner owner' : NodeId} {φ : NodeId → NodeId}
    (h : t.Paired t' owner owner' φ) (depth : Nat) :
    Twins t owner φ (build t depth owner) (build t' depth owner') := by
  have hnone : ∀ x : NodeId, none = some x → t.Own owner x := fun x hx => by cases hx
  have hblank : Twins t owner φ blank blank :=
    ⟨⟨fun id el hel => by simp [element, blank] at hel, fun e he => by cases he⟩, rfl⟩
  have hopening : Twins t owner φ (blank.place t none .plain) (blank.place t' none .plain) :=
    hblank.place h hnone .plain
  have hinterior : Twins t owner φ (interior t depth owner) (interior t' depth owner') := by
    unfold interior visitOwner
    rw [if_pos h.isOwner, if_pos h.isOwner', h.alike.top]
    exact hopening.each fun c hc _ _ hm => hm.visit h depth (SyntaxTree.part_of_top h.ordered hc)
  exact hinterior.place h hnone .plain

/-- Paired owners have the same build, up to the renaming. -/
theorem Sketch.build_renamed {t t' : SyntaxTree} {owner owner' : NodeId} {φ : NodeId → NodeId}
    (h : t.Paired t' owner owner' φ) (depth : Nat) :
    build t' depth owner' = (build t depth owner).renamed φ :=
  (build_twins h depth).eq

/-- The instructions of a build stand for nodes of the owner's part. -/
theorem Sketch.build_names {t : SyntaxTree} (ho : t.Ordered) {owner : NodeId}
    (howner : (t.kind owner).isOwner = true) (depth : Nat) :
    (build t depth owner).Names (t.Own owner) := by
  have hsame : t.Paired t owner owner id :=
    ⟨SyntaxTree.Alike.refl t SyntaxKind.isSealed owner, ho, ho, howner, howner⟩
  exact (build_twins hsame depth).names

end PythonFlow
