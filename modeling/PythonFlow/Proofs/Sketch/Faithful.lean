import PythonFlow.Owner.Build
import PythonFlow.Proofs.Build.Levels
import PythonFlow.Proofs.Sketch.Drawing
import PythonFlow.Proofs.Tree.Loops

/-!
# Every rule does what its sketch says

One lemma for each rule and for each of its stages. A whole build of an ordered tree therefore ends
in a graph that its sketch describes, whatever the depth, unless it looks at a raised flag.
-/

set_option autoImplicit false

namespace PythonFlow
namespace Sketch
open Build

def Follows (t : SyntaxTree) (r : Bool) (visit : Visit.Visitor) (V : Visitor) : Prop :=
  ∀ n : NodeId, n.index < t.size → ∀ k, Yields t r (visit n) k () (V n k)

section rules
variable {t : SyntaxTree} {r : Bool} {k : Sketch} {visit : Visit.Visitor} {V : Visitor} {s : NodeId}

theorem some_in_range {n : NodeId} (h : n.index < t.size) : ∀ x, some n = some x → x.index < t.size :=
  fun _ hx => Option.some.inj hx ▸ h

section simple
variable (ho : t.Ordered) (hV : Follows t r visit V) (hs : s.index < t.size)

include hV in
theorem yields_option (o : Option NodeId) (h : ∀ n, o = some n → n.index < t.size) :
    Yields t r (Visit.visitOption visit o) k () (each V o.toList k) := by
  cases o with
  | none => exact yields_unit
  | some n => exact hV n (h n rfl) k

include hs in
theorem yields_definition : Yields t r (Visit.visitDefinition t s) k () (definition t s k) := by
  unfold Visit.visitDefinition definition
  cases t.name s with
  | none => exact yields_place hs
  | some name => exact yields_place hs

include ho hV in
theorem yields_children :
    Yields t r (Visit.visitChildren t visit s) k () (each V (t.children s) k) :=
  yields_each _ fun n hn => hV n (ho.index_lt_size_of_mem hn)

include ho hV hs in
theorem yields_statement :
    Yields t r (Visit.visitStatement t visit s) k () (sequence t V s (t.children s) k) :=
  Yields.bind (yields_place hs) fun _ _ _ => yields_children ho hV

include ho hV hs in
theorem yields_assignment :
    Yields t r (Visit.visitAssignment t visit s) k ()
      (sequence t V s ((t.assignedValue s).toList ++ t.targets s) k) := by
  rw [sequence, each_append]
  refine Yields.bind (yields_place hs) fun _ _ _ => Yields.bind (yields_option hV _ ?_) fun _ _ _ => ?_
  · exact fun n hn => ho.index_lt_size_of_mem (SyntaxTree.mem_value hn).1
  · exact yields_each _ fun n hn => hV n (ho.index_lt_size_of_mem (SyntaxTree.mem_targets.1 hn).1)

include ho hV hs in
theorem yields_binding : Yields t r (Visit.visitBinding t visit s) k () (binding t V s k) := by
  unfold Visit.visitBinding binding
  cases t.name s with
  | none => exact yields_children ho hV
  | some name => exact yields_place hs

include ho hs in
theorem yields_break : Yields t r (Visit.visitBreak t s) k () (breakJump t s k) := by
  unfold Visit.visitBreak breakJump
  cases h : t.enclosingLoop s with
  | none => exact Yields.bind (yields_place hs) fun _ _ _ => yields_unit
  | some l =>
    have hl := Nat.lt_trans (ho.index_lt (ho.enclosing_loop_above h).1) hs
    exact Yields.bind (yields_place hs) fun _ _ _ => Yields.bind yields_cursor fun _ _ hcursor =>
      Yields.bind (yields_add_pending (some_in_range hl) hcursor) fun _ _ _ => yields_abrupt

include hs in
theorem yields_continue : Yields t r (Visit.visitContinue t s) k () (continueJump t s k) := by
  unfold Visit.visitContinue continueJump
  refine Yields.bind (yields_start hs) fun _ _ hjump =>
    Yields.bind (yields_latest _) fun _ _ hheader => ?_
  cases h : (t.enclosingLoop s).bind (k.start t s).latest with
  | none => exact yields_unit
  | some header =>
    exact Yields.bind (yields_add_edge hjump (hheader header h)) fun _ _ _ => yields_abrupt

include ho hV hs in
theorem yields_leaving : Yields t r (Visit.visitExit t visit s) k () (leaving t V s k) :=
  Yields.bind (yields_place hs) fun _ _ _ => Yields.bind (yields_children ho hV) fun _ _ _ =>
    Yields.bind (yields_rescope s fun _ hx => by simp at hx) fun _ _ _ =>
    Yields.bind yields_cursor fun _ _ hcursor =>
    Yields.bind (yields_add_pending (fun _ hx => by simp at hx) hcursor) fun _ _ _ => yields_abrupt

theorem yields_join {n : NodeId} (hn : n.index < t.size) :
    Yields t r (Visit.joinCondition t n) k () (joined t n k) := by
  unfold Visit.joinCondition joined
  refine Yields.bind (yields_drain n) fun _ _ hinner => ?_
  cases h : k.inner t n with
  | nil => exact yields_unit
  | cons e inner =>
    rw [h] at hinner
    refine Yields.bind (yields_start hn) fun _ hle hnext => yields_add_edges hnext _ ?_
    intro a ha
    obtain ⟨e', he', rfl⟩ := List.mem_map.1 ha
    exact Ranged.mono hle (hinner e' he')

include hV in
theorem yields_condition (o : Option NodeId) (h : ∀ n, o = some n → n.index < t.size) :
    Yields t r (Visit.visitCondition t visit o) k () (conditioned t V o k) := by
  cases o with
  | none => exact yields_unit
  | some n => exact Yields.bind (hV n (h n rfl) k) fun _ _ _ => yields_join (h n rfl)

end simple

section conditional

theorem yields_part_entry {p : NodeId} (hp : p.index < t.size) (first : Bool)
    {head : Option InstructionId} (hhead : Ranged.InRange head k.size) (last : Option NodeId) :
    Yields t r (Visit.visitPartEntry t first head last p) k () (partEntry t first head last p k) := by
  cases first with
  | true => exact yields_unit
  | false => exact Yields.bind (yields_set_cursor hhead) fun _ _ _ => yields_place hp

variable (ho : t.Ordered) (hV : Follows t r visit V) (hs : s.index < t.size)

include ho hV in
theorem yields_part_body {p : NodeId} (hp : p.index < t.size) :
    Yields t r (Visit.visitPartBody t visit p) k () (partBody t V p k) := by
  refine Yields.bind (yields_place ?_) fun _ _ _ => yields_option hV _ ?_
  · cases hb : t.body p with
    | none => exact hp
    | some b => exact ho.index_lt_size_of_mem (SyntaxTree.mem_body hb).1
  · exact fun n hn => ho.index_lt_size_of_mem (SyntaxTree.mem_body hn).1

include ho hV hs in
theorem yields_if_parts (first : Bool) (head : Option InstructionId) (last : Option NodeId)
    (parts : List NodeId) (hparts : ∀ p ∈ parts, p ∈ t.children s)
    (hhead : Ranged.InRange head k.size) :
    Yields t r (Visit.visitIfParts t visit s first head last parts) k
      (ifParts t V s first head last parts k).2 (ifParts t V s first head last parts k).1 := by
  induction parts generalizing k first head last with
  | nil => exact yields_pure ⟨hhead, fun _ _ => trivial⟩
  | cons p parts ih =>
    have hp := ho.index_lt_size_of_mem (hparts p (by simp))
    have hcondition : ∀ n, t.condition p = some n → n.index < t.size := fun n hn =>
      ho.index_lt_size_of_mem (SyntaxTree.mem_condition hn).1
    refine Yields.bind (yields_part_entry hp first hhead last) fun _ _ _ =>
      Yields.bind (yields_condition hV _ hcondition) fun _ _ _ =>
      Yields.bind yields_cursor fun _ _ hasked =>
      Yields.bind (yields_part_body ho hV hp) fun _ hle _ =>
      Yields.bind (yields_rescope p (some_in_range hs)) fun _ _ _ =>
      Yields.bind yields_cursor fun _ _ hcursor =>
      Yields.bind (yields_add_pending (some_in_range hs) hcursor) fun _ _ _ =>
      ih _ _ _ (fun q hq => hparts q (by simp [hq])) ?_
    exact Ranged.mono hle hasked

include hV hs in
theorem yields_if_else {head : Option InstructionId} (hhead : Ranged.InRange head k.size)
    (last : Option NodeId) (o : Option NodeId) (ho : ∀ n, o = some n → n.index < t.size) :
    Yields t r (Visit.visitIfElse t visit s head last o) k () (ifElse t V s head last o k) := by
  cases o with
  | none => exact yields_add_pending (some_in_range hs) hhead
  | some n =>
    exact Yields.bind (yields_place (ho n rfl)) fun _ _ _ =>
      Yields.bind (hV n (ho n rfl) _) fun _ _ _ =>
      Yields.bind yields_cursor fun _ _ hcursor => yields_add_pending (some_in_range hs) hcursor

include ho hV hs in
theorem yields_if : Yields t r (Visit.visitIf t visit s) k () (conditional t V s k) := by
  have hparts : ∀ p ∈ t.ifParts s, p ∈ t.children s := fun p hp => (SyntaxTree.mem_if_parts.1 hp).1
  have helse : ∀ n, t.elsePart s = some n → n.index < t.size := fun n hn =>
    ho.index_lt_size_of_mem (SyntaxTree.mem_else_part hn).1
  refine Yields.bind (yields_place hs) fun _ _ _ => Yields.bind yields_cursor fun _ _ hhead =>
    Yields.bind (yields_if_parts ho hV hs true _ none _ hparts hhead) fun _ _ hhead' =>
    Yields.bind (yields_set_cursor hhead'.1) fun _ hle _ =>
    Yields.bind (yields_if_else hV hs (Ranged.mono hle hhead'.1) _ _ helse) fun _ _ _ =>
    yields_abrupt

end conditional

section loops
variable (ho : t.Ordered) (hV : Follows t r visit V) (hs : s.index < t.size)

include hs in
theorem yields_skip {head : Option InstructionId} (hhead : Ranged.InRange head k.size) :
    Yields t r (Visit.visitSkip t s head) k () (skipped t s head k) := by
  unfold Visit.visitSkip skipped
  cases (t.elsePart s).isNone with
  | true => exact yields_add_pending (some_in_range hs) hhead
  | false => exact yields_unit

include hV in
theorem yields_while_body {header : InstructionId} (hheader : Ranged.InRange header k.size)
    (o : Option NodeId) (ho : ∀ n, o = some n → n.index < t.size) :
    Yields t r (Visit.visitWhileBody t visit s header o) k () (whileBody t V s header o k) := by
  cases o with
  | none => exact yields_unit
  | some n =>
    exact Yields.bind (yields_place (ho n rfl)) fun _ hle1 _ =>
      Yields.bind (hV n (ho n rfl) _) fun _ hle2 _ =>
      Yields.bind (yields_fallthrough n) fun _ hle3 hexits =>
      yields_add_edges (Ranged.mono (Nat.le_trans hle1 (Nat.le_trans hle2 hle3)) hheader) _ hexits

include hV hs in
theorem yields_while_else {head : Option InstructionId} (hhead : Ranged.InRange head k.size)
    (o : Option NodeId) (ho : ∀ n, o = some n → n.index < t.size) :
    Yields t r (Visit.visitWhileElse t visit s head o) k () (whileElse t V s head o k) := by
  cases o with
  | none => exact yields_unit
  | some n =>
    exact Yields.bind (yields_set_cursor hhead) fun _ _ _ =>
      Yields.bind (yields_place (ho n rfl)) fun _ _ _ =>
      Yields.bind (hV n (ho n rfl) _) fun _ _ _ =>
      Yields.bind (yields_fallthrough n) fun _ _ hexits =>
      yields_add_pendings (some_in_range hs) _ hexits

include ho hV hs in
theorem yields_while : Yields t r (Visit.visitWhile t visit s) k () (whileLoop t V s k) := by
  have hcondition : ∀ n, t.condition s = some n → n.index < t.size := fun n hn =>
    ho.index_lt_size_of_mem (SyntaxTree.mem_condition hn).1
  have hbody : ∀ n, t.body s = some n → n.index < t.size := fun n hn =>
    ho.index_lt_size_of_mem (SyntaxTree.mem_body hn).1
  have helse : ∀ n, t.elsePart s = some n → n.index < t.size := fun n hn =>
    ho.index_lt_size_of_mem (SyntaxTree.mem_else_part hn).1
  refine Yields.bind (yields_start hs) fun _ _ hheader =>
    Yields.bind (yields_condition hV _ hcondition) fun _ hle1 _ =>
    Yields.bind yields_cursor fun _ _ hhead =>
    Yields.bind (yields_skip hs hhead) fun _ hle2 _ =>
    Yields.bind (yields_while_body hV ?_ _ hbody) fun _ hle3 _ =>
    Yields.bind (yields_while_else hV hs ?_ _ helse) fun _ hle4 _ =>
    Yields.bind yields_abrupt fun _ _ _ => yields_check_pending ?_
  · exact Ranged.mono (Nat.le_trans hle1 hle2) hheader
  · exact Ranged.mono (Nat.le_trans hle2 hle3) hhead
  · exact Ranged.mono (Nat.le_trans (Nat.le_trans hle1 hle2) (Nat.le_trans hle3 hle4)) hheader

include hs in
theorem yields_close_round {first : InstructionId} (hfirst : Ranged.InRange first k.size)
    (exits : List InstructionId) (hexits : Ranged.InRange exits k.size) :
    Yields t r (Visit.closeRound t s first exits) k (closeRound t s first exits k).2
      (closeRound t s first exits k).1 := by
  unfold Visit.closeRound closeRound
  cases (t.elsePart s).isSome with
  | true => exact Yields.bind (yields_add_edges hfirst _ hexits) fun _ _ _ => yields_pure hexits
  | false =>
    simp only [Bool.false_eq_true, if_false]
    have hloop : Yields t r (forEach (fun exit => do
        addEdge exit first
        addPending (some s) (some exit)) exits) k () ((k.linked first exits).pended (some s) exits) := ?_
    · exact Yields.bind hloop fun _ _ _ => yields_pure fun x hx => by simp at hx
    induction exits generalizing k with
    | nil =>
      rw [linked_nil, pended_nil]
      exact yields_unit
    | cons x exits ih =>
      have hx : x.index < k.size := hexits x (by simp)
      have hsome : Ranged.InRange (some x) k.size := fun y hy => Option.some.inj hy ▸ hx
      refine Yields.bind (Yields.bind (yields_add_edge hx hfirst) fun _ _ _ =>
        yields_add_pending (some_in_range hs) hsome) fun _ _ _ => ?_
      have hrest := ih (k := (k.linked first [x]).pended (some s) [x]) hfirst
        fun y hy => hexits y (by simp [hy])
      have hcomm : (((k.linked first [x]).pended (some s) [x]).linked first exits).pended (some s)
          exits = (k.linked first (x :: exits)).pended (some s) (x :: exits) := by
        simp [linked, pended]
      rw [hcomm] at hrest
      exact hrest

include ho hV hs in
theorem yields_for_body (o : Option NodeId) (hin : ∀ n, o = some n → n.index < t.size) :
    Yields t r (Visit.visitForBody t visit s o) k (forBody t V s o k).2 (forBody t V s o k).1 := by
  cases o with
  | none => exact yields_pure fun x hx => by simp at hx
  | some n =>
    have htarget : ∀ c ∈ t.targets s, c.index < t.size := fun c hc =>
      ho.index_lt_size_of_mem (SyntaxTree.mem_targets.1 hc).1
    exact Yields.bind (yields_start (hin n rfl)) fun _ _ hfirst =>
      Yields.bind (yields_each _ fun c hc => hV c (htarget c hc)) fun _ hle1 _ =>
      Yields.bind (hV n (hin n rfl) _) fun _ hle2 _ =>
      Yields.bind (yields_fallthrough n) fun _ hle3 hexits =>
      yields_close_round hs (Ranged.mono (Nat.le_trans hle1 (Nat.le_trans hle2 hle3)) hfirst) _
        hexits

include hV hs in
theorem yields_for_else (exhausted : List InstructionId)
    (hexhausted : Ranged.InRange exhausted k.size) (o : Option NodeId)
    (ho : ∀ n, o = some n → n.index < t.size) :
    Yields t r (Visit.visitForElse t visit s exhausted o) k () (forElse t V s exhausted o k) := by
  cases o with
  | none => exact yields_unit
  | some n =>
    exact Yields.bind (yields_start (ho n rfl)) fun _ hle hentry =>
      Yields.bind (yields_add_edges hentry _ (Ranged.mono hle hexhausted)) fun _ _ _ =>
      Yields.bind (hV n (ho n rfl) _) fun _ _ _ =>
      Yields.bind (yields_fallthrough n) fun _ _ hexits =>
      yields_add_pendings (some_in_range hs) _ hexits

include ho hV hs in
theorem yields_for : Yields t r (Visit.visitFor t visit s) k () (forLoop t V s k) := by
  have hiterable : ∀ n, t.iterable s = some n → n.index < t.size := fun n hn =>
    ho.index_lt_size_of_mem (SyntaxTree.mem_iterable hn).1
  have hbody : ∀ n, t.body s = some n → n.index < t.size := fun n hn =>
    ho.index_lt_size_of_mem (SyntaxTree.mem_body hn).1
  have helse : ∀ n, t.elsePart s = some n → n.index < t.size := fun n hn =>
    ho.index_lt_size_of_mem (SyntaxTree.mem_else_part hn).1
  exact Yields.bind (yields_place hs) fun _ _ _ =>
    Yields.bind (yields_option hV _ hiterable) fun _ _ _ =>
    Yields.bind yields_cursor fun _ _ hhead =>
    Yields.bind (yields_skip hs hhead) fun _ hle1 _ =>
    Yields.bind (yields_for_body ho hV hs _ hbody) fun _ hle2 hexhausted =>
    Yields.bind (yields_set_cursor (Ranged.mono (Nat.le_trans hle1 hle2) hhead)) fun _ hle3 _ =>
    Yields.bind (yields_for_else hV hs _ (Ranged.mono hle3 hexhausted) _ helse) fun _ _ _ =>
    yields_abrupt

end loops
section handlers
variable (ho : t.Ordered) (hV : Follows t r visit V) (hs : s.index < t.size)

include hV in
theorem yields_try_body {statement : InstructionId} (hst : Ranged.InRange statement k.size)
    (o : Option NodeId) (hin : ∀ n, o = some n → n.index < t.size) :
    Yields t r (Visit.visitTryBody t visit statement o) k (tryBody t V statement o k).2
      (tryBody t V statement o k).1 := by
  cases o with
  | none => exact yields_pure ⟨hst, fun x hx => List.mem_singleton.1 hx ▸ hst⟩
  | some n =>
    exact Yields.bind (yields_start (hin n rfl)) fun _ _ hentry =>
      Yields.bind (hV n (hin n rfl) _) fun _ hle1 _ =>
      Yields.bind (yields_fallthrough n) fun _ hle2 hexits =>
      yields_pure ⟨Ranged.mono (Nat.le_trans hle1 hle2) hentry, hexits⟩

include hV hs in
theorem yields_try_else {bodyExits : List InstructionId} (hexits : Ranged.InRange bodyExits k.size)
    (o : Option NodeId) (hin : ∀ n, o = some n → n.index < t.size) :
    Yields t r (Visit.visitTryElse t visit s bodyExits o) k () (tryElse t V s bodyExits o k) := by
  cases o with
  | none => exact yields_add_pendings (some_in_range hs) _ hexits
  | some n =>
    exact Yields.bind yields_abrupt fun _ hle1 _ =>
      Yields.bind (yields_start (hin n rfl)) fun _ hle2 hentry =>
      Yields.bind (yields_add_edges hentry _ (Ranged.mono (Nat.le_trans hle1 hle2) hexits))
        fun _ _ _ =>
      Yields.bind (hV n (hin n rfl) _) fun _ _ _ =>
      Yields.bind (yields_fallthrough n) fun _ _ hleft =>
      yields_add_pendings (some_in_range hs) _ hleft

include hV hs in
theorem yields_handler {bodyEntry : InstructionId} (hentry : Ranged.InRange bodyEntry k.size)
    {bodyExits : List InstructionId} (hexits : Ranged.InRange bodyExits k.size) {part : NodeId}
    (hpart : part.index < t.size) :
    Yields t r (Visit.visitHandler t visit s bodyEntry bodyExits part) k k.next
      (handler t V s bodyEntry bodyExits part k) := by
  refine Yields.bind yields_abrupt fun _ hle1 _ =>
    Yields.bind (yields_start hpart) fun _ hle2 hhandler =>
    Yields.bind (yields_add_edge (Ranged.mono (Nat.le_trans hle1 hle2) hentry) hhandler)
      fun _ _ _ => ?_
  have hlinks : Yields t r (addEdges k.next bodyExits)
      (((k.moved none).start t part).linked k.next [bodyEntry]) ()
      ((((k.moved none).start t part).linked k.next [bodyEntry]).linked k.next bodyExits) :=
    yields_add_edges (k := ((k.moved none).start t part).linked k.next [bodyEntry]) hhandler _
      (Ranged.mono (Nat.le_trans hle1 hle2) hexits)
  exact Yields.bind hlinks fun _ _ _ =>
    Yields.bind (hV part hpart _) fun _ hle3 _ =>
    Yields.bind (yields_fallthrough part) fun _ hle4 hleft =>
    Yields.bind (yields_add_pendings (some_in_range hs) _ hleft) fun _ _ _ =>
    yields_pure (Ranged.mono (Nat.le_trans hle3 hle4) hhandler)

include ho hV hs in
theorem yields_handlers {bodyEntry : InstructionId} (hentry : Ranged.InRange bodyEntry k.size)
    {bodyExits : List InstructionId} (hexits : Ranged.InRange bodyExits k.size)
    (parts : List NodeId) (hparts : ∀ p ∈ parts, p ∈ t.children s) :
    Yields t r (Visit.visitHandlers t visit s bodyEntry bodyExits parts) k
      (handlers t V s bodyEntry bodyExits parts k).2
      (handlers t V s bodyEntry bodyExits parts k).1 := by
  induction parts generalizing k with
  | nil => exact yields_pure fun x hx => by simp at hx
  | cons p parts ih =>
    have hp := ho.index_lt_size_of_mem (hparts p (by simp))
    refine Yields.bind (yields_handler hV hs hentry hexits hp) fun _ hle1 hhandler =>
      Yields.bind (ih (Ranged.mono hle1 hentry) (Ranged.mono hle1 hexits)
        fun q hq => hparts q (by simp [hq])) fun _ hle2 hrest => yields_pure fun x hx => ?_
    rcases List.mem_cons.1 hx with rfl | hx
    · exact Ranged.mono hle2 hhandler
    · exact hrest x hx

include hV in
theorem yields_finally (o : Option NodeId) (hin : ∀ n, o = some n → n.index < t.size) :
    Yields t r (Visit.visitFinally t visit o) k (finallyClause t V o k).2
      (finallyClause t V o k).1 := by
  cases o with
  | none => exact yields_pure fun _ hf => by simp at hf
  | some n =>
    exact Yields.bind yields_abrupt fun _ _ _ =>
      Yields.bind (yields_start (hin n rfl)) fun _ _ hentry =>
      Yields.bind (hV n (hin n rfl) _) fun _ hle1 _ =>
      Yields.bind (yields_fallthrough n) fun _ hle2 hexits =>
      Yields.bind (yields_add_pendings (some_in_range (hin n rfl)) _ hexits) fun _ _ _ =>
      yields_pure fun f hf => by
        cases hf
        exact ⟨Ranged.mono (Nat.le_trans hle1 hle2) hentry, hexits⟩

theorem yields_for_each_handler {x : InstructionId} (hx : x.index < k.size)
    (hs : List InstructionId) (hin : Ranged.InRange hs k.size) :
    Yields t r (forEach (addEdge x) hs) k ()
      { k with edges := k.edges ++ hs.map fun h => (x, h) } := by
  induction hs generalizing k with
  | nil =>
    simp only [List.map_nil, List.append_nil]
    exact yields_unit
  | cons h hs ih =>
    have hh : h.index < k.size := hin h (by simp)
    refine Yields.bind (yields_add_edge hx hh) fun _ _ _ => ?_
    have hrest := ih (k := k.linked h [x]) hx fun y hy => hin y (by simp [hy])
    simpa [linked] using hrest

/-- The `finally` clause takes what does not come from it. -/
theorem yields_through {e : PendingEdge} {el : NodeId} {f : Visit.Finally}
    (hsource : e.source.index < k.size) (hscope : ∀ n, e.scope = some n → n.index < t.size)
    (hf : Ranged.InRange f k.size)
    (hkeep : Yields t r (addPending e.scope (some e.source)) k () (k.sentTo e (keep e))) :
    Yields t r (if e.scope != some f.part && !t.isDescendantOf el f.part then
        Visit.throughFinally t s f e else addPending e.scope (some e.source)) k ()
      (k.sentTo e (if e.scope ≠ some f.part ∧ ¬ t.Below el f.part then through t s f e
        else keep e)) := by
  by_cases hgo : e.scope ≠ some f.part ∧ ¬ t.Below el f.part
  · have hdesc : t.isDescendantOf el f.part = false := by
      rw [Bool.eq_false_iff, ne_eq, SyntaxTree.is_descendant_of_iff]
      exact hgo.2
    rw [if_pos (by simp [hgo.1, hdesc]), if_pos hgo]
    refine Yields.bind (yields_add_edge hsource hf.1) fun _ _ _ =>
      Yields.bind (yields_check (scoped_within_eq hscope) trivial) fun _ _ _ => ?_
    cases hw : e.within t s with
    | true =>
      have heq : k.sentTo e (through t s f e) = k.linked f.entry [e.source] := by
        simp [sentTo, through, linked, hw]
      rw [heq]
      exact yields_unit
    | false =>
      have heq : k.sentTo e (through t s f e) =
          (k.linked f.entry [e.source]).pended e.scope f.exits := by
        simp [sentTo, through, linked, pended, hw]
      rw [heq]
      exact yields_add_pendings hscope _ hf.2
  · rw [if_neg hgo, if_neg]
    · exact hkeep
    · simp only [Bool.and_eq_true, bne_iff_ne, Bool.not_eq_true', ← Bool.not_eq_true,
        SyntaxTree.is_descendant_of_iff]
      exact hgo

theorem yields_settle {handlers : List InstructionId} (hhandlers : Ranged.InRange handlers k.size)
    {finally? : Option Visit.Finally} (hfinally : Ranged.InRange finally? k.size) :
    Yields t r (processPending (Visit.settle t s handlers finally?)) k ()
      (k.settled (settle t s handlers finally? k)) := by
  refine yields_process fun hin e he k' hmade => ?_
  have hsize : k'.size = k.size := by rw [size, hmade]; rfl
  have hsource : e.source.index < k'.size := hsize ▸ hin.source e he
  have hsome : Ranged.InRange (some e.source) k'.size := fun y hy => Option.some.inj hy ▸ hsource
  have hel : k'.element e.source = k.element e.source := by rw [element, hmade]; rfl
  have hkeep : Yields t r (addPending e.scope (some e.source)) k' () (k'.sentTo e (keep e)) := by
    have hadd := yields_add_pending (t := t) (r := r) (hin.scope e he) hsome
    simpa [pended, sentTo, keep] using hadd
  refine Yields.bind (yields_element_of hsource) fun _ _ _ => ?_
  rw [hel]
  cases h : k.element e.source with
  | none =>
    rw [settle_of_none t h]
    exact hkeep
  | some el =>
    refine Yields.bind (yields_check (SyntaxTree.descends_of_lt _ _ _ (hin.element _ _ h)) trivial)
      fun _ _ _ => ?_
    by_cases hbelow : t.Below el s
    · rw [if_pos ((SyntaxTree.is_descendant_of_iff t el s).2 hbelow)]
      by_cases hraised : Visit.raisedInBody t (t.tryPart s) el = true ∧ handlers ≠ []
      · rw [settle_of_raised t h hbelow hraised.1 hraised.2, if_pos (by simp [hraised])]
        have hall := yields_for_each_handler (t := t) (r := r) hsource handlers (hsize ▸ hhandlers)
        simpa [sentTo] using hall
      · rw [if_neg (by simpa using hraised)]
        cases finally? with
        | none =>
          rw [settle_of_no_finally t h hraised]
          exact hkeep
        | some f => 
          rw [settle_of_finally t h hbelow hraised]
          exact yields_through hsource (hin.scope e he) (hsize ▸ hfinally f rfl) hkeep
    · rw [if_neg fun hx => hbelow ((SyntaxTree.is_descendant_of_iff t el s).1 hx),
        settle_of_outside t h hbelow]
      exact hkeep

include ho hV hs in
theorem yields_try : Yields t r (Visit.visitTry t visit s) k () (tryStatement t V s k) := by
  have htry : ∀ n, t.tryPart s = some n → n.index < t.size := fun n hn =>
    ho.index_lt_size_of_mem (SyntaxTree.mem_try_part hn).1
  have helse : ∀ n, t.elsePart s = some n → n.index < t.size := fun n hn =>
    ho.index_lt_size_of_mem (SyntaxTree.mem_else_part hn).1
  have hexcept : ∀ p ∈ t.exceptParts s, p ∈ t.children s := fun p hp =>
    (SyntaxTree.mem_except_parts.1 hp).1
  have hfinally : ∀ n, t.finallyPart s = some n → n.index < t.size := fun n hn =>
    ho.index_lt_size_of_mem (SyntaxTree.mem_finally_part hn).1
  exact Yields.bind (yields_start hs) fun _ _ hst =>
    Yields.bind (yields_try_body hV hst _ htry) fun _ _ hbody =>
    Yields.bind (yields_try_else hV hs hbody.2 _ helse) fun _ hle1 _ =>
    Yields.bind (yields_handlers ho hV hs (Ranged.mono hle1 hbody.1) (Ranged.mono hle1 hbody.2) _
      hexcept) fun _ _ hhandlers =>
    Yields.bind (yields_finally hV _ hfinally) fun _ hle2 hlast =>
    Yields.bind (yields_settle (Ranged.mono hle2 hhandlers) hlast) fun _ _ _ => yields_abrupt

end handlers

section comprehensions
variable (ho : t.Ordered) (hV : Follows t r visit V) (hs : s.index < t.size)

include ho hV hs in
theorem yields_filter (clause : NodeId) :
    Yields t r (Visit.visitFilter t visit s clause) k () (filterClause t V s clause k) := by
  unfold Visit.visitFilter filterClause
  cases h : t.condition clause with
  | none => exact yields_unit
  | some c =>
    have hc := ho.index_lt_size_of_mem (SyntaxTree.mem_condition h).1
    refine Yields.bind (hV c hc k) fun _ _ _ => Yields.bind yields_cursor fun _ _ hhead =>
      Yields.bind (yields_add_node (some_in_range hc)) fun _ hle1 hkept =>
      Yields.bind (yields_set_cursor (Ranged.mono hle1 hhead)) fun _ hle2 _ =>
      Yields.bind (yields_add_node (some_in_range hc)) fun _ hle3 hrefused =>
      Yields.bind (yields_add_pending (some_in_range hs) fun x hx => Option.some.inj hx ▸ hrefused)
        fun _ _ _ => yields_set_cursor fun x hx => ?_
    rw [← Option.some.inj hx]
    exact Ranged.mono (Nat.le_trans hle2 hle3) hkept

include ho hV in
theorem yields_clause (clause : NodeId) :
    Yields t r (Visit.visitClause t visit clause) k () (forClause t V clause k) := by
  have hiterable : ∀ n, t.iterable clause = some n → n.index < t.size := fun n hn =>
    ho.index_lt_size_of_mem (SyntaxTree.mem_iterable hn).1
  have htarget : ∀ c ∈ t.targets clause, c.index < t.size := fun c hc =>
    ho.index_lt_size_of_mem (SyntaxTree.mem_targets.1 hc).1
  exact Yields.bind (yields_option hV _ hiterable) fun _ _ _ =>
    yields_each _ fun c hc => hV c (htarget c hc)

include ho hV hs in
theorem yields_comprehension :
    Yields t r (Visit.visitComprehension t visit s) k () (comprehension t V s k) := by
  have hresult : ∀ n, t.comprehensionResult s = some n → n.index < t.size := fun n hn =>
    ho.index_lt_size_of_mem (SyntaxTree.mem_result hn).1
  exact Yields.bind (yields_place hs) fun _ _ _ =>
    Yields.bind (yields_each _ fun c _ _ => yields_filter ho hV hs c) fun _ _ _ =>
    Yields.bind (yields_each _ fun c _ _ => yields_clause ho hV c) fun _ _ _ =>
    yields_option hV _ hresult

end comprehensions

section builds
variable (ho : t.Ordered)

include ho in
theorem yields_dispatch (hV : Follows t r visit V) (hs : s.index < t.size) :
    Yields t r (Visit.dispatch t visit s) k () (dispatch t V s k) := by
  unfold Visit.dispatch dispatch
  cases t.kind s with
  | functionDef | classDef => exact yields_definition hs
  | lambda => exact yields_unit
  | statement | importStatement => exact yields_statement ho hV hs
  | assignment => exact yields_assignment ho hV hs
  | target | parameter | importBinding => exact yields_binding ho hV hs
  | ifStatement => exact yields_if ho hV hs
  | whileLoop => exact yields_while ho hV hs
  | forLoop => exact yields_for ho hV hs
  | breakJump => exact yields_break ho hs
  | continueJump => exact yields_continue hs
  | returnExit | raiseExit => exact yields_leaving ho hV hs
  | tryStatement => exact yields_try ho hV hs
  | comprehension => exact yields_comprehension ho hV hs
  | module | parameters | block | ifPart | elifPart | elsePart | tryPart | exceptPart
  | finallyPart | comprehensionFor | comprehensionIf | expression => exact yields_children ho hV

theorem yields_enter (st : Setting) (hr : (st.cancellable && r) = false) {n : NodeId}
    (hn : n.index < st.tree.size) : Yields t r (Visit.enter st n) k () k := by
  refine Yields.bind (yields_check ((SyntaxTree.require_ok _ _).2 hn) trivial) fun _ _ _ => ?_
  cases (st.tree.kind n).isStatement with
  | false => exact yields_unit
  | true =>
    refine fun hin => ⟨⟨hin, Nat.le_refl _, trivial⟩, fun b hd hb => ⟨b, ?_, hd, hb⟩⟩
    have hrun : (checkpoint st).run b =
        (if st.cancellable && b.raised then throw .cancelled else pure () : Build Unit).run b := rfl
    rw [if_pos rfl, hrun, hb, hr]
    rfl

theorem yields_recorded (n : NodeId) :
    Yields t r (modify fun st => { st with truncated := n :: st.truncated }) k ()
      { k with truncated := n :: k.truncated } := by
  refine yields_of_run (fun _ => ()) (fun st => { st with truncated := n :: st.truncated })
    (fun _ => rfl) (fun _ => rfl)
    (fun h => ⟨⟨h.element, h.edge, h.cursor, h.source, h.scope⟩, Nat.le_refl _, trivial⟩) ?_
  intro st hd
  refine ⟨rfl, hd.labels, hd.successors, hd.predecessors, hd.pending, hd.cursor, ?_⟩
  rw [hd.truncated]

theorem yields_truncate (hs : s.index < t.size) :
    Yields t r (Visit.truncate t s) k ()
      ({ k with truncated := s :: k.truncated }.start t s) :=
  Yields.bind (yields_recorded s) fun _ _ _ => yields_place hs

include ho in
/-- A visit does what its sketch says, at every depth. -/
theorem follows_visit (st : Setting) (ht : st.tree = t) (hr : (st.cancellable && r) = false)
    (depth : Nat) :
    Follows t r (Visit.follow st (Visit.enter st) depth) (Sketch.visit t depth) := by
  subst ht
  induction depth with
  | zero =>
    exact fun n hn k => Yields.bind (yields_enter st hr hn) fun _ _ _ => yields_truncate hn
  | succ depth ih =>
    exact fun n hn k => Yields.bind (yields_enter st hr hn) fun _ _ _ => yields_dispatch ho ih hn

include ho in
theorem yields_owner (st : Setting) (ht : st.tree = t) (hr : (st.cancellable && r) = false)
    (hs : s.index < t.size) :
    Yields t r (Visit.visitOwner st s) k () (visitOwner t st.maxDepth s k) := by
  have hV := follows_visit ho st ht hr st.maxDepth
  subst ht
  have hfollow : Yields st.tree r (Visit.followOwner st (Visit.enter st) s) k ()
      (visitOwner st.tree st.maxDepth s k) := by
    unfold Visit.followOwner visitOwner
    refine Yields.bind (yields_check ((SyntaxTree.require_ok _ _).2 hs) trivial) fun _ _ _ => ?_
    cases (st.tree.kind s).isOwner with
    | true => exact yields_children ho hV
    | false => exact hV s hs k
  intro hin
  obtain ⟨hkept, hrun⟩ := hfollow hin
  refine ⟨hkept, fun b hd hb => ?_⟩
  obtain ⟨b', hb', hd', hr'⟩ := hrun b hd hb
  refine ⟨{ b' with depth := 0 }, ?_, ⟨hd'.labels, hd'.successors, hd'.predecessors, hd'.pending,
    hd'.cursor, hd'.truncated⟩, hr'⟩
  rw [Visit.run_visit_owner, hb']

end builds
end rules

theorem in_range_blank (t : SyntaxTree) : blank.InRange t := by
  refine ⟨?_, ?_, ?_, ?_, ?_⟩ <;> simp [blank, element, Edge]

theorem draws_blank (raised : Bool) : Draws blank (BuildState.initial raised) :=
  ⟨rfl, fun _ => rfl, fun _ => rfl, rfl, rfl, rfl⟩

structure Describes (t : SyntaxTree) (depth : Nat) (owner : NodeId) (f : ControlFlow) : Prop where
  in_range : (build t depth owner).InRange t
  entry : f.entry = ⟨0⟩
  exit : f.exit = (interior t depth owner).next
  labels : f.graph.labels = (build t depth owner).made
  successors : ∀ a, f.graph.successors a = (build t depth owner).targets a
  predecessors : ∀ b, f.graph.predecessors b = (build t depth owner).sources b

/-- A build of an ordered tree gives what its sketch says, unless it looks at a raised flag. -/
theorem build_describes {t : SyntaxTree} (ho : t.Ordered) (c : Config) {cancel : Option Bool}
    (hc : cancel ≠ some true) {owner : NodeId} (hin : owner.index < t.size) :
    ∃ f, (buildOwner t c cancel owner).outcome = .ok f ∧ Describes t c.depth owner f ∧
      (buildOwner t c cancel owner).truncated = (build t c.depth owner).truncated.reverse := by
  have hflag : ((Setting.ofConfig t c cancel).cancellable && cancel.getD false) = false := by
    rcases cancel with _ | _ | _ <;> simp_all [Setting.ofConfig]
  have hclear : Yields t (cancel.getD false) (modify BuildState.cleared) blank () blank :=
    yields_of_run (fun _ => ()) BuildState.cleared (fun _ => rfl) (fun _ => rfl)
      (fun h => ⟨h, Nat.le_refl _, trivial⟩) fun st hd =>
        ⟨rfl, (draws_blank false).labels, (draws_blank false).successors, (draws_blank false).predecessors,
          rfl, rfl, hd.truncated⟩
  have hnone : ∀ x : NodeId, none = some x → x.index < t.size := fun x hx => by simp at hx
  have hstart : Yields t (cancel.getD false) (Build.start t) blank blank.next
      (blank.place t none .plain) := Yields.bind hclear fun _ _ _ => yields_add_node hnone
  have howner := yields_owner ho (Setting.ofConfig t c cancel) rfl hflag hin
    (k := blank.place t none .plain)
  have hfinish : Yields t (cancel.getD false) (addNode t none .plain) (interior t c.depth owner)
      (interior t c.depth owner).next (build t c.depth owner) := yields_add_node hnone
  obtain ⟨⟨hin1, -⟩, hrun1⟩ := hstart (in_range_blank t)
  obtain ⟨⟨hin2, -⟩, hrun2⟩ := howner hin1
  obtain ⟨⟨hin3, -⟩, hrun3⟩ := hfinish hin2
  obtain ⟨st1, h1, hd1, hr1⟩ := hrun1 (BuildState.initial (cancel.getD false)) (draws_blank _) rfl
  obtain ⟨st2, h2, hd2, hr2⟩ := hrun2 st1 hd1 hr1
  obtain ⟨st3, h3, hd3, -⟩ := hrun3 st2 hd2 hr2
  have hrun : (Build.build t (Visit.visitOwner (Setting.ofConfig t c cancel)) owner).run
      (BuildState.initial (cancel.getD false)) =
        (.ok ⟨owner, blank.next, (interior t c.depth owner).next, st3.graph⟩, st3) := by
    unfold Build.build Build.finish
    rw [run_bind_ok _ h1, run_bind_ok _ h2, run_bind_ok _ h3]
    rfl
  refine ⟨⟨owner, blank.next, (interior t c.depth owner).next, st3.graph⟩, ?_, ?_, ?_⟩
  · simp only [buildOwner, hrun]
  · exact ⟨hin3, rfl, rfl, hd3.labels, hd3.successors, hd3.predecessors⟩
  · simp only [buildOwner, hrun, hd3.truncated]

section describes
variable {t : SyntaxTree} {depth : Nat} {owner : NodeId} {f : ControlFlow}
  (h : Describes t depth owner f)
include h

theorem Describes.edge_iff (a b : InstructionId) :
    f.graph.Edge a b ↔ (build t depth owner).Edge a b := by
  rw [InstructionGraph.Edge, h.successors, mem_targets]

theorem Describes.back_iff (a b : InstructionId) :
    a ∈ f.graph.predecessors b ↔ (build t depth owner).Edge a b := by
  rw [h.predecessors, mem_sources]

theorem Describes.size_eq : f.graph.size = (build t depth owner).size := by
  rw [← f.graph.length_labels, h.labels, size]

theorem Describes.exit_lt : f.exit.index < f.graph.size := by
  rw [h.size_eq, h.exit, build, size_place]
  exact Nat.lt_succ_self _

theorem Describes.element_eq (id : InstructionId) :
    (f.graph.instruction id).element = (build t depth owner).element id := by
  rw [f.graph.element_eq, h.labels, element]

end describes
end Sketch

theorem SyntaxTree.lt_of_mem_owners {t : SyntaxTree} {owner : NodeId} (h : owner ∈ t.owners) :
    owner.index < t.size :=
  mem_ids.1 (List.mem_filter.1 h).1

end PythonFlow
