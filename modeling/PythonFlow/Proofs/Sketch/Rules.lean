import PythonFlow.Proofs.Sketch.Basic

/-!
# The rules on sketches

One function for each rule of the visitor, and one for each stage of the rules that have several.
The names are those of the rules; what a stage returns besides the sketch it returns here as well.
-/

set_option autoImplicit false

namespace PythonFlow.Sketch

abbrev Visitor := NodeId → Sketch → Sketch

variable (t : SyntaxTree) (V : Visitor)

def each (nodes : List NodeId) (k : Sketch) : Sketch := nodes.foldl (fun k n => V n k) k

def definition (s : NodeId) (k : Sketch) : Sketch :=
  match t.name s with
  | some name => k.place t (some s) (.write name)
  | none => k.start t s

def sequence (s : NodeId) (nodes : List NodeId) (k : Sketch) : Sketch :=
  each V nodes (k.start t s)

def binding (s : NodeId) (k : Sketch) : Sketch :=
  match t.name s with
  | some name => k.place t (some s) (.write name)
  | none => each V (t.children s) k

def joined (node : NodeId) (k : Sketch) : Sketch :=
  match k.inner t node with
  | [] => k.drained t node
  | inner => ((k.drained t node).start t node).linked k.next (inner.map (·.source))

def conditioned : Option NodeId → Sketch → Sketch
  | some node, k => joined t node (V node k)
  | none, k => k

def partEntry (first : Bool) (head : Option InstructionId) (last : Option NodeId) (part : NodeId)
    (k : Sketch) : Sketch :=
  if first then k else (k.moved head).place t (some part) (.conditional last false)

/-- The condition of a part. Flow stands at the cursor when it comes out false. -/
def asked (first : Bool) (head : Option InstructionId) (last : Option NodeId) (part : NodeId)
    (k : Sketch) : Sketch :=
  conditioned t V (t.condition part) (partEntry t first head last part k)

def partBody (part : NodeId) (k : Sketch) : Sketch :=
  each V (t.body part).toList
    (k.place t (some ((t.body part).getD part)) (.conditional (t.condition part) true))

def partLeft (s part : NodeId) (k : Sketch) : Sketch :=
  (k.rescoped t part (some s)).pended (some s) k.cursor.toList

def partDone (s part : NodeId) (k : Sketch) : Sketch := partLeft t s part (partBody t V part k)

def ifParts (s : NodeId) (first : Bool) (head : Option InstructionId) (last : Option NodeId) :
    List NodeId → Sketch → Sketch × Option InstructionId × Option NodeId
  | [], k => (k, head, last)
  | part :: rest, k =>
    let after := asked t V first head last part k
    ifParts s false after.cursor (t.condition part) rest (partDone t V s part after)

def ifElse (s : NodeId) (head : Option InstructionId) (last : Option NodeId) :
    Option NodeId → Sketch → Sketch
  | some part, k =>
    let done := V part (k.place t (some part) (.conditional last false))
    done.pended (some s) done.cursor.toList
  | none, k => k.pended (some s) head.toList

def conditional (s : NodeId) (k : Sketch) : Sketch :=
  let parts := ifParts t V s true (some k.next) none (t.ifParts s) (k.start t s)
  (ifElse t V s parts.2.1 parts.2.2 (t.elsePart s) (parts.1.moved parts.2.1)).moved none

def skipped (s : NodeId) (head : Option InstructionId) (k : Sketch) : Sketch :=
  if (t.elsePart s).isNone then k.pended (some s) head.toList else k

def whileBody (s : NodeId) (header : InstructionId) : Option NodeId → Sketch → Sketch
  | some body, k =>
    let done := V body (k.place t (some body) (.conditional (t.condition s) true))
    (done.drained t body).linked header (done.exits t body)
  | none, k => k

def whileElse (s : NodeId) (head : Option InstructionId) : Option NodeId → Sketch → Sketch
  | some part, k =>
    let done := V part ((k.moved head).place t (some part) (.conditional (t.condition s) false))
    (done.drained t part).pended (some s) (done.exits t part)
  | none, k => k

def whileAsked (s : NodeId) (k : Sketch) : Sketch := conditioned t V (t.condition s) (k.start t s)

def whileRounds (s : NodeId) (k : Sketch) : Sketch :=
  whileBody t V s k.next (t.body s) (skipped t s (whileAsked t V s k).cursor (whileAsked t V s k))

def whileExit (s : NodeId) (k : Sketch) : Sketch :=
  whileElse t V s (whileAsked t V s k).cursor (t.elsePart s) (whileRounds t V s k)

def whileLoop (s : NodeId) (k : Sketch) : Sketch :=
  ((whileExit t V s k).moved none).checked t k.next

def closeRound (s : NodeId) (first : InstructionId) (exits : List InstructionId) (k : Sketch) :
    Sketch × List InstructionId :=
  if (t.elsePart s).isSome then (k.linked first exits, exits)
  else ((k.linked first exits).pended (some s) exits, [])

def forBody (s : NodeId) : Option NodeId → Sketch → Sketch × List InstructionId
  | some body, k =>
    let done := V body (each V (t.targets s) (k.start t body))
    closeRound t s k.next (done.exits t body) (done.drained t body)
  | none, k => (k, [])

def forElse (s : NodeId) (exhausted : List InstructionId) : Option NodeId → Sketch → Sketch
  | some part, k =>
    let done := V part ((k.start t part).linked k.next exhausted)
    (done.drained t part).pended (some s) (done.exits t part)
  | none, k => k

def forAsked (s : NodeId) (k : Sketch) : Sketch := each V (t.iterable s).toList (k.start t s)

def forRounds (s : NodeId) (k : Sketch) : Sketch × List InstructionId :=
  forBody t V s (t.body s) (skipped t s (forAsked t V s k).cursor (forAsked t V s k))

def forExit (s : NodeId) (k : Sketch) : Sketch :=
  forElse t V s (forRounds t V s k).2 (t.elsePart s)
    ((forRounds t V s k).1.moved (forAsked t V s k).cursor)

def forLoop (s : NodeId) (k : Sketch) : Sketch := (forExit t V s k).moved none

def breakJump (s : NodeId) (k : Sketch) : Sketch :=
  match t.enclosingLoop s with
  | some loop => ((k.start t s).pended (some loop) [k.next]).moved none
  | none => k.start t s

def continueJump (s : NodeId) (k : Sketch) : Sketch :=
  match (t.enclosingLoop s).bind (k.start t s).latest with
  | some header => ((k.start t s).linked header [k.next]).moved none
  | none => k.start t s

def leaving (s : NodeId) (k : Sketch) : Sketch :=
  let done := sequence t V s (t.children s) k
  ((done.rescoped t s none).pended none done.cursor.toList).moved none

def tryBody (statement : InstructionId) : Option NodeId → Sketch →
    Sketch × InstructionId × List InstructionId
  | some part, k =>
    let done := V part (k.start t part)
    (done.drained t part, k.next, done.exits t part)
  | none, k => (k, statement, [statement])

def tryElse (s : NodeId) (bodyExits : List InstructionId) : Option NodeId → Sketch → Sketch
  | some part, k =>
    let done := V part (((k.moved none).start t part).linked k.next bodyExits)
    (done.drained t part).pended (some s) (done.exits t part)
  | none, k => k.pended (some s) bodyExits

def handler (s : NodeId) (bodyEntry : InstructionId) (bodyExits : List InstructionId)
    (part : NodeId) (k : Sketch) : Sketch :=
  let done := V part ((((k.moved none).start t part).linked k.next [bodyEntry]).linked k.next
    bodyExits)
  (done.drained t part).pended (some s) (done.exits t part)

def handlers (s : NodeId) (bodyEntry : InstructionId) (bodyExits : List InstructionId) :
    List NodeId → Sketch → Sketch × List InstructionId
  | [], k => (k, [])
  | part :: rest, k =>
    let after := handlers s bodyEntry bodyExits rest (handler t V s bodyEntry bodyExits part k)
    (after.1, k.next :: after.2)

def finallyClause : Option NodeId → Sketch → Sketch × Option Visit.Finally
  | some part, k =>
    let done := V part ((k.moved none).start t part)
    ((done.drained t part).pended (some part) (done.exits t part),
      some ⟨part, k.next, done.exits t part⟩)
  | none, k => (k, none)

def keep (e : PendingEdge) : Fate := ⟨[], [e]⟩

def through (s : NodeId) (f : Visit.Finally) (e : PendingEdge) : Fate :=
  ⟨[f.entry], if e.within t s then [] else f.exits.map fun x => ⟨e.scope, x⟩⟩

def settle (s : NodeId) (handlers : List InstructionId) (finally? : Option Visit.Finally)
    (k : Sketch) (e : PendingEdge) : Fate :=
  match k.element e.source with
  | none => keep e
  | some el =>
    if t.Below el s then
      if Visit.raisedInBody t (t.tryPart s) el && !handlers.isEmpty then ⟨handlers, []⟩
      else match finally? with
        | some f =>
          if e.scope ≠ some f.part ∧ ¬ t.Below el f.part then through t s f e else keep e
        | none => keep e
    else keep e

section settle
variable {s : NodeId} {handlers : List InstructionId} {finally? : Option Visit.Finally}
  {k : Sketch} {e : PendingEdge} {el : NodeId}

theorem settle_of_none (h : k.element e.source = none) :
    settle t s handlers finally? k e = keep e := by simp [settle, h]

theorem settle_of_outside (h : k.element e.source = some el) (hb : ¬ t.Below el s) :
    settle t s handlers finally? k e = keep e := by simp [settle, h, hb]

theorem settle_of_raised (h : k.element e.source = some el) (hb : t.Below el s)
    (hr : Visit.raisedInBody t (t.tryPart s) el = true) (hh : handlers ≠ []) :
    settle t s handlers finally? k e = ⟨handlers, []⟩ := by simp [settle, h, hb, hr, hh]

theorem settle_of_no_finally (h : k.element e.source = some el)
    (hr : ¬ (Visit.raisedInBody t (t.tryPart s) el = true ∧ handlers ≠ [])) :
    settle t s handlers none k e = keep e := by simp [settle, h, hr]

theorem settle_of_finally (h : k.element e.source = some el) (hb : t.Below el s)
    (hr : ¬ (Visit.raisedInBody t (t.tryPart s) el = true ∧ handlers ≠ [])) (f : Visit.Finally) :
    settle t s handlers (some f) k e =
      if e.scope ≠ some f.part ∧ ¬ t.Below el f.part then through t s f e else keep e := by
  simp [settle, h, hb, hr]

/-- An edge is kept, goes to every handler, or goes through the `finally` clause. -/
theorem settle_cases (s : NodeId) (handlers : List InstructionId) (finally? : Option Visit.Finally)
    (k : Sketch) (e : PendingEdge) :
    settle t s handlers finally? k e = keep e ∨
      (handlers ≠ [] ∧ settle t s handlers finally? k e = ⟨handlers, []⟩ ∧
        ∃ el, k.element e.source = some el ∧ Visit.raisedInBody t (t.tryPart s) el = true) ∨
      ∃ f, finally? = some f ∧ settle t s handlers finally? k e = through t s f e := by
  cases h : k.element e.source with
  | none => exact .inl (settle_of_none t h)
  | some el =>
    by_cases hb : t.Below el s
    · by_cases hr : Visit.raisedInBody t (t.tryPart s) el = true ∧ handlers ≠ []
      · exact .inr (.inl ⟨hr.2, settle_of_raised t h hb hr.1 hr.2, el, rfl, hr.1⟩)
      · cases finally? with
        | none => exact .inl (settle_of_no_finally t h hr)
        | some f =>
          rw [settle_of_finally t h hb hr f]
          split
          · exact .inr (.inr ⟨f, rfl, rfl⟩)
          · exact .inl rfl
    · exact .inl (settle_of_outside t h hb)

variable {t} in
theorem mem_through {f : Visit.Finally} {e' : PendingEdge} (h : e' ∈ (through t s f e).left) :
    e'.source ∈ f.exits ∧ e'.scope = e.scope := by
  unfold through at h
  dsimp only at h
  split at h
  · cases h
  · obtain ⟨x, hx, rfl⟩ := List.mem_map.1 h
    exact ⟨hx, rfl⟩

end settle

def tryTried (s : NodeId) (k : Sketch) : Sketch × InstructionId × List InstructionId :=
  tryBody t V k.next (t.tryPart s) (k.start t s)

def tryOthers (s : NodeId) (k : Sketch) : Sketch :=
  tryElse t V s (tryTried t V s k).2.2 (t.elsePart s) (tryTried t V s k).1

def tryCaught (s : NodeId) (k : Sketch) : Sketch × List InstructionId :=
  handlers t V s (tryTried t V s k).2.1 (tryTried t V s k).2.2 (t.exceptParts s) (tryOthers t V s k)

def tryLast (s : NodeId) (k : Sketch) : Sketch × Option Visit.Finally :=
  finallyClause t V (t.finallyPart s) (tryCaught t V s k).1

def tryStatement (s : NodeId) (k : Sketch) : Sketch :=
  let last := tryLast t V s k
  (last.1.settled (settle t s (tryCaught t V s k).2 last.2 last.1)).moved none

def filterClause (s clause : NodeId) (k : Sketch) : Sketch :=
  match t.condition clause with
  | some c =>
    let asked := V c k
    let kept := asked.place t (some c) (.conditional (some c) true)
    let refused := (kept.moved asked.cursor).place t (some c) (.conditional (some c) false)
    (refused.pended (some s) [kept.next]).moved (some asked.next)
  | none => k

def forClause (clause : NodeId) (k : Sketch) : Sketch :=
  each V (t.targets clause) (each V (t.iterable clause).toList k)

def comprehension (s : NodeId) (k : Sketch) : Sketch :=
  let filtered := each (filterClause t V s) (t.comprehensionIfs s) (k.start t s)
  each V (t.comprehensionResult s).toList (each (forClause t V) (t.comprehensionFors s) filtered)

def dispatch (s : NodeId) (k : Sketch) : Sketch :=
  match t.kind s with
  | .functionDef | .classDef => definition t s k
  | .lambda => k
  | .statement | .importStatement => sequence t V s (t.children s) k
  | .assignment => sequence t V s ((t.assignedValue s).toList ++ t.targets s) k
  | .target | .parameter | .importBinding => binding t V s k
  | .ifStatement => conditional t V s k
  | .whileLoop => whileLoop t V s k
  | .forLoop => forLoop t V s k
  | .breakJump => breakJump t s k
  | .continueJump => continueJump t s k
  | .returnExit | .raiseExit => leaving t V s k
  | .tryStatement => tryStatement t V s k
  | .comprehension => comprehension t V s k
  | .module | .parameters | .block | .ifPart | .elifPart | .elsePart | .tryPart | .exceptPart
  | .finallyPart | .comprehensionFor | .comprehensionIf | .expression =>
    each V (t.children s) k

def visit : Nat → Visitor
  | 0, s, k => { k with truncated := s :: k.truncated }.start t s
  | depth + 1, s, k => dispatch t (visit depth) s k

def visitOwner (depth : Nat) (owner : NodeId) (k : Sketch) : Sketch :=
  if (t.kind owner).isOwner then each (visit t depth) (t.children owner) k
  else visit t depth owner k

/-- The sketch of a build up to, not including, its exit. -/
def interior (depth : Nat) (owner : NodeId) : Sketch :=
  visitOwner t depth owner (blank.place t none .plain)

def build (depth : Nat) (owner : NodeId) : Sketch := (interior t depth owner).place t none .plain

theorem each_append (xs ys : List NodeId) (k : Sketch) :
    each V (xs ++ ys) k = each V ys (each V xs k) := by
  simp [each, List.foldl_append]

end PythonFlow.Sketch
