import PythonFlow.Flow.Build
import PythonFlow.Syntax.Access

/-!
# Control flow of each construct

One rule per kind of syntax. A rule says which instructions and edges a node adds, given `visit`,
which does the same for the nodes below it. A nested definition only binds its name, and the body
of a lambda adds nothing: each has a graph of its own.
-/

set_option autoImplicit false

namespace PythonFlow.Visit
open Build

abbrev Visitor := NodeId → Build Unit

def visitOption (visit : Visitor) : Option NodeId → Build Unit
  | some node => visit node
  | none => pure ()

def visitChildren (t : SyntaxTree) (visit : Visitor) (node : NodeId) : Build Unit :=
  forEach visit (t.children node)

def visitDefinition (t : SyntaxTree) (node : NodeId) : Build Unit :=
  match t.name node with
  | some name => discard (startWrite t node name)
  | none => discard (startNode t node)

def visitStatement (t : SyntaxTree) (visit : Visitor) (node : NodeId) : Build Unit := do
  discard (startNode t node)
  visitChildren t visit node

def visitAssignment (t : SyntaxTree) (visit : Visitor) (node : NodeId) : Build Unit := do
  discard (startNode t node)
  visitOption visit (t.assignedValue node)
  forEach visit (t.targets node)

/-- A binding of one name writes it; any other target is made of the bindings in it. -/
def visitBinding (t : SyntaxTree) (visit : Visitor) (node : NodeId) : Build Unit :=
  match t.name node with
  | some name => discard (startWrite t node name)
  | none => visitChildren t visit node

/-- Edges left pending inside a condition meet in one instruction before it branches. -/
def joinCondition (t : SyntaxTree) (condition : NodeId) : Build Unit := do
  match ← drainPendingWithin t condition with
  | [] => pure ()
  | inner =>
    let join ← startNode t condition
    addEdges join (inner.map (·.source))

def visitCondition (t : SyntaxTree) (visit : Visitor) : Option NodeId → Build Unit
  | some condition => do
    visit condition
    joinCondition t condition
  | none => pure ()

/-- Gives an edge scoped within `part` the scope `scope`, and puts every edge back. -/
def rescopeWithin (t : SyntaxTree) (part : NodeId) (scope : Option NodeId)
    (e : PendingEdge) : Build Unit := do
  if ← check (e.scopedWithin t part) then addPending scope (some e.source)
  else addPending e.scope (some e.source)

def visitPartEntry (t : SyntaxTree) (first : Bool) (head : Option InstructionId)
    (last : Option NodeId) (part : NodeId) : Build Unit :=
  if first then pure ()
  else do
    setCursor head
    discard (startConditional t part last false)

def visitPartBody (t : SyntaxTree) (visit : Visitor) (part : NodeId) : Build Unit := do
  discard (startConditional t ((t.body part).getD part) (t.condition part) true)
  visitOption visit (t.body part)

/-- The `if` and `elif` parts from one on. `head` is where flow stands when every condition so far
was false, and `last` is the latest of them. A part after the first is entered on that outcome. -/
def visitIfParts (t : SyntaxTree) (visit : Visitor) (node : NodeId) (first : Bool)
    (head : Option InstructionId) (last : Option NodeId) :
    List NodeId → Build (Option InstructionId × Option NodeId)
  | [] => return (head, last)
  | part :: rest => do
    visitPartEntry t first head last part
    visitCondition t visit (t.condition part)
    let head ← cursor
    visitPartBody t visit part
    processPending (rescopeWithin t part (some node))
    addPending (some node) (← cursor)
    visitIfParts t visit node false head (t.condition part) rest

def visitIfElse (t : SyntaxTree) (visit : Visitor) (node : NodeId) (head : Option InstructionId)
    (last : Option NodeId) : Option NodeId → Build Unit
  | some elsePart => do
    discard (startConditional t elsePart last false)
    visit elsePart
    addPending (some node) (← cursor)
  | none => addPending (some node) head

def visitIf (t : SyntaxTree) (visit : Visitor) (node : NodeId) : Build Unit := do
  discard (startNode t node)
  let (head, last) ← visitIfParts t visit node true (← cursor) none (t.ifParts node)
  setCursor head
  visitIfElse t visit node head last (t.elsePart node)
  abrupt

/-- A loop without an `else` clause is left where no further round begins. -/
def visitSkip (t : SyntaxTree) (node : NodeId) (head : Option InstructionId) : Build Unit :=
  if (t.elsePart node).isNone then addPending (some node) head else pure ()

def visitWhileBody (t : SyntaxTree) (visit : Visitor) (node : NodeId) (header : InstructionId) :
    Option NodeId → Build Unit
  | some body => do
    discard (startConditional t body (t.condition node) true)
    visit body
    addEdges header (← takeFallthrough t body)
  | none => pure ()

def visitWhileElse (t : SyntaxTree) (visit : Visitor) (node : NodeId)
    (head : Option InstructionId) : Option NodeId → Build Unit
  | some elsePart => do
    setCursor head
    discard (startConditional t elsePart (t.condition node) false)
    visit elsePart
    addPendings (some node) (← takeFallthrough t elsePart)
  | none => pure ()

def visitWhile (t : SyntaxTree) (visit : Visitor) (node : NodeId) : Build Unit := do
  let header ← startNode t node
  visitCondition t visit (t.condition node)
  let head ← cursor
  visitSkip t node head
  visitWhileBody t visit node header (t.body node)
  visitWhileElse t visit node head (t.elsePart node)
  abrupt
  checkPending t header

/-- The ways out of a `for` body lead back to its start. They are given where an `else` clause
follows; without one they also leave the loop. -/
def closeRound (t : SyntaxTree) (node : NodeId) (first : InstructionId)
    (exits : List InstructionId) : Build (List InstructionId) :=
  if (t.elsePart node).isSome then do
    addEdges first exits
    return exits
  else do
    forEach (fun exit => do addEdge exit first; addPending (some node) (some exit)) exits
    return []

def visitForBody (t : SyntaxTree) (visit : Visitor) (node : NodeId) :
    Option NodeId → Build (List InstructionId)
  | some body => do
    let first ← startNode t body
    forEach visit (t.targets node)
    visit body
    closeRound t node first (← takeFallthrough t body)
  | none => return []

def visitForElse (t : SyntaxTree) (visit : Visitor) (node : NodeId)
    (exhausted : List InstructionId) : Option NodeId → Build Unit
  | some elsePart => do
    let entry ← startNode t elsePart
    addEdges entry exhausted
    visit elsePart
    addPendings (some node) (← takeFallthrough t elsePart)
  | none => pure ()

def visitFor (t : SyntaxTree) (visit : Visitor) (node : NodeId) : Build Unit := do
  discard (startNode t node)
  visitOption visit (t.iterable node)
  let head ← cursor
  visitSkip t node head
  let exhausted ← visitForBody t visit node (t.body node)
  setCursor head
  visitForElse t visit node exhausted (t.elsePart node)
  abrupt

/-- A `break` outside of every loop falls through. -/
def visitBreak (t : SyntaxTree) (node : NodeId) : Build Unit := do
  discard (startNode t node)
  match t.enclosingLoop node with
  | some loop =>
    addPending (some loop) (← cursor)
    abrupt
  | none => pure ()

/-- A `continue` goes back to its loop's header, if this build has made one. -/
def visitContinue (t : SyntaxTree) (node : NodeId) : Build Unit := do
  let jump ← startNode t node
  match ← latest (t.enclosingLoop node) with
  | some header =>
    addEdge jump header
    abrupt
  | none => pure ()

/-- `return` and `raise` leave the owner, and what is pending inside their expression leaves with
them. -/
def visitExit (t : SyntaxTree) (visit : Visitor) (node : NodeId) : Build Unit := do
  discard (startNode t node)
  visitChildren t visit node
  processPending (rescopeWithin t node none)
  addPending none (← cursor)
  abrupt

/-- The `finally` clause of a `try` statement: its node, its entry and the ways out of it. -/
structure Finally where
  part : NodeId
  entry : InstructionId
  exits : List InstructionId

/-- The entry of a `try` body and the ways out of it. Without a body both are the statement. -/
def visitTryBody (t : SyntaxTree) (visit : Visitor) (statement : InstructionId) :
    Option NodeId → Build (InstructionId × List InstructionId)
  | some part => do
    let entry ← startNode t part
    visit part
    return (entry, ← takeFallthrough t part)
  | none => return (statement, [statement])

/-- The `else` clause runs only when the body falls through. -/
def visitTryElse (t : SyntaxTree) (visit : Visitor) (node : NodeId)
    (bodyExits : List InstructionId) : Option NodeId → Build Unit
  | some part => do
    abrupt
    let entry ← startNode t part
    addEdges entry bodyExits
    visit part
    addPendings (some node) (← takeFallthrough t part)
  | none => addPendings (some node) bodyExits

/-- A handler is entered from the start of the body and from each way out of it. -/
def visitHandler (t : SyntaxTree) (visit : Visitor) (node : NodeId) (bodyEntry : InstructionId)
    (bodyExits : List InstructionId) (part : NodeId) : Build InstructionId := do
  abrupt
  let handler ← startNode t part
  addEdge bodyEntry handler
  addEdges handler bodyExits
  visit part
  addPendings (some node) (← takeFallthrough t part)
  return handler

def visitHandlers (t : SyntaxTree) (visit : Visitor) (node : NodeId) (bodyEntry : InstructionId)
    (bodyExits : List InstructionId) : List NodeId → Build (List InstructionId)
  | [] => return []
  | part :: rest => do
    let handler ← visitHandler t visit node bodyEntry bodyExits part
    return handler :: (← visitHandlers t visit node bodyEntry bodyExits rest)

def visitFinally (t : SyntaxTree) (visit : Visitor) : Option NodeId → Build (Option Finally)
  | some part => do
    abrupt
    let entry ← startNode t part
    visit part
    let exits ← takeFallthrough t part
    addPendings (some part) exits
    return some ⟨part, entry, exits⟩
  | none => return none

def raisedInBody (t : SyntaxTree) (tryPart : Option NodeId) (element : NodeId) : Bool :=
  match tryPart with
  | some part =>
    (t.ancestorOfKind element .raiseExit (some part)).isSome && t.isDescendantOf element part
  | none => false

/-- Sends an edge that leaves the statement through its `finally` clause. One that leaves the
whole statement goes on from every way out of the clause. -/
def throughFinally (t : SyntaxTree) (node : NodeId) (f : Finally) (e : PendingEdge) :
    Build Unit := do
  addEdge e.source f.entry
  let inside ← check (e.scopedWithin t node)
  unless inside do addPendings e.scope f.exits

/-- What becomes of an edge that is pending when a `try` statement ends. An edge from outside the
statement stays. A raise in the body goes to every handler, if there is one. What is left goes
through the `finally` clause, unless it comes from there. -/
def settle (t : SyntaxTree) (node : NodeId) (handlers : List InstructionId)
    (finally? : Option Finally) (e : PendingEdge) : Build Unit := do
  let keep := addPending e.scope (some e.source)
  match ← elementOf e.source with
  | none => keep
  | some element =>
    if ← check (t.descends element node) then
      if raisedInBody t (t.tryPart node) element && !handlers.isEmpty then
        forEach (addEdge e.source) handlers
      else match finally? with
        | some f =>
          if e.scope != some f.part && !t.isDescendantOf element f.part then
            throughFinally t node f e
          else keep
        | none => keep
    else keep

/-- The ways out of a clause are taken before the next clause starts, so that none of them lands on
it. -/
def visitTry (t : SyntaxTree) (visit : Visitor) (node : NodeId) : Build Unit := do
  let statement ← startNode t node
  let (bodyEntry, bodyExits) ← visitTryBody t visit statement (t.tryPart node)
  visitTryElse t visit node bodyExits (t.elsePart node)
  let handlers ← visitHandlers t visit node bodyEntry bodyExits (t.exceptParts node)
  let finally? ← visitFinally t visit (t.finallyPart node)
  processPending (settle t node handlers finally?)
  abrupt

/-- A filter of a comprehension: flow goes on when it holds, and leaves the comprehension when it
does not. -/
def visitFilter (t : SyntaxTree) (visit : Visitor) (node clause : NodeId) : Build Unit :=
  match t.condition clause with
  | some condition => do
    visit condition
    let head ← cursor
    let kept ← startConditional t condition (some condition) true
    setCursor head
    let skipped ← startConditional t condition (some condition) false
    addPending (some node) (some skipped)
    setCursor (some kept)
  | none => pure ()

def visitClause (t : SyntaxTree) (visit : Visitor) (clause : NodeId) : Build Unit := do
  visitOption visit (t.iterable clause)
  forEach visit (t.targets clause)

def visitComprehension (t : SyntaxTree) (visit : Visitor) (node : NodeId) : Build Unit := do
  discard (startNode t node)
  forEach (visitFilter t visit node) (t.comprehensionIfs node)
  forEach (visitClause t visit) (t.comprehensionFors node)
  visitOption visit (t.comprehensionResult node)

def dispatch (t : SyntaxTree) (visit : Visitor) (node : NodeId) : Build Unit :=
  match t.kind node with
  | .functionDef | .classDef => visitDefinition t node
  | .lambda => pure ()
  | .statement | .importStatement => visitStatement t visit node
  | .assignment => visitAssignment t visit node
  | .target | .parameter | .importBinding => visitBinding t visit node
  | .ifStatement => visitIf t visit node
  | .whileLoop => visitWhile t visit node
  | .forLoop => visitFor t visit node
  | .breakJump => visitBreak t node
  | .continueJump => visitContinue t node
  | .returnExit | .raiseExit => visitExit t visit node
  | .tryStatement => visitTry t visit node
  | .comprehension => visitComprehension t visit node
  | .module | .parameters | .block | .ifPart | .elifPart | .elsePart | .tryPart | .exceptPart
  | .finallyPart | .comprehensionFor | .comprehensionIf | .expression =>
    visitChildren t visit node

/-- One instruction stands for everything below a node that lies too deep. -/
def truncate (t : SyntaxTree) (node : NodeId) : Build Unit := do
  modify fun st => { st with truncated := node :: st.truncated }
  discard (startNode t node)

def enter (s : Setting) (node : NodeId) : Build Unit := do
  check (s.tree.require node)
  if (s.tree.kind node).isStatement then checkpoint s

def oneDeeper (p : Build Unit) : Build Unit := ExceptT.mk do
  modify fun st => { st with depth := st.depth + 1 }
  let outcome ← p.run
  modify fun st => { st with depth := st.depth - 1 }
  return outcome

/-- Visits a node, of which `entering` takes notice first. Where the visitor has gone down as far as
it may, the node is recorded by one instruction. More than `levels` levels are never followed. -/
def visitWith (s : Setting) (entering : Visitor) : Nat → NodeId → Build Unit
  | 0, node => do
    entering node
    truncate s.tree node
  | levels + 1, node => do
    entering node
    if s.maxDepth ≤ (← get).depth then truncate s.tree node
    else oneDeeper (dispatch s.tree (visitWith s entering levels) node)

/-- Visits what belongs to an owner's own graph; a node that is no owner is visited itself. -/
def visitOwnerWith (s : Setting) (entering : Visitor) (owner : NodeId) : Build Unit := do
  modify fun st => { st with depth := 0 }
  check (s.tree.require owner)
  -- With one level more than the limit it is the visitor's count that ends the descent.
  let visit := visitWith s entering (s.maxDepth + 1)
  if (s.tree.kind owner).isOwner then visitChildren s.tree visit owner else visit owner

def visitOwner (s : Setting) : NodeId → Build Unit := visitOwnerWith s (enter s)

end PythonFlow.Visit
