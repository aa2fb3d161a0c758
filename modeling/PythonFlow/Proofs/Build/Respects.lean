import PythonFlow.Flow.Visit

/-!
# What passes through every rule

Many a property of a build is one of its single steps, kept by putting steps together: that a count never
falls, that a graph stays in good order, that two builds go the same way. `Respects R` says this of a
relation between two steps, and every rule then carries the relation from the visits of the nodes below to
its own. A property of one build is a relation that does not look at the other.
-/

set_option autoImplicit false

namespace PythonFlow
open Build Visit

def Build.takeAll : Build PendingEdges :=
  modifyGet fun st => (st.pending, { st with pending := [] })

structure Respects (R : ∀ α : Type, Build α → Build α → Prop) : Prop where
  protected pure : ∀ {α : Type} (a : α), R α (pure a) (pure a)
  protected bind : ∀ {α β : Type} {p q : Build α} {f g : α → Build β}, R α p q →
    (∀ a, R β (f a) (g a)) → R β (p >>= f) (q >>= g)
  protected fail : ∀ {α : Type} (e : Fault), R α (fail e) (fail e)
  protected cursor : R _ cursor cursor
  protected set_cursor : ∀ c, R _ (setCursor c) (setCursor c)
  protected create : ∀ el kind, R _ (create el kind) (create el kind)
  protected add_edge : ∀ a b, R _ (addEdge a b) (addEdge a b)
  protected add_pending : ∀ n c, R _ (addPending n c) (addPending n c)
  protected take_part : ∀ f, R _ (takePart f) (takePart f)
  protected take_all : R _ takeAll takeAll
  protected element_of : ∀ id, R _ (elementOf id) (elementOf id)
  protected latest : ∀ el, R _ (latest el) (latest el)

namespace Respects
variable {R : ∀ α : Type, Build α → Build α → Prop} (hR : Respects R)
include hR

section steps
variable {α : Type}

protected theorem unit : R _ (pure ()) (pure ()) := hR.pure ()

protected theorem discard {p q : Build α} (h : R _ p q) :
    R _ (Functor.discard p) (Functor.discard q) := hR.bind h fun _ => hR.unit

protected theorem check (e : Except Fault α) : R _ (check e) (check e) := by
  cases e with
  | ok a => exact hR.pure a
  | error e => exact hR.fail e

protected theorem abrupt : R _ abrupt abrupt := hR.set_cursor none

theorem add_edges (b : InstructionId) (l : List InstructionId) : R _ (addEdges b l) (addEdges b l) := by
  induction l with
  | nil => exact hR.unit
  | cons a l ih => exact hR.bind (hR.add_edge a b) fun _ => ih

theorem add_pendings (n : Option NodeId) (l : List InstructionId) :
    R _ (addPendings n l) (addPendings n l) := by
  induction l with
  | nil => exact hR.unit
  | cons a l ih => exact hR.bind (hR.add_pending n (some a)) fun _ => ih

theorem for_each {f g : α → Build Unit} (l : List α) (h : ∀ a ∈ l, R _ (f a) (g a)) :
    R _ (forEach f l) (forEach g l) := by
  induction l with
  | nil => exact hR.unit
  | cons a l ih => exact hR.bind (h a (by simp)) fun _ => ih fun b hb => h b (by simp [hb])

theorem process {f : PendingEdge → Build Unit} (h : ∀ e, R _ (f e) (f e)) :
    R _ (processPending f) (processPending f) :=
  hR.bind hR.take_all fun edges => hR.for_each edges fun e _ => h e

variable (t : SyntaxTree)

theorem check_pending (id : InstructionId) : R _ (checkPending t id) (checkPending t id) :=
  hR.bind (hR.element_of id) fun _ => hR.bind (hR.take_part _) fun _ => hR.add_edges _ _

theorem add_node (el : Option NodeId) (kind : InstructionKind) :
    R _ (addNode t el kind) (addNode t el kind) := by
  refine hR.bind (hR.create el kind) fun id => hR.bind hR.cursor fun c => ?_
  have harrive : R _ (do checkPending t id; setCursor (some id); return id)
      (do checkPending t id; setCursor (some id); return id) :=
    hR.bind (hR.check_pending t id) fun _ => hR.bind (hR.set_cursor (some id)) fun _ => hR.pure id
  cases c with
  | none => exact harrive
  | some a => exact hR.bind (hR.add_edge a id) fun _ => harrive

theorem drain (n : NodeId) : R _ (drainPendingWithin t n) (drainPendingWithin t n) := hR.take_part _

theorem fallthrough (n : NodeId) : R _ (takeFallthrough t n) (takeFallthrough t n) :=
  hR.bind hR.cursor fun _ => hR.bind (hR.drain t n) fun _ => hR.pure _

end steps

section rules
variable {t : SyntaxTree} {visit deeper : Visitor} (hV : ∀ n, R _ (visit n) (deeper n))

theorem start_node (n : NodeId) : R _ (startNode t n) (startNode t n) := hR.add_node t _ _

theorem start_conditional (n : NodeId) (c : Option NodeId) (outcome : Bool) :
    R _ (startConditional t n c outcome) (startConditional t n c outcome) := hR.add_node t _ _

theorem definition (s : NodeId) : R _ (visitDefinition t s) (visitDefinition t s) := by
  unfold visitDefinition
  cases t.name s with
  | some name => exact hR.discard (hR.add_node t _ _)
  | none => exact hR.discard (hR.start_node s)

theorem breakJump (s : NodeId) : R _ (visitBreak t s) (visitBreak t s) := by
  refine hR.bind (hR.discard (hR.start_node s)) fun _ => ?_
  cases t.enclosingLoop s with
  | none => exact hR.unit
  | some loop =>
    exact hR.bind hR.cursor fun _ => hR.bind (hR.add_pending _ _) fun _ => hR.abrupt

theorem continueJump (s : NodeId) : R _ (visitContinue t s) (visitContinue t s) := by
  refine hR.bind (hR.start_node s) fun jump => hR.bind (hR.latest _) fun header => ?_
  cases header with
  | none => exact hR.unit
  | some header => exact hR.bind (hR.add_edge jump header) fun _ => hR.abrupt

theorem join (c : NodeId) : R _ (joinCondition t c) (joinCondition t c) := by
  refine hR.bind (hR.drain t c) fun inner => ?_
  cases inner with
  | nil => exact hR.unit
  | cons e inner => exact hR.bind (hR.start_node c) fun _ => hR.add_edges _ _

theorem rescope (p : NodeId) (scope : Option NodeId) :
    R _ (processPending (rescopeWithin t p scope)) (processPending (rescopeWithin t p scope)) := by
  refine hR.process fun e => hR.bind (hR.check _) fun inside => ?_
  cases inside <;> exact hR.add_pending _ _

theorem partEntry (first : Bool) (head : Option InstructionId) (last : Option NodeId)
    (p : NodeId) : R _ (visitPartEntry t first head last p) (visitPartEntry t first head last p) := by
  cases first with
  | true => exact hR.unit
  | false => exact hR.bind (hR.set_cursor head) fun _ => hR.discard (hR.start_conditional p last false)

theorem skip (s : NodeId) (head : Option InstructionId) :
    R _ (visitSkip t s head) (visitSkip t s head) := by
  unfold visitSkip
  split
  · exact hR.add_pending _ _
  · exact hR.unit

theorem close_round (s : NodeId) (first : InstructionId) (exits : List InstructionId) :
    R _ (closeRound t s first exits) (closeRound t s first exits) := by
  unfold closeRound
  split
  · exact hR.bind (hR.add_edges _ _) fun _ => hR.pure _
  · refine hR.bind (hR.for_each exits fun exit _ => ?_) fun _ => hR.pure _
    exact hR.bind (hR.add_edge _ _) fun _ => hR.add_pending _ _

theorem through (s : NodeId) (f : Finally) (e : PendingEdge) :
    R _ (throughFinally t s f e) (throughFinally t s f e) := by
  refine hR.bind (hR.add_edge _ _) fun _ => hR.bind (hR.check _) fun inside => ?_
  cases inside with
  | true => exact hR.unit
  | false => exact hR.add_pendings _ _

theorem settle_edge (s : NodeId) (handlers : List InstructionId) (finally? : Option Finally)
    (e : PendingEdge) : R _ (settle t s handlers finally? e) (settle t s handlers finally? e) := by
  have hkeep := hR.add_pending e.scope (some e.source)
  refine hR.bind (hR.element_of _) fun element => ?_
  cases element with
  | none => exact hkeep
  | some element =>
    refine hR.bind (hR.check _) fun inside => ?_
    cases inside with
    | false => exact hkeep
    | true =>
      rw [if_pos rfl]
      split
      · exact hR.for_each handlers fun b _ => hR.add_edge e.source b
      · cases finally? with
        | none => exact hkeep
        | some f =>
          show R _ (if _ then throughFinally t s f e else _) (if _ then _ else _)
          split
          · exact hR.through s f e
          · exact hkeep

include hV

theorem of_option (o : Option NodeId) : R _ (visitOption visit o) (visitOption deeper o) := by
  cases o with
  | none => exact hR.unit
  | some n => exact hV n

theorem each (nodes : List NodeId) : R _ (forEach visit nodes) (forEach deeper nodes) :=
  hR.for_each nodes fun n _ => hV n

theorem children (s : NodeId) :
    R _ (visitChildren t visit s) (visitChildren t deeper s) := hR.each hV (t.children s)

theorem statement (s : NodeId) :
    R _ (visitStatement t visit s) (visitStatement t deeper s) :=
  hR.bind (hR.discard (hR.start_node s)) fun _ => hR.children hV s

theorem assignment (s : NodeId) :
    R _ (visitAssignment t visit s) (visitAssignment t deeper s) :=
  hR.bind (hR.discard (hR.start_node s)) fun _ => hR.bind (hR.of_option hV _) fun _ => hR.each hV _

theorem binding (s : NodeId) :
    R _ (visitBinding t visit s) (visitBinding t deeper s) := by
  unfold visitBinding
  cases t.name s with
  | some name => exact hR.discard (hR.add_node t _ _)
  | none => exact hR.children hV s

theorem leaving (s : NodeId) : R _ (visitExit t visit s) (visitExit t deeper s) :=
  hR.bind (hR.discard (hR.start_node s)) fun _ => hR.bind (hR.children hV s) fun _ =>
    hR.bind (hR.rescope s none) fun _ => hR.bind hR.cursor fun _ =>
    hR.bind (hR.add_pending _ _) fun _ => hR.abrupt

theorem condition (o : Option NodeId) :
    R _ (visitCondition t visit o) (visitCondition t deeper o) := by
  cases o with
  | none => exact hR.unit
  | some c => exact hR.bind (hV c) fun _ => hR.join c

theorem partBody (p : NodeId) :
    R _ (visitPartBody t visit p) (visitPartBody t deeper p) :=
  hR.bind (hR.discard (hR.start_conditional _ _ _)) fun _ => hR.of_option hV _

theorem ifParts (s : NodeId) (first : Bool) (head : Option InstructionId)
    (last : Option NodeId) (parts : List NodeId) :
    R _ (visitIfParts t visit s first head last parts)
      (visitIfParts t deeper s first head last parts) := by
  induction parts generalizing first head last with
  | nil => exact hR.pure _
  | cons p parts ih =>
    exact hR.bind (hR.partEntry first head last p) fun _ => hR.bind (hR.condition hV _) fun _ =>
      hR.bind hR.cursor fun _ => hR.bind (hR.partBody hV p) fun _ =>
      hR.bind (hR.rescope p (some s)) fun _ => hR.bind hR.cursor fun _ =>
      hR.bind (hR.add_pending _ _) fun _ => ih false _ _

theorem ifElse (s : NodeId) (head : Option InstructionId) (last o : Option NodeId) :
    R _ (visitIfElse t visit s head last o) (visitIfElse t deeper s head last o) := by
  cases o with
  | none => exact hR.add_pending _ _
  | some p =>
    exact hR.bind (hR.discard (hR.start_conditional p last false)) fun _ => hR.bind (hV p) fun _ =>
      hR.bind hR.cursor fun _ => hR.add_pending _ _

theorem conditional (s : NodeId) : R _ (visitIf t visit s) (visitIf t deeper s) :=
  hR.bind (hR.discard (hR.start_node s)) fun _ => hR.bind hR.cursor fun _ =>
    hR.bind (hR.ifParts hV s _ _ _ _) fun _ => hR.bind (hR.set_cursor _) fun _ =>
    hR.bind (hR.ifElse hV s _ _ _) fun _ => hR.abrupt

theorem whileBody (s : NodeId) (header : InstructionId) (o : Option NodeId) :
    R _ (visitWhileBody t visit s header o) (visitWhileBody t deeper s header o) := by
  cases o with
  | none => exact hR.unit
  | some b =>
    exact hR.bind (hR.discard (hR.start_conditional b _ true)) fun _ => hR.bind (hV b) fun _ =>
      hR.bind (hR.fallthrough t b) fun _ => hR.add_edges _ _

theorem whileElse (s : NodeId) (head : Option InstructionId) (o : Option NodeId) :
    R _ (visitWhileElse t visit s head o) (visitWhileElse t deeper s head o) := by
  cases o with
  | none => exact hR.unit
  | some p =>
    exact hR.bind (hR.set_cursor head) fun _ => hR.bind (hR.discard (hR.start_conditional p _ false)) fun _ =>
      hR.bind (hV p) fun _ => hR.bind (hR.fallthrough t p) fun _ => hR.add_pendings _ _

theorem whileLoop (s : NodeId) : R _ (visitWhile t visit s) (visitWhile t deeper s) :=
  hR.bind (hR.start_node s) fun header => hR.bind (hR.condition hV _) fun _ =>
    hR.bind hR.cursor fun _ => hR.bind (hR.skip s _) fun _ =>
    hR.bind (hR.whileBody hV s header _) fun _ => hR.bind (hR.whileElse hV s _ _) fun _ =>
    hR.bind hR.abrupt fun _ => hR.check_pending t header

theorem forBody (s : NodeId) (o : Option NodeId) :
    R _ (visitForBody t visit s o) (visitForBody t deeper s o) := by
  cases o with
  | none => exact hR.pure _
  | some b =>
    exact hR.bind (hR.start_node b) fun first => hR.bind (hR.each hV _) fun _ => hR.bind (hV b) fun _ =>
      hR.bind (hR.fallthrough t b) fun _ => hR.close_round s first _

theorem forElse (s : NodeId) (exhausted : List InstructionId) (o : Option NodeId) :
    R _ (visitForElse t visit s exhausted o) (visitForElse t deeper s exhausted o) := by
  cases o with
  | none => exact hR.unit
  | some p =>
    exact hR.bind (hR.start_node p) fun entry => hR.bind (hR.add_edges entry _) fun _ =>
      hR.bind (hV p) fun _ => hR.bind (hR.fallthrough t p) fun _ => hR.add_pendings _ _

theorem forLoop (s : NodeId) : R _ (visitFor t visit s) (visitFor t deeper s) :=
  hR.bind (hR.discard (hR.start_node s)) fun _ => hR.bind (hR.of_option hV _) fun _ =>
    hR.bind hR.cursor fun _ => hR.bind (hR.skip s _) fun _ =>
    hR.bind (hR.forBody hV s _) fun _ => hR.bind (hR.set_cursor _) fun _ =>
    hR.bind (hR.forElse hV s _ _) fun _ => hR.abrupt

theorem tryBody (statement : InstructionId) (o : Option NodeId) :
    R _ (visitTryBody t visit statement o) (visitTryBody t deeper statement o) := by
  cases o with
  | none => exact hR.pure _
  | some p =>
    exact hR.bind (hR.start_node p) fun _ => hR.bind (hV p) fun _ => hR.bind (hR.fallthrough t p) fun _ =>
      hR.pure _

theorem tryElse (s : NodeId) (exits : List InstructionId) (o : Option NodeId) :
    R _ (visitTryElse t visit s exits o) (visitTryElse t deeper s exits o) := by
  cases o with
  | none => exact hR.add_pendings _ _
  | some p =>
    exact hR.bind hR.abrupt fun _ => hR.bind (hR.start_node p) fun entry =>
      hR.bind (hR.add_edges entry exits) fun _ => hR.bind (hV p) fun _ =>
      hR.bind (hR.fallthrough t p) fun _ => hR.add_pendings _ _

theorem handler (s : NodeId) (entry : InstructionId) (exits : List InstructionId)
    (p : NodeId) :
    R _ (visitHandler t visit s entry exits p) (visitHandler t deeper s entry exits p) :=
  hR.bind hR.abrupt fun _ => hR.bind (hR.start_node p) fun handler =>
    hR.bind (hR.add_edge entry handler) fun _ => hR.bind (hR.add_edges handler exits) fun _ =>
    hR.bind (hV p) fun _ => hR.bind (hR.fallthrough t p) fun _ => hR.bind (hR.add_pendings _ _) fun _ =>
    hR.pure handler

theorem handlers (s : NodeId) (entry : InstructionId) (exits : List InstructionId)
    (parts : List NodeId) :
    R _ (visitHandlers t visit s entry exits parts) (visitHandlers t deeper s entry exits parts) := by
  induction parts with
  | nil => exact hR.pure _
  | cons p parts ih =>
    exact hR.bind (hR.handler hV s entry exits p) fun _ => hR.bind ih fun _ => hR.pure _

theorem finallyClause (o : Option NodeId) :
    R _ (visitFinally t visit o) (visitFinally t deeper o) := by
  cases o with
  | none => exact hR.pure _
  | some p =>
    exact hR.bind hR.abrupt fun _ => hR.bind (hR.start_node p) fun _ => hR.bind (hV p) fun _ =>
      hR.bind (hR.fallthrough t p) fun _ => hR.bind (hR.add_pendings _ _) fun _ => hR.pure _

theorem tryStatement (s : NodeId) : R _ (visitTry t visit s) (visitTry t deeper s) :=
  hR.bind (hR.start_node s) fun statement => hR.bind (hR.tryBody hV statement _) fun body =>
    hR.bind (hR.tryElse hV s body.2 _) fun _ =>
    hR.bind (hR.handlers hV s body.1 body.2 _) fun handlers => hR.bind (hR.finallyClause hV _) fun finally? =>
    hR.bind (hR.process (hR.settle_edge s handlers finally?)) fun _ => hR.abrupt

theorem filterClause (s clause : NodeId) :
    R _ (visitFilter t visit s clause) (visitFilter t deeper s clause) := by
  unfold visitFilter
  cases t.condition clause with
  | none => exact hR.unit
  | some c =>
    exact hR.bind (hV c) fun _ => hR.bind hR.cursor fun head => hR.bind (hR.start_conditional c _ true) fun _ =>
      hR.bind (hR.set_cursor head) fun _ => hR.bind (hR.start_conditional c _ false) fun _ =>
      hR.bind (hR.add_pending _ _) fun _ => hR.set_cursor _

theorem forClause (clause : NodeId) :
    R _ (visitClause t visit clause) (visitClause t deeper clause) :=
  hR.bind (hR.of_option hV _) fun _ => hR.each hV _

theorem comprehension (s : NodeId) :
    R _ (visitComprehension t visit s) (visitComprehension t deeper s) :=
  hR.bind (hR.discard (hR.start_node s)) fun _ =>
    hR.bind (hR.for_each _ fun clause _ => hR.filterClause hV s clause) fun _ =>
    hR.bind (hR.for_each _ fun clause _ => hR.forClause hV clause) fun _ => hR.of_option hV _

theorem rule (s : NodeId) : R _ (dispatch t visit s) (dispatch t deeper s) := by
  unfold dispatch
  cases t.kind s with
  | functionDef | classDef => exact hR.definition s
  | lambda => exact hR.unit
  | statement | importStatement => exact hR.statement hV s
  | assignment => exact hR.assignment hV s
  | target | parameter | importBinding => exact hR.binding hV s
  | ifStatement => exact hR.conditional hV s
  | whileLoop => exact hR.whileLoop hV s
  | forLoop => exact hR.forLoop hV s
  | breakJump => exact hR.breakJump s
  | continueJump => exact hR.continueJump s
  | returnExit | raiseExit => exact hR.leaving hV s
  | tryStatement => exact hR.tryStatement hV s
  | comprehension => exact hR.comprehension hV s
  | module | parameters | block | ifPart | elifPart | elsePart | tryPart | exceptPart
  | finallyPart | comprehensionFor | comprehensionIf | expression => exact hR.children hV s

end rules
end Respects
end PythonFlow
