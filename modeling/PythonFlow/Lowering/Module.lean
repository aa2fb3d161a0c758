import PythonFlow.Lowering.Binding
import PythonFlow.Lowering.Rule

/-!
# Lowering a module

Statements stay as they are. An expression becomes one node, and its children are only what decides
control flow inside it: comprehensions, lambdas, and the targets of `:=` and `as`. Everything else
in an expression is left out, and what is kept stands in the order of the source.
-/

set_option autoImplicit false

namespace PythonFlow.Lowering

/-- Says in which view a child is met; a child without a view is left out. -/
abbrev Slot := Concrete → Option View

def fills (field : String) (v : View) : Slot := fun c =>
  if c.field = some field then some v else none

def proper (v : View) : Slot := fun c => if c.isProper then some v else none

def namedAs (kind : String) (v : View) : Slot := fun c =>
  if c.named && c.kind == kind then some v else none

/-- The right side of an assignment: the value, or the next assignment of the chain. -/
def rightSide : Slot :=
  fun c =>
    if c.field = some "right" then
      some (if isAssignment c.kind then .chainValue else .expression .value)
    else none

/-- The suite of an `else` clause, known by its field or by its kind. -/
def elseSuite (children : List Concrete) : Slot :=
  if children.any fun c => c.field == some "body" then fills "body" (.block .body)
  else namedAs "block" (.block .body)

def alternative : Slot := fun c =>
  if c.field = some "alternative" then
    if c.kind = "elif_clause" then some (.conditionalPart .elifPart)
    else if c.kind = "else_clause" then some .elsePart
    else none
  else none

def soleAssignment (children : List Concrete) : Bool :=
  match children.filter Concrete.isProper with
  | [only] => isAssignment only.kind
  | _ => false

def textIn (source : String) (children : List Concrete) (field : String) : Option String :=
  (children.find? fun c => c.field == some field).map (·.text source)

/-- From the start of a conditional part's keyword to the end of its suite. -/
def partSpan (extent : Extent) (children : List Concrete) : Span :=
  match children.find? fun c => c.field == some "consequence" with
  | some suite =>
    ⟨extent.span.startLine, extent.span.startCol, suite.span.endLine, suite.span.endCol⟩
  | none => extent.span

mutual

def lower (source : String) (v : View) : Concrete → List Shape
  | .node kind _ _ extent children =>
    match v.rule kind with
    | .skip => []
    | .leaf k role => [shape source k role extent none []]
    | .block role =>
      [.node .block role extent.span none ""
        (lowerEach source (proper (.statement .plain)) children)]
    | .generic role =>
      [shape source .statement role extent none (lowerEach source (proper .member) children)]
    | .expressionStatement role =>
      match (if soleAssignment children then lowerFirst source (proper .chainValue) children
        else []) with
      | [] =>
        [shape source .statement role extent none
          (lowerEach source (proper (.expression .plain)) children)]
      | value =>
        [shape source .assignment role extent none
          (value ++ lowerFirst source (proper .chainTargets) children)]
    | .chainValue => lowerFirst source rightSide children
    | .chainTargets =>
      lowerFirst source (fills "left" (.target .target)) children ++
        lowerChain source children
    | .importing role fromModule =>
      [shape source .importStatement role extent none
        ((children.filter fun c => c.field == some "name").filterMap
          (importBinding source fromModule))]
    | .conditional role =>
      [shape source .ifStatement role extent none
        (.node .ifPart .plain (partSpan extent children) none
            (Source.snippet (Source.excerpt source extent.first.byte extent.last.byte))
            (lowerFirst source (fills "condition" (.expression .condition)) children ++
              lowerFirst source (fills "consequence" (.block .body)) children) ::
          lowerEach source alternative children)]
    | .conditionalPart k =>
      [.node k .plain (partSpan extent children) none
        (Source.snippet (Source.excerpt source extent.first.byte extent.last.byte))
        (lowerFirst source (fills "condition" (.expression .condition)) children ++
          lowerFirst source (fills "consequence" (.block .body)) children)]
    | .elsePart =>
      [shape source .elsePart .plain extent none
        (lowerFirst source (elseSuite children) children)]
    | .whileLoop role =>
      [shape source .whileLoop role extent none
        (lowerFirst source (fills "condition" (.expression .condition)) children ++
          lowerFirst source (fills "body" (.block .body)) children ++
          lowerFirst source (fills "alternative" .elsePart) children)]
    | .forLoop role =>
      [shape source .forLoop role extent none
        (lowerFirst source (fills "right" (.expression .iterable)) children ++
          lowerFirst source (fills "left" (.target .target)) children ++
          lowerFirst source (fills "body" (.block .body)) children ++
          lowerFirst source (fills "alternative" .elsePart) children)]
    | .leaving k role =>
      [shape source k role extent none
        (lowerEach source (proper (.expression .value)) children)]
    | .trying role =>
      [shape source .tryStatement role extent none
        (lowerFirst source (fills "body" .tryBody) children ++
          lowerEach source (proper .tryClause) children)]
    | .tryBody =>
      [.node .tryPart .plain extent.span none "try:"
        [.node .block .body extent.span none ""
          (lowerEach source (proper (.statement .plain)) children)]]
    | .handler =>
      [shape source .exceptPart .plain extent none (lowerHandler source false children)]
    | .finallyPart =>
      [shape source .finallyPart .plain extent none
        (lowerFirst source (namedAs "block" (.block .body)) children)]
    | .function role =>
      [shape source .functionDef role extent (textIn source children "name")
        (lowerFirst source (fills "parameters" .parameters) children ++
          lowerFirst source (fills "body" (.block .body)) children)]
    | .classDefinition role =>
      [shape source .classDef role extent (textIn source children "name")
        (lowerFirst source (fills "body" (.block .body)) children)]
    | .decorated role => lowerFirst source (fills "definition" (.statement role)) children
    | .parameters =>
      [shape source .parameters .plain extent none
        ((children.filter Concrete.isProper).filterMap (parameterBinding source))]
    | .name role =>
      [shape source .target role extent
        (some (Source.excerpt source extent.first.byte extent.last.byte)) []]
    | .group w => lowerEach source (proper w) children
    | .expression role =>
      [shape source .expression role extent none (lowerEach source (proper .inner) children)]
    | .namedExpression role =>
      [shape source .expression role extent none
        (lowerFirst source (fills "value" (.expression .value)) children ++
          lowerFirst source (fills "name" (.target .target)) children)]
    | .aliased role =>
      [shape source .expression role extent none (lowerAliased source false children)]
    | .lambda role =>
      [shape source .lambda role extent (some "<lambda>")
        (lowerFirst source (fills "parameters" .parameters) children ++
          lowerFirst source (fills "body" (.expression .body)) children)]
    | .comprehension role =>
      [shape source .comprehension role extent none
        (lowerFirst source (fills "body" (.expression .result)) children ++
          lowerEach source (proper .comprehensionClause) children)]
    | .comprehensionFor =>
      [shape source .comprehensionFor .plain extent none
        ((match children.filter fun c => c.field == some "right" with
          | [] => []
          | [_] => lowerFirst source (fills "right" (.expression .iterable)) children
          | first :: _ =>
            [.node .expression .iterable first.span none ""
              (lowerEach source (fills "right" (.expression .plain)) children)]) ++
          lowerFirst source (fills "left" (.target .target)) children)]
    | .comprehensionIf =>
      [shape source .comprehensionIf .plain extent none
        (lowerFirst source (proper (.expression .condition)) children)]

def lowerFirst (source : String) (slot : Slot) : List Concrete → List Shape
  | [] => []
  | c :: rest =>
    match slot c with
    | some v => lower source v c
    | none => lowerFirst source slot rest

def lowerEach (source : String) (slot : Slot) : List Concrete → List Shape
  | [] => []
  | c :: rest =>
    (match slot c with
      | some v => lower source v c
      | none => []) ++ lowerEach source slot rest

def lowerChain (source : String) : List Concrete → List Shape
  | [] => []
  | c :: rest =>
    if c.field = some "right" then
      (if isAssignment c.kind then lower source .chainTargets c else [])
    else lowerChain source rest

/-- Children of an `as` pattern: the alias is a target, the others are values. -/
def lowerAliased (source : String) (found : Bool) : List Concrete → List Shape
  | [] => []
  | c :: rest =>
    let isAlias := !found && c.field == some "alias"
    (if c.isProper then
        lower source (if isAlias then .target .target else .expression .value) c
      else []) ++ lowerAliased source (found || isAlias) rest

/-- Children of a handler: what follows `as`, or a comma, is a target. -/
def lowerHandler (source : String) (bound : Bool) : List Concrete → List Shape
  | [] => []
  | c :: rest =>
    if c.kind = "as" ∨ c.kind = "," then lowerHandler source true rest
    else if c.kind = "block" then
      lower source (.block .body) c ++ lowerHandler source bound rest
    else if !c.isProper then lowerHandler source bound rest
    else if bound then lower source (.target .target) c ++ lowerHandler source false rest
    else lower source (.expression .plain) c ++ lowerHandler source bound rest

end

def module (source : String) (root : Concrete) : Shape :=
  .node .module .plain root.span (some "<module>") ""
    (lowerEach source (proper (.statement .plain)) root.children)

def tree (source : String) (root : Concrete) : SyntaxTree := (module source root).toTree

end PythonFlow.Lowering
