import PythonFlow.Proofs.Growing.Expression

/-!
# Lowering statements onto a growing tree

The rules for statements, followed push by push as those for expressions are. A statement is pushed before
what stands in it, and its parts one after the other, each with all that is below it. What stands in a field
of a node, or among its children, has fewer nodes than it, so the steps come to an end.
-/

set_option autoImplicit false

namespace PythonFlow

namespace Concrete
variable {c d : Concrete} {field kind : String}

theorem size_lt_of_mem (h : d ∈ c.children) : d.size < c.size :=
  Nat.lt_of_le_of_lt (size_le_of_mem h) (size_all_lt (List.Sublist.refl _))

theorem size_proper (h : d ∈ c.properChildren) : d.size < c.size :=
  size_lt_of_mem (List.mem_filter.1 h).1

theorem size_in (h : d ∈ c.childrenIn field) : d.size < c.size :=
  size_lt_of_mem (List.mem_filter.1 h).1

theorem size_child (h : c.child? field = some d) : d.size < c.size :=
  size_lt_of_mem (List.mem_of_find?_eq_some h)

theorem size_of_kind (h : c.childOfKind? kind = some d) : d.size < c.size :=
  size_lt_of_mem (List.mem_of_find?_eq_some h)

def elseBody? (c : Concrete) : Option Concrete := (c.child? "body").or (c.childOfKind? "block")

theorem size_else_body (h : c.elseBody? = some d) : d.size < c.size := by
  rcases Option.or_eq_some_iff.1 h with h | ⟨-, h⟩
  · exact size_child h
  · exact size_of_kind h

end Concrete

namespace Growing
open Lowering Concrete

def setSpan (id : NodeId) (span : Span) : Growing Unit := change id (·.setSpan id span)

def each {α : Type} (cs : List Concrete) (step : (c : Concrete) → c ∈ cs → Growing α) : Growing Unit :=
  cs.attach.forM fun c => discard (step c.1 c.2)

def ifAny {α : Type} (c : Option Concrete) (step : (d : Concrete) → c = some d → Growing α) :
    Growing Unit :=
  match c, step with
  | some d, step => discard (step d rfl)
  | none, _ => pure ()

section simple
variable (source : String) (parent : NodeId) (role : Role)

/-- The left sides along a chain of assignments, behind those that were met before, and the value at
its end. -/
def chainSides (lefts : List Concrete) (c : Concrete) : List Concrete × Option Concrete :=
  let lefts := lefts ++ (c.child? "left").toList
  match _h : c.child? "right" with
  | some right => if isAssignment right.kind then chainSides lefts right else (lefts, some right)
  | none => (lefts, none)
termination_by c.size
decreasing_by exact size_child _h

/-- Pushes an assignment for a chain with a value, and nothing for one without. -/
def growAssignment (statement assignment : Concrete) : Growing (Option NodeId) :=
  match chainSides [] assignment with
  | (targets, some value) => do
    let id ← enter source parent .assignment role statement
    discard (growExpression source id .value value)
    growTargets source id .target targets
    return some id
  | (_, none) => return none

def growExpressionStatement (c : Concrete) : Growing NodeId := do
  let assigned ← match c.properChildren with
    | [only] => if isAssignment only.kind then growAssignment source parent role c only else pure none
    | _ => pure none
  match assigned with
  | some id => return id
  | none =>
    let id ← enter source parent .statement role c
    growExpressions source id .plain c.properChildren
    return id

def growImported (fromModule : Bool) (c : Concrete) : Growing Unit :=
  match importedName source fromModule c with
  | some name => discard (enterNamed source parent .importBinding .plain c name)
  | none => pure ()

def growImport (fromModule : Bool) (c : Concrete) : Growing NodeId := do
  let id ← enter source parent .importStatement role c
  (c.childrenIn "name").forM (growImported source id fromModule)
  return id

def growLeaving (kind : SyntaxKind) (c : Concrete) : Growing NodeId := do
  let id ← enter source parent kind role c
  growExpressions source id .value c.properChildren
  return id

/-- A part of a conditional reaches from its keyword to the end of its suite. -/
def enterPart (kind : SyntaxKind) (header clause : Concrete) : Growing NodeId := do
  let id ← enter source parent kind .plain clause
  match clause.child? "consequence" with
  | some suite =>
    setSpan id ⟨header.span.startLine, header.span.startCol, suite.span.endLine, suite.span.endCol⟩
  | none => pure ()
  return id

def enterDefinition (kind : SyntaxKind) (c : Concrete) : Growing NodeId := do
  let id ← enter source parent kind role c
  match c.child? "name" with
  | some name => setName id (name.text source)
  | none => pure ()
  return id

end simple

mutual

def growBlock (source : String) (parent : NodeId) (role : Role) (c : Concrete) : Growing NodeId := do
  let id ← push parent .block role c.span
  each c.properChildren fun d _h => growStatement source id .plain d
  return id
termination_by (c.size, 0)
decreasing_by exact .left _ _ (size_proper _h)

def growStatement (source : String) (parent : NodeId) (role : Role) (c : Concrete) :
    Growing (Option NodeId) :=
  match statementRule role c.kind with
  | .skip => return none
  | .expressionStatement role => some <$> growExpressionStatement source parent role c
  | .importing role fromModule => some <$> growImport source parent role fromModule c
  | .conditional role => some <$> growIf source parent role c
  | .whileLoop role => some <$> growWhile source parent role c
  | .forLoop role => some <$> growFor source parent role c
  | .leaf kind role => some <$> enter source parent kind role c
  | .leaving kind role => some <$> growLeaving source parent role kind c
  | .trying role => some <$> growTry source parent role c
  | .function role => some <$> growFunction source parent role c
  | .classDefinition role => some <$> growClass source parent role c
  | .decorated role =>
    match _h : c.child? "definition" with
    | some definition => growStatement source parent role definition
    | none => return none
  | .block role => some <$> growBlock source parent role c
  | _ => some <$> growGeneric source parent role c
termination_by (c.size, 2)
decreasing_by
  all_goals first
    | exact .right _ (by decide)
    | exact .left _ _ (size_child _h)

def growGeneric (source : String) (parent : NodeId) (role : Role) (c : Concrete) : Growing NodeId := do
  let id ← enter source parent .statement role c
  each c.properChildren fun d _h =>
    if d.kind = "block" then discard (growBlock source id .body d)
    else if statementKinds.contains d.kind then discard (growStatement source id .plain d)
    else discard (growExpression source id .plain d)
  return id
termination_by (c.size, 0)
decreasing_by
  all_goals exact .left _ _ (size_proper _h)

def growConditionalPart (source : String) (parent : NodeId) (kind : SyntaxKind)
    (header clause : Concrete) : Growing NodeId := do
  let id ← enterPart source parent kind header clause
  ifAny (clause.child? "condition") fun d _ => growExpression source id .condition d
  ifAny (clause.child? "consequence") fun d _h => growBlock source id .body d
  return id
termination_by (clause.size, 0)
decreasing_by exact .left _ _ (size_child _h)

def growElse (source : String) (parent : NodeId) (c : Concrete) : Growing NodeId := do
  let id ← enter source parent .elsePart .plain c
  ifAny c.elseBody? fun d _h => growBlock source id .body d
  return id
termination_by (c.size, 0)
decreasing_by exact .left _ _ (size_else_body _h)

def growIf (source : String) (parent : NodeId) (role : Role) (c : Concrete) : Growing NodeId := do
  let id ← enter source parent .ifStatement role c
  discard (growConditionalPart source id .ifPart c c)
  each (c.childrenIn "alternative") fun d _h =>
    if d.kind = "elif_clause" then discard (growConditionalPart source id .elifPart d d)
    else if d.kind = "else_clause" then discard (growElse source id d)
    else pure ()
  return id
termination_by (c.size, 1)
decreasing_by
  · exact .right _ (by decide)
  · exact .left _ _ (size_in _h)
  · exact .left _ _ (size_in _h)

def growWhile (source : String) (parent : NodeId) (role : Role) (c : Concrete) : Growing NodeId := do
  let id ← enter source parent .whileLoop role c
  ifAny (c.child? "condition") fun d _ => growExpression source id .condition d
  ifAny (c.child? "body") fun d _h => growBlock source id .body d
  ifAny (c.child? "alternative") fun d _h => growElse source id d
  return id
termination_by (c.size, 0)
decreasing_by
  all_goals exact .left _ _ (size_child _h)

def growFor (source : String) (parent : NodeId) (role : Role) (c : Concrete) : Growing NodeId := do
  let id ← enter source parent .forLoop role c
  ifAny (c.child? "right") fun d _ => growExpression source id .iterable d
  ifAny (c.child? "left") fun d _ => growTarget source id .target d
  ifAny (c.child? "body") fun d _h => growBlock source id .body d
  ifAny (c.child? "alternative") fun d _h => growElse source id d
  return id
termination_by (c.size, 0)
decreasing_by
  all_goals exact .left _ _ (size_child _h)

def growTry (source : String) (parent : NodeId) (role : Role) (c : Concrete) : Growing NodeId := do
  let id ← enter source parent .tryStatement role c
  ifAny (c.child? "body") fun body _h => do
    let part ← push id .tryPart .plain body.span
    setText part "try:"
    growBlock source part .body body
  each c.properChildren fun d _h =>
    match tryClauseRule d.kind with
    | .handler => discard (growHandler source id d)
    | .elsePart => discard (growElse source id d)
    | .finallyPart => do
      let part ← enter source id .finallyPart .plain d
      ifAny (d.childOfKind? "block") fun suite _hsuite => growBlock source part .body suite
    | _ => pure ()
  return id
termination_by (c.size, 0)
decreasing_by
  · exact .left _ _ (size_child _h)
  · exact .left _ _ (size_proper _h)
  · exact .left _ _ (size_proper _h)
  · exact .left _ _ (Nat.lt_trans (size_of_kind _hsuite) (size_proper _h))

def growHandler (source : String) (parent : NodeId) (c : Concrete) : Growing NodeId := do
  let id ← enter source parent .exceptPart .plain c
  discard (c.children.attach.foldlM (fun bound ⟨d, _h⟩ => growCaught source id bound d) false)
  return id
termination_by (c.size, 0)
decreasing_by exact .left _ _ (size_lt_of_mem _h)

/-- A child of a handler, which is bound if it comes next behind `as` or a comma. Whether the one after it
is, is remembered. -/
def growCaught (source : String) (parent : NodeId) (bound : Bool) (c : Concrete) : Growing Bool :=
  if c.kind = "as" ∨ c.kind = "," then return true
  else if c.kind = "block" then do
    discard (growBlock source parent .body c)
    return bound
  else if c.kind = "comment" then return bound
  else if !c.named then return bound
  else if bound then do
    growTarget source parent .target c
    return false
  else do
    discard (growExpression source parent .plain c)
    return bound
termination_by (c.size, 1)
decreasing_by exact .right _ (by decide)

def growFunction (source : String) (parent : NodeId) (role : Role) (c : Concrete) : Growing NodeId := do
  let id ← enterDefinition source parent role .functionDef c
  ifAny (c.child? "parameters") fun d _ => growParameters source id d
  ifAny (c.child? "body") fun d _h => growBlock source id .body d
  return id
termination_by (c.size, 0)
decreasing_by exact .left _ _ (size_child _h)

def growClass (source : String) (parent : NodeId) (role : Role) (c : Concrete) : Growing NodeId := do
  let id ← enterDefinition source parent role .classDef c
  ifAny (c.child? "body") fun d _h => growBlock source id .body d
  return id
termination_by (c.size, 0)
decreasing_by exact .left _ _ (size_child _h)

end

def growModule (source : String) (root : Concrete) : Growing Unit := do
  setName SyntaxTree.root "<module>"
  root.properChildren.forM fun c => discard (growStatement source SyntaxTree.root .plain c)

def tree (source : String) (root : Concrete) : Except Fault SyntaxTree :=
  match (growModule source root).run (.singleton .module root.span) with
  | (.ok (), t) => .ok t
  | (.error f, _) => .error f

end Growing
end PythonFlow
