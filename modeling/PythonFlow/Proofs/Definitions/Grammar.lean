import PythonFlow.Lowering.Module

/-!
# The grammar of concrete trees

What stands where in the concrete tree of a Python source: suites below the statements and clauses that
have one, clauses below their statement, phrases everywhere else, and a field filled once where the
grammar allows one child for it. Punctuation, comments and continued lines are tokens with no definition below
them. The definitions and lambdas of such a tree are listed in the order of the source, and the list can
leave out what belongs to a definition beside its code.
-/

set_option autoImplicit false

namespace PythonFlow

def ownerKind? : String → Option SyntaxKind
  | "function_definition" => some .functionDef
  | "class_definition" => some .classDef
  | "lambda" => some .lambda
  | _ => none

namespace Lowering

/-- Kinds that stand below nodes of particular kinds only, and hold statements. -/
def clauseKinds : List String :=
  ["module", "block", "elif_clause", "else_clause", "except_clause", "except_group_clause",
    "finally_clause", "case_clause"]

def nameKinds : List String :=
  ["dotted_name", "aliased_import", "relative_import", "import_prefix", "wildcard_import",
    "identifier"]

def separators : List String := ["as", ","]

/-- Kinds of expressions, patterns, parameters, names and their parts: no statement, and nothing that
holds statements. -/
def isPhrase (kind : String) : Bool :=
  !statementKinds.contains kind && !clauseKinds.contains kind && !separators.contains kind &&
    !isAssignment kind

def isPlain (kind : String) : Bool := (ownerKind? kind).isNone && !isAssignment kind

structure Place where
  field : String
  takes : String → Bool
  many : Bool

def isSuite (kind : String) : Bool := kind == "block"

def isAlternative (kind : String) : Bool := kind == "elif_clause" || kind == "else_clause"

def isTryClause (kind : String) : Bool :=
  kind == "except_clause" || kind == "except_group_clause" || kind == "else_clause" ||
    kind == "finally_clause"

def isComprehensionClause (kind : String) : Bool := kind == "for_in_clause" || kind == "if_clause"

def places : String → List Place
  | "if_statement" =>
    [⟨"condition", isPhrase, false⟩, ⟨"consequence", isSuite, false⟩,
      ⟨"alternative", isAlternative, true⟩]
  | "elif_clause" => [⟨"condition", isPhrase, false⟩, ⟨"consequence", isSuite, false⟩]
  | "while_statement" =>
    [⟨"condition", isPhrase, false⟩, ⟨"body", isSuite, false⟩,
      ⟨"alternative", (· == "else_clause"), false⟩]
  | "for_statement" =>
    [⟨"right", isPhrase, false⟩, ⟨"left", isPhrase, false⟩, ⟨"body", isSuite, false⟩,
      ⟨"alternative", (· == "else_clause"), false⟩]
  | "else_clause" | "try_statement" | "function_definition" | "class_definition" =>
    [⟨"body", isSuite, false⟩]
  | "decorated_definition" =>
    [⟨"definition", (fun k => k == "function_definition" || k == "class_definition"), false⟩]
  | "lambda" => [⟨"body", isPhrase, false⟩]
  | "list_comprehension" | "set_comprehension" | "dictionary_comprehension"
  | "generator_expression" =>
    [⟨"body", (fun k => isPhrase k && !isComprehensionClause k), false⟩]
  | "for_in_clause" => [⟨"right", isPhrase, true⟩, ⟨"left", isPhrase, false⟩]
  | "named_expression" => [⟨"value", isPhrase, false⟩, ⟨"name", isPhrase, false⟩]
  | "assignment" | "augmented_assignment" =>
    [⟨"right", (fun k => isPhrase k || isAssignment k), false⟩, ⟨"left", isPhrase, false⟩]
  | _ => []

def countedFields : List String :=
  ["condition", "consequence", "alternative", "body", "right", "left", "definition", "value", "name"]

def others (kind child : String) : Bool :=
  match kind with
  | "if_statement" | "elif_clause" | "else_clause" | "while_statement" | "for_statement"
  | "for_in_clause" | "named_expression" | "break_statement" | "continue_statement"
  | "identifier" => false
  -- Names, parameters, annotations, base classes and decorators.
  | "function_definition" | "class_definition" | "decorated_definition" | "lambda" => true
  | "module" => statementKinds.contains child
  | "block" => statementKinds.contains child || child == "case_clause"
  | "try_statement" => isTryClause child
  | "except_clause" | "except_group_clause" => isPhrase child || isSuite child
  | "finally_clause" => isSuite child
  | "import_statement" | "import_from_statement" | "dotted_name" | "aliased_import"
  | "relative_import" | "import_prefix" | "wildcard_import" => nameKinds.contains child
  | "return_statement" | "raise_statement" | "assignment" | "augmented_assignment" => isPhrase child
  | "expression_statement" => isPhrase child || isAssignment child
  | "list_comprehension" | "set_comprehension" | "dictionary_comprehension"
  | "generator_expression" => isComprehensionClause child
  | _ =>
    isPhrase child || statementKinds.contains kind && (statementKinds.contains child || isSuite child) ||
      kind == "case_clause" && isSuite child

end Lowering

namespace Concrete
open Lowering

def isToken (c : Concrete) : Bool := !c.isProper || c.kind == "line_continuation"

def fillsIn (c : Concrete) (field : String) : Bool := c.field == some field

/-- Says of a child of a node of a kind, among its siblings, whether it is left out. -/
abbrev Omission := String → List Concrete → Concrete → Bool

mutual

/-- The definitions and lambdas of a tree with the text that each covers, in the order of the source. -/
def definitions (leaves : Omission) : Concrete → List (SyntaxKind × Span)
  | .node kind named _ extent children =>
    (if named then (ownerKind? kind).toList else []).map (·, extent.span) ++
      definitionsAmong leaves kind children children

def definitionsAmong (leaves : Omission) (kind : String) (siblings : List Concrete) :
    List Concrete → List (SyntaxKind × Span)
  | [] => []
  | c :: rest =>
    (if leaves kind siblings c then [] else c.definitions leaves) ++
      definitionsAmong leaves kind siblings rest

end

/-- What belongs to a definition beside its code: the decorators, everything in a definition or lambda
but its body, and the annotation of an assignment that has a value. -/
def header : Omission := fun kind siblings c =>
  match kind with
  | "function_definition" | "class_definition" | "lambda" => !c.fillsIn "body"
  | "decorated_definition" => !c.fillsIn "definition"
  | "assignment" | "augmented_assignment" =>
    siblings.any (·.fillsIn "right") && !c.fillsIn "left" && !c.fillsIn "right"
  | _ => false

def admits (kind : String) (c : Concrete) : Bool :=
  match (places kind).find? fun p => c.fillsIn p.field with
  | some p => p.takes c.kind
  | none => others kind c.kind

/-- What the kinds of the children do not tell: a filter has one condition, a `finally` clause one suite, and
an assignment is alone in its statement; what is assigned along a chain of assignments has a value. -/
def coheres (kind : String) (children : List Concrete) : Bool :=
  match kind with
  | "list_comprehension" | "set_comprehension" | "dictionary_comprehension" | "generator_expression" =>
    children.all fun c => c.kind != "if_clause" || decide ((c.children.filter isProper).length ≤ 1)
  | "finally_clause" => decide ((children.filter fun c => isSuite c.kind).length ≤ 1)
  | "expression_statement" =>
    decide ((children.filter isProper).length ≤ 1) || children.all fun c => !isAssignment c.kind
  | "assignment" | "augmented_assignment" =>
    children.all fun c => !c.fillsIn "right" || !isAssignment c.kind ||
      c.children.any (·.fillsIn "right")
  | _ => true

/-- Whether a token can be met in the place of something else: it is named, has the kind of a clause, or
fills a field that counts. -/
def isMet (c : Concrete) : Bool :=
  c.named || clauseKinds.contains c.kind || countedFields.any c.fillsIn

/-- Whether the children of a node are what the grammar allows. There is no definition below a token, and
nothing at all below one that can be met. -/
def conforms (c : Concrete) : Bool :=
  if c.isToken then
    (c.definitions fun _ _ _ => false).isEmpty && (!c.isMet || c.children.isEmpty && isPlain c.kind)
  else
    c.children.all (fun d => d.isToken || admits c.kind d) &&
      (places c.kind).all (fun p =>
        p.many || decide ((c.children.filter (·.fillsIn p.field)).length ≤ 1)) &&
      coheres c.kind c.children

mutual

def wellFormed : Concrete → Bool
  | .node kind named field extent children =>
    (Concrete.node kind named field extent children).conforms && allWellFormed children

def allWellFormed : List Concrete → Bool
  | [] => true
  | c :: rest => c.wellFormed && allWellFormed rest

end

end Concrete
end PythonFlow
