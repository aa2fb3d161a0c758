import PythonFlow.Concrete.Node
import PythonFlow.Syntax.Kind

/-!
# Rules of lowering

What becomes of a concrete node depends on its kind and on the place it is met in. A `View` is such
a place, and a `Rule` is what is done there. Kinds of node that no rule names are plain statements
where a statement stands, and plain expressions everywhere else.
-/

set_option autoImplicit false

namespace PythonFlow.Lowering

inductive View where
  | statement (role : Role)
  | block (role : Role)
  /-- Below a statement that has no rule of its own. -/
  | member
  | expression (role : Role)
  | target (role : Role)
  /-- Inside an expression, where only the constructs that decide control flow are kept. -/
  | inner
  | conditionalPart (kind : SyntaxKind)
  | elsePart
  | tryBody
  | tryClause
  | parameters
  | comprehensionClause
  /-- An assignment, for the value at the end of its chain. -/
  | chainValue
  /-- An assignment, for the targets along its chain. -/
  | chainTargets
deriving DecidableEq, Repr

inductive Rule where
  | skip
  | leaf (kind : SyntaxKind) (role : Role)
  | block (role : Role)
  | generic (role : Role)
  | expressionStatement (role : Role)
  | importing (role : Role) (fromModule : Bool)
  | conditional (role : Role)
  | whileLoop (role : Role)
  | forLoop (role : Role)
  | leaving (kind : SyntaxKind) (role : Role)
  | trying (role : Role)
  | function (role : Role)
  | classDefinition (role : Role)
  | decorated (role : Role)
  | expression (role : Role)
  | comprehension (role : Role)
  | lambda (role : Role)
  | namedExpression (role : Role)
  | aliased (role : Role)
  | name (role : Role)
  /-- Nothing of its own: each child is met in the given view. -/
  | group (view : View)
  | conditionalPart (kind : SyntaxKind)
  | elsePart
  | tryBody
  | handler
  | finallyPart
  | parameters
  | comprehensionFor
  | comprehensionIf
  | chainValue
  | chainTargets
deriving DecidableEq, Repr

def statementKinds : List String :=
  ["expression_statement", "import_statement", "import_from_statement",
    "future_import_statement", "if_statement", "while_statement", "for_statement",
    "break_statement", "continue_statement", "return_statement", "raise_statement",
    "try_statement", "with_statement", "function_definition", "class_definition",
    "decorated_definition", "match_statement", "pass_statement", "global_statement",
    "nonlocal_statement", "assert_statement", "delete_statement", "print_statement",
    "exec_statement", "type_alias_statement"]

def targetGroups : List String :=
  ["pattern_list", "tuple_pattern", "list_pattern", "tuple", "list", "expression_list",
    "parenthesized_expression", "list_splat_pattern", "list_splat", "as_pattern_target"]

def isAssignment (kind : String) : Bool :=
  kind == "assignment" || kind == "augmented_assignment"

def statementRule (role : Role) (kind : String) : Rule :=
  match kind with
  | "comment" => .skip
  | "expression_statement" => .expressionStatement role
  | "import_statement" => .importing role false
  | "import_from_statement" => .importing role true
  | "if_statement" => .conditional role
  | "while_statement" => .whileLoop role
  | "for_statement" => .forLoop role
  | "break_statement" => .leaf .breakJump role
  | "continue_statement" => .leaf .continueJump role
  | "return_statement" => .leaving .returnExit role
  | "raise_statement" => .leaving .raiseExit role
  | "try_statement" => .trying role
  | "function_definition" => .function role
  | "class_definition" => .classDefinition role
  | "decorated_definition" => .decorated role
  | "block" => .block role
  | _ => .generic role

/-- The rule of an expression that becomes a node of its own inside any other; none of the rest. -/
def flowRule? (role : Role) (kind : String) : Option Rule :=
  match kind with
  | "list_comprehension" | "set_comprehension" | "dictionary_comprehension"
  | "generator_expression" => some (.comprehension role)
  | "lambda" => some (.lambda role)
  | "named_expression" => some (.namedExpression role)
  | "as_pattern" => some (.aliased role)
  | _ => none

def expressionRule (role : Role) (kind : String) : Rule :=
  (flowRule? role kind).getD (.expression role)

def targetRule (role : Role) (kind : String) : Rule :=
  if kind = "identifier" then .name role
  else if targetGroups.contains kind then .group (.target role)
  else expressionRule role kind

/-- A suite is the body, a statement stays one, and the rest are expressions. -/
def memberRule (kind : String) : Rule :=
  if kind = "block" then .block .body
  else if statementKinds.contains kind then statementRule .plain kind
  else expressionRule .plain kind

def tryClauseRule (kind : String) : Rule :=
  match kind with
  | "except_clause" | "except_group_clause" => .handler
  | "else_clause" => .elsePart
  | "finally_clause" => .finallyPart
  | _ => .skip

def comprehensionClauseRule (kind : String) : Rule :=
  match kind with
  | "for_in_clause" => .comprehensionFor
  | "if_clause" => .comprehensionIf
  | _ => .skip

def View.rule (v : View) (kind : String) : Rule :=
  match v with
  | .statement role => statementRule role kind
  | .block role => .block role
  | .member => memberRule kind
  | .expression role => expressionRule role kind
  | .target role => targetRule role kind
  | .inner => (flowRule? .plain kind).getD (.group .inner)
  | .conditionalPart part => .conditionalPart part
  | .elsePart => .elsePart
  | .tryBody => .tryBody
  | .tryClause => tryClauseRule kind
  | .parameters => .parameters
  | .comprehensionClause => comprehensionClauseRule kind
  | .chainValue => .chainValue
  | .chainTargets => .chainTargets

end PythonFlow.Lowering
