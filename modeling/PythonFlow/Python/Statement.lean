import PythonFlow.Python.Expression

/-!
# Statements of Python

A statement ends with its last token. A suite on lines of its own ends where its layout says, and a
suite behind its colon ends with its line. The cases of a `match` statement form one suite that
starts where the line above it ends.
-/

set_option autoImplicit false

namespace PythonFlow.Python
open PythonFlow.Python.Parser

/-! ## Simple statements -/

def assigned (g : Grammar) : Parser Piece := yield g <|> expressions g "expression_list"

/-- A chain of assignments: each but the last of the parts is a target. -/
def assignmentChain (left : Piece) : List (Piece × Piece) → Piece
  | [] => left
  | (equals, right) :: rest =>
    .branch "assignment"
      [left.filling "left", equals, (assignmentChain right rest).filling "right"]

def augmentedOperators : List String :=
  ["+=", "-=", "*=", "/=", "//=", "%=", "@=", "**=", ">>=", "<<=", "&=", "^=", "|="]

def annotatedAssignment (g : Grammar) (left : Piece) : Parser Piece := do
  let colon ← word ":"
  let type := Piece.branch "type" [← g .expression]
  let value ← maybe do return [← word "=", (← assigned g).filling "right"]
  return .branch "assignment" (left.filling "left" :: colon :: type.filling "type" :: value)

def augmentedAssignment (g : Grammar) (left : Piece) : Parser Piece := do
  let operator ← anyWord augmentedOperators
  let right ← assigned g
  return .branch "augmented_assignment"
    [left.filling "left", operator.filling "operator", right.filling "right"]

def expressionStatement (g : Grammar) : Parser Piece :=
  (do return .branch "expression_statement" [← yield g])
  <|> (do
    let parts ← commaList (g .expression)
    let left := Piece.oneOr "pattern_list" parts
    (do
      let first := (← word "=", ← assigned g)
      let rest ← many do return (← word "=", ← assigned g)
      return .branch "expression_statement" [assignmentChain left (first :: rest)])
    <|> (do return .branch "expression_statement" [← augmentedAssignment g left])
    <|> (do return .branch "expression_statement" [← annotatedAssignment g left])
    <|> pure (.branch "expression_statement" parts))

def returnStatement (g : Grammar) : Parser Piece := do
  let head ← word "return"
  return .branch "return_statement"
    (head :: (← maybe (return [← expressions g "expression_list"])))

def raiseStatement (g : Grammar) : Parser Piece := do
  let head ← word "raise"
  let value ← maybe (return [← expressions g "expression_list"])
  let cause ← maybe do return [← word "from", (← g .expression).filling "cause"]
  return .branch "raise_statement" (head :: value ++ cause)

def deleteStatement (g : Grammar) : Parser Piece := do
  return .branch "delete_statement" [← word "del", ← expressions g "expression_list"]

def assertStatement (g : Grammar) : Parser Piece := do
  let head ← word "assert"
  return .branch "assert_statement" (head :: (← commaList (g .expression)))

def keywordStatement (keyword kind : String) : Parser Piece :=
  return .branch kind [← word keyword]

def namesStatement (keyword kind : String) : Parser Piece := do
  let head ← word keyword
  return .branch kind (head :: (← commaList identifier))

def dottedName : Parser Piece := do
  let first ← identifier
  let rest ← manyPieces do return [← word ".", ← identifier]
  return .branch "dotted_name" (first :: rest)

def importedItem : Parser Piece := do
  let name ← dottedName
  (do
    let asWord ← word "as"
    let asName ← identifier
    return .branch "aliased_import" [name.filling "name", asWord, asName.filling "alias"])
  <|> pure name

/-- Imported names with commas between them. Only the names fill the field. -/
def importList : Parser (List Piece) := commaList (return (← importedItem).filling "name")

def importStatement : Parser Piece := do
  let head ← word "import"
  return .branch "import_statement" (head :: (← importList))

def relativeImport : Parser Piece := do
  let first ← anyWord [".", "..."]
  let dots ← many (anyWord [".", "..."])
  let name ← maybe (return [← dottedName])
  return .branch "relative_import" (.branch "import_prefix" (first :: dots) :: name)

def importNames : Parser (List Piece) :=
  (do return (← word "(") :: (← importList) ++ [← word ")"]) <|> importList

def futureImportStatement : Parser Piece := do
  let head := [← word "from", ← word "__future__", ← word "import"]
  return .branch "future_import_statement" (head ++ (← importNames))

def importFromStatement : Parser Piece := do
  let head ← word "from"
  let module ← relativeImport <|> dottedName
  let importWord ← word "import"
  let names ← (do return [.branch "wildcard_import" [← word "*"]]) <|> importNames
  return .branch "import_from_statement"
    (head :: module.filling "module_name" :: importWord :: names)

def simpleStatement (g : Grammar) : Parser Piece :=
  returnStatement g <|> raiseStatement g <|> deleteStatement g <|> assertStatement g
    <|> keywordStatement "pass" "pass_statement" <|> keywordStatement "break" "break_statement"
    <|> keywordStatement "continue" "continue_statement"
    <|> namesStatement "global" "global_statement"
    <|> namesStatement "nonlocal" "nonlocal_statement"
    <|> importStatement <|> futureImportStatement <|> importFromStatement
    <|> expressionStatement g

def statementLine (g : Grammar) : Parser (List Piece × Point) := do
  let first ← simpleStatement g
  let rest ← manyPieces do return [← word ";", ← simpleStatement g]
  let last ← optionalWord ";"
  let line ← ofKind .newline
  return (first :: rest ++ last, line.extent.last)

/-! ## Compound statements -/

def suiteIn (g : Grammar) (field : String) : Parser Piece :=
  return (← g .suite).filling field

def elseClause (g : Grammar) : Parser Piece := do
  let head ← word "else"
  let colon ← word ":"
  return .branch "else_clause" [head, colon, ← suiteIn g "body"]

def optionalElse (g : Grammar) : Parser (List Piece) :=
  maybe (return [(← elseClause g).filling "alternative"])

def conditionAndSuite (g : Grammar) : Parser (List Piece) := do
  let condition ← expression g
  let colon ← word ":"
  return [condition.filling "condition", colon, ← suiteIn g "consequence"]

def ifStatement (g : Grammar) : Parser Piece := do
  let head ← word "if"
  let first ← conditionAndSuite g
  let elifs ← many do
    let elif ← word "elif"
    return (Piece.branch "elif_clause" (elif :: (← conditionAndSuite g))).filling "alternative"
  return .branch "if_statement" (head :: first ++ elifs ++ (← optionalElse g))

def whileStatement (g : Grammar) : Parser Piece := do
  let head ← word "while"
  let condition ← expression g
  let colon ← word ":"
  let body ← suiteIn g "body"
  return .branch "while_statement"
    (head :: condition.filling "condition" :: colon :: body :: (← optionalElse g))

def forStatement (g : Grammar) (async : List Piece) : Parser Piece := do
  let head ← word "for"
  let left ← targetList (operand g)
  let inWord ← word "in"
  let right ← expressions g "expression_list"
  let colon ← word ":"
  let body ← suiteIn g "body"
  return .branch "for_statement"
    (async ++ [head, left.filling "left", inWord, right.filling "right", colon, body] ++
      (← optionalElse g))

/-- The star of an exception group belongs to its keyword where nothing stands between them. -/
def exceptKeyword : Parser (Piece × String) := do
  let keyword ← word "except"
  match ← peek with
  | some t =>
    if t.spells "*" && t.extent.first == keyword.extent.last then
      let star ← word "*"
      return (⟨.node "except*" false none ⟨keyword.extent.first, star.extent.last⟩ [],
        keyword.before⟩, "except_group_clause")
    else return (keyword, "except_clause")
  | none => return (keyword, "except_clause")

def exceptClause (g : Grammar) : Parser Piece := do
  let (keyword, kind) ← exceptKeyword
  let value ← maybe (return [← expression g])
  let colon ← word ":"
  return .branch kind (keyword :: value ++ [colon, ← g .suite])

def finallyClause (g : Grammar) : Parser Piece := do
  let head ← word "finally"
  let colon ← word ":"
  return .branch "finally_clause" [head, colon, ← g .suite]

def tryStatement (g : Grammar) : Parser Piece := do
  let head ← word "try"
  let colon ← word ":"
  let body ← suiteIn g "body"
  let handlers ← many (exceptClause g)
  let otherwise ← maybe (return [← elseClause g])
  let last ← maybe (return [← finallyClause g])
  return .branch "try_statement" (head :: colon :: body :: handlers ++ otherwise ++ last)

def withStatement (g : Grammar) (async : List Piece) : Parser Piece := do
  let head ← word "with"
  let items ← commaList (return .branch "with_item" [(← expression g).filling "value"])
  let colon ← word ":"
  let body ← suiteIn g "body"
  return .branch "with_statement" (async ++ [head, .branch "with_clause" items, colon, body])

def functionDefinition (g : Grammar) (async : List Piece) : Parser Piece := do
  let head ← word "def"
  let name ← identifier
  let opening ← word "("
  let inner ← maybe (commaList (parameter g true))
  let parameters := Piece.branch "parameters" (opening :: inner ++ [← word ")"])
  let result ← maybe do
    return [← word "->", (Piece.branch "type" [← g .expression]).filling "return_type"]
  let colon ← word ":"
  let body ← suiteIn g "body"
  return .branch "function_definition"
    (async ++ [head, name.filling "name", parameters.filling "parameters"] ++ result ++
      [colon, body])

def classDefinition (g : Grammar) : Parser Piece := do
  let head ← word "class"
  let name ← identifier
  let supers ← maybe (return [(← superclasses g).filling "superclasses"])
  let colon ← word ":"
  let body ← suiteIn g "body"
  return .branch "class_definition" (head :: name.filling "name" :: supers ++ [colon, body])

def asyncStatement (g : Grammar) : Parser Piece := do
  let async := [← word "async"]
  functionDefinition g async <|> forStatement g async <|> withStatement g async

def decorator (g : Grammar) : Parser Piece := do
  let mark ← word "@"
  let value ← expression g
  discard (ofKind .newline)
  return .branch "decorator" [mark, value]

def decoratedDefinition (g : Grammar) : Parser Piece := do
  let first ← decorator g
  let rest ← many (decorator g)
  let definition ← classDefinition g <|> functionDefinition g [] <|> do
    functionDefinition g [← word "async"]
  return .branch "decorated_definition" (first :: rest ++ [definition.filling "definition"])

/-! ## Cases -/

def patternValue (g : Grammar) : Parser Piece :=
  (do
    let minus ← optionalWord "-"
    let first ← number
    let rest ← maybe do return [← anyWord ["+", "-"], ← number]
    return .oneOr "complex_pattern" (minus ++ first :: rest))
  <|> literals g <|> constant

def bracketedPatterns (item : Parser Piece) (kind opening closing : String) :
    Parser Piece := do
  let first ← word opening
  let items ← maybe (commaList item)
  return .branch kind (first :: items ++ [← word closing])

def splatPattern : Parser Piece :=
  return .branch "splat_pattern" [← anyWord ["*", "**"], ← identifier]

def namePattern (g : Grammar) : Parser Piece := do
  let name ← dottedName
  (do
    let args ← bracketedPatterns (g .pattern) "arguments" "(" ")"
    match args.node with
    | .node _ _ _ extent children =>
      return ⟨.node "class_pattern" true none ⟨name.extent.first, extent.last⟩
        (name.node :: children), name.before⟩)
  <|> pure name

def keyedPattern (g : Grammar) (simple : Parser Piece) : Parser Piece :=
  splatPattern
  <|> (do
    let key ← simple
    let colon ← word ":"
    let value ← g .pattern
    return .branch "pair" [key.filling "key", colon, value.filling "value"])

def closedPattern (g : Grammar) : Parser Piece :=
  splatPattern <|> patternValue g <|> namePattern g
    <|> bracketedPatterns (g .pattern) "tuple_pattern" "(" ")"
    <|> bracketedPatterns (g .pattern) "list_pattern" "[" "]"
    <|> bracketedPatterns (keyedPattern g (patternValue g <|> namePattern g)) "dict_pattern"
      "\x7b" "\x7d"

def unionPattern (g : Grammar) : Parser Piece := do
  let first ← closedPattern g
  let rest ← manyPieces do return [← word "|", ← closedPattern g]
  return .oneOr "union_pattern" (first :: rest)

def pattern (g : Grammar) : Parser Piece := do
  let inner ←
    (do return .branch "keyword_pattern" [← identifier, ← word "=", ← unionPattern g])
    <|> unionPattern g
  let names ← many do return (← word "as", ← identifier)
  let whole := names.foldl
    (fun p n => .branch "as_pattern" [.branch "case_pattern" [p], n.1, n.2]) inner
  return .branch "case_pattern" [whole]

def caseClause (g : Grammar) : Parser Piece := do
  let head ← word "case"
  let patterns ← commaList (pattern g)
  let guard ← maybe do
    let ifWord ← word "if"
    return [(Piece.branch "if_clause" [ifWord, ← expression g]).filling "guard"]
  let colon ← word ":"
  return .branch "case_clause" (head :: patterns ++ guard ++ [colon, ← suiteIn g "consequence"])

/-- The cases of a `match` statement: they begin where the line above them ends. -/
def caseSuite (g : Grammar) : Parser Piece := do
  discard (ofKind .newline)
  let first ← ofKind .indent
  let cases ← many (return (← caseClause g).filling "alternative")
  let last ← ofKind .dedent
  match cases with
  | [] => failure
  | _ => return ⟨.node "block" true none ⟨first.extent.first, last.extent.last⟩
      (Piece.gather cases), []⟩

def matchStatement (g : Grammar) : Parser Piece := do
  let head ← word "match"
  let subjects ← commaList (expression g)
  let colon ← word ":"
  let body ← caseSuite g
  return .branch "match_statement"
    (head :: subjects.map (fun p => if p.node.named then p.filling "subject" else p) ++
      [colon, body.filling "body"])

/-! ## Suites -/

def compoundStatement (g : Grammar) : Parser Piece :=
  ifStatement g <|> whileStatement g <|> forStatement g [] <|> tryStatement g
    <|> withStatement g [] <|> functionDefinition g [] <|> classDefinition g
    <|> asyncStatement g <|> decoratedDefinition g <|> matchStatement g

def statement (g : Grammar) : Parser (List Piece) :=
  (return [← compoundStatement g]) <|> (return (← statementLine g).1)

def suite (g : Grammar) : Parser Piece :=
  (do
    discard (ofKind .newline)
    discard (ofKind .indent)
    let statements ← manyPieces (statement g)
    let last ← ofKind .dedent
    return .branchTo "block" statements last.extent.last)
  <|> (do
    let (statements, last) ← statementLine g
    return .branchTo "block" statements last)

/-! ## Modules -/

def rule (g : Grammar) : Grammar
  | .expression => expression g
  | .disjunction => disjunction g
  | .unary => unary g
  | .interpolation => interpolation g
  | .suite => suite g
  | .pattern => pattern g

def grammar : Nat → Grammar
  | 0 => fun _ => failure
  | depth + 1 => fun n => rule (grammar depth) n

def firstPoint (read : Lexemes) : Point :=
  match read.lexemes.find? fun l => !(l.kind matches .lineEnd _) with
  | some l => l.extent.first
  | none => read.last

/-- The concrete tree of a module. It begins with the first token or comment and reaches to the
end of the text. What is not Python at all is one node of the kind `ERROR`. -/
def parseModule (source : String) : Concrete :=
  let read := lexemes source
  let ts := tokens read.lexemes
  let extent : Extent := ⟨firstPoint read, read.last⟩
  let broken : List Concrete := [.node "ERROR" true none extent []]
  let children :=
    if !read.complete then broken
    else
      match manyPieces (statement (grammar (ts.length + 1))) ts with
      | some (statements, []) => Piece.gather statements
      | _ => broken
  .node "module" true none extent children

end PythonFlow.Python
