import PythonFlow.Python.Parser

/-!
# Expressions of Python

The rules for expressions, each in terms of the parts one level further in. An `as` binds more
tightly than a conditional or a lambda, and the value behind `:=` ends before a conditional's `if`.
-/

set_option autoImplicit false

namespace PythonFlow.Python
open PythonFlow.Python.Parser

def reserved : List String :=
  ["False", "None", "True", "and", "as", "assert", "async", "await", "break", "class", "continue",
    "def", "del", "elif", "else", "except", "finally", "for", "from", "global", "if", "import",
    "in", "is", "lambda", "nonlocal", "not", "or", "pass", "raise", "return", "try", "while",
    "with", "yield"]

def isIdentifier (t : Token) : Bool := t.kind == .name && !reserved.contains t.text

def identifier : Parser Piece := return (← satisfy isIdentifier).leaf "identifier" true

/-- `True`, `False` and `None` are nodes of their own. -/
def constant : Parser Piece := do
  let t ← satisfy fun t => t.kind == .name && ["True", "False", "None"].contains t.text
  return t.leaf t.text.toLower true

def number : Parser Piece := do
  let t ← ofKind .number
  let whole := t.text.startsWith "0x" || t.text.startsWith "0X" || t.text.all fun c =>
    c != '.' && c != 'e' && c != 'E'
  return t.leaf (if whole then "integer" else "float") true

def literal (g : Grammar) : Parser Piece := do
  let first ← ofKind .stringStart
  let fields ← many (g .interpolation)
  let last ← ofKind .stringEnd
  return .branch "string"
    (first.leaf "string_start" true :: fields ++ [last.leaf "string_end" true])

/-- Literals in a row are one string. -/
def literals (g : Grammar) : Parser Piece := do
  let first ← literal g
  return .oneOr "concatenated_string" (first :: (← many (literal g)))

def expressions (g : Grammar) (kind : String) : Parser Piece :=
  return .oneOr kind (← commaList (g .expression))

def yield (g : Grammar) : Parser Piece := do
  let y ← word "yield"
  if ← sees "from" then return .branch "yield" [y, ← word "from", ← g .expression]
  else return .branch "yield" (y :: (← maybe (return [← expressions g "expression_list"])))

def interpolation (g : Grammar) : Parser Piece := do
  let first ← ofKind .fieldStart
  let value ← yield g <|> expressions g "expression_list"
  let shown ← optionalWord "="
  let conversion ← maybe (return [(← ofKind .conversion).leaf "type_conversion" true])
  let format ← maybe do
    let colon ← ofKind .formatStart
    return [.branch "format_specifier" (colon.word :: (← many (g .interpolation)))]
  let last ← ofKind .fieldEnd
  return .branch "interpolation"
    (first.word :: value.filling "expression" :: shown ++ conversion ++ format ++ [last.word])

def binaryOperator : String := "binary_operator"

/-- Operators that bind more tightly than comparisons, loosest first. -/
def binaryLevels : List (List String) :=
  [["|"], ["^"], ["&"], ["<<", ">>"], ["+", "-"], ["*", "/", "//", "%", "@"]]

def binary (unary : Parser Piece) : List (List String) → Parser Piece
  | [] => unary
  | operators :: rest => leftChain binaryOperator operators (binary unary rest)

def targetList (item : Parser Piece) : Parser Piece := do
  let target : Parser Piece :=
    (do return .branch "list_splat_pattern" [← word "*", ← item]) <|> item
  return .oneOr "pattern_list" (← commaList target)

/-- Clauses of a comprehension; `item` is an operand of a comparison. -/
def clause (item disjunction : Parser Piece) : Parser Piece :=
  (do
    let head := (← optionalWord "async") ++ [← word "for"]
    let left ← targetList item
    let inWord ← word "in"
    let right ← disjunction
    return .branch "for_in_clause" (head ++ [left.filling "left", inWord, right.filling "right"]))
  <|> (do return .branch "if_clause" [← word "if", ← disjunction])

def clauses (item disjunction : Parser Piece) : Parser (List Piece) := do
  return (← clause item disjunction) :: (← many (clause item disjunction))

def seesClause : Parser Bool := seesAny ["for", "async"]

def comprehension (comprehend : Parser (List Piece)) (kind closing : String)
    (opening body : Piece) : Parser Piece := do
  let cs ← comprehend
  return .branch kind (opening :: body.filling "body" :: cs ++ [← word closing])

def collection (item : Parser Piece) (kind closing : String) (opening first : Piece) :
    Parser Piece := do
  let rest ← commaRest item
  return .branch kind (opening :: first :: rest ++ [← word closing])

def emptyCollection (kind closing : String) (opening : Piece) : Parser Piece :=
  return .branch kind [opening, ← word closing]

/-- One expression in parentheses stays what it is; a comma makes a tuple. -/
def parenthesized (g : Grammar) (comprehend : Parser (List Piece)) : Parser Piece := do
  let opening ← word "("
  if ← sees ")" then emptyCollection "tuple" ")" opening
  else
    let first ← yield g <|> g .expression
    if ← seesClause then comprehension comprehend "generator_expression" ")" opening first
    else if ← sees "," then collection (g .expression) "tuple" ")" opening first
    else return .branch "parenthesized_expression" [opening, first, ← word ")"]

def bracketed (g : Grammar) (comprehend : Parser (List Piece)) : Parser Piece := do
  let opening ← word "["
  if ← sees "]" then emptyCollection "list" "]" opening
  else
    let first ← g .expression
    if ← seesClause then comprehension comprehend "list_comprehension" "]" opening first
    else collection (g .expression) "list" "]" opening first

def dictionarySplat (g : Grammar) : Parser Piece :=
  return .branch "dictionary_splat" [← word "**", ← g .expression]

def pairFrom (g : Grammar) (key : Piece) : Parser Piece := do
  let colon ← word ":"
  let value ← g .expression
  return .branch "pair" [key.filling "key", colon, value.filling "value"]

def dictionaryItem (g : Grammar) : Parser Piece :=
  dictionarySplat g <|> (do pairFrom g (← g .expression))

/-- A colon behind the first element makes a dictionary of a set. -/
def braced (g : Grammar) (comprehend : Parser (List Piece)) : Parser Piece := do
  let opening ← word "\x7b"
  if ← sees "\x7d" then emptyCollection "dictionary" "\x7d" opening
  else if ← sees "**" then
    collection (dictionaryItem g) "dictionary" "\x7d" opening (← dictionarySplat g)
  else
    let first ← g .expression
    if ← sees ":" then
      let item ← pairFrom g first
      if ← seesClause then
        comprehension comprehend "dictionary_comprehension" "\x7d" opening item
      else collection (dictionaryItem g) "dictionary" "\x7d" opening item
    else if ← seesClause then comprehension comprehend "set_comprehension" "\x7d" opening first
    else collection (g .expression) "set" "\x7d" opening first

def atom (g : Grammar) (comprehend : Parser (List Piece)) : Parser Piece :=
  identifier <|> constant <|> number <|> literals g
    <|> (do return .branch "ellipsis" [← word "..."])
    <|> parenthesized g comprehend <|> bracketed g comprehend <|> braced g comprehend

def argument (g : Grammar) : Parser Piece :=
  dictionarySplat g
  <|> (do return .branch "list_splat" [← word "*", ← g .expression])
  <|> (do
    let name ← identifier
    let equals ← word "="
    let value ← g .expression
    return .branch "keyword_argument" [name.filling "name", equals, value.filling "value"])
  <|> g .expression

/-- The arguments of a call; a sole comprehension needs no brackets of its own. -/
def arguments (g : Grammar) (comprehend : Parser (List Piece)) : Parser Piece := do
  let opening ← word "("
  if ← sees ")" then emptyCollection "argument_list" ")" opening
  else
    let first ← argument g
    if ← seesClause then comprehension comprehend "generator_expression" ")" opening first
    else collection (argument g) "argument_list" ")" opening first

def sliceBound (g : Grammar) : Parser (List Piece) := maybe (return [← g .expression])

def subscript (g : Grammar) : Parser Piece := do
  let lower ← sliceBound g
  match lower, ← sees ":" with
  | [index], false => return index
  | _, _ =>
    let colon ← word ":"
    let upper ← sliceBound g
    let stride ← maybe do
      let colon ← word ":"
      return colon :: (← sliceBound g)
    return .branch "slice" (lower ++ colon :: upper ++ stride)

def superclasses (g : Grammar) : Parser Piece := do
  let opening ← word "("
  if ← sees ")" then emptyCollection "argument_list" ")" opening
  else collection (argument g) "argument_list" ")" opening (← argument g)

/-- What may follow a primary expression, as a function of that expression. -/
def trailer (g : Grammar) (comprehend : Parser (List Piece)) : Parser (Piece → Piece) :=
  (do
    let dot ← word "."
    let name ← identifier
    return fun p => .branch "attribute" [p.filling "object", dot, name.filling "attribute"])
  <|> (do
    let args ← arguments g comprehend
    return fun p => .branch "call" [p.filling "function", args.filling "arguments"])
  <|> (do
    let opening ← word "["
    let items ← commaList (subscript g)
    let closing ← word "]"
    return fun p => .branch "subscript"
      (p.filling "value" :: opening :: items.map (·.filling "subscript") ++ [closing]))

def primary (g : Grammar) (comprehend : Parser (List Piece)) : Parser Piece := do
  let first ← atom g comprehend
  return (← many (trailer g comprehend)).foldl (fun p f => f p) first

def power (g : Grammar) (comprehend : Parser (List Piece)) : Parser Piece := do
  let base ←
    (do return .branch "await" [← word "await", ← primary g comprehend]) <|> primary g comprehend
  (do return .branch binaryOperator [base, ← word "**", ← g .unary]) <|> pure base

def comprehend (g : Grammar) : Parser (List Piece) :=
  clauses (binary (g .unary) binaryLevels) (g .disjunction)

def unary (g : Grammar) : Parser Piece :=
  (do return .branch "unary_operator" [← anyWord ["+", "-", "~"], ← g .unary])
  <|> power g (comprehend g)

def operand (g : Grammar) : Parser Piece := binary (unary g) binaryLevels

def comparisonOperator : Parser (List Piece) :=
  (do return [← anyWord ["<", ">", "==", ">=", "<=", "!=", "in"]])
  <|> (do return [← word "not", ← word "in"])
  <|> (do return (← word "is") :: (← optionalWord "not"))

def comparison (g : Grammar) : Parser Piece := do
  let first ← operand g
  let rest ← manyPieces do return (← comparisonOperator) ++ [← operand g]
  return .oneOr "comparison_operator" (first :: rest)

def negation (g : Grammar) : Parser Piece := do
  let nots ← many (word "not")
  return nots.foldr (fun n p => .branch "not_operator" [n, p]) (← comparison g)

def disjunction (g : Grammar) : Parser Piece :=
  leftChain "boolean_operator" ["or"] (leftChain "boolean_operator" ["and"] (negation g))

/-- Parameters of a lambda have no annotations; those of a function may have them. -/
def parameter (g : Grammar) (annotated : Bool) : Parser Piece := do
  let annotation : Parser (List Piece) := do
    if annotated then return [← word ":", (Piece.branch "type" [← g .expression]).filling "type"]
    else failure
  let default : Parser (List Piece) := do
    return [← word "=", (← g .expression).filling "value"]
  let starred (mark kind : String) : Parser Piece := do
    let p := Piece.branch kind [← word mark, ← identifier]
    (do return .branch "typed_parameter" (p :: (← annotation))) <|> pure p
  starred "*" "list_splat_pattern"
  <|> starred "**" "dictionary_splat_pattern"
  <|> (do return .branch "keyword_separator" [← word "*"])
  <|> (do return .branch "positional_separator" [← word "/"])
  <|> (do
    let name ← identifier
    let type ← maybe annotation
    let value ← maybe default
    match type, value with
    | [], [] => return name
    | [], _ => return .branch "default_parameter" (name.filling "name" :: value)
    | _, [] => return .branch "typed_parameter" (name :: type)
    | _, _ => return .branch "typed_default_parameter" (name.filling "name" :: type ++ value))

def lambda (g : Grammar) : Parser Piece := do
  let head ← word "lambda"
  let parameters ← maybe do
    return [(Piece.branch "lambda_parameters" (← commaList (parameter g false))).filling
      "parameters"]
  let colon ← word ":"
  let body ← g .expression
  return .branch "lambda" (head :: parameters ++ [colon, body.filling "body"])

def named (g : Grammar) : Parser Piece := do
  let name ← identifier
  let walrus ← word ":="
  let value ← lambda g <|> g .disjunction
  return .branch "named_expression" [name.filling "name", walrus, value.filling "value"]

def splat (g : Grammar) : Parser Piece :=
  return .branch "list_splat" [← word "*", ← operand g]

/-- An expression with an alias behind it, as `with` and `except` have it. -/
def aliased (g : Grammar) (value : Piece) : Parser Piece :=
  (do
    let asWord ← word "as"
    let target := Piece.branch "as_pattern_target" [← g .disjunction]
    return .branch "as_pattern" [value, asWord, target.filling "alias"])
  <|> pure value

def conditional (g : Grammar) (value : Piece) : Parser Piece :=
  (do
    let ifWord ← word "if"
    let condition ← disjunction g
    let elseWord ← word "else"
    return .branch "conditional_expression"
      [value, ifWord, condition, elseWord, ← g .expression])
  <|> pure value

def expression (g : Grammar) : Parser Piece :=
  lambda g
  <|> (do conditional g (← aliased g (← splat g <|> named g <|> disjunction g)))

end PythonFlow.Python
