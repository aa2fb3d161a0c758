/-!
# Kinds and roles of syntax nodes

A tree keeps only the distinctions that decide control flow. Every other statement is a
`statement` and every other expression an `expression`.
-/

set_option autoImplicit false

namespace PythonFlow

inductive SyntaxKind where
  | module | functionDef | classDef | lambda
  | parameters | parameter | target | importStatement | importBinding
  | block | statement | assignment | ifStatement | ifPart | elifPart | elsePart
  | whileLoop | forLoop | breakJump | continueJump | returnExit | raiseExit
  | tryStatement | tryPart | exceptPart | finallyPart
  | comprehension | comprehensionFor | comprehensionIf | expression
deriving DecidableEq, Repr, Inhabited

namespace SyntaxKind

def isOwner : SyntaxKind → Bool
  | module | functionDef | classDef | lambda => true
  | _ => false

def isLoop : SyntaxKind → Bool
  | whileLoop | forLoop => true
  | _ => false

def isBinding : SyntaxKind → Bool
  | parameter | target | importBinding => true
  | _ => false

def isStatement : SyntaxKind → Bool
  | statement | assignment | importStatement | ifStatement | whileLoop | forLoop | breakJump
  | continueJump | returnExit | raiseExit | tryStatement | functionDef | classDef => true
  | _ => false

def all : List SyntaxKind :=
  [module, functionDef, classDef, lambda, parameters, parameter, target, importStatement,
    importBinding, block, statement, assignment, ifStatement, ifPart, elifPart, elsePart,
    whileLoop, forLoop, breakJump, continueJump, returnExit, raiseExit, tryStatement, tryPart,
    exceptPart, finallyPart, comprehension, comprehensionFor, comprehensionIf, expression]

theorem mem_all (k : SyntaxKind) : k ∈ all := by cases k <;> decide

def name : SyntaxKind → String
  | module => "Module"
  | functionDef => "FunctionDef"
  | classDef => "ClassDef"
  | lambda => "Lambda"
  | parameters => "Parameters"
  | parameter => "Parameter"
  | target => "Target"
  | importStatement => "Import"
  | importBinding => "ImportBinding"
  | block => "Block"
  | statement => "Statement"
  | assignment => "Assignment"
  | ifStatement => "If"
  | ifPart => "IfPart"
  | elifPart => "ElifPart"
  | elsePart => "ElsePart"
  | whileLoop => "While"
  | forLoop => "For"
  | breakJump => "Break"
  | continueJump => "Continue"
  | returnExit => "Return"
  | raiseExit => "Raise"
  | tryStatement => "Try"
  | tryPart => "TryPart"
  | exceptPart => "ExceptPart"
  | finallyPart => "FinallyPart"
  | comprehension => "Comprehension"
  | comprehensionFor => "ComprehensionFor"
  | comprehensionIf => "ComprehensionIf"
  | expression => "Expression"

def ofName? (s : String) : Option SyntaxKind := all.find? fun k => k.name == s

theorem ofName_name (k : SyntaxKind) : ofName? k.name = some k := by cases k <;> decide

end SyntaxKind

inductive Role where
  | plain | condition | body | iterable | target | value | result
deriving DecidableEq, Repr, Inhabited

namespace Role

def all : List Role := [plain, condition, body, iterable, target, value, result]

def name : Role → String
  | plain => "None"
  | condition => "Condition"
  | body => "Body"
  | iterable => "Iterable"
  | target => "Target"
  | value => "Value"
  | result => "Result"

def ofName? (s : String) : Option Role := all.find? fun r => r.name == s

theorem ofName_name (r : Role) : ofName? r.name = some r := by cases r <;> decide

end Role
end PythonFlow
