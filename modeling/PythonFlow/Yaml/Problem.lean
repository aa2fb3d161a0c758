/-!
# Problems in YAML text

Why a text is no YAML, where that was noticed, and what was being read at the time.
-/

set_option autoImplicit false

namespace PythonFlow.Yaml

/-- A line ends at each of these. Any other way to end a line is replaced by a line feed before a
text is read. -/
def isBreak (c : Char) : Bool := c == '\n' || c == '\u2028' || c == '\u2029'

/-- A place between two characters: how many characters, and how many lines, lie before it, and how
many characters of its own line. -/
structure Mark where
  index : Nat
  line : Nat
  column : Nat
deriving DecidableEq, Repr

namespace Mark

def start : Mark := ⟨0, 0, 0⟩

def after (m : Mark) (c : Char) : Mark :=
  if isBreak c then ⟨m.index + 1, m.line + 1, 0⟩ else ⟨m.index + 1, m.line, m.column + 1⟩

def afterAll (m : Mark) (cs : List Char) : Mark := cs.foldl after m

/-- The first place of a text is never shown. -/
def shown (m : Mark) : Bool := m.line != 0 || m.column != 0

/-- Lines and columns are counted from one for the reader. -/
def display (m : Mark) : String :=
  "line " ++ toString (m.line + 1) ++ " column " ++ toString (m.column + 1)

def debug (m : Mark) : String :=
  "Mark \x7b line: " ++ toString (m.line + 1) ++ ", column: " ++ toString (m.column + 1) ++ " \x7d"

end Mark

/-- Which of the three readings of a text found the problem: of its characters, of its tokens, or of
its structure. -/
inductive Stage where
  | characters | tokens | grammar
deriving DecidableEq, Repr

def Stage.name : Stage → String
  | characters => "READER"
  | tokens => "SCANNER"
  | grammar => "PARSER"

inductive Cause where
  | controlCharacter
  | keyWithoutValue | entryNotAllowed | keyNotAllowed | valueNotAllowed | noToken
  | noDirectiveName | directiveNameCharacter | unknownDirective | textAfterDirective
  | noVersionPoint | longVersionNumber | noVersionNumber
  | noBlankAfterHandle | textAfterTag | noHandleMark | noTagClose | noTagText
  | noEscapedOctet | leadingOctet | trailingOctet
  | noAnchorName
  | noIndentation | textAfterHeader | tabInBlock
  | documentInQuotes | endInQuotes | unknownEscape | noHexadecimal | escapeOutOfRange
  | tabInIndentation | colonInFlow
  | noDocumentStart | noNode | noEntry | noKey | noSequenceSeparator | noMappingSeparator
  | undefinedHandle | secondVersion | otherVersion | secondHandle
deriving DecidableEq, Repr

namespace Cause

def message : Cause → String
  | controlCharacter => "control characters are not allowed"
  | keyWithoutValue => "could not find expected ':'"
  | entryNotAllowed => "block sequence entries are not allowed in this context"
  | keyNotAllowed => "mapping keys are not allowed in this context"
  | valueNotAllowed => "mapping values are not allowed in this context"
  | noToken => "found character that cannot start any token"
  | noDirectiveName => "could not find expected directive name"
  | directiveNameCharacter => "found unexpected non-alphabetical character"
  | unknownDirective => "found unknown directive name"
  | textAfterDirective => "did not find expected comment or line break"
  | noVersionPoint => "did not find expected digit or '.' character"
  | longVersionNumber => "found extremely long version number"
  | noVersionNumber => "did not find expected version number"
  | noBlankAfterHandle => "did not find expected whitespace"
  | textAfterTag => "did not find expected whitespace or line break"
  | noHandleMark => "did not find expected '!'"
  | noTagClose => "did not find the expected '>'"
  | noTagText => "did not find expected tag URI"
  | noEscapedOctet => "did not find URI escaped octet"
  | leadingOctet => "found an incorrect leading UTF-8 octet"
  | trailingOctet => "found an incorrect trailing UTF-8 octet"
  | noAnchorName => "did not find expected alphabetic or numeric character"
  | noIndentation => "found an indentation indicator equal to 0"
  | textAfterHeader => "did not find expected comment or line break"
  | tabInBlock => "found a tab character where an indentation space is expected"
  | documentInQuotes => "found unexpected document indicator"
  | endInQuotes => "found unexpected end of stream"
  | unknownEscape => "found unknown escape character"
  | noHexadecimal => "did not find expected hexdecimal number"
  | escapeOutOfRange => "found invalid Unicode character escape code"
  | tabInIndentation => "found a tab character that violates indentation"
  | colonInFlow => "found unexpected ':'"
  | noDocumentStart => "did not find expected <document start>"
  | noNode => "did not find expected node content"
  | noEntry => "did not find expected '-' indicator"
  | noKey => "did not find expected key"
  | noSequenceSeparator => "did not find expected ',' or ']'"
  | noMappingSeparator => "did not find expected ',' or '\x7d'"
  | undefinedHandle => "found undefined tag handle"
  | secondVersion => "found duplicate %YAML directive"
  | otherVersion => "found incompatible YAML document"
  | secondHandle => "found duplicate %TAG directive"

def stage : Cause → Stage
  | controlCharacter => .characters
  | noDocumentStart | noNode | noEntry | noKey | noSequenceSeparator | noMappingSeparator
  | undefinedHandle | secondVersion | otherVersion | secondHandle => .grammar
  | _ => .tokens

end Cause

inductive Activity where
  | simpleKey | nextToken
  | directive | versionDirective | tagDirective | handleOfDirective | handleOfTagDirective
  | textOfTagDirective
  | anchor | aliasName | tag | textOfTag
  | blockScalar | quotedScalar | escape | plainScalar
  | blockNode | flowNode | node
  | blockSequence | blockMapping | flowSequence | flowMapping
deriving DecidableEq, Repr

def Activity.message : Activity → String
  | simpleKey => "while scanning a simple key"
  | nextToken => "while scanning for the next token"
  | directive => "while scanning a directive"
  | versionDirective => "while scanning a %YAML directive"
  | tagDirective => "while scanning a %TAG directive"
  | handleOfDirective => "while scanning a tag directive"
  | handleOfTagDirective => "while parsing a tag directive"
  | textOfTagDirective => "while parsing a %TAG directive"
  | anchor => "while scanning an anchor"
  | aliasName => "while scanning an alias"
  | tag => "while scanning a tag"
  | textOfTag => "while parsing a tag"
  | blockScalar => "while scanning a block scalar"
  | quotedScalar => "while scanning a quoted scalar"
  | escape => "while parsing a quoted scalar"
  | plainScalar => "while scanning a plain scalar"
  | blockNode => "while parsing a block node"
  | flowNode => "while parsing a flow node"
  | node => "while parsing a node"
  | blockSequence => "while parsing a block collection"
  | blockMapping => "while parsing a block mapping"
  | flowSequence => "while parsing a flow sequence"
  | flowMapping => "while parsing a flow mapping"

/-- A problem is noticed at a mark, or at a number of bytes where no lines are known yet. -/
inductive Place where
  | offset (bytes : Nat)
  | mark (mark : Mark)
deriving DecidableEq, Repr

structure Problem where
  cause : Cause
  place : Place
  context : Option (Activity × Mark)
deriving DecidableEq, Repr

namespace Problem

def during (activity : Activity) (start : Mark) (cause : Cause) (m : Mark) : Problem :=
  ⟨cause, .mark m, some (activity, start)⟩

def plain (cause : Cause) (m : Mark) : Problem := ⟨cause, .mark m, none⟩

def placeText (p : Problem) : String :=
  match p.place with
  | .offset 0 => ""
  | .offset n => " at position " ++ toString n
  | .mark m => if m.shown then " at " ++ m.display else ""

/-- The beginning of what was being read is left out where it is the place of the problem. -/
def contextText (p : Problem) : String :=
  match p.context with
  | none => ""
  | some (activity, start) =>
    let here := match p.place with
      | .offset _ => false
      | .mark m => decide (m.line = start.line ∧ m.column = start.column)
    ", " ++ activity.message ++ if start.shown && !here then " at " ++ start.display else ""

def message (p : Problem) : String := p.cause.message ++ p.placeText ++ p.contextText

def debugPlace (p : Problem) : String :=
  match p.place with
  | .offset 0 => ""
  | .offset n => ", problem_offset: " ++ toString n
  | .mark m => if m.shown then ", problem_mark: " ++ m.debug else ""

def debugContext (p : Problem) : String :=
  match p.context with
  | none => ""
  | some (activity, start) =>
    ", context: \"" ++ activity.message ++ "\"" ++
      if start.shown then ", context_mark: " ++ start.debug else ""

def debug (p : Problem) : String :=
  "Error \x7b kind: " ++ p.cause.stage.name ++ ", problem: \"" ++ p.cause.message ++ "\"" ++
    p.debugPlace ++ p.debugContext ++ " \x7d"

end Problem
end PythonFlow.Yaml
