import PythonFlow.Yaml.Tag

/-!
# Directives

A line in front of a document that says which version it is written in, or what a handle of its tags
stands for.
-/

set_option autoImplicit false

namespace PythonFlow.Yaml

inductive Directive where
  | version (major minor : Nat)
  /-- What a handle stands for. -/
  | handle (tag : TagText)
deriving DecidableEq, Repr

def decimalNumber (cs : List Char) : Nat := cs.foldl (fun n c => 10 * n + (c.toNat - '0'.toNat)) 0

/-- A number of nine digits at most. -/
def versionNumber (start : Mark) (c : Cursor) : Except Problem (Nat × Cursor) :=
  let digits := c.taken Char.isDigit
  if digits.isEmpty then .error (.during .versionDirective start .noVersionNumber c.mark)
  else if 9 < digits.length then
    .error (.during .versionDirective start .longVersionNumber (c.skip 9).mark)
  else .ok (decimalNumber digits, c.past Char.isDigit)

def versionDirective (start : Mark) (c : Cursor) : Except Problem (Directive × Cursor) :=
  match versionNumber start (c.past isBlank) with
  | .error e => .error e
  | .ok (major, c) =>
    if !c.isAt '.' then .error (.during .versionDirective start .noVersionPoint c.mark)
    else
      match versionNumber start (c.skip 1) with
      | .error e => .error e
      | .ok (minor, c) => .ok (.version major minor, c)

def tagDirective (start : Mark) (c : Cursor) : Except Problem (Directive × Cursor) :=
  match tagHandle .inDirective start (c.past isBlank) with
  | .error e => .error e
  | .ok (handle, c) =>
    if !c.next.any isBlank then .error (.during .tagDirective start .noBlankAfterHandle c.mark)
    else
      match tagText isLongTagChar .inDirective start [] (c.past isBlank) with
      | .error e => .error e
      | .ok (text, c) =>
        if endsWord c.next then .ok (.handle ⟨handle, text⟩, c)
        else .error (.during .tagDirective start .textAfterTag c.mark)

def namedDirective (start : Mark) (name : String) (c : Cursor) :
    Except Problem (Directive × Cursor) :=
  if name = "YAML" then versionDirective start c
  else if name = "TAG" then tagDirective start c
  else .error (.during .directive start .unknownDirective c.mark)

def scanDirective (c : Cursor) : Except Problem (Directive × Mark × Cursor) :=
  let start := c.mark
  let name := (c.skip 1).taken isNameChar
  let c := (c.skip 1).past isNameChar
  if name.isEmpty then .error (.during .directive start .noDirectiveName c.mark)
  else if !endsWord c.next then .error (.during .directive start .directiveNameCharacter c.mark)
  else
    match namedDirective start (String.ofList name) c with
    | .error e => .error e
    | .ok (directive, last) =>
      let c := last.pastComment
      if endsLine c.next then .ok (directive, last.mark, c.pastBreak)
      else .error (.during .directive start .textAfterDirective c.mark)

end PythonFlow.Yaml
