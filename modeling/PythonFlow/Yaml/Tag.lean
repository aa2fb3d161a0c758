import PythonFlow.Yaml.Cursor

/-!
# Tags and anchors

A tag is a handle and a text behind it, or a text between angle brackets. Octets that stand as
escapes in a tag are kept as characters of the same number, and a tag ends at the octet nought.
-/

set_option autoImplicit false

namespace PythonFlow.Yaml

structure TagText where
  handle : List Char
  text : List Char
deriving DecidableEq, Repr

inductive TagUse where
  | onNode | inDirective
deriving DecidableEq, Repr

def TagUse.handleActivity : TagUse → Activity
  | onNode => .tag
  | inDirective => .handleOfDirective

def TagUse.textActivity : TagUse → Activity
  | onNode => .textOfTag
  | inDirective => .textOfTagDirective

/-- A handle: an exclamation mark, and a name between two of them. Without the second mark it is
the start of a tag's text, which a directive does not allow. -/
def tagHandle (use : TagUse) (start : Mark) (c : Cursor) : Except Problem (List Char × Cursor) :=
  if !c.isAt '!' then .error (.during use.handleActivity start .noHandleMark c.mark)
  else
    let name := '!' :: (c.skip 1).taken isNameChar
    let c := (c.skip 1).past isNameChar
    if c.isAt '!' then .ok (name ++ ['!'], c.skip 1)
    else if use = .inDirective ∧ name ≠ ['!'] then
      .error (.during .handleOfTagDirective start .noHandleMark c.mark)
    else .ok (name, c)

def isTagChar (c : Char) : Bool := isNameChar c || ";/?:@&=+$.%!~*'()".toList.contains c

/-- In directives and between angle brackets three more indicators are allowed. -/
def isLongTagChar (c : Char) : Bool := isTagChar c || ",[]".toList.contains c

def octetCount (octet : Nat) : Option Nat :=
  if octet < 0x80 then some 1
  else if octet < 0xc0 then none
  else if octet < 0xe0 then some 2
  else if octet < 0xf0 then some 3
  else if octet < 0xf8 then some 4
  else none

def escapedOctet (activity : Activity) (start : Mark) (c : Cursor) : Except Problem Nat :=
  match c.rest with
  | '%' :: high :: low :: _ =>
    if isHex high && isHex low then .ok (hexNumber [high, low])
    else .error (.during activity start .noEscapedOctet c.mark)
  | _ => .error (.during activity start .noEscapedOctet c.mark)

def trailingOctets (activity : Activity) (start : Mark) :
    Nat → Cursor → Except Problem (List Char × Cursor)
  | 0, c => .ok ([], c)
  | count + 1, c =>
    match escapedOctet activity start c with
    | .error e => .error e
    | .ok octet =>
      if octet / 64 ≠ 2 then .error (.during activity start .trailingOctet c.mark)
      else
        match trailingOctets activity start count (c.skip 3) with
        | .error e => .error e
        | .ok (more, last) => .ok (Char.ofNat octet :: more, last)

def escapedChar (activity : Activity) (start : Mark) (c : Cursor) :
    Except Problem (List Char × Cursor) :=
  match escapedOctet activity start c with
  | .error e => .error e
  | .ok octet =>
    match octetCount octet with
    | none => .error (.during activity start .leadingOctet c.mark)
    | some count =>
      match trailingOctets activity start (count - 1) (c.skip 3) with
      | .error e => .error e
      | .ok (more, last) => .ok (Char.ofNat octet :: more, last)

/-- Every step takes a character at least, so that one step more than there are characters is
enough. -/
def tagChars (allowed : Char → Bool) (activity : Activity) (start : Mark) :
    Nat → Cursor → Except Problem (List Char × Cursor)
  | 0, c => .ok ([], c)
  | steps + 1, c =>
    let andThen (text : List Char) (c : Cursor) : Except Problem (List Char × Cursor) :=
      match tagChars allowed activity start steps c with
      | .error e => .error e
      | .ok (more, last) => .ok (text ++ more, last)
    match c.next with
    | none => .ok ([], c)
    | some x =>
      if x = '%' then
        match escapedChar activity start c with
        | .error e => .error e
        | .ok (text, c) => andThen text c
      else if allowed x then andThen [x] (c.skip 1)
      else .ok ([], c)

/-- The text of a tag behind `front`, which is the start of it that was taken for a handle. The mark
in front of that start is no part of the text. -/
def tagText (allowed : Char → Bool) (use : TagUse) (start : Mark) (front : List Char) (c : Cursor) :
    Except Problem (List Char × Cursor) :=
  match tagChars allowed use.textActivity start (c.rest.length + 1) c with
  | .error e => .error e
  | .ok (text, last) =>
    if front.isEmpty && last.mark.index == c.mark.index then
      .error (.during use.textActivity start .noTagText last.mark)
    else .ok ((front.drop 1 ++ text).takeWhile (· != '\x00'), last)

def verbatimTag (start : Mark) (c : Cursor) : Except Problem (TagText × Cursor) :=
  match tagText isLongTagChar .onNode start [] (c.skip 2) with
  | .error e => .error e
  | .ok (text, c) =>
    if c.isAt '>' then .ok (⟨[], text⟩, c.skip 1)
    else .error (.during .tag start .noTagClose c.mark)

/-- A tag with or without a handle. The mark alone is a tag of its own. -/
def shortTag (start : Mark) (c : Cursor) : Except Problem (TagText × Cursor) :=
  match tagHandle .onNode start c with
  | .error e => .error e
  | .ok (handle, c) =>
    if 1 < handle.length ∧ handle.getLast? = some '!' then
      match tagText isTagChar .onNode start [] c with
      | .error e => .error e
      | .ok (text, c) => .ok (⟨handle, text⟩, c)
    else
      match tagText isTagChar .onNode start handle c with
      | .error e => .error e
      | .ok ([], c) => .ok (⟨[], ['!']⟩, c)
      | .ok (text, c) => .ok (⟨['!'], text⟩, c)

def scanTag (inFlow : Bool) (c : Cursor) : Except Problem (TagText × Cursor) :=
  let start := c.mark
  let found := if c.peek 1 = some '<' then verbatimTag start c else shortTag start c
  match found with
  | .error e => .error e
  | .ok (tag, c) =>
    if endsWord c.next || (inFlow && c.isAt ',') then .ok (tag, c)
    else .error (.during .tag start .textAfterTag c.mark)

def scanAnchor (activity : Activity) (c : Cursor) : Except Problem (List Char × Cursor) :=
  let start := c.mark
  let name := (c.skip 1).taken isNameChar
  let last := (c.skip 1).past isNameChar
  let ends := endsWord last.next || last.next.any (fun x => "?:,]\x7d%@`".toList.contains x)
  if name.isEmpty || !ends then .error (.during activity start .noAnchorName last.mark)
  else .ok (name, last)

end PythonFlow.Yaml
