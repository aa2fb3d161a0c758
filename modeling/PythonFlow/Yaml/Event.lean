import PythonFlow.Yaml.Token

/-!
# Events of YAML

The structure of a text as a row of events: every collection has an event where it begins and one
where it ends, and a node that is left out is an empty plain scalar. Events come one at a time, so
that those in front of a problem are known.
-/

set_option autoImplicit false

namespace PythonFlow.Yaml

structure Properties where
  anchor : Option (List Char)
  /-- The whole tag, its handle replaced by what that stands for. -/
  tag : Option (List Char)
deriving DecidableEq, Repr

def Properties.none : Properties := ⟨.none, .none⟩

inductive EventKind where
  | textEnd | documentStart | documentEnd
  | reference (name : List Char)
  | scalar (properties : Properties) (style : ScalarStyle) (text : List Char)
  | sequenceStart (properties : Properties)
  | sequenceEnd
  | mappingStart (properties : Properties)
  | mappingEnd
deriving DecidableEq, Repr

structure Event where
  kind : EventKind
  mark : Mark
deriving DecidableEq, Repr

inductive Position where
  | firstDocument | nextDocument | documentContent | documentEnd
  | blockNode
  | firstBlockEntry | blockEntry | indentlessEntry
  | firstBlockKey | blockKey | blockValue
  | firstFlowEntry | flowEntry | pairKey | pairValue | pairEnd
  | firstFlowKey | flowKey | flowValue | noFlowValue
  | nothing
deriving DecidableEq, Repr

structure EventStream where
  tokens : TokenStream
  position : Position
  /-- What comes after the nodes that are open, innermost first. -/
  later : List Position
  /-- Where the open collections begin, innermost first. -/
  starts : List Mark
  /-- What the handles of this document stand for. -/
  handles : List TagText

abbrev Step := Except Problem (Event × EventStream)

namespace EventStream

def ofText (cs : List Char) : EventStream := ⟨.ofText cs, .firstDocument, [], [], []⟩

def peek (s : EventStream) : Except Problem (Token × EventStream) := do
  let (t, tokens) ← s.tokens.peek
  return (t, { s with tokens := tokens })

def drop (s : EventStream) : EventStream := { s with tokens := s.tokens.drop }

def goTo (s : EventStream) (p : Position) : EventStream := { s with position := p }

def leave (s : EventStream) : EventStream :=
  match s.later with
  | p :: rest => { s with position := p, later := rest }
  | [] => s.goTo .nothing

def leaveCollection (s : EventStream) : EventStream := { s.leave with starts := s.starts.drop 1 }

def awaiting (s : EventStream) (p : Position) : EventStream := { s with later := p :: s.later }

def begin' (s : EventStream) (m : Mark) : EventStream := { s with starts := m :: s.starts }

def emptyScalar (s : EventStream) (m : Mark) : Event × EventStream :=
  (⟨.scalar .none .plain [], m⟩, s)

def fail (s : EventStream) (activity : Activity) (cause : Cause) (m : Mark) : Problem :=
  match s.starts with
  | start :: _ => .during activity start cause m
  | [] => .plain cause m

/-! ## Documents -/

def standardHandles : List TagText :=
  [⟨['!'], ['!']⟩, ⟨['!', '!'], "tag:yaml.org,2002:".toList⟩]

def readDirectives : Nat → Bool → EventStream → Except Problem EventStream
  | 0, _, s => .ok s
  | count + 1, versioned, s => do
    let (t, s) ← s.peek
    match t.kind with
    | .directive (.version major minor) =>
      if versioned then throw (.plain .secondVersion t.start)
      else if major = 1 ∧ (minor = 1 ∨ minor = 2) then readDirectives count true s.drop
      else throw (.plain .otherVersion t.start)
    | .directive (.handle tag) =>
      if s.handles.any (·.handle == tag.handle) then throw (.plain .secondHandle t.start)
      else readDirectives count versioned { s with handles := s.handles ++ [tag] }.drop
    | _ => return s

/-- Reads the directives of a document. Each takes a character at least. -/
def directives (s : EventStream) : Except Problem EventStream := do
  let s ← readDirectives (s.tokens.queue.length + s.tokens.cursor.rest.length + 1) false s
  let missing := standardHandles.filter fun h => !s.handles.any (·.handle == h.handle)
  return { s with handles := s.handles ++ missing }

def skipDocumentEnds : Nat → EventStream → Except Problem EventStream
  | 0, s => .ok s
  | count + 1, s => do
    let (t, s) ← s.peek
    if t.kind = .documentEnd then skipDocumentEnds count s.drop else return s

def isDirective : TokenKind → Bool
  | .directive _ => true
  | _ => false

/-- A document begins with its mark. The first one may do without, if it has no directives. -/
def document (s : EventStream) (first : Bool) : Step := do
  let s ← if first then pure s
    else skipDocumentEnds (s.tokens.queue.length + s.tokens.cursor.rest.length + 1) s
  let (t, s) ← s.peek
  if t.kind = .textEnd then return (⟨.textEnd, t.start⟩, s.drop.goTo .nothing)
  else if first && !isDirective t.kind && t.kind != .documentStart then
    let s ← s.directives
    return (⟨.documentStart, t.start⟩, (s.awaiting .documentEnd).goTo .blockNode)
  else
    let s ← s.directives
    let (mark, s) ← s.peek
    if mark.kind = .documentStart then
      return (⟨.documentStart, t.start⟩, (s.awaiting .documentEnd).drop.goTo .documentContent)
    else throw (.plain .noDocumentStart mark.start)

def endDocument (s : EventStream) : Step := do
  let (t, s) ← s.peek
  let s := if t.kind = .documentEnd then s.drop else s
  return (⟨.documentEnd, t.start⟩, { s.goTo .nextDocument with handles := [] })

/-! ## Nodes -/

/-- Anchor and tag as they are written, with the place of the tag, and where they begin. -/
structure WrittenProperties where
  anchor : Option (List Char)
  tag : Option (TagText × Mark)

def readProperties (s : EventStream) : Except Problem (WrittenProperties × EventStream) := do
  let (t, s) ← s.peek
  match t.kind with
  | .anchor name =>
    let (u, s) ← s.drop.peek
    match u.kind with
    | .tag tag => return (⟨some name, some (tag, u.start)⟩, s.drop)
    | _ => return (⟨some name, none⟩, s)
  | .tag tag =>
    let (u, s) ← s.drop.peek
    match u.kind with
    | .anchor name => return (⟨some name, some (tag, t.start)⟩, s.drop)
    | _ => return (⟨none, some (tag, t.start)⟩, s)
  | _ => return (⟨none, none⟩, s)

def resolveTag (s : EventStream) (start : Mark) :
    Option (TagText × Mark) → Except Problem (Option (List Char))
  | none => .ok none
  | some (tag, m) =>
    if tag.handle.isEmpty then .ok (some tag.text)
    else
      match s.handles.find? (·.handle == tag.handle) with
      | some h => .ok (some (h.text ++ tag.text))
      | none => .error (.during .node start .undefinedHandle m)

/-- Reads the beginning of a node, or all of it if it is a scalar. Block collections are allowed
only outside of brackets, and only below a key may a sequence be indented no further than what it is
in. -/
def node (s : EventStream) (inBlock indentless : Bool) : Step := do
  let (first, s) ← s.peek
  match first.kind with
  | .reference name => return (⟨.reference name, first.start⟩, s.drop.leave)
  | _ =>
    let start := first.start
    let (written, s) ← s.readProperties
    let (t, s) ← s.peek
    let properties : Properties := ⟨written.anchor, ← s.resolveTag start written.tag⟩
    match t.kind, inBlock, indentless with
    | .blockEntry, _, true => return (⟨.sequenceStart properties, start⟩, s.goTo .indentlessEntry)
    | .scalar style text, _, _ => return (⟨.scalar properties style text, start⟩, s.drop.leave)
    | .flowSequenceStart, _, _ =>
      return (⟨.sequenceStart properties, start⟩, s.goTo .firstFlowEntry)
    | .flowMappingStart, _, _ => return (⟨.mappingStart properties, start⟩, s.goTo .firstFlowKey)
    | .blockSequenceStart, true, _ =>
      return (⟨.sequenceStart properties, start⟩, s.goTo .firstBlockEntry)
    | .blockMappingStart, true, _ =>
      return (⟨.mappingStart properties, start⟩, s.goTo .firstBlockKey)
    | _, _, _ =>
      if properties = .none then
        throw (.during (if inBlock then .blockNode else .flowNode) start .noNode t.start)
      else return (⟨.scalar properties .plain [], start⟩, s.leave)

def documentContent (s : EventStream) : Step := do
  let (t, s) ← s.peek
  match t.kind with
  | .directive _ | .documentStart | .documentEnd | .textEnd => return s.leave.emptyScalar t.start
  | _ => s.node true false

/-- Reads a node that may be left out, which it is in front of the tokens that `ends` holds of. -/
def nodeUnless (s : EventStream) (ends : TokenKind → Bool) (inBlock indentless : Bool)
    (next : Position) (missing : Token → Mark) : Step := do
  let (t, s) ← s.peek
  if ends t.kind then return (s.goTo next).emptyScalar (missing t)
  else (s.awaiting next).node inBlock indentless

/-! ## Collections -/

def openCollection (s : EventStream) : Except Problem EventStream := do
  let (t, s) ← s.peek
  return (s.begin' t.start).drop

def closeCollection (s : EventStream) (kind : EventKind) (t : Token) : Event × EventStream :=
  (⟨kind, t.start⟩, s.leaveCollection.drop)

def blockEntry (s : EventStream) : Step := do
  let (t, s) ← s.peek
  match t.kind with
  | .blockEntry =>
    s.drop.nodeUnless (fun k => k == .blockEntry || k == .blockEnd) true false .blockEntry
      fun _ => t.last
  | .blockEnd => return s.closeCollection .sequenceEnd t
  | _ => throw (s.fail .blockSequence .noEntry t.start)

/-- A sequence that is not indented ends in front of anything but an entry of it. -/
def indentlessEntry (s : EventStream) : Step := do
  let (t, s) ← s.peek
  match t.kind with
  | .blockEntry =>
    s.drop.nodeUnless (fun k => k == .blockEntry || k == .key || k == .value || k == .blockEnd)
      true false .indentlessEntry fun _ => t.last
  | _ => return (⟨.sequenceEnd, t.start⟩, s.leave)

def endsBlockPart (k : TokenKind) : Bool := k == .key || k == .value || k == .blockEnd

def blockKey (s : EventStream) : Step := do
  let (t, s) ← s.peek
  match t.kind with
  | .key => s.drop.nodeUnless endsBlockPart true true .blockValue fun _ => t.last
  | .blockEnd => return s.closeCollection .mappingEnd t
  | _ => throw (s.fail .blockMapping .noKey t.start)

def blockValue (s : EventStream) : Step := do
  let (t, s) ← s.peek
  match t.kind with
  | .value => s.drop.nodeUnless endsBlockPart true true .blockKey fun _ => t.last
  | _ => return (s.goTo .blockKey).emptyScalar t.start

def separator (s : EventStream) (first : Bool) (close : TokenKind) (activity : Activity)
    (cause : Cause) : Except Problem EventStream := do
  if first then return s
  let (t, s) ← s.peek
  if t.kind = close then return s
  else if t.kind = .flowEntry then return s.drop
  else throw (s.fail activity cause t.start)

/-- A pair in a sequence is a mapping of its own. -/
def flowEntry (s : EventStream) (first : Bool) : Step := do
  let s ← s.separator first .flowSequenceEnd .flowSequence .noSequenceSeparator
  let (t, s) ← s.peek
  match t.kind with
  | .flowSequenceEnd => return s.closeCollection .sequenceEnd t
  | .key => return (⟨.mappingStart .none, t.start⟩, s.drop.goTo .pairKey)
  | _ => (s.awaiting .flowEntry).node false false

/-- A pair without a key takes the token behind it along. -/
def pairKey (s : EventStream) : Step := do
  let (t, s) ← s.peek
  match t.kind with
  | .value | .flowEntry | .flowSequenceEnd => return (s.drop.goTo .pairValue).emptyScalar t.last
  | _ => (s.awaiting .pairValue).node false false

def pairValue (s : EventStream) : Step := do
  let (t, s) ← s.peek
  match t.kind with
  | .value =>
    s.drop.nodeUnless (fun k => k == .flowEntry || k == .flowSequenceEnd) false false .pairEnd
      Token.start
  | _ => return (s.goTo .pairEnd).emptyScalar t.start

def pairEnd (s : EventStream) : Step := do
  let (t, s) ← s.peek
  return (⟨.mappingEnd, t.start⟩, s.goTo .flowEntry)

def flowKey (s : EventStream) (first : Bool) : Step := do
  let s ← s.separator first .flowMappingEnd .flowMapping .noMappingSeparator
  let (t, s) ← s.peek
  match t.kind with
  | .flowMappingEnd => return s.closeCollection .mappingEnd t
  | .key =>
    s.drop.nodeUnless (fun k => k == .value || k == .flowEntry || k == .flowMappingEnd) false false
      .flowValue Token.start
  | _ => (s.awaiting .noFlowValue).node false false

def flowValue (s : EventStream) : Step := do
  let (t, s) ← s.peek
  match t.kind with
  | .value =>
    s.drop.nodeUnless (fun k => k == .flowEntry || k == .flowMappingEnd) false false .flowKey
      Token.start
  | _ => return (s.goTo .flowKey).emptyScalar t.start

def noFlowValue (s : EventStream) : Step := do
  let (t, s) ← s.peek
  return (s.goTo .flowKey).emptyScalar t.start

def next (s : EventStream) : Step :=
  match s.position with
  | .firstDocument => s.document true
  | .nextDocument => s.document false
  | .documentContent => s.documentContent
  | .documentEnd => s.endDocument
  | .blockNode => s.node true false
  | .firstBlockEntry => do (← s.openCollection).blockEntry
  | .blockEntry => s.blockEntry
  | .indentlessEntry => s.indentlessEntry
  | .firstBlockKey => do (← s.openCollection).blockKey
  | .blockKey => s.blockKey
  | .blockValue => s.blockValue
  | .firstFlowEntry => do (← s.openCollection).flowEntry true
  | .flowEntry => s.flowEntry false
  | .pairKey => s.pairKey
  | .pairValue => s.pairValue
  | .pairEnd => s.pairEnd
  | .firstFlowKey => do (← s.openCollection).flowKey true
  | .flowKey => s.flowKey false
  | .flowValue => s.flowValue
  | .noFlowValue => s.noFlowValue
  | .nothing => do
    let (t, s) ← s.peek
    return (⟨.textEnd, t.start⟩, s)

end EventStream
end PythonFlow.Yaml
