import PythonFlow.Yaml.Event
import PythonFlow.Yaml.Value

/-!
# Documents

The first document of a text, put together from the events up to its end or to the first problem, and the text
that a mapping is written as. An entry stands in a line of its own, and the entries of a mapping two columns
further in than its key.
-/

set_option autoImplicit false

namespace PythonFlow.Yaml

/-- The anchors of a document. Each gets as its number how many names were known before it; a name
that is known is not counted again, so that a number may be given to two nodes. The later of them is
meant. -/
structure Anchors where
  /-- Latest first, each name once. -/
  numbers : List (List Char × Nat)
  /-- Where the node of a number begins, latest first. -/
  places : List (Nat × Nat)

namespace Anchors

def empty : Anchors := ⟨[], []⟩

def define (a : Anchors) (name : List Char) (place : Nat) : Anchors :=
  let number := a.numbers.length
  ⟨(name, number) :: a.numbers.filter (·.1 != name), (number, place) :: a.places⟩

def defineIf (a : Anchors) (name : Option (List Char)) (place : Nat) : Anchors :=
  match name with
  | some n => a.define n place
  | none => a

end Anchors

structure Draft where
  /-- Latest first. -/
  parts : List Placed
  anchors : Anchors

namespace Draft

def empty : Draft := ⟨[], .empty⟩

def add (d : Draft) (part : Part) (m : Mark) (anchor : Option (List Char)) : Draft :=
  ⟨⟨part, m⟩ :: d.parts, d.anchors.defineIf anchor d.parts.length⟩

def addEvent (d : Draft) (e : Event) : Except Flaw Draft :=
  match e.kind with
  | .reference name =>
    match d.anchors.numbers.lookup name with
    | some number => .ok (d.add (.reference number) e.mark none)
    | none => .error (.unknownAnchor e.mark)
  | .scalar properties style text =>
    .ok (d.add (.scalar properties.tag style text) e.mark properties.anchor)
  | .sequenceStart properties => .ok (d.add .sequenceStart e.mark properties.anchor)
  | .mappingStart properties => .ok (d.add .mappingStart e.mark properties.anchor)
  | .sequenceEnd => .ok (d.add .sequenceEnd e.mark none)
  | .mappingEnd => .ok (d.add .mappingEnd e.mark none)
  | .textEnd | .documentStart | .documentEnd => .ok d

end Draft

namespace Document

def finish (d : Draft) (flaw : Option Flaw) (followed : Bool) : Document :=
  ⟨d.parts.reverse, d.anchors.places, flaw, followed, .core⟩

def comesAfter (s : EventStream) : Bool :=
  match s.next with
  | .ok (e, _) => e.kind != .textEnd
  | .error _ => true

def collect : Nat → Draft → EventStream → Document
  | 0, d, _ => finish d none false
  | events + 1, d, s =>
    match s.next with
    | .error p => finish d (some (.problem p)) false
    | .ok (e, s) =>
      match e.kind with
      | .textEnd => finish (if d.parts.isEmpty then d.add .nothing e.mark none else d) none false
      | .documentEnd => finish d none (comesAfter s)
      | _ =>
        match d.addEvent e with
        | .error f => finish d (some f) false
        | .ok d => collect events d s

/-- The first document of a text. A character makes four tokens at most, and a token four events. -/
def ofText (text : String) : Document :=
  let cs := text.toList
  match forbiddenOffset 0 cs with
  | some offset => ⟨[], [], some (.problem ⟨.controlCharacter, .offset offset, none⟩), false, .core⟩
  | none => collect (16 * (cs.length + 4)) .empty (.ofText (unifyBreaks false cs))

end Document

/-! ## Writing -/

def blanks (n : Nat) : List Char := List.replicate n ' '

mutual

def Plain.text (column : Nat) : Plain → List Char
  | .number n => ' ' :: ((toString n.toNat).toList ++ ['\n'])
  | .truth b => ' ' :: ((toString b).toList ++ ['\n'])
  | .mapping m => '\n' :: (blanks (column + 2) ++ m.text (column + 2))

/-- The text of entries in a column, but for the indentation of the first of them. -/
def Mapping.text (column : Nat) : Mapping → List Char
  | .one key value => key.chars ++ ':' :: value.text column
  | .more key value rest =>
    key.chars ++ ':' :: (value.text column ++ (blanks column ++ rest.text column))

end

def Library.core : Library := ⟨Document.ofText, fun m => .ok (String.ofList (m.text 0))⟩

end PythonFlow.Yaml
