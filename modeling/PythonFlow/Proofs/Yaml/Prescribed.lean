import PythonFlow.Proofs.Yaml.Documents
import PythonFlow.Proofs.Yaml.Numbers

/-!
# Libraries that read what they write

A mapping is shown by a document if it is the only one, has no flaw, and has a plain scalar for each number
and truth value, which is resolved to that, and a scalar of any style for each key. The YAML specification
asks of a library that it shows what it has written. The library that reads and writes here does.
-/

set_option autoImplicit false

namespace PythonFlow.Yaml

mutual

/-- The parts of a value, as the specification prescribes them. A number is neither empty nor null. -/
inductive Plain.Shown (s : Schema) : Plain → List Part → Prop
  | number {n : UInt64} {text : String} (hread : s.readNat text = some n) (hempty : text.isEmpty = false)
      (hnull : s.isNull text = false) : Plain.Shown s (.number n) [.scalar none .plain text.toList]
  | truth {b : Bool} {text : String} (hread : s.readBool text = some b) :
      Plain.Shown s (.truth b) [.scalar none .plain text.toList]
  | mapping {m : Mapping} {ps : List Part} (h : Mapping.Shown s m ps) :
      Plain.Shown s (.mapping m) (.mappingStart :: (ps ++ [.mappingEnd]))

inductive Mapping.Shown (s : Schema) : Mapping → List Part → Prop
  | one {key : Word} {value : Plain} {style : ScalarStyle} {ps : List Part} (h : Plain.Shown s value ps) :
      Mapping.Shown s (.one key value) (.scalar none style key.chars :: ps)
  | more {key : Word} {value : Plain} {rest : Mapping} {style : ScalarStyle} {ps qs : List Part}
      (h : Plain.Shown s value ps) (hrest : Mapping.Shown s rest qs) :
      Mapping.Shown s (.more key value rest) (.scalar none style key.chars :: (ps ++ qs))

end

def Mapping.keys : Mapping → List String
  | .one key _ => [String.ofList key.chars]
  | .more key _ rest => String.ofList key.chars :: rest.keys

mutual

def Plain.Distinct : Plain → Prop
  | .number _ | .truth _ => True
  | .mapping m => m.keys.Nodup ∧ m.Distinct

def Mapping.Distinct : Mapping → Prop
  | .one _ value => value.Distinct
  | .more _ value rest => value.Distinct ∧ rest.Distinct

end

namespace Library

/-- Block mappings of numbers and truth values are written and read as the specification prescribes. -/
def Prescribed (yaml : Library) : Prop :=
  ∀ m : Mapping, (Plain.mapping m).Distinct → ∃ text, yaml.dump m = .ok text ∧
    (yaml.load text).flaw = none ∧ (yaml.load text).followed = false ∧
    (Plain.mapping m).Shown (yaml.load text).schema ((yaml.load text).parts.map Placed.part)

end Library

/-! ## The library that reads and writes here -/

mutual

def Plain.block : Plain → Block
  | .number n => .word (.ofNat n.toNat n.toNat_lt)
  | .truth b => .word (.ofString (toString b) (by cases b <;> decide))
  | .mapping m => .mapping m.entries

def Mapping.entries : Mapping → Entries
  | .one key value => .one key value.block
  | .more key value rest => .more key value.block rest.entries

end

mutual

theorem Plain.block_text (v : Plain) (column : Nat) : v.block.text column = v.text column := by
  cases v with
  | number n => rfl
  | truth b => rfl
  | mapping m =>
    have hentries := m.entries_text (column + 2)
    rw [Entries.text] at hentries
    rw [Plain.block, Block.text, Plain.text, hentries]

theorem Mapping.entries_text (m : Mapping) (column : Nat) : m.entries.text column = m.text column := by
  cases m with
  | one key value =>
    rw [Mapping.entries, Entries.text, Mapping.text, Entries.body, value.block_text]
    rfl
  | more key value rest =>
    have hrest := rest.entries_text column
    rw [Entries.text] at hrest
    rw [Mapping.entries, Entries.text, Mapping.text, Entries.body, value.block_text, hrest]
    rfl

end

theorem truth_shown (b : Bool) :
    (Plain.truth b).Shown .core [.scalar none .plain (toString b).toList] :=
  .truth (by cases b <;> decide)

theorem number_shown (n : UInt64) :
    (Plain.number n).Shown .core [.scalar none .plain (toString n.toNat).toList] := by
  have hread : readNat (toString n.toNat) = some n.toNat := read_nat_to_string n.toNat_lt
  have hne : ∀ s, readNat s = none → toString n.toNat ≠ s := by
    rintro s hs rfl
    exact absurd (hs.symm.trans hread) (Option.some_ne_none _).symm
  refine .number ?_ ?_ ?_
  · show (readNat (toString n.toNat)).map UInt64.ofNat = some n
    rw [hread]
    exact congrArg some UInt64.ofNat_toNat
  · rw [Bool.eq_false_iff, ne_eq, String.isEmpty_iff]
    exact hne "" (by decide)
  · simp only [Schema.core, isNull, List.contains_eq_mem, decide_eq_false_iff_not, List.mem_cons,
      List.not_mem_nil, or_false, not_or]
    exact ⟨hne _ (by decide), hne _ (by decide), hne _ (by decide), hne _ (by decide)⟩

mutual

theorem Plain.block_shown (v : Plain) : v.Shown .core v.block.parts := by
  cases v with
  | number n => exact number_shown n
  | truth b => exact truth_shown b
  | mapping m => exact .mapping m.entries_shown

theorem Mapping.entries_shown (m : Mapping) : m.Shown .core m.entries.parts := by
  cases m with
  | one key value => exact .one value.block_shown
  | more key value rest => exact .more value.block_shown rest.entries_shown

end

theorem Library.core_prescribed : Library.core.Prescribed := by
  intro m _
  obtain ⟨placed, hparts, htext⟩ := Document.of_text_mapping m.entries
  rw [m.entries_text] at htext
  refine ⟨String.ofList (m.text 0), rfl, ?_⟩
  have hload : Library.core.load (String.ofList (m.text 0)) = ⟨placed, [], none, false, .core⟩ := htext
  rw [hload]
  refine ⟨rfl, rfl, ?_⟩
  rw [hparts]
  exact .mapping m.entries_shown

end PythonFlow.Yaml
