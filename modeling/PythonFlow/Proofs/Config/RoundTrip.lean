import PythonFlow.Config.Writing
import PythonFlow.Proofs.Config.Fields

/-!
# Configurations that are written and read again

What is written for a configuration is a block mapping of numbers and truth values, whatever its options are.
With any library that does as the YAML specification prescribes, it is read as the same configuration, and
refused only where the depth is out of range.
-/

set_option autoImplicit false

namespace PythonFlow

open Yaml (Document Library Mapping Part Plain Word)
open Reading

namespace Config
variable (c : Config) (d : Document)

/-! ## Fields -/

theorem depth_taken {n : UInt64} (path : List String) (ps : List Part)
    (h : (Plain.number n).Shown d.schema ps) : Reads (readDepth d path) ps n := by
  cases h with
  | number hread => exact .followed trivial (reads_scalar hread)

theorem truth_taken {b : Bool} (path : List String) (ps : List Part) (h : (Plain.truth b).Shown d.schema ps) :
    Reads (readTruth d path) ps b := by
  cases h with
  | truth hread => exact .followed trivial (reads_scalar hread)

/-- The options take what is written for a configuration. -/
theorem options_taken : TakesAll d (optionFields d) c.entries fun _ => c := by
  have hall : TakesAll d (optionFields d) c.entries _ :=
    .more (takes_field rfl (depth_taken d)) <| .more (takes_field rfl (truth_taken d)) <|
      .more (takes_field rfl (truth_taken d)) <| .one (takes_field rfl (truth_taken d))
  exact hall

theorem options_distinct : (Plain.mapping c.entries).Distinct := by
  refine ⟨?_, trivial, trivial, trivial, trivial⟩
  simp [Config.entries, Mapping.keys, Word.ofString]

theorem options_read (path : List String) (ps : List Part) (h : (Plain.mapping c.entries).Shown d.schema ps) :
    Reads (readMapping d (optionFields d) .options .standard path) ps c :=
  (c.options_taken d).reads_mapping c.options_distinct.1 (Nat.le_refl 4) h

/-! ## Files -/

/-- A version is read as the number that it is. -/
theorem version_read {n : UInt64} (hn : n.toNat < Nat.pow 2 32) (around : Around) (path : List String)
    {ps : List Part} (h : (Plain.number n).Shown d.schema ps) :
    Reads (readVersion d around path) ps (some n.toNat) := by
  cases h with
  | @number _ text hread hempty hnull =>
    refine .followed trivial <| .cons (fun m rest => ?_) fun _ => reads_nothing (some n.toNat)
    have hscalar : readScalar d "int" d.schema.readNat .version path (⟨.scalar none .plain text.toList, m⟩ :: rest) =
        .ok (n, rest) := by
      simp [readScalar, convertible, hread]
    simp only [readVersionHere, readVersionNumber, String.ofList_toList, hempty, hnull, hscalar, hn, if_true,
      Bool.or_false, Bool.false_eq_true, if_false]

theorem version_taken {n : UInt64} (hn : n.toNat < Nat.pow 2 32) {key : Word}
    (hkey : String.ofList key.chars = "version") :
    Takes d (fileFields d) key (.number n) fun made => { made with version := some n.toNat } := by
  refine ⟨versionField d, hkey ▸ rfl, hkey.symm, fun around path made ps h => ?_⟩
  refine (version_read d hn around path h).map (f := fun v => (⟨v, made.config⟩ : ConfigFile)) fun placed => ?_
  cases hread : readVersion d around path placed <;> simp [versionField, hread]

theorem file_taken : TakesAll d (fileFields d) (ConfigFile.entries ⟨some fileVersion, c⟩)
    fun _ => ⟨some fileVersion, c⟩ := by
  have hall : TakesAll d (fileFields d) (ConfigFile.entries ⟨some fileVersion, c⟩) _ :=
    .more (version_taken d (by decide) rfl) <| .one (takes_field rfl (c.options_read d))
  exact hall

theorem file_distinct : (Plain.mapping (ConfigFile.entries ⟨some fileVersion, c⟩)).Distinct := by
  refine ⟨?_, trivial, c.options_distinct⟩
  simp [ConfigFile.entries, Mapping.keys, Word.ofString]

/-- A document without a flaw that shows what is written for a configuration is read as this. -/
theorem read_file_eq {d : Document} (hflaw : d.flaw = none) (hfollowed : d.followed = false)
    (h : (Plain.mapping (ConfigFile.entries ⟨some fileVersion, c⟩)).Shown d.schema (d.parts.map Yaml.Placed.part)) :
    readFile d = .ok ⟨some fileVersion, c⟩ := by
  have hreads : Reads (readMapping d (fileFields d) .file ⟨none, .standard⟩ [])
      (d.parts.map Yaml.Placed.part) ⟨some fileVersion, c⟩ :=
    (c.file_taken d).reads_mapping c.file_distinct.1 (Nat.le_refl 2) h
  obtain ⟨rest, -, hread⟩ := hreads d.parts [] (List.append_nil _).symm
  simp [readFile, hread, hflaw, hfollowed]

theorem decode_valid {yaml : Library} {text : String} {c : Config} (h : decode yaml text = .ok c) : c.Valid := by
  unfold decode at h
  split at h
  · cases h
  · exact of_file_valid h

/-- What is written for a configuration is read as the configuration, if its depth is in range. -/
theorem decode_encode {yaml : Library} (hy : yaml.Prescribed) (c : Config) :
    ∃ text, c.encode yaml = .ok text ∧ decode yaml text =
      match c.validate with
      | .ok () => .ok c
      | .error e => .error e := by
  obtain ⟨text, hdump, hflaw, hfollowed, hshown⟩ := hy _ c.file_distinct
  refine ⟨text, by rw [encode, hdump], ?_⟩
  rw [decode, c.read_file_eq hflaw hfollowed hshown]
  simp only [ofFile, ne_eq, not_true_eq_false, if_false]
  cases c.validate <;> rfl

/-- With a library that writes and reads block mappings of numbers and truth values as the specification
prescribes, every configuration is written. One that was read is valid and is read again from what is written
for it. Whatever its depth is, a configuration is read from what is written for it, or refused for its depth
and nothing else. -/
theorem yaml_round_trip {yaml : Library} (hy : yaml.Prescribed) :
    (∀ text c, decode yaml text = .ok c → c.validate = .ok () ∧
      ∃ written, c.encode yaml = .ok written ∧ decode yaml written = .ok c) ∧
    ∀ c : Config, ∃ written, c.encode yaml = .ok written ∧
      (c.validate = .ok () → decode yaml written = .ok c) ∧
      (c.validate ≠ .ok () → decode yaml written = .error (.depthOutOfRange c.depth)) := by
  have hback : ∀ c : Config, c.validate = .ok () →
      ∃ written, c.encode yaml = .ok written ∧ decode yaml written = .ok c := fun c hvalid => by
    obtain ⟨written, hwritten, hread⟩ := decode_encode hy c
    rw [hvalid] at hread
    exact ⟨written, hwritten, hread⟩
  refine ⟨fun text c hread => ?_, fun c => ?_⟩
  · have hvalid : c.validate = .ok () := (validate_eq_ok_iff c).2 (decode_valid hread)
    exact ⟨hvalid, hback c hvalid⟩
  · obtain ⟨written, hwritten, hread⟩ := decode_encode hy c
    refine ⟨written, hwritten, fun hvalid => ?_, fun hinvalid => ?_⟩
    · rw [hread, hvalid]
    · have herror : c.validate = .error (.depthOutOfRange c.depth) :=
        if_neg fun hvalid => hinvalid ((validate_eq_ok_iff c).2 hvalid)
      rw [hread, herror]

theorem bracketed_options_round_trip :
    Library.core.Prescribed ∧
      decode .core "flow: \x7bmax_depth: 3\x7d\nversion: 1" = .ok ⟨3, true, false, true⟩ ∧
      decode .core (toYaml ⟨3, true, false, true⟩) = .ok ⟨3, true, false, true⟩ ∧
      decode .core (toYaml ⟨0, true, false, true⟩) = .error (.depthOutOfRange 0) := by
  have hy := Yaml.Library.core_prescribed
  have hread : decode .core "flow: \x7bmax_depth: 3\x7d\nversion: 1" = .ok ⟨3, true, false, true⟩ := by
    decide +kernel
  obtain ⟨hagain, hall⟩ := yaml_round_trip hy
  obtain ⟨-, written, hwritten, hback⟩ := hagain _ _ hread
  obtain ⟨refused, hrefused, -, herror⟩ := hall ⟨0, true, false, true⟩
  obtain rfl := Except.ok.inj ((encode_core _).symm.trans hwritten)
  obtain rfl := Except.ok.inj ((encode_core _).symm.trans hrefused)
  exact ⟨hy, hread, hback, herror (by decide)⟩

end Config
end PythonFlow
