import PythonFlow.Config.Reading
import PythonFlow.Proofs.Yaml.Prescribed

/-!
# Reading fields

What is read from the front of a row of parts does not depend on where they stand in the text. A mapping that
a document shows is read entry by entry, in any order.
-/

set_option autoImplicit false

namespace PythonFlow.Reading

open Yaml (Placed Part Mark Document Word Plain Mapping ScalarStyle)

/-- From a row of parts that begins with `parts`, wherever they stand, just these are read, as `a`. -/
def Reads {α : Type} (read : List Placed → Result α) (parts : List Part) (a : α) : Prop :=
  ∀ placed more, placed.map Placed.part = parts ++ more →
    ∃ rest, rest.map Placed.part = more ∧ read placed = .ok (a, rest)

def NoReference : Part → Prop
  | .reference _ => False
  | _ => True

section reading
variable {α β : Type} {d : Document}

theorem followed_eq {read : List Placed → Result α} {p : Placed} (hp : NoReference p.part) (rest : List Placed) :
    followed d read (p :: rest) = read (p :: rest) := by
  obtain ⟨part, m⟩ := p
  cases part <;> first | rfl | exact hp.elim

theorem reads_nothing (a : α) : Reads (fun rest => .ok (a, rest)) [] a :=
  fun placed _ hplaced => ⟨placed, hplaced, rfl⟩

/-- One part after which something else is read. -/
theorem Reads.cons {read : List Placed → Result α} {next : Mark → List Placed → Result α} {p : Part}
    {ps : List Part} {a : α} (hread : ∀ m rest, read (⟨p, m⟩ :: rest) = next m rest)
    (h : ∀ m, Reads (next m) ps a) : Reads read (p :: ps) a := by
  intro placed more hplaced
  obtain ⟨⟨part, m⟩, rest, rfl, rfl, hrest⟩ := List.map_eq_cons_iff.1 hplaced
  rw [hread]
  exact h m rest more hrest

/-- What is read first decides what is read next. -/
theorem Reads.bind {read : List Placed → Result α} {next : α → List Placed → Result β}
    {whole : List Placed → Result β} {ps qs : List Part} {a : α} {b : β} (h : Reads read ps a)
    (hnext : Reads (next a) qs b)
    (hwhole : ∀ placed, whole placed = match read placed with
      | .error e => .error e
      | .ok (a, rest) => next a rest) : Reads whole (ps ++ qs) b := by
  intro placed more hplaced
  obtain ⟨rest, hrest, hok⟩ := h placed (qs ++ more) (hplaced.trans (List.append_assoc _ _ _))
  rw [hwhole, hok]
  exact hnext rest more hrest

theorem Reads.map {read : List Placed → Result α} {whole : List Placed → Result β} {f : α → β}
    {ps : List Part} {a : α} (h : Reads read ps a)
    (hwhole : ∀ placed, whole placed = match read placed with
      | .error e => .error e
      | .ok (a, rest) => .ok (f a, rest)) : Reads whole ps (f a) := by
  simpa using h.bind (reads_nothing (f a)) hwhole

theorem Reads.followed {read : List Placed → Result α} {p : Part} {ps : List Part} {a : α} (hp : NoReference p)
    (h : Reads read (p :: ps) a) : Reads (followed d read) (p :: ps) a := by
  intro placed more hplaced
  obtain ⟨q, rest, rfl, rfl, -⟩ := List.map_eq_cons_iff.1 hplaced
  rw [followed_eq hp]
  exact h _ more hplaced

/-- A plain scalar is read by what its text is read as. -/
theorem reads_scalar {type : String} {read : String → Option α} {expected : Expected} {path : List String}
    {text : String} {a : α} (h : read text = some a) :
    Reads (readScalar d type read expected path) [.scalar none .plain text.toList] a :=
  .cons (fun m rest => by simp [readScalar, convertible, h]) fun _ => reads_nothing a

end reading

/-! ## Mappings -/

section mappings
variable {σ : Type} {d : Document} {fields : List (Field σ)}

/-- One of the fields has the name of the key, and reads the value wherever it is shown. -/
def Takes (d : Document) (fields : List (Field σ)) (key : Word) (value : Plain) (set : σ → σ) : Prop :=
  ∃ f, fieldNamed fields (String.ofList key.chars) = some f ∧ f.name = String.ofList key.chars ∧
    ∀ around path made ps, value.Shown d.schema ps → Reads (f.read around path made) ps (set made)

theorem takes_field {α : Type} {key : Word} {value : Plain} {read : List String → List Placed → Result α}
    {set : σ → α → σ} {a : α}
    (hfield : fieldNamed fields (String.ofList key.chars) = some (field (String.ofList key.chars) read set))
    (h : ∀ path ps, value.Shown d.schema ps → Reads (read path) ps a) :
    Takes d fields key value fun made => set made a :=
  ⟨_, hfield, rfl, fun _ path _ ps hshown => (h path ps hshown).map fun _ => rfl⟩

inductive TakesAll (d : Document) (fields : List (Field σ)) : Mapping → (σ → σ) → Prop
  | one {key : Word} {value : Plain} {set : σ → σ} (h : Takes d fields key value set) :
      TakesAll d fields (.one key value) set
  | more {key : Word} {value : Plain} {rest : Mapping} {set sets : σ → σ} (h : Takes d fields key value set)
      (hrest : TakesAll d fields rest sets) :
      TakesAll d fields (.more key value rest) fun made => sets (set made)

/-- A key decides which field is read. -/
theorem read_fields_key {around : Around} {key : Word} {f : Field σ}
    (hf : fieldNamed fields (String.ofList key.chars) = some f) (hname : f.name = String.ofList key.chars)
    {seen : List String} (hseen : String.ofList key.chars ∉ seen) (made : σ) (style : ScalarStyle) (m : Mark)
    (rest : List Placed) (count : Nat) :
    readFields d fields around (count + 1) seen made (⟨.scalar none style key.chars, m⟩ :: rest) =
      match f.read around (around.path ++ [String.ofList key.chars]) made rest with
      | .error e => .error e
      | .ok (made, rest) =>
        readFields d fields around count (String.ofList key.chars :: seen) made rest := by
  have hkey : followed d (readFieldHere d fields around.path)
      (⟨.scalar none style key.chars, m⟩ :: rest) = .ok (f, rest) := by
    rw [followed_eq (p := ⟨.scalar none style key.chars, m⟩) trivial]
    simp [readFieldHere, hf]
  cases hread : f.read around (around.path ++ [String.ofList key.chars]) made rest <;>
    simp [readFields, hkey, hname, hseen, pathName, hread]

theorem Takes.reads_key {around : Around} {key : Word} {value : Plain} {set : σ → σ}
    (h : Takes d fields key value set) {ps qs : List Part} (hshown : value.Shown d.schema ps)
    (style : ScalarStyle) {seen : List String} (hseen : String.ofList key.chars ∉ seen) {made all : σ}
    {count : Nat} (hnext : Reads (readFields d fields around count (String.ofList key.chars :: seen) (set made))
      qs all) :
    Reads (readFields d fields around (count + 1) seen made) (.scalar none style key.chars :: (ps ++ qs))
      all := by
  obtain ⟨f, hf, hname, hreads⟩ := h
  refine .cons (fun m rest => read_fields_key hf hname hseen made style m rest count) fun m => ?_
  exact (hreads around _ made ps hshown).bind hnext fun _ => rfl

theorem reads_end {around : Around} {count : Nat} {seen : List String} (made : σ) :
    Reads (readFields d fields around (count + 1) seen made) [.mappingEnd] made :=
  .cons (fun m rest => by simp [readFields]) fun _ => reads_nothing made

/-- Entries that differ are read one after the other, up to the end of their mapping. -/
theorem TakesAll.reads_fields {m : Mapping} {set : σ → σ} (h : TakesAll d fields m set) {around : Around}
    (hdistinct : m.keys.Nodup) {ps : List Part} (hshown : m.Shown d.schema ps) {count : Nat}
    (hcount : m.keys.length < count) {seen : List String} (hseen : ∀ key ∈ m.keys, key ∉ seen) (made : σ) :
    Reads (readFields d fields around count seen made) (ps ++ [.mappingEnd]) (set made) := by
  obtain ⟨count, rfl⟩ := Nat.exists_eq_add_one_of_ne_zero (Nat.ne_zero_of_lt hcount)
  induction h generalizing ps count seen made with
  | @one key value set h =>
    cases hshown with
    | @one _ _ style ps hvalue =>
      obtain ⟨count, rfl⟩ : ∃ n, count = n + 1 :=
        Nat.exists_eq_add_one_of_ne_zero (Nat.ne_zero_of_lt (Nat.lt_of_succ_lt_succ hcount))
      exact h.reads_key hvalue style (hseen _ (List.mem_singleton.2 rfl)) (reads_end _)
  | @more key value rest set sets h _ ih =>
    cases hshown with
    | @more _ _ _ style ps qs hvalue hrest =>
      obtain ⟨hfresh, hseen⟩ := List.forall_mem_cons.1 hseen
      obtain ⟨hnotin, hdistinct⟩ := List.nodup_cons.1 hdistinct
      have hlater : ∀ key' ∈ rest.keys, key' ∉ String.ofList key.chars :: seen := fun key' hkey' => by
        rw [List.mem_cons, not_or]
        exact ⟨fun hsame => hnotin (hsame ▸ hkey'), hseen key' hkey'⟩
      have hmore : rest.keys.length < count := Nat.lt_of_succ_lt_succ hcount
      obtain ⟨count, rfl⟩ := Nat.exists_eq_add_one_of_ne_zero (Nat.ne_zero_of_lt hmore)
      have hnext := ih hdistinct hrest hlater (set made) count hmore
      rw [List.cons_append, List.append_assoc]
      exact h.reads_key hvalue style hfresh hnext

/-- A mapping all of whose entries are taken, each key named once. -/
theorem TakesAll.reads_mapping {m : Mapping} {set : σ → σ} (h : TakesAll d fields m set)
    (hdistinct : m.keys.Nodup) (hcount : m.keys.length ≤ fields.length) {expected : Expected} {standard : σ}
    {path : List String} {ps : List Part} (hshown : (Plain.mapping m).Shown d.schema ps) :
    Reads (readMapping d fields expected standard path) ps (set standard) := by
  cases hshown with
  | mapping hentries =>
    refine .followed trivial <| .cons (fun _ _ => rfl) fun _ => ?_
    exact h.reads_fields hdistinct hentries (Nat.lt_succ_of_le hcount) (fun _ _ => List.not_mem_nil) standard

end mappings
end PythonFlow.Reading
