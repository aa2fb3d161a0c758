import PythonFlow.Proofs.Render.Dot

/-!
# Names of graphs

The name that a reader of the written form finds for the graph, and when it may stand there without quotes.
It is never empty, it has letters, numbers and underscores only, and it does not begin with a digit. What
keeps it from being a name is being a word of the language, and it is one exactly if the owner's own name is.
-/

set_option autoImplicit false

namespace PythonFlow

namespace Dot

/-- Characters of which names without quotes consist. Beyond ASCII all of them do. -/
def isNameChar (c : Char) : Bool := c.isAlphanum || c == '_' || 128 ≤ c.toNat

def graphName (text : String) : Option (List Char) :=
  ("digraph ".toList.isPrefixOf? text.toList).map (List.takeWhile isNameChar)

def keywords : List String := ["node", "edge", "graph", "digraph", "subgraph", "strict"]

/-- The case of letters does not count in a keyword. -/
def IsKeyword (name : List Char) : Prop := String.ofList (name.map Char.toLower) ∈ keywords

instance (name : List Char) : Decidable (IsKeyword name) :=
  inferInstanceAs (Decidable (_ ∈ keywords))

structure Unquoted (name : List Char) : Prop where
  ne_nil : name ≠ []
  chars : ∀ c ∈ name, isNameChar c = true
  no_digit : ∀ c, name.head? = some c → c.isDigit = false
  no_keyword : ¬ IsKeyword name

/-! ## Characters -/

/-- Within ASCII the letters and numbers of Unicode are the usual ones. -/
theorem is_alphanumeric_of_ascii {c : Char} (h : c.toNat < 128) :
    Unicode.isAlphanumeric c = c.isAlphanum := by
  have htable : ∀ n < 128, Unicode.isAlphanumeric (Char.ofNat n) = (Char.ofNat n).isAlphanum := by
    decide +kernel
  simpa using htable c.toNat h

theorem id_char_allowed (c : Char) : Unicode.isAlphanumeric (idChar c) = true ∨ idChar c = '_' := by
  unfold idChar
  split
  · next h => simpa using h
  · exact .inr rfl

theorem is_name_char_of_allowed {c : Char} (h : Unicode.isAlphanumeric c = true ∨ c = '_') :
    isNameChar c = true := by
  rcases h with h | rfl
  · by_cases hascii : c.toNat < 128
    · rw [is_alphanumeric_of_ascii hascii] at h
      simp [isNameChar, h]
    · simp [isNameChar, Nat.le_of_not_lt hascii]
  · rfl

theorem id_chars_allowed (cs : List Char) :
    ∀ c ∈ idChars cs, Unicode.isAlphanumeric c = true ∨ c = '_' := by
  have hmap : ∀ c ∈ cs.map idChar, Unicode.isAlphanumeric c = true ∨ c = '_' := by
    simpa using fun c _ => id_char_allowed c
  unfold idChars
  split
  · have hword : "anonymous".toList.all Unicode.isAlphanumeric = true := by decide +kernel
    exact List.forall_mem_cons.2 ⟨.inr rfl, fun c hc => .inl (List.all_eq_true.1 hword c hc)⟩
  · next heq =>
    rw [heq] at hmap
    split
    · exact List.forall_mem_cons.2 ⟨.inr rfl, hmap⟩
    · exact hmap

theorem id_chars_no_digit (cs : List Char) : ∀ c, (idChars cs).head? = some c → c.isDigit = false := by
  unfold idChars
  split
  · simp
  · split
    · simp
    · next hdigit => simpa [Char.isDigit, Char.le_def] using hdigit

/-! ## Keywords -/

theorem is_alpha_of_lower {c : Char} (h : c.toLower.isLower = true) : c.isAlpha = true := by
  by_cases hupper : c.isUpper = true
  · exact (Bool.or_eq_true _ _).mpr (.inl hupper)
  · have hsame : c.toLower = c := dif_neg fun hrange => hupper (decide_eq_true hrange)
    exact (Bool.or_eq_true _ _).mpr (.inr (hsame ▸ h))

/-- Keywords are words of ASCII letters. -/
theorem is_alpha_of_keyword {name : List Char} (h : IsKeyword name) : ∀ c ∈ name, c.isAlpha = true := by
  have hwords : (keywords.all fun w => w.toList.all Char.isLower) = true := by decide
  simp only [List.all_eq_true] at hwords
  exact fun c hc => is_alpha_of_lower (hwords _ h c.toLower (by simpa using ⟨c, hc, rfl⟩))

theorem ne_nil_of_keyword {name : List Char} (h : IsKeyword name) : name ≠ [] := by
  rintro rfl
  exact absurd h (by decide)

theorem is_alpha_iff {c : Char} :
    c.isAlpha = true ↔ (65 ≤ c.toNat ∧ c.toNat ≤ 90) ∨ (97 ≤ c.toNat ∧ c.toNat ≤ 122) := by
  change (decide (65 ≤ c.val ∧ c.val ≤ 90) || decide (97 ≤ c.val) && decide (c.val ≤ 122)) = true ↔ _
  simp [UInt32.le_iff_toNat_le]

theorem id_char_of_alpha {c : Char} (h : c.isAlpha = true) : idChar c = c := by
  have hascii : c.toNat < 128 := by
    have hletter := is_alpha_iff.1 h
    omega
  have hkept : Unicode.isAlphanumeric c = true := by
    rw [is_alphanumeric_of_ascii hascii, Char.isAlphanum, h, Bool.true_or]
  rw [idChar, hkept, Bool.true_or, if_pos rfl]

theorem id_char_of_alpha_id_char {c : Char} (h : (idChar c).isAlpha = true) : idChar c = c := by
  unfold idChar at h ⊢
  split at h
  · next hkept => rw [if_pos hkept]
  · cases h

theorem not_alpha_of_digit {c : Char} (h : '0' ≤ c ∧ c ≤ '9') : c.isAlpha = false := by
  have hle : c.toNat ≤ 57 := UInt32.le_iff_toNat_le.1 h.2
  refine Bool.eq_false_iff.2 fun halpha => ?_
  have hletter := is_alpha_iff.1 halpha
  omega

/-- A word of ASCII letters is written as it is. -/
theorem id_chars_of_alpha {cs : List Char} (hne : cs ≠ []) (h : ∀ c ∈ cs, c.isAlpha = true) :
    idChars cs = cs := by
  have hmap : cs.map idChar = cs :=
    (List.map_congr_left fun c hc => id_char_of_alpha (h c hc)).trans cs.map_id
  cases cs with
  | nil => contradiction
  | cons c rest =>
    rw [idChars, hmap]
    refine if_neg fun hdigit => ?_
    have halpha := h c List.mem_cons_self
    rw [not_alpha_of_digit hdigit] at halpha
    cases halpha

/-- What is put in the place of a character, or in front of the first, is no letter. -/
theorem id_chars_of_alpha_id_chars {cs : List Char} (h : ∀ c ∈ idChars cs, c.isAlpha = true) :
    idChars cs = cs := by
  unfold idChars at h ⊢
  split at h
  · exact absurd (h '_' List.mem_cons_self) (by decide)
  · next c rest heq =>
    split at h
    · exact absurd (h '_' List.mem_cons_self) (by decide)
    · next hdigit =>
      rw [if_neg hdigit, ← heq]
      rw [← heq] at h
      have hkept : ∀ c ∈ cs, idChar c = c := fun c hc =>
        id_char_of_alpha_id_char (h _ (List.mem_map_of_mem hc))
      exact (List.map_congr_left hkept).trans cs.map_id

theorem keyword_id_chars_iff (cs : List Char) : IsKeyword (idChars cs) ↔ IsKeyword cs := by
  constructor
  · intro h
    rwa [id_chars_of_alpha_id_chars (is_alpha_of_keyword h)] at h
  · intro h
    rwa [id_chars_of_alpha (ne_nil_of_keyword h) (is_alpha_of_keyword h)]

end Dot

namespace ControlFlow

/-- A reader finds the whole name, as the blank behind it belongs to no name. -/
theorem graph_name_dot (f : ControlFlow) (t : SyntaxTree) :
    Dot.graphName (f.toDot t) = some (Dot.idChars (f.ownerName t).toList) := by
  obtain ⟨rest, hrest⟩ : ∃ rest, (f.toDot t).toList =
      "digraph ".toList ++ (Dot.idChars (f.ownerName t).toList ++ ' ' :: rest) := by
    unfold toDot
    simp only [Dot.identifier, String.toList_append, String.toList_ofList, List.append_assoc,
      List.append_cancel_left_eq]
    exact ⟨_, rfl⟩
  have hchars : ∀ c ∈ Dot.idChars (f.ownerName t).toList, Dot.isNameChar c = true := fun c hc =>
    Dot.is_name_char_of_allowed (Dot.id_chars_allowed _ c hc)
  rw [Dot.graphName, hrest, Dot.prefix_append, Option.map_some, List.takeWhile_append_of_pos hchars,
    List.takeWhile_cons_of_neg (by decide), List.append_nil]

/-- The name of a written graph is not empty, consists of letters, numbers and underscores, and does not
begin with a digit. It may stand without quotes unless the owner has a keyword for its name, which is then
written as it is. -/
theorem graph_name_unquoted_iff (f : ControlFlow) (t : SyntaxTree) :
    ∃ name, Dot.graphName (f.toDot t) = some name ∧
      name ≠ [] ∧ (∀ c ∈ name, Unicode.isAlphanumeric c = true ∨ c = '_') ∧
      (∀ c, name.head? = some c → c.isDigit = false) ∧
      (Dot.Unquoted name ↔ ¬ Dot.IsKeyword (f.ownerName t).toList) := by
  have hchars := Dot.id_chars_allowed (f.ownerName t).toList
  have hdigit := Dot.id_chars_no_digit (f.ownerName t).toList
  refine ⟨_, f.graph_name_dot t, Dot.id_chars_ne_nil _, hchars, hdigit, ?_⟩
  rw [← Dot.keyword_id_chars_iff]
  exact ⟨Dot.Unquoted.no_keyword, fun hword => ⟨Dot.id_chars_ne_nil _,
    fun c hc => Dot.is_name_char_of_allowed (hchars c hc), hdigit, hword⟩⟩

/-- A class may well be called so. -/
example : ¬ Dot.Unquoted (Dot.idChars "Node".toList) := fun h => h.no_keyword (by decide +kernel)

end ControlFlow
end PythonFlow
