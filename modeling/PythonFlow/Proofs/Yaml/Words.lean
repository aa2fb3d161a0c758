import PythonFlow.Yaml.Scalar.Plain
import PythonFlow.Yaml.Document

/-!
# Words

A word of letters, digits and underscores is a plain scalar wherever it stands. It is read as it is, as a key
up to its colon and as a value up to the end of its line, together with the indentation of the line behind
it.
-/

set_option autoImplicit false

namespace PythonFlow.Yaml

/-! ## Characters -/

section characters
variable {c : Char} (hc : isWordChar c = true)
include hc

theorem ne_of_word_char {x : Char} (hx : isWordChar x = false) : c ≠ x := by
  rintro rfl
  rw [hc] at hx
  cases hx

theorem range_of_word_char : 48 ≤ c.toNat ∧ c.toNat ≤ 122 := by
  rcases (Bool.or_eq_true _ _).mp hc with hletter | hunderscore
  · change ((decide (65 ≤ c.val ∧ c.val ≤ 90) || decide (97 ≤ c.val) && decide (c.val ≤ 122)) ||
      decide (48 ≤ c.val) && decide (c.val ≤ 57)) = true at hletter
    simp [UInt32.le_iff_toNat_le] at hletter
    omega
  · rw [beq_iff_eq.1 hunderscore]
    decide

theorem not_contains_word_char {xs : List Char} (hxs : xs.all (!isWordChar ·) = true) :
    xs.contains c = false := by
  simp only [List.all_eq_true, Bool.not_eq_true'] at hxs
  simpa using fun hmem => by simpa [hc] using hxs c hmem

theorem not_break_of_word_char : isBreak c = false := by
  have hfeed := ne_of_word_char hc (x := '\n') rfl
  have hline := ne_of_word_char hc (x := '\u2028') rfl
  have hparagraph := ne_of_word_char hc (x := '\u2029') rfl
  simp [isBreak, hfeed, hline, hparagraph]

theorem not_blank_of_word_char : isBlank c = false := by
  have hspace := ne_of_word_char hc (x := ' ') rfl
  have htab := ne_of_word_char hc (x := '\t') rfl
  simp [isBlank, hspace, htab]

theorem not_gap_of_word_char : isGap c = false := by
  rw [isGap, not_blank_of_word_char hc, not_break_of_word_char hc, Bool.or_false]

end characters

/-! ## Rows of characters -/

/-- What is taken from the front of a row, where it is known where that ends. -/
theorem take_drop_while_append {α : Type} {p : α → Bool} {xs ys : List α} (hxs : ∀ x ∈ xs, p x = true)
    (hys : ∀ y ∈ ys.head?, p y = false) :
    (xs ++ ys).takeWhile p = xs ∧ (xs ++ ys).dropWhile p = ys := by
  rw [List.takeWhile_append_of_pos hxs, List.dropWhile_append_of_pos hxs]
  cases ys <;> simp_all

/-! ## Marks -/

theorem after_all_of_no_break {cs : List Char} (h : ∀ c ∈ cs, isBreak c = false) (m : Mark) :
    m.afterAll cs = ⟨m.index + cs.length, m.line, m.column + cs.length⟩ := by
  induction cs generalizing m with
  | nil => rfl
  | cons c rest ih =>
    obtain ⟨hc, hrest⟩ := List.forall_mem_cons.1 h
    have hafter : m.after c = ⟨m.index + 1, m.line, m.column + 1⟩ := by simp [Mark.after, hc]
    rw [Mark.afterAll, List.foldl_cons, hafter]
    refine (ih hrest _).trans ?_
    simp only [List.length_cons, Mark.mk.injEq, true_and]
    omega

theorem eq_of_mem_blanks {c : Char} {n : Nat} (h : c ∈ blanks n) : c = ' ' := List.eq_of_mem_replicate h

theorem column_after_line (m : Mark) (n : Nat) : (m.afterAll ('\n' :: blanks n)).column = n := by
  have hblanks : ∀ c ∈ blanks n, isBreak c = false := fun c hc => by rw [eq_of_mem_blanks hc]; rfl
  rw [Mark.afterAll, List.foldl_cons]
  refine (congrArg Mark.column (after_all_of_no_break hblanks _)).trans ?_
  simp [Mark.after, isBreak, blanks]

/-! ## Words as plain scalars -/

theorem tab_in_gap_none {gap : List Char} (h : ∀ c ∈ gap, c ≠ '\t') {indent : Nat} {broken : Bool} {m : Mark} :
    tabInGap indent broken gap m = none := by
  induction gap generalizing broken m with
  | nil => rfl
  | cons c rest ih =>
    obtain ⟨hc, hrest⟩ := List.forall_mem_cons.1 h
    simp [tabInGap, hc, ih hrest]

namespace Word
variable (w : Word)

theorem after_eq (m : Mark) :
    m.afterAll w.chars = ⟨m.index + w.chars.length, m.line, m.column + w.chars.length⟩ :=
  after_all_of_no_break (fun c hc => not_break_of_word_char (w.allowed c hc)) m

theorem exists_cons : ∃ c rest, w.chars = c :: rest ∧ isWordChar c = true := by
  obtain ⟨c, rest, hchars⟩ := List.exists_cons_of_ne_nil w.ne_nil
  exact ⟨c, rest, hchars, w.allowed c (by simp [hchars])⟩

theorem head_not_gap (tail : List Char) : ∀ c ∈ (w.chars ++ tail).head?, isGap c = false := by
  obtain ⟨c, rest, hchars, hc⟩ := w.exists_cons
  simpa [hchars] using not_gap_of_word_char hc

/-- A word is read up to the characters that no word goes on with. -/
theorem plain_word_eq {tail : List Char} {start m : Mark}
    (htail : ∀ m, plainWord false start tail m = .ok ([], ⟨tail, m⟩)) :
    plainWord false start (w.chars ++ tail) m = .ok (w.chars, ⟨tail, m.afterAll w.chars⟩) := by
  have hread : ∀ (cs : List Char) (m : Mark), (∀ c ∈ cs, isWordChar c = true) →
      plainWord false start (cs ++ tail) m = .ok (cs, ⟨tail, m.afterAll cs⟩) := by
    intro cs
    induction cs with
    | nil => exact fun m _ => htail m
    | cons c rest ih =>
      intro m hcs
      obtain ⟨hc, hrest⟩ := List.forall_mem_cons.1 hcs
      have hcolon := ne_of_word_char hc (x := ':') rfl
      simp [plainWord, not_gap_of_word_char hc, hcolon, ih (m.after c) hrest, Mark.afterAll]
  exact hread w.chars m w.allowed

theorem not_at_document (tail : List Char) (m : Mark) :
    (⟨w.chars ++ tail, m⟩ : Cursor).atDocument = false := by
  obtain ⟨c, rest, hchars, hc⟩ := w.exists_cons
  have hdash := ne_of_word_char hc (x := '-') rfl
  have hpoint := ne_of_word_char hc (x := '.') rfl
  simp [Cursor.atDocument, Cursor.atIndicator, Cursor.isAt, Cursor.next, hchars, hdash, hpoint]

theorem not_at_comment (tail : List Char) (m : Mark) :
    (⟨w.chars ++ tail, m⟩ : Cursor).isAt '#' = false := by
  obtain ⟨c, rest, hchars, hc⟩ := w.exists_cons
  have hhash := ne_of_word_char hc (x := '#') rfl
  simp [Cursor.isAt, Cursor.next, hchars, hhash]

/-- A word is a scalar of its own if no more words follow, or none that are indented far enough. -/
theorem plain_scalar_eq {indent : Nat} (gap : List Char) {rest : List Char} {m : Mark}
    (hstop : ∀ m', plainWord false m (gap ++ rest) m' = .ok ([], ⟨gap ++ rest, m'⟩))
    (hgap : ∀ c ∈ gap, isGap c = true ∧ c ≠ '\t') (hrest : ∀ c ∈ rest.head?, isGap c = false)
    (hindent : gap = [] ∨ ((m.afterAll w.chars).afterAll gap).column < indent) :
    plainScalar false indent ⟨w.chars ++ (gap ++ rest), m⟩ =
      .ok ⟨w.chars, ⟨rest, (m.afterAll w.chars).afterAll gap⟩, gap.any isBreak⟩ := by
  obtain ⟨htaken, hpast⟩ := take_drop_while_append (fun c hc => (hgap c hc).1) hrest
  have hword := w.plain_word_eq (m := m) hstop
  obtain ⟨c, more, hchars, -⟩ := w.exists_cons
  rw [plainScalar, plainWords, w.not_at_document, w.not_at_comment]
  rw [hchars] at hword hindent ⊢
  simp only [hword, fold_gap_nil, Cursor.taken, Cursor.past, htaken, hpast]
  cases gap with
  | nil => rfl
  | cons g gs => simp [tab_in_gap_none fun c hc => (hgap c hc).2, hindent.resolve_left (by simp)]

/-- A word in front of a colon. -/
theorem plain_scalar_key {indent : Nat} {rest : List Char} {m : Mark} (hrest : endsWord rest.head? = true) :
    plainScalar false indent ⟨w.chars ++ ':' :: rest, m⟩ =
      .ok ⟨w.chars, ⟨':' :: rest, m.afterAll w.chars⟩, false⟩ := by
  refine w.plain_scalar_eq [] (fun m' => ?_) (by simp) (by simp [isGap, isBlank, isBreak]) (.inl rfl)
  simp [plainWord, hrest]

/-- A word in front of a line that is indented too little to go on with it. -/
theorem plain_scalar_value {indent column : Nat} {rest : List Char} {m : Mark} (hcolumn : column < indent)
    (hrest : ∀ c ∈ rest.head?, isGap c = false) :
    plainScalar false indent ⟨w.chars ++ '\n' :: (blanks column ++ rest), m⟩ =
      .ok ⟨w.chars, ⟨rest, (m.afterAll w.chars).afterAll ('\n' :: blanks column)⟩, true⟩ := by
  refine w.plain_scalar_eq ('\n' :: blanks column) (fun m' => ?_) ?_ hrest (.inr ?_)
  · simp [plainWord, isGap, isBreak]
  · refine List.forall_mem_cons.2 ⟨by decide, fun c hc => ?_⟩
    rw [eq_of_mem_blanks hc]
    decide
  · rwa [column_after_line]

end Word
end PythonFlow.Yaml
