import Mathlib.Data.List.Basic
import PythonFlow.Proofs.Yaml.Words
import PythonFlow.Yaml.Value

/-!
# Decimal numbers

The digits of a number are a word, and are read as the number again: no number but nought begins with a
nought, so that none of them is taken for a text or for a number of another base.
-/

set_option autoImplicit false

namespace PythonFlow.Yaml

theorem digit_value_of_digit {c : Char} (hc : c.isDigit = true) :
    digitValue c = c.toNat - '0'.toNat ∧ digitValue c < 10 := by
  have hvalue : digitValue c = c.toNat - '0'.toNat := if_pos hc
  refine ⟨hvalue, ?_⟩
  have hrange : c.toNat ≤ 57 := by
    simp [Char.isDigit, UInt32.le_iff_toNat_le] at hc
    omega
  rw [hvalue]
  exact Nat.lt_of_le_of_lt (Nat.sub_le_sub_right hrange _) (by decide)

theorem read_digits_eq (n : Nat) : readDigits 10 (Nat.toDigits 10 n) = some n := by
  have hall : (Nat.toDigits 10 n).all (isDigitOf 10) = true := List.all_eq_true.2 fun c hc => by
    have hdigit := Nat.isDigit_of_mem_toDigits (by decide) (Nat.le_refl 10) hc
    simp [isDigitOf, hdigit, (digit_value_of_digit hdigit).2]
  have hfold : (Nat.toDigits 10 n).foldl (fun n c => 10 * n + digitValue c) 0 = n := by
    refine Eq.trans (List.foldl_ext _ _ 0 fun a c hc => ?_) Nat.ofDigitChars_ten_toDigits
    have hdigit := Nat.isDigit_of_mem_toDigits (by decide) (Nat.le_refl 10) hc
    rw [(digit_value_of_digit hdigit).1]
  simp [readDigits, Nat.toDigits_ne_nil, hall, hfold]

theorem eq_zero_of_leading_nought {n : Nat} (h : (Nat.toDigits 10 n).head? = some '0') : n = 0 := by
  induction n using Nat.strongRecOn with
  | ind n ih =>
    rcases Nat.lt_or_ge n 10 with hlt | hge
    · rw [Nat.toDigits_of_lt_base hlt] at h
      have hdigit : ∀ n < 10, n.digitChar = '0' → n = 0 := by decide
      exact hdigit n hlt (Option.some.inj h)
    · obtain ⟨c, rest, hfront⟩ := List.exists_cons_of_ne_nil (@Nat.toDigits_ne_nil (n / 10) 10)
      rw [Nat.toDigits_of_base_le (by decide) hge, hfront] at h
      have hzero : n / 10 = 0 := ih (n / 10) (by omega) (by rw [hfront]; exact h)
      omega

theorem read_unsigned_eq (n : Nat) : readUnsigned (Nat.toDigits 10 n) = some n := by
  rcases Nat.eq_zero_or_pos n with rfl | hpos
  · rfl
  · have hhead : (Nat.toDigits 10 n).head? ≠ some '0' := fun h =>
      absurd (eq_zero_of_leading_nought h) (Nat.ne_of_gt hpos)
    have hread := read_digits_eq n
    cases hdigits : Nat.toDigits 10 n with
    | nil => exact absurd hdigits Nat.toDigits_ne_nil
    | cons c rest =>
      rw [hdigits] at hhead hread
      have hc : c ≠ '0' := fun h => hhead (congrArg some h)
      simp [readUnsigned, namedBase, hasLeadingNought, hc, hread]

/-- The digits of a number, where 64 bits hold it, are read as the number. -/
theorem read_nat_to_string {n : Nat} (hn : n < Nat.pow 2 64) : readNat (toString n) = some n := by
  have hread := read_unsigned_eq n
  rw [readNat, Nat.toString_eq_repr, Nat.toList_repr]
  cases hdigits : Nat.toDigits 10 n with
  | nil => exact absurd hdigits Nat.toDigits_ne_nil
  | cons c rest =>
    have hsign : c ≠ '+' := by
      rintro rfl
      have hmem : '+' ∈ Nat.toDigits 10 n := by simp [hdigits]
      exact absurd (Nat.isDigit_of_mem_toDigits (by decide) (Nat.le_refl 10) hmem) (by decide)
    rw [hdigits] at hread
    simpa [hsign, hread] using hn

namespace Word

def ofNat (n : Nat) (hn : n < Nat.pow 2 64) : Word where
  chars := (toString n).toList
  ne_nil := by simp [Nat.toString_eq_repr, Nat.toList_repr, Nat.toDigits_ne_nil]
  allowed c hc := by
    rw [Nat.toString_eq_repr, Nat.toList_repr] at hc
    simp [isWordChar, Char.isAlphanum, Nat.isDigit_of_mem_toDigits (by decide) (Nat.le_refl 10) hc]
  short := by
    have hlength : (Nat.toDigits 10 n).length ≤ 20 :=
      (Nat.length_toDigits_le_iff (by decide) (by decide)).2 (Nat.lt_trans hn (by decide))
    rw [Nat.toString_eq_repr, Nat.toList_repr]
    exact Nat.le_trans hlength (by decide)

end Word
end PythonFlow.Yaml
