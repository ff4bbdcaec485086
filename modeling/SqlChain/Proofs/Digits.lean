import Mathlib.Algebra.Group.Nat.Defs
import SqlChain.Binary64.Reader
import SqlChain.Text.Padded
import SqlChain.Text.WhiteSpace

/-!
# Digits that are read back

The digits of a number have its value, with or without zeros in front, and reading takes all of
them when no further digit follows.
-/

namespace SqlChain

theorem Text.ofDigitChars_padded (width n : Nat) :
    Nat.ofDigitChars 10 (Text.padded width n).toList 0 = n := by
  rw [Text.toList_padded, Nat.ofDigitChars_append, Nat.ofDigitChars_replicate_zero, Nat.mul_zero,
    Nat.ofDigitChars_ten_toDigits]

theorem Text.isDigit_of_mem_padded {width n : Nat} {c : Char}
    (h : c ∈ (Text.padded width n).toList) : c.isDigit = true := by
  rw [Text.toList_padded, List.mem_append] at h
  rcases h with h | h
  · rw [(List.mem_replicate.1 h).2]
    decide
  · exact Nat.isDigit_of_mem_toDigits (by decide) (by decide) h

theorem Text.length_padded {width n : Nat} (hwidth : 0 < width) (h : n < 10 ^ width) :
    (Text.padded width n).toList.length = width := by
  have hdigits := (Nat.length_toDigits_le_iff (by decide : 1 < 10) hwidth).2 h
  rw [Text.toList_padded, List.length_append, List.length_replicate]
  omega

/-- A digit has no place among the blanks. -/
theorem Text.isWhiteSpace_of_isDigit {c : Char} (h : c.isDigit = true) :
    Text.isWhiteSpace c = false := by
  have hc : 48 ≤ c.toNat ∧ c.toNat ≤ 57 := by
    simp only [Char.isDigit, Bool.and_eq_true, decide_eq_true_eq, ge_iff_le,
      UInt32.le_iff_toNat_le] at h
    exact h
  simp [Text.isWhiteSpace, Text.whiteSpaceRanges]
  omega

/-- The digits of a number other than zero do not begin with a zero. -/
theorem toDigits_ne_zero_cons {n : Nat} (h : 0 < n) (cs : List Char) :
    Nat.toDigits 10 n ≠ '0' :: cs := by
  induction n using Nat.strongRecOn generalizing cs with
  | ind n ih =>
    rw [Nat.toDigits_eq_if (by decide)]
    split
    · intro heq
      have hzero : n.digitChar = '0' := (List.cons.inj heq).1
      exact absurd (Nat.digitChar_eq_zero.1 hzero) (by omega)
    · intro heq
      rcases List.append_eq_cons_iff.1 heq with ⟨hnil, -⟩ | ⟨rest, hrest, -⟩
      · exact Nat.toDigits_ne_nil hnil
      · exact ih (n / 10) (by omega) (by omega) rest hrest

namespace Binary64

theorem digitsValue_padded (width n : Nat) : digitsValue (Text.padded width n).toList = n :=
  Text.ofDigitChars_padded width n

theorem digitsValue_toDigits (n : Nat) : digitsValue (Nat.toDigits 10 n) = n :=
  Nat.ofDigitChars_ten_toDigits

/-- No digit stands in front. -/
def EndsDigits (cs : List Char) : Prop := ∀ c ∈ cs.head?, c.isDigit = false

theorem endsDigits_nil : EndsDigits [] := by
  intro c h
  cases h

theorem endsDigits_cons {c : Char} {cs : List Char} (h : c.isDigit = false) :
    EndsDigits (c :: cs) := by
  intro d hd
  obtain rfl : c = d := by simpa using hd
  exact h

theorem spanDigits_digits {ds rest : List Char} (hds : ∀ c ∈ ds, c.isDigit = true)
    (hrest : EndsDigits rest) : spanDigits (ds ++ rest) = (ds, rest) := by
  have htake : rest.takeWhile Char.isDigit = [] ∧ rest.dropWhile Char.isDigit = rest := by
    cases rest with
    | nil => exact ⟨rfl, rfl⟩
    | cons c cs =>
      have hc := hrest c rfl
      exact ⟨by simp [hc], by simp [hc]⟩
  rw [spanDigits, List.takeWhile_append_of_pos hds, List.dropWhile_append_of_pos hds, htake.1,
    htake.2, List.append_nil]

theorem spanDigits_all {ds : List Char} (hds : ∀ c ∈ ds, c.isDigit = true) :
    spanDigits ds = (ds, []) := by
  have h := spanDigits_digits hds endsDigits_nil
  rwa [List.append_nil] at h

end Binary64

end SqlChain
