import LogTransfer.FieldChecks

/-!
# The reason of a refused numeral

A number is out of range when its leading digits are too large, whatever
follows them, and malformed when they are missing or something else follows.
-/

set_option autoImplicit false

namespace LogTransfer

section Numerals

/-- The digits a token starts with, and what follows them. -/
structure LeadingDigits (token run rest : Bytes) : Prop where
  split : token = run ++ rest
  digits : ∀ b ∈ run, isDigit b = true
  maximal : ∀ b, rest.head? = some b → isDigit b = false

def Malformed (token : Bytes) : Prop :=
  ∃ run rest, LeadingDigits token run rest ∧
    (run = [] ∨ digitsValue run ≤ 2 ^ 63 - 1 ∧ rest ≠ [])

def TooLarge (token : Bytes) : Prop :=
  ∃ run rest, LeadingDigits token run rest ∧ 2 ^ 63 - 1 < digitsValue run

structure NumericReason (token : Bytes) (reason : SkipReason) : Prop where
  bad : reason = .badNumber ↔ Malformed token
  range : reason = .numOutOfRange ↔ TooLarge token

theorem leading_run {token run rest : Bytes} (h : LeadingDigits token run rest) :
    token.takeWhile isDigit = run ∧ token.dropWhile isDigit = rest := by
  obtain ⟨rfl, hdigits, hmax⟩ := h
  rw [List.takeWhile_append_of_pos hdigits, List.dropWhile_append_of_pos hdigits]
  cases rest with
  | nil => simp
  | cons b rest =>
    have hb := hmax b rfl
    simp [hb]

theorem leading_self (token : Bytes) :
    LeadingDigits token (token.takeWhile isDigit) (token.dropWhile isDigit) := by
  refine ⟨List.takeWhile_append_dropWhile.symm, takeWhile_digits token, fun b hb => ?_⟩
  have hnot := List.head?_dropWhile_not isDigit token
  rw [hb] at hnot
  exact hnot

theorem malformed_iff {token : Bytes} :
    Malformed token ↔ token.takeWhile isDigit = [] ∨
      digitsValue (token.takeWhile isDigit) ≤ 2 ^ 63 - 1 ∧ token.dropWhile isDigit ≠ [] := by
  constructor
  · rintro ⟨run, rest, hleading, hbad⟩
    obtain ⟨hrun, hrest⟩ := leading_run hleading
    rwa [hrun, hrest]
  · intro h
    exact ⟨_, _, leading_self token, h⟩

theorem tooLarge_iff {token : Bytes} :
    TooLarge token ↔ 2 ^ 63 - 1 < digitsValue (token.takeWhile isDigit) := by
  constructor
  · rintro ⟨run, rest, hleading, hlarge⟩
    rwa [(leading_run hleading).1]
  · intro h
    exact ⟨_, _, leading_self token, h⟩

/-- A refused numeral is malformed or too large, and never both. -/
theorem integerFault_reason {token : Bytes} {reason : SkipReason}
    (h : integerFault token = some reason) : NumericReason token reason := by
  have hmax : kInt64Max = 2 ^ 63 - 1 := by decide
  have hsplit : token.takeWhile isDigit ++ token.dropWhile isDigit = token :=
    List.takeWhile_append_dropWhile
  have hpart : (token.takeWhile isDigit).length ≠ token.length ↔ token.dropWhile isDigit ≠ [] := by
    have hlen := congrArg List.length hsplit
    rw [List.length_append] at hlen
    rw [ne_eq, ne_eq, ← List.length_eq_zero_iff]
    omega
  unfold integerFault parseInt64Field at h
  simp only [List.isEmpty_iff, hmax, hpart] at h
  split_ifs at h with hempty hlarge hrest
  · cases h
    refine ⟨?_, ?_⟩
    · simp [malformed_iff, hempty]
    · simp [tooLarge_iff, hempty, digitsValue]
  · cases h
    refine ⟨?_, ?_⟩
    · simp only [reduceCtorEq, malformed_iff, false_iff, not_or, not_and]
      exact ⟨hempty, fun hle => absurd hlarge (by omega)⟩
    · simpa [tooLarge_iff] using hlarge
  · cases h
    refine ⟨?_, ?_⟩
    · simp only [malformed_iff, true_iff]
      exact .inr ⟨by omega, hrest⟩
    · simp only [reduceCtorEq, tooLarge_iff, false_iff]
      omega

end Numerals

end LogTransfer
