import LogTransfer.LogLineParser
import Mathlib.Tactic.IntervalCases

/-!
# Days and hours of the calendar

`daysFromCivil` counts the days from the first day of a month and is linear in
between, across leap years and the turn of the year 0. A valid hour of the
calendar is therefore known by its number.
-/

set_option autoImplicit false

namespace LogTransfer

section Days

/-- Whole days before the first of March of a year. -/
def daysBefore (y : ℤ) : ℤ := 365 * y + y / 4 - y / 100 + y / 400

/-- The truncated division of the source is a floor. -/
theorem era_eq (y : ℤ) (h : -1 ≤ y) :
    Int.tdiv (if y ≥ 0 then y else y - 399) 400 = y / 400 := by
  split_ifs with hy
  · exact Int.tdiv_eq_ediv_of_nonneg hy
  · have hm : y = -1 := by omega
    subst hm
    decide

theorem era_days (y : ℤ) (h : -1 ≤ y) :
    Int.tdiv (if y ≥ 0 then y else y - 399) 400 * 146097 +
      ((y - Int.tdiv (if y ≥ 0 then y else y - 399) 400 * 400) * 365 +
        (y - Int.tdiv (if y ≥ 0 then y else y - 399) 400 * 400) / 4 -
        (y - Int.tdiv (if y ≥ 0 then y else y - 399) 400 * 400) / 100) = daysBefore y := by
  rw [era_eq y h, daysBefore]
  omega

/-- The day count of a month that starts `doy` days after the first of March. -/
theorem daysFromCivil_eq (y m d y' doy : ℤ) (hy : y' = y - if m ≤ 2 then 1 else 0) (h : -1 ≤ y')
    (hdoy : Int.tdiv (153 * (m + if m > 2 then -3 else 9) + 2) 5 = doy) :
    daysFromCivil y m d = daysBefore y' + doy + (d - 1) - 719468 := by
  have hera := era_days y' h
  unfold daysFromCivil
  simp only [← hy, hdoy]
  omega

/-- Days between the first of March and the first day of each month. -/
def daysIntoYear (m : ℕ) : ℤ :=
  ([306, 337, 0, 31, 61, 92, 122, 153, 184, 214, 245, 275] : List ℤ).getD (m - 1) 0

theorem daysFromCivil_month (y m d : ℕ) (hm : 1 ≤ m ∧ m ≤ 12) :
    daysFromCivil y m d =
      daysBefore (if m ≤ 2 then (y : ℤ) - 1 else y) + daysIntoYear m + ((d : ℤ) - 1) - 719468 := by
  obtain ⟨h1, h12⟩ := hm
  have hy : (if m ≤ 2 then (y : ℤ) - 1 else y) = (y : ℤ) - if (m : ℤ) ≤ 2 then 1 else 0 := by
    split_ifs <;> omega
  refine daysFromCivil_eq _ _ _ _ _ hy ?_ ?_
  · split_ifs <;> omega
  · interval_cases m <;> rfl

/-- The first day of a month, counted from the month 0 of the year 0. -/
def monthStart (k : ℕ) : ℤ := daysFromCivil (k / 12 : ℕ) (k % 12 + 1 : ℕ) (1 : ℕ)

theorem leap_days (y : ℕ) :
    daysBefore y = daysBefore ((y : ℤ) - 1) + 365 + if isLeapYear y then 1 else 0 := by
  have hleap : isLeapYear y = true ↔ (y % 4 = 0 ∧ y % 100 ≠ 0) ∨ y % 400 = 0 := by
    simp [isLeapYear]
  unfold daysBefore
  split_ifs with h
  · rw [hleap] at h
    omega
  · rw [hleap] at h
    omega

theorem monthStart_next (k : ℕ) :
    monthStart (k + 1) = monthStart k + daysInMonth (k / 12) (k % 12 + 1) := by
  have hr : k % 12 < 12 := Nat.mod_lt k (by decide)
  unfold monthStart
  rw [daysFromCivil_month _ _ _ ⟨by omega, by omega⟩,
    daysFromCivil_month _ _ _ ⟨by omega, by omega⟩]
  by_cases hlast : k % 12 = 11
  · have h1 : (k + 1) / 12 = k / 12 + 1 := by omega
    have h2 : (k + 1) % 12 = 0 := by omega
    rw [h1, h2, hlast]
    simp [daysIntoYear, daysInMonth]
    omega
  · have h1 : (k + 1) / 12 = k / 12 := by omega
    have h2 : (k + 1) % 12 = k % 12 + 1 := by omega
    have hleap := leap_days (k / 12)
    rw [h1, h2]
    generalize k / 12 = y at hleap ⊢
    generalize k % 12 = r at hr hlast ⊢
    by_cases hfeb : r = 1
    · subst hfeb
      by_cases hl : isLeapYear y = true
      · simp only [hl] at hleap
        simp [daysIntoYear, daysInMonth, hl]
        simp at hleap
        omega
      · simp only [hl] at hleap
        simp [daysIntoYear, daysInMonth, hl]
        simp at hleap
        omega
    · interval_cases r <;> simp_all [daysIntoYear, daysInMonth] <;> omega

theorem monthStart_mono (j k : ℕ) (h : j < k) :
    monthStart j + daysInMonth (j / 12) (j % 12 + 1) ≤ monthStart k := by
  induction k with
  | zero => omega
  | succ k ih =>
    have hnext := monthStart_next k
    by_cases heq : j = k
    · subst heq
      omega
    · have := ih (by omega)
      omega

/-- A day that the calendar has. -/
structure ValidDay (y m d : ℕ) : Prop where
  year : y ≤ 9999
  month : 1 ≤ m ∧ m ≤ 12
  day : 1 ≤ d ∧ d ≤ daysInMonth y m

theorem daysFromCivil_start (y m d : ℕ) (h : ValidDay y m d) :
    daysFromCivil y m d = monthStart (12 * y + (m - 1)) + (d - 1) := by
  obtain ⟨h1, h12⟩ := h.month
  have hy : (12 * y + (m - 1)) / 12 = y := by omega
  have hm : (12 * y + (m - 1)) % 12 + 1 = m := by omega
  unfold monthStart
  rw [hy, hm, daysFromCivil_month y m d h.month, daysFromCivil_month y m 1 h.month]
  push_cast
  omega

/-- A day of an earlier month has the smaller number. -/
theorem daysFromCivil_before {y m d y' m' d' : ℕ} (h : ValidDay y m d) (h' : ValidDay y' m' d')
    (hlt : 12 * y + (m - 1) < 12 * y' + (m' - 1)) :
    daysFromCivil y m d < daysFromCivil y' m' d' := by
  rw [daysFromCivil_start y m d h, daysFromCivil_start y' m' d' h']
  have hmono := monthStart_mono _ _ hlt
  obtain ⟨h1, h12⟩ := h.month
  have hy : (12 * y + (m - 1)) / 12 = y := by omega
  have hm : (12 * y + (m - 1)) % 12 + 1 = m := by omega
  rw [hy, hm] at hmono
  have hd := h.day
  have hd' := h'.day
  omega

/-- No two days have the same number. -/
theorem daysFromCivil_inj {y m d y' m' d' : ℕ} (h : ValidDay y m d) (h' : ValidDay y' m' d')
    (he : daysFromCivil y m d = daysFromCivil y' m' d') : y = y' ∧ m = m' ∧ d = d' := by
  have hm := h.month
  have hm' := h'.month
  have hd := h.day
  have hd' := h'.day
  rcases Nat.lt_trichotomy (12 * y + (m - 1)) (12 * y' + (m' - 1)) with hlt | heq | hgt
  · exact absurd he (daysFromCivil_before h h' hlt).ne
  · rw [daysFromCivil_start y m d h, daysFromCivil_start y' m' d' h', heq] at he
    omega
  · exact absurd he (daysFromCivil_before h' h hgt).ne'

end Days

end LogTransfer
