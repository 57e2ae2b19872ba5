import LogTransfer.Calendar
import LogTransfer.Stats
import Mathlib.Data.List.GetD
import Mathlib.Data.List.Induction

/-!
# Hours as numbers, keys and text

An accepted timestamp is a valid hour of the calendar. Its packed key and its
text in the result file both stand for that hour and nothing else, and the text
is the one the log line has.
-/

set_option autoImplicit false

namespace LogTransfer

section Digits

theorem digitsValue_snoc (ds : Bytes) (d : Byte) :
    digitsValue (ds ++ [d]) = digitsValue ds * 10 + (d.toNat - 0x30) := by
  simp [digitsValue]

theorem isDigit_iff (b : Byte) : isDigit b = true ↔ 0x30 ≤ b.toNat ∧ b.toNat ≤ 0x39 := by
  simp [isDigit]

/-- Digits are written back as they were read. -/
theorem putDigits_value (ds : Bytes) (h : ds.all isDigit = true) :
    putDigits ds.length (digitsValue ds) = ds ∧ digitsValue ds < 10 ^ ds.length := by
  induction ds using List.reverseRecOn with
  | nil => exact ⟨rfl, by decide⟩
  | append_singleton ds d ih =>
    rw [List.all_append, Bool.and_eq_true] at h
    obtain ⟨hds, hlt⟩ := ih h.1
    have hd : 0x30 ≤ d.toNat ∧ d.toNat ≤ 0x39 := by
      rw [← isDigit_iff]
      simpa using h.2
    have hdiv : (digitsValue ds * 10 + (d.toNat - 0x30)) / 10 = digitsValue ds := by omega
    have hmod : 0x30 + (digitsValue ds * 10 + (d.toNat - 0x30)) % 10 = d.toNat := by omega
    rw [List.length_append, List.length_singleton, digitsValue_snoc, putDigits, hdiv, hmod, hds,
      BitVec.ofNat_toNat, BitVec.setWidth_eq]
    refine ⟨rfl, ?_⟩
    rw [pow_succ]
    omega

theorem toInt_small (n : ℕ) (h : n < 2 ^ 31) : toInt n = n := by
  have hn : (BitVec.ofNat 32 n).toNat = n := by
    rw [BitVec.toNat_ofNat]
    omega
  rw [toInt, BitVec.toInt_eq_toNat_of_lt (by rw [hn]; omega), hn]

theorem putInt_nat (count n : ℕ) : putInt count n = putDigits count n := by
  induction count generalizing n with
  | zero => rfl
  | succ count ih =>
    have hdiv : (n : ℤ).tdiv 10 = ((n / 10 : ℕ) : ℤ) := rfl
    have hmod : (0x30 + (n : ℤ).tmod 10) = ((0x30 + n % 10 : ℕ) : ℤ) := rfl
    rw [putInt, putDigits, hdiv, hmod, ih, BitVec.ofInt_natCast]

end Digits

section Hours

structure ValidHour (y m d h : ℕ) : Prop where
  date : ValidDay y m d
  hour : h ≤ 23

theorem daysInMonth_le (y m : ℕ) : daysInMonth y m ≤ 31 := by
  unfold daysInMonth
  split
  · decide
  · by_cases hm : m - 1 < 12
    · generalize m - 1 = k at hm
      interval_cases k <;> decide
    · rw [List.getD_eq_default _ _ (by simp; omega)]
      decide

/-- The number of an hour, counted like the days. -/
def hourIndex (y m d h : ℕ) : ℤ := daysFromCivil y m d * 24 + h

variable {y m d h y' m' d' h' : ℕ}

theorem hourIndex_inj (hv : ValidHour y m d h) (hv' : ValidHour y' m' d' h')
    (he : hourIndex y m d h = hourIndex y' m' d' h') : y = y' ∧ m = m' ∧ d = d' ∧ h = h' := by
  have h1 := hv.hour
  have h2 := hv'.hour
  unfold hourIndex at he
  have hday : daysFromCivil y m d = daysFromCivil y' m' d' := by omega
  obtain ⟨hy, hm, hd⟩ := daysFromCivil_inj hv.date hv'.date hday
  exact ⟨hy, hm, hd, by omega⟩

theorem makeHourKey_eq (hv : ValidHour y m d h) :
    makeHourKey y m d h = y * 1000000 + m * 10000 + d * 100 + h := by
  have h1 := hv.date.year
  have h2 := hv.date.month
  have h3 := hv.date.day
  have h4 := daysInMonth_le y m
  have h5 := hv.hour
  have hcast : ((y : ℤ) * 1000000 + m * 10000 + d * 100 + h) =
      ((y * 1000000 + m * 10000 + d * 100 + h : ℕ) : ℤ) := by push_cast; rfl
  have hsmall : ((y * 1000000 + m * 10000 + d * 100 + h : ℕ) : ℤ) < 2 ^ 64 :=
    lt_trans (by omega : _ < (10000000000 : ℤ)) (by decide)
  rw [makeHourKey, hcast, Int.emod_eq_of_lt (Int.natCast_nonneg _) hsmall, Int.toNat_natCast]

/-- The key holds the fields of its hour apart. -/
theorem makeHourKey_fields (hv : ValidHour y m d h) (k : ℕ) (hk : k = makeHourKey y m d h) :
    k / 1000000 = y ∧ k / 10000 % 100 = m ∧ k / 100 % 100 = d ∧ k % 100 = h := by
  have h2 := hv.date.month
  have h3 := hv.date.day
  have h4 := daysInMonth_le y m
  have h5 := hv.hour
  rw [makeHourKey_eq hv] at hk
  exact ⟨by omega, by omega, by omega, by omega⟩

def hourText (y m d h : ℕ) : Bytes :=
  putDigits 4 y ++ [ch '-'] ++ putDigits 2 m ++ [ch '-'] ++ putDigits 2 d ++ [ch ' '] ++
    putDigits 2 h

theorem formatHourKey_eq (hv : ValidHour y m d h) :
    formatHourKey (makeHourKey y m d h) = hourText y m d h := by
  have h1 := hv.date.year
  have h2 := hv.date.month
  have h3 := hv.date.day
  have h4 := daysInMonth_le y m
  have h5 := hv.hour
  obtain ⟨hy, hm, hd, hh⟩ := makeHourKey_fields hv _ rfl
  rw [formatHourKey, hy, hm, hd, hh, toInt_small y (by omega),
    toInt_small m (by omega), toInt_small d (by omega), toInt_small h (by omega), putInt_nat,
    putInt_nat, putInt_nat, putInt_nat]
  rfl

end Hours

section Stamps

/-- The hour part of a timestamp, as the log line spells it. -/
def stampHour (ts : Bytes) : Bytes := substr ts 0 10 ++ [ch ' '] ++ substr ts 11 2

theorem drop_charAt (ts : Bytes) (i : ℕ) (c : Byte) (h : charAt ts i = some c) :
    ts.drop i = c :: ts.drop (i + 1) := by
  obtain ⟨hi, hc⟩ := List.getElem?_eq_some_iff.mp h
  rw [List.drop_eq_getElem_cons hi, hc]

theorem substr_length (ts : Bytes) (pos count : ℕ) (h : pos + count ≤ ts.length) :
    (substr ts pos count).length = count := by
  rw [substr, List.length_take, List.length_drop]
  omega

theorem field_digits (ts : Bytes) (pos count : ℕ) (h : pos + count ≤ ts.length)
    (hd : allDigitsAt ts pos count = true) :
    putDigits count (digitsToInt ts pos count) = substr ts pos count ∧
      digitsToInt ts pos count < 10 ^ count := by
  have hv := putDigits_value (substr ts pos count) hd
  rwa [substr_length ts pos count h] at hv

theorem stamp_date (ts : Bytes) (h4 : charAt ts 4 = some (ch '-'))
    (h7 : charAt ts 7 = some (ch '-')) :
    substr ts 0 10 = substr ts 0 4 ++ [ch '-'] ++ substr ts 5 2 ++ [ch '-'] ++ substr ts 8 2 := by
  have e4 := drop_charAt ts 4 _ h4
  have e7 := drop_charAt ts 7 _ h7
  have s0 : ts.take 10 = ts.take 4 ++ (ts.drop 4).take 6 := by rw [← List.take_add]
  have s5 : (ts.drop 5).take 5 = (ts.drop 5).take 2 ++ (ts.drop 7).take 3 := by
    rw [show ts.drop 7 = (ts.drop 5).drop 2 by rw [List.drop_drop], ← List.take_add]
  simp only [substr, List.drop_zero]
  rw [s0, e4, List.take_succ_cons, s5, e7, List.take_succ_cons]
  simp

/-- The marks and the digits of a timestamp, each at its place. -/
structure StampShape (ts : Bytes) : Prop where
  length : ts.length = 26
  dashes : charAt ts 4 = some (ch '-') ∧ charAt ts 7 = some (ch '-')
  underscore : charAt ts 10 = some (ch '_')
  colons : charAt ts 13 = some (ch ':') ∧ charAt ts 16 = some (ch ':')
  dot : charAt ts 19 = some (ch '.')
  date : allDigitsAt ts 0 4 = true ∧ allDigitsAt ts 5 2 = true ∧ allDigitsAt ts 8 2 = true
  time : allDigitsAt ts 11 2 = true ∧ allDigitsAt ts 14 2 = true ∧ allDigitsAt ts 17 2 = true
  fraction : allDigitsAt ts 20 6 = true

theorem timestampShape_iff {ts : Bytes} : timestampShape ts = true ↔ StampShape ts := by
  simp only [timestampShape, Bool.and_eq_true, decide_eq_true_eq]
  constructor
  · rintro ⟨⟨⟨⟨⟨⟨⟨⟨⟨⟨⟨⟨⟨hlen, h4⟩, h7⟩, h10⟩, h13⟩, h16⟩, h19⟩, d0⟩, d5⟩, d8⟩, d11⟩, d14⟩,
      d17⟩, d20⟩
    exact ⟨hlen, ⟨h4, h7⟩, h10, ⟨h13, h16⟩, h19, ⟨d0, d5, d8⟩, ⟨d11, d14, d17⟩, d20⟩
  · rintro ⟨hlen, ⟨h4, h7⟩, h10, ⟨h13, h16⟩, h19, ⟨d0, d5, d8⟩, ⟨d11, d14, d17⟩, d20⟩
    exact ⟨⟨⟨⟨⟨⟨⟨⟨⟨⟨⟨⟨⟨hlen, h4⟩, h7⟩, h10⟩, h13⟩, h16⟩, h19⟩, d0⟩, d5⟩, d8⟩, d11⟩, d14⟩, d17⟩, d20⟩

/-- What is checked of a timestamp that is read. -/
theorem parseTimestamp_checks {ts : Bytes} {t : Timestamp} (h : parseTimestamp ts = some t) :
    StampShape ts ∧ ((1 ≤ t.month ∧ t.month ≤ 12) ∧
      (1 ≤ t.day ∧ t.day ≤ daysInMonth t.year t.month) ∧
      t.hour ≤ 23 ∧ digitsToInt ts 14 2 ≤ 59 ∧ digitsToInt ts 17 2 ≤ 59) ∧
    t = { year := digitsToInt ts 0 4, month := digitsToInt ts 5 2, day := digitsToInt ts 8 2,
          hour := digitsToInt ts 11 2,
          absSeconds := daysFromCivil (digitsToInt ts 0 4) (digitsToInt ts 5 2)
            (digitsToInt ts 8 2) * 86400 + digitsToInt ts 11 2 * 3600 + digitsToInt ts 14 2 * 60 +
            digitsToInt ts 17 2 } := by
  unfold parseTimestamp at h
  dsimp only at h
  split_ifs at h with hshape hcal
  cases h
  rw [Bool.not_eq_true', Bool.not_eq_false, timestampShape_iff] at hshape
  simp only [Bool.or_eq_true, decide_eq_true_eq, not_or, Nat.not_lt] at hcal
  obtain ⟨⟨⟨⟨⟨⟨c1, c2⟩, c3⟩, c4⟩, c5⟩, c6⟩, c7⟩ := hcal
  exact ⟨hshape, ⟨⟨c1, c2⟩, ⟨c3, c4⟩, c5, c6, c7⟩, rfl⟩

/-- An accepted timestamp is a valid hour, and the key's text is its own. -/
theorem parseTimestamp_hour (ts : Bytes) (t : Timestamp) (h : parseTimestamp ts = some t) :
    ValidHour t.year t.month t.day t.hour ∧
      hourIndex t.year t.month t.day t.hour = t.absSeconds / 3600 ∧
      hourText t.year t.month t.day t.hour = stampHour ts := by
  obtain ⟨hshape, ⟨hmonth, hday, hhour, hminute, hsecond⟩, rfl⟩ := parseTimestamp_checks h
  have hlen := hshape.length
  obtain ⟨d0, d5, d8⟩ := hshape.date
  obtain ⟨p0, l0⟩ := field_digits ts 0 4 (by omega) d0
  obtain ⟨p5, -⟩ := field_digits ts 5 2 (by omega) d5
  obtain ⟨p8, -⟩ := field_digits ts 8 2 (by omega) d8
  obtain ⟨p11, -⟩ := field_digits ts 11 2 (by omega) hshape.time.1
  refine ⟨⟨⟨Nat.le_of_lt_succ l0, hmonth, hday⟩, hhour⟩, ?_, ?_⟩
  · simp only [hourIndex]
    omega
  · simp only [hourText, stampHour]
    rw [p0, p5, p8, p11, stamp_date ts hshape.dashes.1 hshape.dashes.2]

end Stamps

end LogTransfer
