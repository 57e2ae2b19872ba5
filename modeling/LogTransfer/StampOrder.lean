import LogTransfer.TokenScan
import LogTransfer.ByteOrder

/-!
# Timestamps in order

Texts, seconds, keys and calendar say the same about two accepted timestamps:
which is earlier, by how much if they are neighbours, and in which hour each
lies. The fraction counts for none of them.
-/

set_option autoImplicit false

namespace LogTransfer

section Casts

/-- `static_cast<unsigned>`. -/
def toUnsigned (v : ℤ) : ℤ := v % 2 ^ 32

/-- `daysFromCivil` with the casts of the source. -/
def daysFromCivilCast (year month day : ℤ) : ℤ :=
  let y := year - if month ≤ 2 then 1 else 0
  let era := Int.tdiv (if y ≥ 0 then y else y - 399) 400
  let yoe := toUnsigned (y - era * 400)
  let doy := toUnsigned (Int.tdiv (153 * (month + if month > 2 then -3 else 9) + 2) 5 + day - 1)
  let doe := toUnsigned (yoe * 365 + yoe / 4 - yoe / 100 + doy)
  era * 146097 + doe - 719468

theorem toUnsigned_eq {v : ℤ} (h : 0 ≤ v) (hv : v < 2 ^ 32) : toUnsigned v = v :=
  Int.emod_eq_of_lt h hv

theorem doy_bounds {y m d : ℕ} (h : ValidDay y m d) :
    0 ≤ Int.tdiv (153 * ((m : ℤ) + if (m : ℤ) > 2 then -3 else 9) + 2) 5 + d - 1 ∧
      Int.tdiv (153 * ((m : ℤ) + if (m : ℤ) > 2 then -3 else 9) + 2) 5 + d - 1 < 400 := by
  have hday := h.day
  have hle := daysInMonth_le y m
  have hshift : 0 ≤ (m : ℤ) + (if (m : ℤ) > 2 then -3 else 9) ∧
      (m : ℤ) + (if (m : ℤ) > 2 then -3 else 9) ≤ 11 := by
    have := h.month
    split_ifs <;> omega
  rw [Int.tdiv_eq_ediv_of_nonneg (by omega)]
  omega

/-- No cast changes a value, also in the months before the year 0. -/
theorem daysFromCivilCast_eq {y m d : ℕ} (h : ValidDay y m d) :
    daysFromCivilCast y m d = daysFromCivil y m d := by
  have hdoy := doy_bounds h
  have hlow : -1 ≤ (y : ℤ) - (if (m : ℤ) ≤ 2 then 1 else 0) := by split_ifs <;> omega
  unfold daysFromCivilCast daysFromCivil
  simp only [era_eq _ hlow]
  generalize (y : ℤ) - (if (m : ℤ) ≤ 2 then 1 else 0) = y'
  generalize Int.tdiv _ 5 + (d : ℤ) - 1 = doy at hdoy
  rw [toUnsigned_eq (v := y' - y' / 400 * 400) (by omega) (by omega),
    toUnsigned_eq (v := doy) hdoy.1 (by omega), toUnsigned_eq (by omega) (by omega)]

end Casts

section Texts

theorem lexLt_fields {x y : Bytes} (u v : Bytes) (h : x.length = y.length) :
    lexLt (x ++ u) (y ++ v) = true ↔ lexLt x y = true ∨ x = y ∧ lexLt u v = true := by
  induction x generalizing y with
  | nil =>
    rw [List.length_eq_zero_iff.mp h.symm]
    simp [lexLt]
  | cons b x ih =>
    cases y with
    | nil => cases h
    | cons c y =>
      rw [List.cons_append, List.cons_append, lexLt, lexLt]
      by_cases hbc : b = c
      · simp only [hbc, if_true, List.cons.injEq, true_and]
        exact ih (Nat.succ.inj h)
      · simp only [hbc, if_false, List.cons.injEq, false_and, or_false]

theorem digits_inj {x y : Bytes} (hl : x.length = y.length) (hx : x.all isDigit = true)
    (hy : y.all isDigit = true) : x = y ↔ digitsValue x = digitsValue y := by
  refine ⟨congrArg _, fun h => ?_⟩
  rw [← (putDigits_value x hx).1, ← (putDigits_value y hy).1, hl, h]

/-- Digit strings of one length compare like their values. -/
theorem lexLt_digits {x y : Bytes} (hl : x.length = y.length) (hx : x.all isDigit = true)
    (hy : y.all isDigit = true) : lexLt x y = true ↔ digitsValue x < digitsValue y := by
  induction x using List.reverseRecOn generalizing y with
  | nil =>
    rw [List.length_eq_zero_iff.mp hl.symm]
    simp [lexLt]
  | append_singleton x b ih =>
    obtain rfl | ⟨y, c, rfl⟩ := List.eq_nil_or_concat' y
    · simp at hl
    · simp only [List.length_append, List.length_singleton, Nat.add_right_cancel_iff] at hl
      rw [List.all_append, Bool.and_eq_true] at hx hy
      have hb := isDigit_iff b
      have hc := isDigit_iff c
      simp only [List.all_cons, List.all_nil, Bool.and_true] at hx hy
      have hlast : lexLt [b] [c] = true ↔ b.toNat < c.toNat := by
        by_cases hbc : b = c
        · simp [lexLt, hbc]
        · simp [lexLt, hbc]
      rw [lexLt_fields _ _ hl, ih hl hx.1 hy.1, digits_inj hl hx.1 hy.1, hlast, digitsValue_snoc,
        digitsValue_snoc]
      have := hb.mp hx.2
      have := hc.mp hy.2
      omega

/-- One field of a timestamp, up to the mark after it. -/
theorem lexLt_field {x y : Bytes} (c : Byte) (u v : Bytes) (hl : x.length = y.length)
    (hx : x.all isDigit = true) (hy : y.all isDigit = true) :
    lexLt (x ++ c :: u) (y ++ c :: v) = true ↔
      digitsValue x < digitsValue y ∨ digitsValue x = digitsValue y ∧ lexLt u v = true := by
  have hmark : lexLt (c :: u) (c :: v) = lexLt u v := by simp [lexLt]
  rw [lexLt_fields _ _ hl, lexLt_digits hl hx hy, digits_inj hl hx hy, hmark]

/-- The part of a timestamp in front of the fraction. -/
theorem stamp_clock {ts : Bytes} (h : StampShape ts) :
    ts.take 19 = substr ts 0 4 ++ ch '-' :: (substr ts 5 2 ++ ch '-' :: (substr ts 8 2 ++
      ch '_' :: (substr ts 11 2 ++ ch ':' :: (substr ts 14 2 ++ ch ':' :: substr ts 17 2)))) := by
  have hlen := h.length
  have hwhole : ts = (substr ts 0 4 ++ ch '-' :: (substr ts 5 2 ++ ch '-' :: (substr ts 8 2 ++
      ch '_' :: (substr ts 11 2 ++ ch ':' :: (substr ts 14 2 ++ ch ':' :: substr ts 17 2))))) ++
        ts.drop 19 := by
    calc ts = substr ts 0 4 ++ ch '-' :: ts.drop 5 := segment 0 4 h.dashes.1
      _ = _ := by
        rw [segment 5 2 h.dashes.2, segment 8 2 h.underscore, segment 11 2 h.colons.1,
          segment 14 2 h.colons.2, segment 17 2 h.dot, drop_charAt ts 19 _ h.dot]
        simp only [List.append_assoc, List.cons_append]
  refine (congrArg (List.take 19) hwhole).trans (List.take_left' ?_)
  simp only [List.length_append, List.length_cons]
  rw [substr_length ts 0 4, substr_length ts 5 2, substr_length ts 8 2, substr_length ts 11 2,
    substr_length ts 14 2, substr_length ts 17 2] <;> omega

end Texts

section Days

/-- Days are numbered in the order of their dates. -/
theorem daysFromCivil_lt {y m d y' m' d' : ℕ} (h : ValidDay y m d) (h' : ValidDay y' m' d') :
    daysFromCivil y m d < daysFromCivil y' m' d' ↔
      (y * 100 + m) * 100 + d < (y' * 100 + m') * 100 + d' := by
  have hm := h.month
  have hm' := h'.month
  have hd := h.day
  have hd' := h'.day
  have hle := daysInMonth_le y m
  have hle' := daysInMonth_le y' m'
  rcases Nat.lt_trichotomy (12 * y + (m - 1)) (12 * y' + (m' - 1)) with hlt | heq | hgt
  · exact iff_of_true (daysFromCivil_before h h' hlt) (by omega)
  · rw [daysFromCivil_start y m d h, daysFromCivil_start y' m' d' h', heq]
    omega
  · exact iff_of_false (daysFromCivil_before h' h hgt).asymm (by omega)

theorem day_after {y m d : ℕ} (h : ValidDay y m d) :
    daysFromCivil y m (d + 1 : ℕ) = daysFromCivil y m d + 1 := by
  rw [daysFromCivil_month y m _ h.month, daysFromCivil_month y m d h.month]
  push_cast
  omega

/-- The day after the last one of a month. -/
theorem month_after {y m d : ℕ} (h : ValidDay y m d) (hd : d = daysInMonth y m) :
    monthStart (12 * y + m) = daysFromCivil y m d + 1 := by
  obtain ⟨h1, h12⟩ := h.month
  have hk : 12 * y + m = 12 * y + (m - 1) + 1 := by omega
  have hy : (12 * y + (m - 1)) / 12 = y := by omega
  have hm : (12 * y + (m - 1)) % 12 + 1 = m := by omega
  rw [hk, monthStart_next, daysFromCivil_start y m d h, hy, hm, hd]
  omega

theorem first_valid {y m : ℕ} (hy : y ≤ 9999) (hm : 1 ≤ m ∧ m ≤ 12) : ValidDay y m 1 := by
  refine ⟨hy, hm, le_rfl, ?_⟩
  rw [monthLength_eq hm, monthLength]
  split_ifs <;> decide

end Days

structure CivilTime where
  year : ℕ
  month : ℕ
  day : ℕ
  hour : ℕ
  minute : ℕ
  second : ℕ
  deriving DecidableEq, Repr

namespace CivilTime

/-- The moment that a timestamp spells. -/
def read (ts : Bytes) : CivilTime :=
  { year := digitsToInt ts 0 4, month := digitsToInt ts 5 2, day := digitsToInt ts 8 2,
    hour := digitsToInt ts 11 2, minute := digitsToInt ts 14 2, second := digitsToInt ts 17 2 }

structure Valid (t : CivilTime) : Prop where
  date : ValidDay t.year t.month t.day
  hour : t.hour ≤ 23
  minute : t.minute ≤ 59
  second : t.second ≤ 59

def seconds (t : CivilTime) : ℤ :=
  daysFromCivil t.year t.month t.day * 86400 + t.hour * 3600 + t.minute * 60 + t.second

/-- The fields as one decimal number. -/
def digits (t : CivilTime) : ℕ :=
  ((((t.year * 100 + t.month) * 100 + t.day) * 100 + t.hour) * 100 + t.minute) * 100 + t.second

/-- One second later by the calendar. -/
def next (t : CivilTime) : CivilTime :=
  if t.second < 59 then { t with second := t.second + 1 }
  else if t.minute < 59 then { t with minute := t.minute + 1, second := 0 }
  else if t.hour < 23 then { t with hour := t.hour + 1, minute := 0, second := 0 }
  else if t.day < monthLength t.year t.month then
    { t with day := t.day + 1, hour := 0, minute := 0, second := 0 }
  else if t.month < 12 then
    { t with month := t.month + 1, day := 1, hour := 0, minute := 0, second := 0 }
  else { year := t.year + 1, month := 1, day := 1, hour := 0, minute := 0, second := 0 }

variable {s t : CivilTime}

theorem seconds_lt (h : s.Valid) (h' : t.Valid) : s.seconds < t.seconds ↔ s.digits < t.digits := by
  have hday := daysFromCivil_lt h.date h'.date
  have hday' := daysFromCivil_lt h'.date h.date
  obtain ⟨-, h1, h2, h3⟩ := h
  obtain ⟨-, h1', h2', h3'⟩ := h'
  unfold seconds digits
  omega

theorem eq_of_seconds (h : s.Valid) (h' : t.Valid) (he : s.seconds = t.seconds) : s = t := by
  obtain ⟨hdate, h1, h2, h3⟩ := h
  obtain ⟨hdate', h1', h2', h3'⟩ := h'
  unfold seconds at he
  obtain ⟨hy, hm, hd⟩ := daysFromCivil_inj hdate hdate' (by omega)
  have hdays : daysFromCivil s.year s.month s.day = daysFromCivil t.year t.month t.day := by
    rw [hy, hm, hd]
  obtain ⟨y, m, d, hour, minute, second⟩ := s
  obtain ⟨y', m', d', hour', minute', second'⟩ := t
  simp only [mk.injEq]
  dsimp only at *
  omega

theorem next_seconds (h : t.Valid) : t.next.seconds = t.seconds + 1 := by
  obtain ⟨hdate, h1, h2, h3⟩ := h
  have hlength := monthLength_eq (y := t.year) hdate.month
  have hd := hdate.day
  have hm := hdate.month
  unfold next
  split_ifs with hs hmin hhour hday hmonth
  · simp only [seconds]
    omega
  · simp only [seconds]
    omega
  · simp only [seconds]
    omega
  · have hafter := day_after hdate
    simp only [seconds, hafter]
    omega
  · have hafter := month_after hdate (by omega)
    have hy : (12 * t.year + t.month) / 12 = t.year := by omega
    have hm : (12 * t.year + t.month) % 12 + 1 = t.month + 1 := by omega
    rw [monthStart, hy, hm] at hafter
    simp only [seconds, hafter]
    omega
  · have hafter := month_after hdate (by omega)
    have hy : (12 * t.year + t.month) / 12 = t.year + 1 := by omega
    have hm : (12 * t.year + t.month) % 12 + 1 = 1 := by omega
    rw [monthStart, hy, hm] at hafter
    simp only [seconds, hafter]
    omega

/-- The next moment is one that a timestamp can spell, but for the last of all. -/
theorem next_valid (h : t.Valid) :
    t.next.Valid ∨ ∀ s : CivilTime, s.Valid → s.digits ≤ t.digits := by
  obtain ⟨hdate, h1, h2, h3⟩ := h
  have hlength := monthLength_eq (y := t.year) hdate.month
  have hd := hdate.day
  have hm := hdate.month
  unfold next
  split_ifs with hs hmin hhour hday hmonth
  · exact .inl ⟨hdate, h1, h2, by simp only; omega⟩
  · exact .inl ⟨hdate, h1, by simp only; omega, Nat.zero_le _⟩
  · exact .inl ⟨hdate, by simp only; omega, Nat.zero_le _, Nat.zero_le _⟩
  · refine .inl ⟨⟨hdate.year, hm, ?_⟩, Nat.zero_le _, Nat.zero_le _, Nat.zero_le _⟩
    simp only
    omega
  · have hfirst : ValidDay t.year (t.month + 1) 1 :=
      first_valid hdate.year ⟨by omega, by omega⟩
    exact .inl ⟨hfirst, Nat.zero_le _, Nat.zero_le _, Nat.zero_le _⟩
  · by_cases hyear : t.year < 9999
    · have hfirst : ValidDay (t.year + 1) 1 1 := first_valid hyear ⟨le_rfl, by decide⟩
      exact .inl ⟨hfirst, Nat.zero_le _, Nat.zero_le _, Nat.zero_le _⟩
    · right
      intro s hv
      have hy' := hv.date.year
      have hm' := hv.date.month
      have hd' := hv.date.day
      have hle := daysInMonth_le s.year s.month
      have hdec : daysInMonth t.year t.month = 31 := by
        have h12 : t.month = 12 := by omega
        rw [h12, daysInMonth]
        rfl
      obtain ⟨-, h1', h2', h3'⟩ := hv
      unfold digits
      omega

/-- Two moments that can be spelled are neighbours when a second lies between them. -/
theorem next_iff (h : s.Valid) (h' : t.Valid) : t = s.next ↔ t.seconds = s.seconds + 1 := by
  constructor
  · rintro rfl
    exact next_seconds h
  · intro he
    obtain hv | hlast := next_valid h
    · exact eq_of_seconds h' hv (he.trans (next_seconds h).symm)
    · have hle := hlast t h'
      have hlt := seconds_lt h h'
      omega

theorem read_bounds {ts : Bytes} (h : StampShape ts) :
    (read ts).month < 100 ∧ (read ts).day < 100 ∧ (read ts).hour < 100 ∧
      (read ts).minute < 100 ∧ (read ts).second < 100 := by
  have hlen := h.length
  have bound (pos : ℕ) (hpos : pos + 2 ≤ 26) (hd : allDigitsAt ts pos 2 = true) :
      digitsToInt ts pos 2 < 100 := (field_digits ts pos 2 (by omega) hd).2
  obtain ⟨-, d5, d8⟩ := h.date
  obtain ⟨d11, d14, d17⟩ := h.time
  exact ⟨bound 5 (by decide) d5, bound 8 (by decide) d8, bound 11 (by decide) d11,
    bound 14 (by decide) d14, bound 17 (by decide) d17⟩

/-- Texts compare like the numbers that they spell. -/
theorem lexLt_clock {a b : Bytes} (ha : StampShape a) (hb : StampShape b) :
    lexLt (a.take 19) (b.take 19) = true ↔ (read a).digits < (read b).digits := by
  have hla := ha.length
  have hlb := hb.length
  have hlen (pos count : ℕ) (h : pos + count ≤ 26) :
      (substr a pos count).length = (substr b pos count).length := by
    rw [substr_length a pos count (by omega), substr_length b pos count (by omega)]
  obtain ⟨a0, a5, a8⟩ := ha.date
  obtain ⟨a11, a14, a17⟩ := ha.time
  obtain ⟨b0, b5, b8⟩ := hb.date
  obtain ⟨b11, b14, b17⟩ := hb.time
  have hba := read_bounds ha
  have hbb := read_bounds hb
  rw [stamp_clock ha, stamp_clock hb,
    lexLt_field _ _ _ (hlen 0 4 (by decide)) a0 b0,
    lexLt_field _ _ _ (hlen 5 2 (by decide)) a5 b5,
    lexLt_field _ _ _ (hlen 8 2 (by decide)) a8 b8,
    lexLt_field _ _ _ (hlen 11 2 (by decide)) a11 b11,
    lexLt_field _ _ _ (hlen 14 2 (by decide)) a14 b14,
    lexLt_digits (hlen 17 2 (by decide)) a17 b17]
  simp only [digits, read, digitsToInt] at *
  omega

end CivilTime

section Accepted

theorem parseTimestamp_civil {ts : Bytes} {t : Timestamp} (h : parseTimestamp ts = some t) :
    (CivilTime.read ts).Valid ∧ t.absSeconds = (CivilTime.read ts).seconds := by
  obtain ⟨hshape, ⟨hmonth, hday, hhour, hminute, hsecond⟩, rfl⟩ := parseTimestamp_checks h
  have hyear := (field_digits ts 0 4 (by rw [hshape.length]; decide) hshape.date.1).2
  exact ⟨⟨⟨Nat.le_of_lt_succ hyear, hmonth, hday⟩, hhour, hminute, hsecond⟩, rfl⟩

/-- The packed keys are in the order of the hours they stand for. -/
theorem makeHourKey_le {y m d h y' m' d' h' : ℕ} (hv : ValidHour y m d h)
    (hv' : ValidHour y' m' d' h') :
    makeHourKey y m d h ≤ makeHourKey y' m' d' h' ↔
      hourIndex y m d h ≤ hourIndex y' m' d' h' := by
  have hday := daysFromCivil_lt hv.date hv'.date
  have hday' := daysFromCivil_lt hv'.date hv.date
  have h1 := hv.hour
  have h2 := hv'.hour
  rw [makeHourKey_eq hv, makeHourKey_eq hv']
  change (y * 1000000 + m * 10000 + d * 100 + h : ℕ) ≤ y' * 1000000 + m' * 10000 + d' * 100 + h' ↔ _
  unfold hourIndex
  omega

end Accepted

/-- Two accepted timestamps: seconds, texts, calendar and hour keys agree on
their order and on their neighbourhood. -/
theorem timestamps_agree {a b : Bytes} {s t : Timestamp} (ha : parseTimestamp a = some s)
    (hb : parseTimestamp b = some t) :
    (s.absSeconds < t.absSeconds ↔ lexLt (a.take 19) (b.take 19) = true) ∧
      (CivilTime.read b = (CivilTime.read a).next ↔ t.absSeconds = s.absSeconds + 1) ∧
      (makeHourKey s.year s.month s.day s.hour ≤ makeHourKey t.year t.month t.day t.hour ↔
        s.absSeconds / 3600 ≤ t.absSeconds / 3600) ∧
      formatHourKey (makeHourKey s.year s.month s.day s.hour) =
        substr a 0 10 ++ [ch ' '] ++ substr a 11 2 := by
  obtain ⟨hva, hsa⟩ := parseTimestamp_civil ha
  obtain ⟨hvb, hsb⟩ := parseTimestamp_civil hb
  obtain ⟨hha, hia, htext⟩ := parseTimestamp_hour a s ha
  obtain ⟨hhb, hib, -⟩ := parseTimestamp_hour b t hb
  refine ⟨?_, ?_, ?_, ?_⟩
  · rw [hsa, hsb, CivilTime.seconds_lt hva hvb,
      CivilTime.lexLt_clock (parseTimestamp_checks ha).1 (parseTimestamp_checks hb).1]
  · rw [hsa, hsb]
    exact CivilTime.next_iff hva hvb
  · rw [makeHourKey_le hha hhb, hia, hib]
  · rw [formatHourKey_eq hha]
    exact htext

/-- The end of February in the year 0, a leap year. -/
theorem timestamps_agree_leap : ∃ s t : Timestamp,
    parseTimestamp (bytesOf "0000-02-29_23:59:59.999999") = some s ∧
    parseTimestamp (bytesOf "0000-03-01_00:00:00.000000") = some t ∧
    (s.absSeconds < t.absSeconds ↔ lexLt ((bytesOf "0000-02-29_23:59:59.999999").take 19)
      ((bytesOf "0000-03-01_00:00:00.000000").take 19) = true) ∧
    (CivilTime.read (bytesOf "0000-03-01_00:00:00.000000") =
      (CivilTime.read (bytesOf "0000-02-29_23:59:59.999999")).next ↔
        t.absSeconds = s.absSeconds + 1) ∧
    (makeHourKey s.year s.month s.day s.hour ≤ makeHourKey t.year t.month t.day t.hour ↔
      s.absSeconds / 3600 ≤ t.absSeconds / 3600) ∧
    formatHourKey (makeHourKey s.year s.month s.day s.hour) =
      substr (bytesOf "0000-02-29_23:59:59.999999") 0 10 ++ [ch ' '] ++
        substr (bytesOf "0000-02-29_23:59:59.999999") 11 2 := by
  have ha : parseTimestamp (bytesOf "0000-02-29_23:59:59.999999") =
      some { year := 0, month := 2, day := 29, hour := 23, absSeconds := -62162035201 } := by
    decide
  have hb : parseTimestamp (bytesOf "0000-03-01_00:00:00.000000") =
      some { year := 0, month := 3, day := 1, hour := 0, absSeconds := -62162035200 } := by
    decide
  exact ⟨_, _, ha, hb, timestamps_agree ha hb⟩

end LogTransfer
