import LogTransfer.HourText
import LogTransfer.LineScan

/-!
# Numbers and timestamps

A token is read as a number exactly when it is one; what else it starts with
decides the reason. A timestamp is read exactly when its seven digit groups
name a real moment.
-/

set_option autoImplicit false

namespace LogTransfer
open Occurrence

section Numbers

variable {token : Bytes}

theorem takeWhile_digits (token : Bytes) : ∀ b ∈ token.takeWhile isDigit, isDigit b = true :=
  fun _ hb => List.mem_takeWhile_imp hb

theorem digits_whole (h : ∀ b ∈ token, isDigit b = true) : token.takeWhile isDigit = token :=
  List.takeWhile_eq_self_iff.mpr h

theorem allDigits_iff : allDigits token = true ↔ DigitString token := by
  constructor
  · intro h
    simp only [allDigits, Bool.and_eq_true, Bool.not_eq_true', List.isEmpty_eq_false_iff,
      List.all_eq_true] at h
    exact ⟨h.1, h.2⟩
  · rintro ⟨hne, hdigits⟩
    simp only [allDigits, Bool.and_eq_true, Bool.not_eq_true', List.isEmpty_eq_false_iff,
      List.all_eq_true]
    exact ⟨hne, hdigits⟩

theorem parseInt64Field_ok {n : ℕ} :
    parseInt64Field token = .ok n ↔ Number token ∧ n = digitsValue token := by
  have hmax : kInt64Max = 2 ^ 63 - 1 := by decide
  constructor
  · intro h
    unfold parseInt64Field at h
    dsimp only at h
    split_ifs at h with hempty hlarge hpart
    cases h
    have hwhole : token.takeWhile isDigit = token :=
      (List.takeWhile_prefix isDigit).eq_of_length (not_not.mp hpart)
    rw [hwhole] at hempty hlarge
    refine ⟨⟨⟨by simpa using hempty, ?_⟩, by omega⟩, by rw [hwhole]⟩
    rw [← hwhole]
    exact takeWhile_digits token
  · rintro ⟨⟨⟨hne, hdigits⟩, hrange⟩, rfl⟩
    rw [parseInt64Field, digits_whole hdigits]
    rw [if_neg (by simpa using hne), if_neg (by omega), if_neg (not_not.mpr rfl)]

theorem number_read (h : Number token) : parseInt64Field token = .ok (digitsValue token) :=
  parseInt64Field_ok.mpr ⟨h, rfl⟩

theorem isArrowPair_iff : isArrowPair token = true ↔ Arrow token := by
  have harrow : bytesOf "->" = ch '-' :: [ch '>'] := by decide
  constructor
  · intro h
    unfold isArrowPair at h
    split at h
    · cases h
    · cases h
    · rename_i arrow _ hfind
      obtain ⟨a, b, hsplit, rfl⟩ := at_iff_split.mp (find_some.mp hfind).found
      have hleft : substr token 0 a.length = a := substr_mid (show token.drop 0 = _ from hsplit)
      have hright : token.drop (a.length + 2) = b := by
        rw [hsplit, harrow, ← List.drop_drop, List.drop_left]
        rfl
      rw [hleft, hright, Bool.and_eq_true, allDigits_iff, allDigits_iff] at h
      exact ⟨a, b, by rw [hsplit, List.append_assoc], h.1, h.2⟩
  · rintro ⟨a, b, hsplit, ha, hb⟩
    rw [List.append_assoc, harrow] at hsplit
    have hfree : ch '-' ∉ a := fun hmem => absurd (ha.digits _ hmem) (by decide)
    have hfind : find token (bytesOf "->") 0 = some a.length := by
      rw [harrow]
      exact find_some.mpr (first_of_head hsplit hfree)
    have hleft : substr token 0 a.length = a := substr_mid (show token.drop 0 = _ from hsplit)
    have hright : token.drop (a.length + 2) = b := by
      rw [hsplit, ← List.drop_drop, List.drop_left]
      rfl
    obtain ⟨k, hk⟩ := Nat.exists_eq_succ_of_ne_zero fun h0 =>
      ha.filled (List.eq_nil_of_length_eq_zero h0)
    rw [hk] at hfind hleft hright
    rw [isArrowPair, hfind]
    change (allDigits (substr token 0 (k + 1)) && allDigits (token.drop (k + 1 + 2))) = true
    rw [hleft, hright, Bool.and_eq_true]
    exact ⟨allDigits_iff.mpr ha, allDigits_iff.mpr hb⟩

variable [Doubles]

theorem parseDoubleField_iff {v : Doubles.Val} :
    parseDoubleField token = some v ↔ FiniteDouble token v := by
  constructor
  · intro h
    unfold parseDoubleField at h
    split_ifs at h with hempty
    split at h
    · cases h
    · rename_i value used hread
      split_ifs at h with hgood
      cases h
      rw [Bool.and_eq_true, decide_eq_true_eq] at hgood
      exact ⟨by simpa using hempty, by rw [hread, hgood.1], hgood.2⟩
  · rintro ⟨hne, hread, hfinite⟩
    rw [parseDoubleField, if_neg (by simpa using hne), hread]
    simp [hfinite]

end Numbers

section Segments

variable {s mid rest : Bytes} {c : Byte} (pos n : ℕ)

theorem segment (hc : charAt s (pos + n) = some c) :
    s.drop pos = substr s pos n ++ c :: s.drop (pos + n + 1) := by
  rw [← drop_charAt s (pos + n) c hc, ← List.drop_drop]
  exact (List.take_append_drop n _).symm

theorem segment_read (h : s.drop pos = mid ++ c :: rest) (hn : mid.length = n) :
    substr s pos n = mid ∧ charAt s (pos + n) = some c ∧ s.drop (pos + n + 1) = rest := by
  subst hn
  have hrest := drop_mid h
  exact ⟨substr_mid h, charAt_iff.mpr ⟨rest, hrest⟩, drop_next hrest⟩

theorem digitGroup_iff {pos n : ℕ} :
    allDigitsAt s pos n = true ↔ ∀ b ∈ substr s pos n, isDigit b = true := by
  rw [allDigitsAt, List.all_eq_true]

end Segments

section Stamps

theorem monthLength_eq {y m : ℕ} (h : 1 ≤ m ∧ m ≤ 12) : daysInMonth y m = monthLength y m := by
  have hleap : isLeapYear y = true ↔ 4 ∣ y ∧ (¬ 100 ∣ y ∨ 400 ∣ y) := by
    simp only [isLeapYear, Bool.or_eq_true, Bool.and_eq_true, decide_eq_true_eq]
    omega
  obtain ⟨hlow, hhigh⟩ := h
  unfold daysInMonth monthLength
  simp only [← hleap]
  interval_cases m <;> simp

theorem parseTimestamp_stamp {s : Bytes} {ts : Timestamp} (h : parseTimestamp s = some ts) :
    Stamp s ts := by
  obtain ⟨hshape, ⟨hmonth, hday, hclock⟩, rfl⟩ := parseTimestamp_checks h
  obtain ⟨hlen, ⟨h4, h7⟩, h10, ⟨h13, h16⟩, h19, ⟨d0, d5, d8⟩, ⟨d11, d14, d17⟩, d20⟩ := hshape
  rw [monthLength_eq hmonth] at hday
  rw [digitGroup_iff] at d0 d5 d8 d11 d14 d17 d20
  have hlast : s.drop 20 = substr s 20 6 :=
    (List.take_of_length_le (by rw [List.length_drop]; omega)).symm
  refine ⟨⟨substr s 0 4, substr s 5 2, substr s 8 2, substr s 11 2, substr s 14 2, substr s 17 2,
    substr s 20 6⟩, ?_, ?_, rfl, rfl, rfl, rfl, ⟨hmonth, hday⟩, hclock, rfl⟩
  · calc s = substr s 0 4 ++ ch '-' :: s.drop 5 := segment 0 4 h4
      _ = _ := by
        rw [segment 5 2 h7, segment 8 2 h10,
          segment 11 2 h13, segment 14 2 h16,
          segment 17 2 h19, hlast]
        rfl
  · intro group hgroup
    simp only [StampText.groups, List.mem_cons, List.not_mem_nil, or_false] at hgroup
    rcases hgroup with rfl | rfl | rfl | rfl | rfl | rfl | rfl
    · exact ⟨substr_length s _ _ (by omega), d0⟩
    · exact ⟨substr_length s _ _ (by omega), d5⟩
    · exact ⟨substr_length s _ _ (by omega), d8⟩
    · exact ⟨substr_length s _ _ (by omega), d11⟩
    · exact ⟨substr_length s _ _ (by omega), d14⟩
    · exact ⟨substr_length s _ _ (by omega), d17⟩
    · exact ⟨substr_length s _ _ (by omega), d20⟩

theorem stamp_parseTimestamp {s : Bytes} {ts : Timestamp} (h : Stamp s ts) :
    parseTimestamp s = some ts := by
  obtain ⟨g, hs, hr⟩ := h
  have hdigits := hr.digits
  simp only [StampText.groups, List.mem_cons, List.not_mem_nil, or_false, forall_eq_or_imp,
    forall_eq] at hdigits
  obtain ⟨⟨l0, d0⟩, ⟨l5, d5⟩, ⟨l8, d8⟩, ⟨l11, d11⟩, ⟨l14, d14⟩, ⟨l17, d17⟩, ⟨l20, d20⟩⟩ := hdigits
  obtain ⟨s0, h4, e5⟩ := segment_read 0 4 (show s.drop 0 = _ from hs) l0
  obtain ⟨s5, h7, e8⟩ := segment_read 5 2 e5 l5
  obtain ⟨s8, h10, e11⟩ := segment_read 8 2 e8 l8
  obtain ⟨s11, h13, e14⟩ := segment_read 11 2 e11 l11
  obtain ⟨s14, h16, e17⟩ := segment_read 14 2 e14 l14
  obtain ⟨s17, h19, e20⟩ := segment_read 17 2 e17 l17
  have s20 : substr s 20 6 = g.fraction := by
    rw [substr, e20, ← l20, List.take_length]
  have hlen : s.length = 26 := by
    rw [hs]
    simp [StampText.bytes, l0, l5, l8, l11, l14, l17, l20]
  have hshape : timestampShape s = true := by
    refine timestampShape_iff.mpr ⟨hlen, ⟨h4, h7⟩, h10, ⟨h13, h16⟩, h19, ?_, ?_, ?_⟩
    · simp only [digitGroup_iff, s0, s5, s8]
      exact ⟨d0, d5, d8⟩
    · simp only [digitGroup_iff, s11, s14, s17]
      exact ⟨d11, d14, d17⟩
    · rw [digitGroup_iff, s20]
      exact d20
  obtain ⟨-, hyear, hmonth, hday, hhour, ⟨hm, hd⟩, ⟨c5, c6, c7⟩, hseconds⟩ := hr
  rw [← monthLength_eq hm] at hd
  obtain ⟨year, month, day, hour, absSeconds⟩ := ts
  dsimp only at *
  subst hyear hmonth hday hhour
  rw [parseTimestamp, hshape]
  simp only [digitsToInt, s0, s5, s8, s11, s14, s17]
  rw [if_neg (by decide), if_neg ?_, hseconds]
  simp only [Bool.or_eq_true, decide_eq_true_eq, not_or, Nat.not_lt]
  exact ⟨⟨⟨⟨⟨⟨hm.1, hm.2⟩, hd.1⟩, hd.2⟩, c5⟩, c6⟩, c7⟩

theorem parseTimestamp_iff {s : Bytes} {ts : Timestamp} :
    parseTimestamp s = some ts ↔ Stamp s ts :=
  ⟨parseTimestamp_stamp, stamp_parseTimestamp⟩

end Stamps

end LogTransfer
