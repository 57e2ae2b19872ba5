import LogTransfer.HourText
import LogTransfer.ResultSize

/-!
# The lines of a result

A result is a list of lines, each closed by a newline, and no field of a line
contains one, whatever the counters and the keys are. A numeral is read back
as the number it was written for.
-/

set_option autoImplicit false

namespace LogTransfer

section Numerals

theorem ch_digitChar (d : ℕ) (h : d < 10) : ch (Nat.digitChar d) = BitVec.ofNat 8 (0x30 + d) := by
  interval_cases d <;> rfl

theorem decimal_eq (n : ℕ) :
    decimal n = (if n < 10 then [] else decimal (n / 10)) ++ [BitVec.ofNat 8 (0x30 + n % 10)] := by
  unfold decimal
  rw [Nat.toDigits_eq_if (by decide)]
  split
  · rename_i h
    rw [Nat.mod_eq_of_lt h]
    simp [ch_digitChar n h]
  · simp [ch_digitChar (n % 10) (Nat.mod_lt n (by decide))]

theorem digit_toNat (d : ℕ) : (BitVec.ofNat 8 (0x30 + d % 10)).toNat = 0x30 + d % 10 := by
  rw [BitVec.toNat_ofNat]
  omega

theorem decimal_digits (n : ℕ) : (decimal n).all isDigit = true := by
  induction n using Nat.strong_induction_on with
  | _ n ih =>
    have hlast : isDigit (BitVec.ofNat 8 (0x30 + n % 10)) = true := by
      rw [isDigit_iff, digit_toNat]
      omega
    rw [decimal_eq, List.all_append, List.all_cons, hlast, List.all_nil]
    split
    · rfl
    · rw [ih (n / 10) (by omega)]
      rfl

theorem decimal_value (n : ℕ) : digitsValue (decimal n) = n := by
  induction n using Nat.strong_induction_on with
  | _ n ih =>
    rw [decimal_eq, digitsValue_snoc, digit_toNat]
    split
    · simp [digitsValue]
      omega
    · rw [ih (n / 10) (by omega)]
      omega

theorem decimal_ne_nil (n : ℕ) : decimal n ≠ [] := by
  rw [decimal_eq]
  simp

theorem putDigits_digits (count value : ℕ) : (putDigits count value).all isDigit = true := by
  induction count generalizing value with
  | zero => rfl
  | succ count ih =>
    have hlast : isDigit (BitVec.ofNat 8 (0x30 + value % 10)) = true := by
      rw [isDigit_iff, digit_toNat]
      omega
    rw [putDigits, List.all_append, ih, List.all_cons, hlast]
    rfl

theorem notMem_digits {text : Bytes} {b : Byte} (h : text.all isDigit = true)
    (hb : isDigit b = false) : b ∉ text := by
  intro hmem
  rw [List.all_eq_true.mp h b hmem] at hb
  cases hb

theorem putInt_range (count : ℕ) (value : ℤ) :
    ∀ b ∈ putInt count value, 0x27 ≤ b.toNat ∧ b.toNat ≤ 0x39 := by
  induction count generalizing value with
  | zero => exact fun b hb => by cases hb
  | succ count ih =>
    intro b hb
    rw [putInt, List.mem_append, List.mem_singleton] at hb
    rcases hb with hb | rfl
    · exact ih _ b hb
    · have hlow : -10 < value.tmod 10 := by
        have := Int.tmod_lt_of_pos (-value) (by decide : (0 : ℤ) < 10)
        rw [Int.neg_tmod] at this
        omega
      have hhigh := Int.tmod_lt_of_pos value (by decide : (0 : ℤ) < 10)
      rw [BitVec.toNat_ofInt]
      omega

end Numerals

section Fields

theorem mem_moduleIds (m : ModuleId) : m ∈ moduleIds := by
  cases m <;> decide

theorem mem_skipReasons (c : SkipReason) : c ∈ skipReasons := by
  cases c <;> decide

/-- Neither blank nor control byte. -/
abbrev Graphic (text : Bytes) : Prop := text.all (fun b => 0x20 < b.toNat) = true

theorem graphic_iff (text : Bytes) : Graphic text ↔ ∀ b ∈ text, 0x20 < b.toNat := by
  simp [Graphic]

theorem graphic_append {a b : Bytes} (ha : Graphic a) (hb : Graphic b) : Graphic (a ++ b) := by
  unfold Graphic
  rw [List.all_append, ha, hb]
  rfl

theorem graphic_digits {text : Bytes} (h : text.all isDigit = true) : Graphic text := by
  rw [graphic_iff]
  intro b hb
  have := (isDigit_iff b).mp (List.all_eq_true.mp h b hb)
  omega

theorem graphic_decimal (n : ℕ) : Graphic (decimal n) := graphic_digits (decimal_digits n)

theorem graphic_moduleName (m : ModuleId) : Graphic (moduleName m) := by
  cases m <;> decide

theorem graphic_skipReasonCode (c : SkipReason) : Graphic (skipReasonCode c) := by
  cases c <;> decide

theorem graphic_formatFixed6 [Doubles] (value : Doubles.Val) : Graphic (formatFixed6 value) := by
  unfold formatFixed6
  split
  · decide
  · apply graphic_append
    · exact graphic_append (graphic_decimal _) (by decide)
    · exact graphic_digits (putDigits_digits _ _)

theorem newline_graphic {text : Bytes} (h : Graphic text) : newline ∉ text := by
  intro hmem
  have := (graphic_iff text).mp h newline hmem
  revert this
  decide

theorem newline_hour (key : HourKey) : newline ∉ formatHourKey key := by
  have hnum (count : ℕ) (value : ℤ) : newline ∉ putInt count value := by
    apply newline_graphic
    rw [graphic_iff]
    intro b hb
    have := (putInt_range count value b hb).1
    omega
  unfold formatHourKey
  simp only [List.mem_append, List.mem_singleton, not_or]
  exact ⟨⟨⟨⟨⟨⟨hnum _ _, by decide⟩, hnum _ _⟩, by decide⟩, hnum _ _⟩, by decide⟩, hnum _ _⟩

end Fields

section Lines

def bucketLine (row : ModuleId × HourKey × ℕ) : Bytes :=
  moduleName row.1 ++ [ch ','] ++ formatHourKey row.2.1 ++ [ch ','] ++ decimal row.2.2

def metricLine (name : String) (value : Bytes) : Bytes := bytesOf name ++ [ch ','] ++ value

def reasonLine (row : Bytes × ℕ) : Bytes :=
  bytesOf "skip_reason_" ++ row.1 ++ [ch ','] ++ decimal row.2

theorem newline_bucketLine (row : ModuleId × HourKey × ℕ) : newline ∉ bucketLine row := by
  simp only [bucketLine, List.mem_append, List.mem_singleton, not_or]
  exact ⟨⟨⟨⟨newline_graphic (graphic_moduleName _), by decide⟩, newline_hour _⟩, by decide⟩,
    newline_graphic (graphic_decimal _)⟩

variable [Doubles]

def metricLines (stats : StatsCollector) (reporter : SkipReporter) (totalLines : ℕ) : List Bytes :=
  [metricLine "total_lines" (decimal totalLines),
    metricLine "avg_speed" (formatFixed6 stats.averageSpeed),
    metricLine "valid_spd_samples" (decimal stats.validSpdSamples),
    metricLine "excluded_spd_samples" (decimal stats.excludedSpdSamples),
    metricLine "missing_spd_samples" (decimal stats.missingSpdSamples),
    metricLine "skipped_lines" (decimal reporter.total)] ++
    (reasonRows reporter).map reasonLine

/-- Every line of the file, in order. -/
def resultLines (stats : StatsCollector) (reporter : SkipReporter) (totalLines : ℕ) : List Bytes :=
  bytesOf "module,hour,count" :: stats.bucketRows.map bucketLine ++
    [] :: bytesOf "metric,value" :: metricLines stats reporter totalLines

omit [Doubles] in
theorem flatMap_rows {α : Type} (f g : α → Bytes) (l : List α) (h : ∀ a, f a = g a ++ [newline]) :
    l.flatMap f = (l.map g).flatMap (· ++ [newline]) := by
  rw [List.flatMap_map]
  exact congrArg l.flatMap (funext h)

theorem csv_lines (stats : StatsCollector) (reporter : SkipReporter) (totalLines : ℕ) :
    buildResultCsv stats reporter totalLines =
      (resultLines stats reporter totalLines).flatMap (· ++ [newline]) := by
  have h1 : bytesOf "module,hour,count\n" = bytesOf "module,hour,count" ++ [newline] := by
    decide
  have h2 : bytesOf "metric,value\n" = bytesOf "metric,value" ++ [newline] := by
    decide
  rw [buildResultCsv, flatMap_rows bucketRow bucketLine _ fun _ => rfl,
    flatMap_rows reasonRow reasonLine _ fun _ => rfl, h1, h2]
  simp [resultLines, metricLines, metricRow, metricLine]

omit [Doubles] in
theorem splitOn_lines (ls : List Bytes) (h : ∀ l ∈ ls, newline ∉ l) :
    (ls.flatMap (· ++ [newline])).splitOn newline = ls ++ [[]] := by
  induction ls with
  | nil => rfl
  | cons l ls ih =>
    obtain ⟨hl, hls⟩ := List.forall_mem_cons.mp h
    rw [List.flatMap_cons, List.append_assoc, List.singleton_append,
      List.splitOn_append_cons_self_of_not_mem hl, ih hls, List.cons_append]

theorem metricLines_graphic (stats : StatsCollector) (reporter : SkipReporter) (totalLines : ℕ) :
    ∀ l ∈ metricLines stats reporter totalLines, Graphic l ∧ l ≠ [] := by
  have hmetric (name : String) (value : Bytes) (hn : Graphic (bytesOf name))
      (hv : Graphic value) : Graphic (metricLine name value) ∧ metricLine name value ≠ [] :=
    ⟨graphic_append (graphic_append hn (by decide)) hv, by simp [metricLine]⟩
  intro l hl
  rw [metricLines, List.mem_append] at hl
  rcases hl with hl | hl
  · simp only [List.mem_cons, List.not_mem_nil, or_false] at hl
    rcases hl with rfl | rfl | rfl | rfl | rfl | rfl
    · exact hmetric _ _ (by decide) (graphic_decimal _)
    · exact hmetric _ _ (by decide) (graphic_formatFixed6 _)
    · exact hmetric _ _ (by decide) (graphic_decimal _)
    · exact hmetric _ _ (by decide) (graphic_decimal _)
    · exact hmetric _ _ (by decide) (graphic_decimal _)
    · exact hmetric _ _ (by decide) (graphic_decimal _)
  · obtain ⟨row, hrow, rfl⟩ := List.mem_map.mp hl
    obtain ⟨c, -, rfl⟩ := List.mem_map.mp ((reasonRows_perm reporter).mem_iff.mp hrow)
    have hcode := graphic_append (by decide : Graphic (bytesOf "skip_reason_"))
      (graphic_skipReasonCode c)
    exact ⟨graphic_append (graphic_append hcode (by decide)) (graphic_decimal _),
      by simp [reasonLine]⟩

/-- The file splits into the lines it was written from. -/
theorem csv_splitOn (stats : StatsCollector) (reporter : SkipReporter) (totalLines : ℕ) :
    (buildResultCsv stats reporter totalLines).splitOn newline =
      resultLines stats reporter totalLines ++ [[]] := by
  rw [csv_lines]
  apply splitOn_lines
  intro l hl
  simp only [resultLines, List.mem_append, List.mem_cons] at hl
  rcases hl with (rfl | hl) | rfl | rfl | hl
  · decide
  · obtain ⟨row, -, rfl⟩ := List.mem_map.mp hl
    exact newline_bucketLine row
  · simp
  · decide
  · exact newline_graphic (metricLines_graphic stats reporter totalLines l hl).1

end Lines

end LogTransfer
