import LogTransfer.ResultLines
import LogTransfer.ResultSummary

/-!
# The client's reading of one line

The reader looks for the first comma and cuts blanks at both ends. No line of
the metric block has a blank, a count is read back up to the range of `u64`,
and no line before the block can be taken for its header.
-/

set_option autoImplicit false

namespace LogTransfer.Client

section Trim

theorem dropWhile_none {p : Byte → Bool} {text : Bytes} (h : ∀ b ∈ text, p b = false) :
    text.dropWhile p = text := by
  cases text with
  | nil => rfl
  | cons b text =>
    have hb : ¬ p b = true := by simp [h b List.mem_cons_self]
    exact List.dropWhile_cons_of_neg hb

theorem graphic_byte {b : Byte} (h : 0x20 < b.toNat) :
    isBlank b = false ∧ isTrailing b = false := by
  have hne (c : Byte) (hc : c.toNat ≤ 0x20) : b ≠ c := by
    rintro rfl
    omega
  simp [isTrailing, isBlank, hne (ch ' ') (by decide), hne (ch '\t') (by decide),
    hne carriageReturn (by decide)]

/-- There is nothing to cut from a text without blanks. -/
theorem trim_graphic {text : Bytes} (h : Graphic text) : trim text = text := by
  rw [graphic_iff] at h
  have hreverse : ∀ b ∈ text.reverse, isTrailing b = false := by
    intro b hb
    exact (graphic_byte (h b (List.mem_reverse.mp hb))).2
  rw [trim, dropWhile_none fun b hb => (graphic_byte (h b hb)).1, dropWhile_none hreverse,
    List.reverse_reverse]

/-- A text that starts otherwise is not trimmed to the header. -/
theorem trim_ne_header {text : Bytes} {b : Byte} (hhead : text.head? = some b)
    (hblank : isBlank b = false) (hb : b ≠ ch 'm') : trim text ≠ kMetricHeader := by
  intro heq
  obtain ⟨rest, rfl⟩ := List.head?_eq_some_iff.mp hhead
  have hneg : ¬ isBlank b = true := by simp [hblank]
  have hpre : kMetricHeader <+: b :: rest := by
    have hcut := List.reverse_prefix.mpr
      (List.dropWhile_suffix (l := (b :: rest).reverse) isTrailing)
    rw [List.reverse_reverse] at hcut
    rw [← heq, trim, List.dropWhile_cons_of_neg hneg]
    exact hcut
  obtain ⟨tail, htail⟩ := hpre
  have hm : kMetricHeader = ch 'm' :: bytesOf "etric,value" := by decide
  rw [hm, List.cons_append] at htail
  exact hb (List.cons.inj htail).1.symm

end Trim

section Comma

theorem findFrom_byte (c : Byte) (pre post : Bytes) (i : ℕ) (h : c ∉ pre) :
    findFrom [c] (pre ++ c :: post) i = some (i + pre.length) := by
  induction pre generalizing i with
  | nil => simp [findFrom, List.isPrefixOf]
  | cons b pre ih =>
    rw [List.mem_cons, not_or] at h
    have hb : ¬ [c].isPrefixOf (b :: (pre ++ c :: post)) = true := by
      simp [List.isPrefixOf, h.1]
    rw [List.cons_append, findFrom, if_neg hb, ih (i + 1) h.2, List.length_cons]
    congr 1
    omega

theorem find_byte (c : Byte) (pre post : Bytes) (h : c ∉ pre) :
    find (pre ++ c :: post) [c] 0 = some pre.length := by
  rw [find, if_pos (Nat.zero_le _), List.drop_zero, findFrom_byte c pre post 0 h, Nat.zero_add]

end Comma

section Counts

theorem parseCount_decimal {n : ℕ} (h : n < 2 ^ 64) : parseCount (decimal n) = some n := by
  have hdigits := decimal_digits n
  have hall : allDigits (decimal n) = true := by
    simp [allDigits, hdigits, decimal_ne_nil]
  have hle : n ≤ kUint64Max := by
    unfold kUint64Max
    omega
  rw [parseCount, trim_graphic (graphic_decimal n), hall, decimal_value]
  simp [hle]

end Counts

section Rows

/-- A name as the rows of the metric block have them. -/
structure FieldName (name : Bytes) : Prop where
  comma : ch ',' ∉ name
  plain : Graphic name

/-- The effect of a row, by the name before its comma. -/
theorem scanRow_field (s : Scan) {name : Bytes} (value : Bytes) (h : FieldName name) :
    scanRow s (name ++ [ch ','] ++ value) =
      if name = kTotalLines then
        { s with summary := { s.summary with
            hasTotal := (parseCount value).isSome,
            totalLines := (parseCount value).getD s.summary.totalLines } }
      else if name = kSkippedLines then
        { summary := { s.summary with
            skippedLines := (parseCount value).getD s.summary.skippedLines },
          haveSkipped := (parseCount value).isSome }
      else if name.length > kReasonPrefix.length && kReasonPrefix.isPrefixOf name then
        ((parseCount value).map fun count =>
          { s with summary := { s.summary with
              reasons := s.summary.reasons ++ [(name.drop kReasonPrefix.length, count)] } }).getD s
      else s := by
  have htake : (name ++ ch ',' :: value).take name.length = name := List.take_left
  have hdrop : (name ++ ch ',' :: value).drop (name.length + 1) = value := by
    rw [List.append_cons, List.drop_left' (by simp)]
  rw [List.append_assoc, List.singleton_append, scanRow, find_byte _ _ _ h.comma]
  dsimp only
  rw [htake, hdrop, trim_graphic h.plain]
  cases parseCount value with
  | none => rfl
  | some count => rfl

variable {n : ℕ}

theorem scanRow_total (s : Scan) (h : n < 2 ^ 64) :
    scanRow s (metricLine "total_lines" (decimal n)) =
      { s with summary := { s.summary with hasTotal := true, totalLines := n } } := by
  rw [metricLine, scanRow_field s _ ⟨by decide, by decide⟩,
    if_pos (show bytesOf "total_lines" = kTotalLines from rfl), parseCount_decimal h]
  rfl

theorem scanRow_skipped (s : Scan) (h : n < 2 ^ 64) :
    scanRow s (metricLine "skipped_lines" (decimal n)) =
      { summary := { s.summary with skippedLines := n }, haveSkipped := true } := by
  have hne : bytesOf "skipped_lines" ≠ kTotalLines := by decide
  rw [metricLine, scanRow_field s _ ⟨by decide, by decide⟩,
    if_neg hne, if_pos (show bytesOf "skipped_lines" = kSkippedLines from rfl),
    parseCount_decimal h]
  rfl

/-- The names of the rows that the reader passes over. -/
theorem scanRow_other (s : Scan) (value : Bytes) (name : String)
    (h : name ∈ ["avg_speed", "valid_spd_samples", "excluded_spd_samples",
      "missing_spd_samples"]) : scanRow s (metricLine name value) = s := by
  have hname : ch ',' ∉ bytesOf name ∧ Graphic (bytesOf name) ∧
      bytesOf name ≠ kTotalLines ∧ bytesOf name ≠ kSkippedLines ∧
      kReasonPrefix.isPrefixOf (bytesOf name) = false := by
    revert name
    decide
  obtain ⟨hcomma, hplain, htotal, hskipped, hreason⟩ := hname
  rw [metricLine, scanRow_field s _ ⟨hcomma, hplain⟩, if_neg htotal, if_neg hskipped, hreason,
    Bool.and_false, if_neg (by decide)]

theorem scanRow_reason (s : Scan) (c : SkipReason) (h : n < 2 ^ 64) :
    scanRow s (reasonLine (skipReasonCode c, n)) =
      { s with summary := { s.summary with
          reasons := s.summary.reasons ++ [(skipReasonCode c, n)] } } := by
  have hname : ch ',' ∉ kReasonPrefix ++ skipReasonCode c ∧
      Graphic (kReasonPrefix ++ skipReasonCode c) ∧
      kReasonPrefix ++ skipReasonCode c ≠ kTotalLines ∧
      kReasonPrefix ++ skipReasonCode c ≠ kSkippedLines ∧
      (decide ((kReasonPrefix ++ skipReasonCode c).length > kReasonPrefix.length) &&
        kReasonPrefix.isPrefixOf (kReasonPrefix ++ skipReasonCode c)) = true := by
    cases c <;> decide
  obtain ⟨hcomma, hplain, htotal, hskipped, hreason⟩ := hname
  change scanRow s (kReasonPrefix ++ skipReasonCode c ++ [ch ','] ++ decimal n) = _
  rw [scanRow_field s _ ⟨hcomma, hplain⟩, if_neg htotal, if_neg hskipped, if_pos hreason,
    parseCount_decimal h, List.drop_left]
  rfl

end Rows

end LogTransfer.Client
