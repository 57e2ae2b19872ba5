import LogTransfer.ByteOrder
import LogTransfer.HourWindow
import Mathlib.Tactic.Ring

/-!
# The bucket block is the histogram of the accepted lines

Keys are in the order of the hour texts and modules in the order of their
names, so the rows of the file are the tally of the pairs of module name and
hour text that the accepted lines have.
-/

set_option autoImplicit false

namespace LogTransfer

open Tally

section Order

/-- Numbers of one width are written in their order. -/
theorem lexLt_putDigits {count a b : ℕ} (hab : a < b) (hb : b < 10 ^ count) (s t : Bytes) :
    lexLt (putDigits count a ++ s) (putDigits count b ++ t) = true := by
  induction count generalizing a b s t with
  | zero =>
    rw [pow_zero] at hb
    omega
  | succ count ih =>
    simp only [putDigits, List.append_assoc, List.singleton_append]
    by_cases hq : a / 10 < b / 10
    · apply ih hq
      rw [pow_succ] at hb
      omega
    · have he : a / 10 = b / 10 := by omega
      have hd : a % 10 < b % 10 := by omega
      have hne : BitVec.ofNat 8 (0x30 + a % 10) ≠ BitVec.ofNat 8 (0x30 + b % 10) := by
        intro h
        have := congrArg BitVec.toNat h
        rw [digit_toNat, digit_toNat] at this
        omega
      rw [he, lexLt_append, lexLt, if_neg hne, digit_toNat, digit_toNat, decide_eq_true_iff]
      omega

variable {y m d h y' m' d' h' : ℕ}

theorem hourText_lt (hv : ValidHour y m d h) (hv' : ValidHour y' m' d' h')
    (hlt : makeHourKey y m d h < makeHourKey y' m' d' h') :
    lexLt (hourText y m d h) (hourText y' m' d' h') = true := by
  have h1 := hv'.date.year
  have h2 := hv.date.month
  have h2' := hv'.date.month
  have h3 := hv.date.day
  have h3' := hv'.date.day
  have h4 := daysInMonth_le y m
  have h4' := daysInMonth_le y' m'
  have h5 := hv.hour
  have h5' := hv'.hour
  have hkeys : y * 1000000 + m * 10000 + d * 100 + h <
      y' * 1000000 + m' * 10000 + d' * 100 + h' := by
    rw [← makeHourKey_eq hv, ← makeHourKey_eq hv']
    exact hlt
  have hcases : y < y' ∨ y = y' ∧ (m < m' ∨ m = m' ∧ (d < d' ∨ d = d' ∧ h < h')) := by omega
  simp only [hourText, List.append_assoc]
  rcases hcases with hy | ⟨rfl, hm | ⟨rfl, hd | ⟨rfl, hh⟩⟩⟩
  · exact lexLt_putDigits hy (by omega) _ _
  · rw [lexLt_append, lexLt_append]
    exact lexLt_putDigits hm (by omega) _ _
  · rw [lexLt_append, lexLt_append, lexLt_append, lexLt_append]
    exact lexLt_putDigits hd (by omega) _ _
  · rw [lexLt_append, lexLt_append, lexLt_append, lexLt_append, lexLt_append, lexLt_append]
    rw [← List.append_nil (putDigits 2 h), ← List.append_nil (putDigits 2 h')]
    exact lexLt_putDigits hh (by omega) _ _

variable {k k' : HourKey}

theorem formatHourKey_lt (hk : ValidKey k) (hk' : ValidKey k') (hlt : k < k') :
    ByteOrder (formatHourKey k) (formatHourKey k') := by
  obtain ⟨y, m, d, h, hv, rfl⟩ := hk
  obtain ⟨y', m', d', h', hv', rfl⟩ := hk'
  rw [formatHourKey_eq hv, formatHourKey_eq hv']
  exact hourText_lt hv hv' hlt

theorem formatHourKey_inj (hk : ValidKey k) (hk' : ValidKey k')
    (he : formatHourKey k = formatHourKey k') : k = k' := by
  rcases lt_trichotomy k k' with hlt | heq | hlt
  · have := formatHourKey_lt hk hk' hlt
    rw [ByteOrder, he] at this
    exact absurd this (lexLt_irrefl _)
  · exact heq
  · have := formatHourKey_lt hk' hk hlt
    rw [ByteOrder, he] at this
    exact absurd this (lexLt_irrefl _)

theorem moduleOrder_sorted :
    StatsCollector.moduleOrder.Pairwise fun a b => ByteOrder (moduleName a) (moduleName b) := by
  unfold ByteOrder
  decide

theorem mem_moduleOrder (m : ModuleId) : m ∈ StatsCollector.moduleOrder :=
  (List.perm_insertionSort _ moduleIds).mem_iff.mpr (mem_moduleIds m)

end Order

section Fields

theorem comma_moduleName (m : ModuleId) : ch ',' ∉ moduleName m := by
  cases m <;> decide

theorem comma_hour {k : HourKey} (hk : ValidKey k) : ch ',' ∉ formatHourKey k := by
  obtain ⟨y, m, d, h, hv, rfl⟩ := hk
  have hnum (count n : ℕ) : ch ',' ∉ putDigits count n :=
    notMem_digits (putDigits_digits count n) (by decide)
  rw [formatHourKey_eq hv]
  simp only [hourText, List.mem_append, List.mem_singleton, not_or]
  exact ⟨⟨⟨⟨⟨⟨hnum _ _, by decide⟩, hnum _ _⟩, by decide⟩, hnum _ _⟩, by decide⟩, hnum _ _⟩

theorem comma_decimal (n : ℕ) : ch ',' ∉ decimal n :=
  notMem_digits (decimal_digits n) (by decide)

/-- A row has three fields. -/
theorem bucketLine_fields (m : ModuleId) {k : HourKey} (hk : ValidKey k) (c : ℕ) :
    (bucketLine (m, k, c)).splitOn (ch ',') = [moduleName m, formatHourKey k, decimal c] := by
  simp only [bucketLine, List.append_assoc, List.cons_append, List.nil_append]
  rw [List.splitOn_append_cons_self_of_not_mem (comma_moduleName m),
    List.splitOn_append_cons_self_of_not_mem (comma_hour hk),
    List.splitOn_eq_singleton (comma_decimal c)]

end Fields

section Block

/-- The rows between the first header and the blank line, cut at the commas. -/
def bucketBlock (csv : Bytes) : List (List Bytes) :=
  let rest := (csv.splitOn newline).dropWhile (· ≠ bytesOf "module,hour,count")
  (rest.tail.takeWhile (· ≠ [])).map (·.splitOn (ch ','))

variable [Doubles]

theorem bucketBlock_lines (stats : StatsCollector) (reporter : SkipReporter) (totalLines : ℕ) :
    bucketBlock (buildResultCsv stats reporter totalLines) =
      stats.bucketRows.map fun row => (bucketLine row).splitOn (ch ',') := by
  have hne (row : ModuleId × HourKey × ℕ) : bucketLine row ≠ [] := by
    unfold bucketLine
    simp
  have hrows : ∀ l ∈ stats.bucketRows.map bucketLine, decide (l ≠ []) = true := by
    intro l hl
    obtain ⟨row, -, rfl⟩ := List.mem_map.mp hl
    simpa using hne row
  unfold bucketBlock
  rw [csv_splitOn, resultLines]
  simp only [List.cons_append, List.append_assoc]
  rw [List.dropWhile_cons_of_neg (by simp), List.tail_cons, List.takeWhile_append_of_pos hrows,
    List.takeWhile_cons_of_neg (by simp), List.append_nil, List.map_map]
  rfl

end Block

section Accepted

variable [Doubles]

/-- Module name and hour text of a line that the parser accepts. -/
def Pipeline.acceptedRow (p : Pipeline) (l : Line) : Option (Bytes × Bytes) :=
  match (p.parser.parse l.text l.tooLong).2 with
  | .error _ => none
  | .ok _ =>
    match LogLineParser.frame l.text with
    | .error _ => none
    | .ok f => some (f.module, stampHour f.stamp)

def Pipeline.acceptedRows : Pipeline → List Line → List (Bytes × Bytes)
  | _, [] => []
  | p, l::ls => (p.acceptedRow l).toList ++ (p.line l).acceptedRows ls

theorem acceptedRows_append (p : Pipeline) (ls ls' : List Line) :
    p.acceptedRows (ls ++ ls') = p.acceptedRows ls ++ (p.lines ls).acceptedRows ls' := by
  induction ls generalizing p with
  | nil => rfl
  | cons l ls ih =>
    rw [List.cons_append, Pipeline.acceptedRows, Pipeline.acceptedRows, ih, List.append_assoc]
    rfl

def entryRow (e : ModuleId × HourKey) : Bytes × Bytes := (moduleName e.1, formatHourKey e.2)

theorem entries_append (fs gs : List Fate) : entries (fs ++ gs) = entries fs ++ entries gs := by
  simp [entries, entered]

/-- One line adds as many rows as entries, and they agree. -/
theorem acceptedRow_entry (ls : List Line) (l : Line) :
    ((Pipeline.reset.lines ls).acceptedRow l).toList =
        (entries [(Pipeline.reset.lines ls).fate l]).map entryRow ∧
      ∀ e ∈ entries [(Pipeline.reset.lines ls).fate l], ValidKey e.2 := by
  have htaken := lines_taken ls
  generalize Pipeline.reset.lines ls = p at htaken
  have hstep := line_step p l
  unfold Pipeline.acceptedRow
  generalize p.fate l = f, p.line l = q at hstep ⊢
  cases hstep with
  | rejected reason h _ =>
    rw [h]
    simp [entries, entered]
  | refused parsed _ _ _ _ hr =>
    rw [htaken parsed] at hr
    cases hr
  | entered parsed f ts h ha _ =>
    obtain ⟨-, -, htext⟩ := parseTimestamp_hour f.stamp ts ha.stamp
    obtain ⟨hv, hkey, -⟩ := accepted_key ha
    have hentries : entries [Except.ok parsed] = [(parsed.module, parsed.key)] := rfl
    rw [h, ha.frame, hentries]
    refine ⟨?_, ?_⟩
    · simp only [Option.toList_some, List.map_cons, List.map_nil, entryRow]
      rw [ha.module, hkey, formatHourKey_eq hv, htext]
    · intro e he
      rw [List.mem_singleton] at he
      subst he
      exact ⟨_, _, _, _, hv, hkey⟩

theorem acceptedRows_entries (ls : List Line) :
    Pipeline.reset.acceptedRows ls = (entries (Pipeline.reset.fates ls)).map entryRow ∧
      ∀ e ∈ entries (Pipeline.reset.fates ls), ValidKey e.2 := by
  induction ls using List.reverseRecOn with
  | nil => exact ⟨rfl, fun e he => by cases he⟩
  | append_singleton ls l ih =>
    obtain ⟨hrow, hvalid⟩ := acceptedRow_entry ls l
    rw [acceptedRows_append, fates_append, entries_append, List.map_append, ih.1]
    simp only [Pipeline.acceptedRows, Pipeline.fates, List.append_nil]
    refine ⟨by rw [hrow], ?_⟩
    intro e he
    rcases List.mem_append.mp he with he | he
    · exact ih.2 e he
    · exact hvalid e he

end Accepted

section Histogram

variable [Doubles]

theorem bucketRows_tally {fs : List Fate} {p : Pipeline} (h : Books fs p) :
    IsTally (lexOrder (fun a b => ByteOrder (moduleName a) (moduleName b)) (· < ·)) (entries fs)
      (p.stats.bucketRows.map fun row => ((row.1, row.2.1), row.2.2)) := by
  have htally := isTally_groups StatsCollector.moduleOrder moduleOrder_sorted (entries fs)
    (fun e _ => mem_moduleOrder e.1) p.stats.buckets fun m _ => h.buckets m
  rw [StatsCollector.bucketRows, List.map_flatMap]
  simpa only [List.map_map, Function.comp_def] using htally

theorem rows_tally {fs : List Fate} {p : Pipeline} (h : Books fs p)
    (hvalid : ∀ e ∈ entries fs, ValidKey e.2) :
    IsTally (lexOrder ByteOrder ByteOrder) ((entries fs).map entryRow)
      (p.stats.bucketRows.map fun row => (entryRow (row.1, row.2.1), row.2.2)) := by
  have hmono : ∀ a ∈ entries fs, ∀ b ∈ entries fs,
      lexOrder (fun a b => ByteOrder (moduleName a) (moduleName b)) (· < ·) a b →
        lexOrder ByteOrder ByteOrder (entryRow a) (entryRow b) := by
    intro a ha b hb hab
    rcases hab with hm | ⟨hm, hk⟩
    · exact .inl hm
    · exact .inr ⟨congrArg moduleName hm, formatHourKey_lt (hvalid a ha) (hvalid b hb) hk⟩
  have hinj : ∀ a ∈ entries fs, ∀ b ∈ entries fs, entryRow a = entryRow b → a = b := by
    intro a ha b hb hab
    have hm := moduleName_inj (congrArg Prod.fst hab)
    have hk := formatHourKey_inj (hvalid a ha) (hvalid b hb) (congrArg Prod.snd hab)
    exact Prod.ext hm hk
  have htally := (bucketRows_tally h).map entryRow hmono hinj
  rwa [List.map_map] at htally

theorem bucketRow_valid {fs : List Fate} {p : Pipeline} (h : Books fs p)
    (hvalid : ∀ e ∈ entries fs, ValidKey e.2) :
    ∀ row ∈ p.stats.bucketRows, ValidKey row.2.1 := by
  intro row hrow
  have hkey : (row.1, row.2.1) ∈
      (p.stats.bucketRows.map fun row => ((row.1, row.2.1), row.2.2)).map Prod.fst := by
    rw [List.map_map]
    exact List.mem_map_of_mem hrow
  exact hvalid _ (((bucketRows_tally h).mem_keys _).mp hkey)

/-- The rows of the bucket block are the tally of module name and hour text
over the accepted lines, in strictly ascending order, with three fields each. -/
theorem bucket_block_is_histogram (chunks : List Bytes) :
    let accepted := Pipeline.reset.acceptedRows (Pipeline.sessionLines chunks)
    ∃ rows : List ((Bytes × Bytes) × ℕ),
      IsTally (lexOrder ByteOrder ByteOrder) accepted rows ∧
        bucketBlock (Pipeline.analysed chunks).result.csv =
          rows.map fun row => [row.1.1, row.1.2, decimal row.2] := by
  intro accepted
  let p := Pipeline.analysed chunks
  have hbooks := Pipeline.analysed_books chunks
  obtain ⟨haccepted, hvalid⟩ := acceptedRows_entries (Pipeline.sessionLines chunks)
  refine ⟨p.stats.bucketRows.map fun row => (entryRow (row.1, row.2.1), row.2.2), ?_, ?_⟩
  · have htally := rows_tally hbooks hvalid
    rwa [← haccepted] at htally
  · have hlines := bucketBlock_lines p.stats p.reporter p.totalLines
    rw [List.map_map]
    refine hlines.trans (List.map_congr_left ?_)
    intro row hrow
    exact bucketLine_fields row.1 (bucketRow_valid hbooks hvalid row hrow) row.2.2

end Histogram

end LogTransfer
