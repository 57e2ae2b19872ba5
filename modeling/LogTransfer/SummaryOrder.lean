import LogTransfer.RowReading

/-!
# The summary does not depend on the order of the rows

The summary is a function of what is read of the rows, so it is the same for
any order of them. A carriage return before every line end is trimmed away.
-/

set_option autoImplicit false

namespace LogTransfer.Client

section Files

/-- A result file with a metric block: its lines, cut where the reader cuts them. -/
structure SummaryFile where
  bytes : Bytes
  before : List Bytes
  header : Bytes
  rows : List Bytes
  rest : List Bytes
  lines : bytes.splitOn newline = before ++ header :: (rows ++ rest)
  headless : ∀ l ∈ before, trim l ≠ kMetricHeader
  titled : trim header = kMetricHeader
  filled : ∀ row ∈ rows, trim row ≠ []
  closed : ∀ l ∈ rest.head?, trim l = []

/-- A list up to the first element with a property, and the rest from there. -/
theorem cut_before {α : Type} (p : α → Bool) (l : List α) :
    ∃ a b, l = a ++ b ∧ (∀ x ∈ a, p x = false) ∧ ∀ x ∈ b.head?, p x = true := by
  refine ⟨l.takeWhile fun x => !p x, l.dropWhile fun x => !p x,
    List.takeWhile_append_dropWhile.symm, ?_, ?_⟩
  · intro x hx
    simpa using List.mem_takeWhile_imp hx
  · intro x hx
    have hnot := List.head?_dropWhile_not (fun x => !p x) l
    rw [hx] at hnot
    simpa using hnot

/-- Every file with a metric block is cut so. -/
theorem summaryFile_exists (csv : Bytes)
    (h : ∃ l ∈ csv.splitOn newline, trim l = kMetricHeader) : ∃ F : SummaryFile, F.bytes = csv := by
  obtain ⟨before, after, hlines, hbefore, hafter⟩ :=
    cut_before (fun l => decide (trim l = kMetricHeader)) (csv.splitOn newline)
  obtain ⟨rows, rest, hrest, hrows, hblank⟩ := cut_before (fun l => (trim l).isEmpty) after.tail
  cases after with
  | nil =>
    obtain ⟨l, hl, htitle⟩ := h
    rw [hlines, List.append_nil] at hl
    exact absurd htitle (by simpa using hbefore l hl)
  | cons header tail =>
    rw [List.tail_cons] at hrest
    have hheader : trim header = kMetricHeader := by simpa using hafter header rfl
    exact ⟨⟨csv, before, header, rows, rest, by rw [hlines, hrest], by simpa using hbefore, hheader,
      by simpa using hrows, by simpa using hblank⟩, rfl⟩

theorem scanLines_block (s : Scan) (rows rest : List Bytes) (hrows : ∀ row ∈ rows, trim row ≠ [])
    (hrest : ∀ l ∈ rest.head?, trim l = []) :
    scanLines s true (rows ++ rest) = rows.foldl (fun s row => scanRow s (trim row)) s := by
  induction rows generalizing s with
  | nil =>
    cases rest with
    | nil => rfl
    | cons l rest =>
      rw [List.nil_append, scanLines, hrest l rfl]
      rfl
  | cons row rows ih =>
    rw [List.forall_mem_cons] at hrows
    have hempty : (trim row).isEmpty = false := by simpa using hrows.1
    rw [List.cons_append, scanLines]
    simp only [Bool.not_true, hempty]
    exact ih _ hrows.2

theorem scanLines_file (F : SummaryFile) (s : Scan) :
    scanLines s false (F.bytes.splitOn newline) =
      F.rows.foldl (fun s row => scanRow s (trim row)) s := by
  rw [F.lines, scanLines_skip s F.before _ F.headless, scanLines, F.titled]
  simp only [Bool.not_false, if_true, decide_true]
  exact scanLines_block s F.rows F.rest F.filled F.closed

end Files

section Summaries

theorem reasonBefore_antisymm {a b : Bytes × ℕ} (hab : reasonBefore a b = true)
    (hba : reasonBefore b a = true) : a = b := by
  rw [reasonBefore_iff] at hab hba
  rcases hab with heq | hab
  · exact heq
  · rcases hba with heq | hba
    · exact heq.symm
    · rcases rank_trans hab hba with h | ⟨-, h⟩
      · exact absurd h (lt_irrefl a.2)
      · exact absurd h (lexLt_irrefl a.1)

theorem mergeSort_reordered {rows rows' : List (Bytes × ℕ)} (h : rows.Perm rows') :
    rows.mergeSort reasonBefore = rows'.mergeSort reasonBefore := by
  have hperm : (rows.mergeSort reasonBefore).Perm (rows'.mergeSort reasonBefore) :=
    (List.mergeSort_perm rows reasonBefore).trans
      (h.trans (List.mergeSort_perm rows' reasonBefore).symm)
  apply hperm.eq_of_pairwise
  · intro a b _ _ hab hba
    exact reasonBefore_antisymm hab hba
  · exact List.pairwise_mergeSort reasonBefore_trans reasonBefore_total rows
  · exact List.pairwise_mergeSort reasonBefore_trans reasonBefore_total rows'

theorem total_reordered {rows rows' : List (Bytes × ℕ)} (h : rows.Perm rows') :
    rows.foldl (fun total r => (total + r.2) % (kUint64Max + 1)) 0 =
      rows'.foldl (fun total r => (total + r.2) % (kUint64Max + 1)) 0 := by
  apply h.foldl_eq'
  intro a _ b _ total
  unfold kUint64Max
  omega

/-- The summary is a function of the reading. -/
theorem summary_of_reading {csv csv' : Bytes}
    (h : ∀ s, reading (scanLines s false (csv.splitOn newline)) =
      reading (scanLines s false (csv'.splitOn newline))) :
    summarizeResultCsv csv = summarizeResultCsv csv' := by
  unfold summarizeResultCsv
  dsimp only
  have heq := h { summary := { totalLines := 0, hasTotal := false, skippedLines := 0,
                               reasons := [] }, haveSkipped := false }
  generalize scanLines _ false (csv.splitOn newline) = t at heq ⊢
  generalize scanLines _ false (csv'.splitOn newline) = t' at heq ⊢
  obtain ⟨⟨total, hasTotal, skipped, reasons⟩, haveSkipped⟩ := t
  obtain ⟨⟨total', hasTotal', skipped', reasons'⟩, haveSkipped'⟩ := t'
  simp only [reading, RowReading.mk.injEq, Multiset.coe_eq_coe] at heq
  obtain ⟨rfl, rfl, rfl, rfl, hperm⟩ := heq
  dsimp only
  rw [mergeSort_reordered hperm, total_reordered hperm]

theorem summary_reordered {F F' : SummaryFile} {extra : List Bytes}
    (hnames : (F.rows.filterMap rowName).Nodup) (hextra : ∀ row ∈ extra, UnknownRow row)
    (hperm : F'.rows.Perm (F.rows ++ extra)) :
    summarizeResultCsv F'.bytes = summarizeResultCsv F.bytes := by
  apply summary_of_reading
  intro s
  rw [scanLines_file, scanLines_file, reading_rows, reading_rows]
  exact readRows_reordered hnames hextra hperm (reading s)

end Summaries

section LineEnds

/-- The same file with `\r\n` for every `\n`. -/
def crlf (csv : Bytes) : Bytes :=
  csv.flatMap fun b => if b = newline then [carriageReturn, newline] else [b]

theorem trim_return (line : Bytes) : trim (line ++ [carriageReturn]) = trim line := by
  have hreturn : isTrailing carriageReturn = true := by decide
  have hkeep : ¬ isBlank carriageReturn = true := by decide
  unfold trim
  cases hline : line.dropWhile isBlank with
  | nil =>
    have hall := List.dropWhile_eq_nil_iff.mp hline
    rw [List.dropWhile_append_of_pos hall, List.dropWhile_cons_of_neg hkeep]
    decide
  | cons b rest =>
    rw [List.dropWhile_append, hline]
    simp [hreturn]

theorem crlf_whole {line : Bytes} (h : newline ∉ line) : crlf line = line := by
  induction line with
  | nil => rfl
  | cons b line ih =>
    rw [List.mem_cons, not_or] at h
    rw [crlf, List.flatMap_cons, if_neg (Ne.symm h.1), ← crlf, ih h.2, List.singleton_append]

theorem crlf_line {line : Bytes} (h : newline ∉ line) (csv : Bytes) :
    crlf (line ++ newline :: csv) = (line ++ [carriageReturn]) ++ newline :: crlf csv := by
  have hline := crlf_whole h
  unfold crlf at hline ⊢
  rw [List.flatMap_append, hline, List.flatMap_cons, if_pos rfl]
  simp

theorem crlf_lines (csv : Bytes) :
    ((crlf csv).splitOn newline).map trim = (csv.splitOn newline).map trim := by
  induction hn : csv.length using Nat.strong_induction_on generalizing csv with
  | _ n ih =>
    by_cases hmem : newline ∈ csv
    · obtain ⟨line, csv', rfl, hline⟩ := List.eq_append_cons_of_mem hmem
      have hreturn : newline ∉ line ++ [carriageReturn] := by
        rw [List.mem_append, List.mem_singleton, not_or]
        exact ⟨hline, by decide⟩
      have hshort : csv'.length < n := by
        rw [← hn, List.length_append, List.length_cons]
        omega
      rw [crlf_line hline, List.splitOn_append_cons_self_of_not_mem hreturn,
        List.splitOn_append_cons_self_of_not_mem hline, List.map_cons, List.map_cons, trim_return,
        ih _ hshort csv' rfl]
    · rw [crlf_whole hmem]

theorem scanLines_trimmed {ls ls' : List Bytes} (h : ls.map trim = ls'.map trim) (s : Scan)
    (inBlock : Bool) : scanLines s inBlock ls = scanLines s inBlock ls' := by
  induction ls generalizing ls' s inBlock with
  | nil => rw [List.map_eq_nil_iff.mp h.symm]
  | cons l ls ih =>
    cases ls' with
    | nil => cases h
    | cons l' ls' =>
      obtain ⟨hl, hls⟩ := List.cons.inj h
      rw [scanLines, scanLines, hl, ih hls, ih hls]

theorem summary_crlf (csv : Bytes) : summarizeResultCsv (crlf csv) = summarizeResultCsv csv := by
  apply summary_of_reading
  intro s
  rw [scanLines_trimmed (crlf_lines csv)]

end LineEnds

/-- Neither the order of the rows, nor rows of unknown names, nor the line ends
change what the user is told. -/
theorem summary_order_independent (F F' : SummaryFile) (extra : List Bytes)
    (hnames : (F.rows.filterMap rowName).Nodup) (hextra : ∀ row ∈ extra, UnknownRow row)
    (hperm : F'.rows.Perm (F.rows ++ extra)) :
    (summarizeResultCsv F'.bytes = summarizeResultCsv F.bytes ∧
      formatSkipWarning (summarizeResultCsv F'.bytes) =
        formatSkipWarning (summarizeResultCsv F.bytes)) ∧
    summarizeResultCsv (crlf F.bytes) = summarizeResultCsv F.bytes ∧
      formatSkipWarning (summarizeResultCsv (crlf F.bytes)) =
        formatSkipWarning (summarizeResultCsv F.bytes) := by
  have hsame := summary_reordered hnames hextra hperm
  rw [hsame, summary_crlf]
  exact ⟨⟨rfl, rfl⟩, rfl, rfl⟩

/-- A small file, and one with its rows reordered and two more between them. -/
def plainFile : SummaryFile where
  bytes := bytesOf "metric,value\ntotal_lines,9\nskipped_lines,2\nskip_reason_EMPTY,2"
  before := []
  header := bytesOf "metric,value"
  rows := [bytesOf "total_lines,9", bytesOf "skipped_lines,2", bytesOf "skip_reason_EMPTY,2"]
  rest := []
  lines := by decide
  headless := by decide
  titled := by decide
  filled := by decide
  closed := by decide

def shuffledFile : SummaryFile where
  bytes := bytesOf
    "metric,value\nskip_reason_EMPTY,2\nnote\nskipped_lines,2\navg_speed,1.5\ntotal_lines,9\n"
  before := []
  header := bytesOf "metric,value"
  rows := [bytesOf "skip_reason_EMPTY,2", bytesOf "note", bytesOf "skipped_lines,2",
    bytesOf "avg_speed,1.5", bytesOf "total_lines,9"]
  rest := [[]]
  lines := by decide
  headless := by decide
  titled := by decide
  filled := by decide
  closed := by decide

theorem shuffled_summary :
    summarizeResultCsv shuffledFile.bytes = summarizeResultCsv plainFile.bytes := by
  have hunknown : ∀ row ∈ [bytesOf "note", bytesOf "avg_speed,1.5"], UnknownRow row := by
    rw [List.forall_mem_cons, List.forall_mem_singleton]
    constructor
    · intro name hname
      have hnone : rowName (bytesOf "note") = none := by decide
      rw [hnone] at hname
      cases hname
    · intro name hname
      have hspeed : rowName (bytesOf "avg_speed,1.5") = some (bytesOf "avg_speed") := by
        decide
      rw [hspeed] at hname
      cases hname
      refine ⟨by decide, by decide, fun code _ heq => ?_⟩
      have hpre : kReasonPrefix <+: bytesOf "avg_speed" := ⟨code, heq.symm⟩
      exact absurd (List.isPrefixOf_iff_prefix.mpr hpre) (by decide)
  exact (summary_order_independent plainFile shuffledFile
    [bytesOf "note", bytesOf "avg_speed,1.5"] (by decide) hunknown
    (by decide)).1.1

end LogTransfer.Client
