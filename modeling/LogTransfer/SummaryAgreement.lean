import LogTransfer.ByteOrder
import LogTransfer.DamagedLines
import LogTransfer.ResultReading

/-!
# Server file and client summary agree

The client finds the metric block behind any number of bucket rows, and reads
from it the total, the skipped lines and every reason with its count. The
warning is empty exactly when no line was skipped.
-/

set_option autoImplicit false

namespace LogTransfer

section Reporter

/-- The reporter after some calls of `record`. -/
def SkipReporter.recorded (rs : List (SkipReason × ℕ × Bytes)) : SkipReporter :=
  rs.foldl (fun r e => r.record e.1 e.2.1 e.2.2) SkipReporter.reset

theorem recorded_total (rs : List (SkipReason × ℕ × Bytes)) :
    (SkipReporter.recorded rs).total = rs.length := by
  induction rs using List.reverseRecOn with
  | nil => rfl
  | append_singleton rs e ih =>
    rw [SkipReporter.recorded, List.foldl_append, List.foldl_cons, List.foldl_nil,
      Pipeline.record_total, List.length_append, List.length_singleton]
    exact congrArg (· + 1) ih

theorem mem_reasonRows (r : SkipReporter) (code : Bytes) (count : ℕ) :
    (code, count) ∈ reasonRows r ↔
      ∃ c, code = skipReasonCode c ∧ count = r.counts c ∧ 0 < count := by
  rw [(reasonRows_perm r).mem_iff, List.mem_map]
  constructor
  · rintro ⟨c, hc, heq⟩
    cases heq
    rw [List.mem_filter, decide_eq_true_iff] at hc
    exact ⟨c, rfl, rfl, hc.2⟩
  · rintro ⟨c, rfl, rfl, hpos⟩
    exact ⟨c, List.mem_filter.mpr ⟨mem_skipReasons c, decide_eq_true hpos⟩, rfl⟩

theorem reasonRows_nodup (r : SkipReporter) : ((reasonRows r).map Prod.fst).Nodup := by
  have hcodes : (skipReasons.map skipReasonCode).Nodup := by decide
  rw [((reasonRows_perm r).map Prod.fst).nodup_iff, List.map_map]
  exact (List.filter_sublist.map skipReasonCode).nodup hcodes

end Reporter

namespace Client

section Order

/-- The order of the reasons on the screen. -/
def Rank (a b : Bytes × ℕ) : Prop := a.2 > b.2 ∨ a.2 = b.2 ∧ ByteOrder a.1 b.1

theorem reasonBefore_iff (a b : Bytes × ℕ) : reasonBefore a b = true ↔ a = b ∨ Rank a b := by
  obtain ⟨x, i⟩ := a
  obtain ⟨y, j⟩ := b
  unfold reasonBefore Rank ByteOrder
  dsimp only
  by_cases hij : i = j
  · subst hij
    rcases lexLt_trichotomy x y with h | rfl | h
    · have hne : ¬ lexLt y x = true := fun h' => lexLt_irrefl x (lexLt_trans h h')
      simp [h, hne]
    · simp [lexLt_irrefl]
    · have hne : ¬ lexLt x y = true := fun h' => lexLt_irrefl x (lexLt_trans h' h)
      have hxy : x ≠ y := by
        rintro rfl
        exact lexLt_irrefl x h
      simp [h, hne, hxy]
  · simp [hij]

theorem rank_trans {a b c : Bytes × ℕ} (hab : Rank a b) (hbc : Rank b c) : Rank a c := by
  rcases hab with hab | ⟨hab, hxy⟩
  · rcases hbc with hbc | ⟨hbc, -⟩
    · exact .inl (lt_trans hbc hab)
    · exact .inl (hbc ▸ hab)
  · rcases hbc with hbc | ⟨hbc, hyz⟩
    · exact .inl (hab.symm ▸ hbc)
    · exact .inr ⟨hab.trans hbc, lexLt_trans hxy hyz⟩

theorem reasonBefore_trans (a b c : Bytes × ℕ) (hab : reasonBefore a b = true)
    (hbc : reasonBefore b c = true) : reasonBefore a c = true := by
  rw [reasonBefore_iff] at hab hbc ⊢
  rcases hab with rfl | hab
  · exact hbc
  · rcases hbc with rfl | hbc
    · exact .inr hab
    · exact .inr (rank_trans hab hbc)

theorem reasonBefore_total (a b : Bytes × ℕ) : (reasonBefore a b || reasonBefore b a) = true := by
  rw [Bool.or_eq_true, reasonBefore_iff, reasonBefore_iff]
  rcases lt_trichotomy a.2 b.2 with h | h | h
  · exact .inr (.inr (.inl h))
  · rcases lexLt_trichotomy a.1 b.1 with h' | h' | h'
    · exact .inl (.inr (.inr ⟨h, h'⟩))
    · exact .inl (.inl (Prod.ext h' h))
    · exact .inr (.inr (.inr ⟨h.symm, h'⟩))
  · exact .inl (.inr (.inl h))

/-- Sorting reasons of different codes leaves them strictly ranked. -/
theorem mergeSort_ranked (rows : List (Bytes × ℕ)) (hnodup : (rows.map Prod.fst).Nodup) :
    (rows.mergeSort reasonBefore).Pairwise Rank := by
  have hsorted := List.pairwise_mergeSort reasonBefore_trans reasonBefore_total rows
  have hcodes : ((rows.mergeSort reasonBefore).map Prod.fst).Nodup :=
    ((List.mergeSort_perm rows reasonBefore).map Prod.fst).nodup_iff.mpr hnodup
  rw [List.nodup_iff_pairwise_ne, List.pairwise_map] at hcodes
  refine (hsorted.and hcodes).imp ?_
  rintro a b ⟨hab, hne⟩
  rcases (reasonBefore_iff a b).mp hab with rfl | hrank
  · exact absurd rfl hne
  · exact hrank

end Order

section Scanning

theorem scanLines_skip (s : Scan) (ls rest : List Bytes)
    (h : ∀ l ∈ ls, trim l ≠ kMetricHeader) :
    scanLines s false (ls ++ rest) = scanLines s false rest := by
  induction ls with
  | nil => rfl
  | cons l ls ih =>
    obtain ⟨hl, hls⟩ := List.forall_mem_cons.mp h
    rw [List.cons_append, scanLines]
    simp only [Bool.not_false, if_true, hl, decide_false]
    exact ih hls

/-- Rows without blanks are read one after the other, up to the empty line. -/
theorem scanLines_rows (s : Scan) (rows : List Bytes)
    (h : ∀ l ∈ rows, Graphic l ∧ l ≠ []) :
    scanLines s true (rows ++ [[]]) = rows.foldl scanRow s := by
  induction rows generalizing s with
  | nil => rfl
  | cons l rows ih =>
    obtain ⟨⟨hl, hne⟩, hrows⟩ := List.forall_mem_cons.mp h
    have hempty : l.isEmpty = false := by simpa using hne
    rw [List.cons_append, scanLines, trim_graphic hl]
    simp only [Bool.not_true, hempty]
    exact ih (scanRow s l) hrows

theorem trim_bucketLine (row : ModuleId × HourKey × ℕ) : trim (bucketLine row) ≠ kMetricHeader := by
  obtain ⟨m, rest⟩ := row
  have hname : ∃ b, (moduleName m).head? = some b ∧ isBlank b = false ∧ b ≠ ch 'm' := by
    cases m with
    | radarTrackNodeState => exact ⟨ch 'R', by decide⟩
    | antennaProfileSpec => exact ⟨ch 'A', by decide⟩
    | beamSteerCtrlUnitImpl => exact ⟨ch 'B', by decide⟩
    | detectionTaskRunner => exact ⟨ch 'D', by decide⟩
    | sectorSchedulerRTS => exact ⟨ch 'S', by decide⟩
  obtain ⟨b, hhead, hblank, hb⟩ := hname
  apply trim_ne_header _ hblank hb
  rw [bucketLine, List.append_assoc, List.append_assoc, List.append_assoc, List.head?_append, hhead]
  rfl

variable [Doubles]

omit [Doubles] in
theorem scan_reasons (s : Scan) (rows : List (Bytes × ℕ))
    (h : ∀ row ∈ rows, (∃ c, row.1 = skipReasonCode c) ∧ row.2 < 2 ^ 64) :
    (rows.map reasonLine).foldl scanRow s =
      { s with summary := { s.summary with reasons := s.summary.reasons ++ rows } } := by
  induction rows generalizing s with
  | nil => simp
  | cons row rows ih =>
    obtain ⟨code, count⟩ := row
    obtain ⟨⟨⟨c, hc⟩, hcount⟩, hrows⟩ := List.forall_mem_cons.mp h
    dsimp only at hc
    subst hc
    rw [List.map_cons, List.foldl_cons, scanRow_reason s c hcount, ih _ hrows]
    simp

/-- What the reader has after the last row. -/
theorem scan_result (stats : StatsCollector) (reporter : SkipReporter) (n : ℕ) (hn : n < 2 ^ 64)
    (hr : reporter.Counts64) (s : Scan) :
    scanLines s false ((buildResultCsv stats reporter n).splitOn newline) =
      { summary :=
          { totalLines := n, hasTotal := true, skippedLines := reporter.total,
            reasons := s.summary.reasons ++ reasonRows reporter },
        haveSkipped := true } := by
  have hbefore : ∀ l ∈ bytesOf "module,hour,count" :: stats.bucketRows.map bucketLine ++ [[]],
      trim l ≠ kMetricHeader := by
    intro l hl
    simp only [List.mem_append, List.mem_cons, List.not_mem_nil, or_false] at hl
    rcases hl with (rfl | hl) | rfl
    · decide
    · obtain ⟨row, -, rfl⟩ := List.mem_map.mp hl
      exact trim_bucketLine row
    · decide
  have hheader : trim (bytesOf "metric,value") = kMetricHeader := by decide
  have hrows : ∀ row ∈ reasonRows reporter, (∃ c, row.1 = skipReasonCode c) ∧ row.2 < 2 ^ 64 := by
    rintro ⟨code, count⟩ hrow
    obtain ⟨c, rfl, rfl, -⟩ := (mem_reasonRows reporter code count).mp hrow
    exact ⟨⟨c, rfl⟩, hr.counts c⟩
  have hlines : resultLines stats reporter n ++ [[]] =
      (bytesOf "module,hour,count" :: stats.bucketRows.map bucketLine ++ [[]]) ++
        bytesOf "metric,value" :: (metricLines stats reporter n ++ [[]]) := by
    simp [resultLines]
  rw [csv_splitOn, hlines, scanLines_skip s _ _ hbefore, scanLines, hheader]
  simp only [Bool.not_false, if_true, decide_true]
  rw [scanLines_rows s _ (metricLines_graphic stats reporter n), metricLines, List.foldl_append]
  simp only [List.foldl_cons, List.foldl_nil]
  rw [scanRow_total s hn, scanRow_other _ _ "avg_speed" (by simp),
    scanRow_other _ _ "valid_spd_samples" (by simp),
    scanRow_other _ _ "excluded_spd_samples" (by simp),
    scanRow_other _ _ "missing_spd_samples" (by simp), scanRow_skipped _ hr.total,
    scan_reasons _ _ hrows]

end Scanning

section Agreement

theorem formatSkipWarning_nil (s : ResultSummary) :
    formatSkipWarning s = [] ↔ s.skippedLines = 0 := by
  unfold formatSkipWarning
  by_cases h : s.skippedLines = 0
  · simp [h]
  · rw [if_neg h]
    dsimp only
    split <;> simp [h, decimal_ne_nil]

variable [Doubles]

theorem summarize_result (stats : StatsCollector) (reporter : SkipReporter) (n : ℕ)
    (hn : n < 2 ^ 64) (hr : reporter.Counts64) :
    summarizeResultCsv (buildResultCsv stats reporter n) =
      { totalLines := n, hasTotal := true, skippedLines := reporter.total,
        reasons := (reasonRows reporter).mergeSort reasonBefore } := by
  unfold summarizeResultCsv
  dsimp only
  rw [scan_result stats reporter n hn hr]
  simp

/-- The summary of the server's file says what the server counted, whatever
the statistics and the skip report are. -/
theorem summary_agrees (stats : StatsCollector) (reporter : SkipReporter) (n : ℕ)
    (hn : n < 2 ^ 64) (hr : reporter.Counts64) :
    let s := summarizeResultCsv (buildResultCsv stats reporter n)
    s.hasTotal = true ∧ s.totalLines = n ∧ s.skippedLines = reporter.total ∧
      (∀ code count, (code, count) ∈ s.reasons ↔
        ∃ c, code = skipReasonCode c ∧ count = reporter.counts c ∧ 0 < count) ∧
      s.reasons.Pairwise Rank ∧
      (formatSkipWarning s = [] ↔ reporter.total = 0) ∧
      ∀ rs, reporter = SkipReporter.recorded rs → (formatSkipWarning s = [] ↔ rs = []) := by
  intro s
  have hs : s = { totalLines := n, hasTotal := true, skippedLines := reporter.total,
                  reasons := (reasonRows reporter).mergeSort reasonBefore } :=
    summarize_result stats reporter n hn hr
  have hwarning : formatSkipWarning s = [] ↔ reporter.total = 0 := by
    rw [formatSkipWarning_nil, hs]
  rw [hwarning, hs]
  refine ⟨rfl, rfl, rfl, ?_, mergeSort_ranked _ (reasonRows_nodup reporter), Iff.rfl, ?_⟩
  · intro code count
    rw [List.mem_mergeSort]
    exact mem_reasonRows reporter code count
  · rintro rs rfl
    rw [recorded_total, List.length_eq_zero_iff]

/-- Three skipped lines of five. -/
def threeSkipped : List (SkipReason × ℕ × Bytes) :=
  [(.empty, 0, []), (.badFrame, 1, bytesOf "x"), (.badFrame, 3, bytesOf "y")]

omit [Doubles] in
theorem three_skipped_summary :
    letI := wholeDoubles
    let s := summarizeResultCsv
      (buildResultCsv StatsCollector.reset (SkipReporter.recorded threeSkipped) 5)
    s.totalLines = 5 ∧ s.skippedLines = 3 ∧ formatSkipWarning s ≠ [] := by
  let _ := wholeDoubles
  have hr : (SkipReporter.recorded threeSkipped).Counts64 := by
    refine ⟨by decide, ?_⟩
    intro c
    cases c <;> decide
  intro s
  obtain ⟨-, htotal, hskipped, -, -, -, hempty⟩ :=
    summary_agrees StatsCollector.reset (SkipReporter.recorded threeSkipped) 5 (by decide) hr
  have hthree : (SkipReporter.recorded threeSkipped).total = 3 := by rw [recorded_total]; rfl
  have hne : threeSkipped ≠ [] := by decide
  refine ⟨htotal, hskipped.trans hthree, ?_⟩
  exact fun h => hne ((hempty threeSkipped rfl).mp h)

end Agreement

end Client

end LogTransfer
