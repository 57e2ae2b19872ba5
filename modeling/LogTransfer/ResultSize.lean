import LogTransfer.Analysis
import LogTransfer.Codec
import LogTransfer.CountMap
import Mathlib.Data.Nat.Digits.Defs

/-!
# How large a result can be

The statistics hold at most `kMaxStatsEntries` rows, and every number in a
result counts lines, of which a payload has at most one more than bytes. A
result of any payload the protocol admits is therefore below the limit that
the client checks. The speed is printed through an unsigned 64-bit integer.
-/

set_option autoImplicit false

namespace LogTransfer

/-- The conversion of a double to an unsigned 64-bit integer has its range. -/
def Doubles.Truncates (d : Doubles) : Prop := ∀ v, d.truncate v < 2 ^ 64

section Numbers

theorem decimal_length (n : ℕ) (h : n < 10 ^ 20) : (decimal n).length ≤ 20 := by
  rw [decimal, List.length_map]
  exact Nat.toDigits_length 10 n 20 (by decide) h

theorem putDigits_length (count value : ℕ) : (putDigits count value).length = count := by
  induction count generalizing value with
  | zero => rfl
  | succ count ih => simp [putDigits, ih]

theorem putInt_length (count : ℕ) (value : ℤ) : (putInt count value).length = count := by
  induction count generalizing value with
  | zero => rfl
  | succ count ih => simp [putInt, ih]

theorem formatHourKey_length (key : HourKey) : (formatHourKey key).length = 13 := by
  simp [formatHourKey, putInt_length]

theorem moduleName_length (m : ModuleId) : (moduleName m).length ≤ 21 := by
  cases m <;> decide

theorem skipReasonCode_length (c : SkipReason) : (skipReasonCode c).length ≤ 16 := by
  cases c <;> decide

end Numbers

section Maps

variable {K : Type} {n : ℕ}

theorem bumpKey_counts [DecidableEq K] (key : K) (m : List (K × ℕ)) (h : ∀ e ∈ m, e.2 ≤ n) :
    ∀ e ∈ bumpKey key m, e.2 ≤ n + 1 := by
  induction m with
  | nil => exact fun e he => by cases he
  | cons d rest ih =>
    obtain ⟨hd, hrest⟩ := List.forall_mem_cons.mp h
    unfold bumpKey
    split
    · exact List.forall_mem_cons.mpr ⟨Nat.succ_le_succ hd, fun e he => (hrest e he).trans n.le_succ⟩
    · exact List.forall_mem_cons.mpr ⟨hd.trans n.le_succ, ih hrest⟩

theorem insertKey_counts (lt : K → K → Bool) (key : K) (m : List (K × ℕ))
    (h : ∀ e ∈ m, e.2 ≤ n) : ∀ e ∈ insertKey lt key m, e.2 ≤ n + 1 := by
  induction m with
  | nil => simp [insertKey]
  | cons d rest ih =>
    obtain ⟨hd, hrest⟩ := List.forall_mem_cons.mp h
    unfold insertKey
    split
    · refine List.forall_mem_cons.mpr ⟨Nat.le_add_left 1 n, fun e he => ?_⟩
      exact (h e he).trans n.le_succ
    · exact List.forall_mem_cons.mpr ⟨hd.trans n.le_succ, ih hrest⟩

end Maps

variable [Doubles]

section Tallies

/-- Every count is at most `n`, and there is a bounded number of rows. -/
structure StatsCollector.Within (n : ℕ) (s : StatsCollector) : Prop where
  entries : s.totalEntries ≤ kMaxStatsEntries
  counts : ∀ m, ∀ e ∈ s.buckets m, e.2 ≤ n
  samples : s.validSpdSamples ≤ n ∧ s.excludedSpdSamples ≤ n ∧ s.missingSpdSamples ≤ n

structure SkipReporter.Within (n : ℕ) (r : SkipReporter) : Prop where
  total : r.total ≤ n
  counts : ∀ c, r.counts c ≤ n

/-- The counters are in the range of `u64`. -/
structure SkipReporter.Counts64 (r : SkipReporter) : Prop where
  total : r.total < 2 ^ 64
  counts : ∀ c, r.counts c < 2 ^ 64

variable {n : ℕ}

theorem totalEntries_update (s : StatsCollector) (m : ModuleId) (b : List (HourKey × ℕ)) :
    StatsCollector.totalEntries { s with buckets := Function.update s.buckets m b } +
      (s.buckets m).length = s.totalEntries + b.length := by
  cases m <;> simp [StatsCollector.totalEntries, moduleIds, Function.update] <;> omega

theorem sample_within {s : StatsCollector} (line : ParsedLine)
    (he : s.totalEntries ≤ kMaxStatsEntries) (hc : ∀ m, ∀ e ∈ s.buckets m, e.2 ≤ n + 1)
    (hs : s.validSpdSamples ≤ n ∧ s.excludedSpdSamples ≤ n ∧ s.missingSpdSamples ≤ n) :
    (s.sample line).Within (n + 1) := by
  obtain ⟨hv, hx, hm⟩ := hs
  unfold StatsCollector.sample
  split
  · split
    · exact ⟨he, hc, Nat.succ_le_succ hv, hx.trans n.le_succ, hm.trans n.le_succ⟩
    · exact ⟨he, hc, hv.trans n.le_succ, Nat.succ_le_succ hx, hm.trans n.le_succ⟩
  · split
    · exact ⟨he, hc, hv.trans n.le_succ, hx.trans n.le_succ, Nat.succ_le_succ hm⟩
    · exact ⟨he, hc, hv.trans n.le_succ, hx.trans n.le_succ, hm.trans n.le_succ⟩

theorem update_counts {s : StatsCollector} (m : ModuleId) (b : List (HourKey × ℕ))
    (h : ∀ m, ∀ e ∈ s.buckets m, e.2 ≤ n) (hb : ∀ e ∈ b, e.2 ≤ n + 1) :
    ∀ m', ∀ e ∈ Function.update s.buckets m b m', e.2 ≤ n + 1 := by
  intro m' e he
  by_cases hm : m' = m
  · subst hm
    rw [Function.update_self] at he
    exact hb e he
  · rw [Function.update_of_ne hm] at he
    exact (h m' e he).trans n.le_succ

theorem record_within {s : StatsCollector} (line : ParsedLine) (h : s.Within n) :
    (s.record line).1.Within (n + 1) := by
  unfold StatsCollector.record
  dsimp only
  split
  · refine sample_within line ?_ (update_counts _ _ h.counts ?_) h.samples
    · have := totalEntries_update s line.module
        (bumpKey (makeHourKey line.year line.month line.day line.hour) (s.buckets line.module))
      rw [bumpKey_length] at this
      have := h.entries
      omega
    · exact bumpKey_counts _ _ (h.counts _)
  · split
    · obtain ⟨h1, h2, h3⟩ := h.samples
      exact ⟨h.entries, fun m e he => (h.counts m e he).trans n.le_succ, h1.trans n.le_succ,
        h2.trans n.le_succ, h3.trans n.le_succ⟩
    · rename_i hfew
      refine sample_within line ?_ (update_counts _ _ h.counts ?_) h.samples
      · have := totalEntries_update s line.module (insertKey (fun a b => decide (a < b))
          (makeHourKey line.year line.month line.day line.hour) (s.buckets line.module))
        rw [insertKey_length] at this
        omega
      · exact insertKey_counts _ _ _ (h.counts _)

omit [Doubles] in
theorem reported_within {r : SkipReporter} (reason : SkipReason) (offset : ℕ) (text : Bytes)
    (h : r.Within n) : (r.record reason offset text).Within (n + 1) := by
  obtain ⟨htotal, hcounts⟩ := r.record_counters reason offset text
  refine ⟨htotal ▸ Nat.succ_le_succ h.total, ?_⟩
  intro c
  rw [hcounts]
  by_cases hc : c = reason
  · subst hc
    simpa using h.counts c
  · simpa [Function.update_of_ne hc] using (h.counts c).trans n.le_succ

def Pipeline.Within (n : ℕ) (p : Pipeline) : Prop :=
  p.totalLines ≤ n ∧ p.stats.Within n ∧ p.reporter.Within n

omit [Doubles] in
theorem reporter_mono {m : ℕ} {r : SkipReporter} (hm : n ≤ m) (h : r.Within n) : r.Within m :=
  ⟨h.total.trans hm, fun c => (h.counts c).trans hm⟩

theorem stats_mono {m : ℕ} {s : StatsCollector} (hm : n ≤ m) (h : s.Within n) : s.Within m :=
  ⟨h.entries, fun k e he => (h.counts k e he).trans hm, h.samples.1.trans hm,
    h.samples.2.1.trans hm, h.samples.2.2.trans hm⟩

theorem line_within {p : Pipeline} (l : Line) (h : p.Within n) : (p.line l).Within (n + 1) := by
  obtain ⟨ht, hs, hr⟩ := h
  have ht' := Nat.succ_le_succ ht
  unfold Pipeline.line
  dsimp only
  split
  · exact ⟨ht', stats_mono n.le_succ hs, reported_within _ _ _ hr⟩
  · split
    · exact ⟨ht', record_within _ hs, reporter_mono n.le_succ hr⟩
    · exact ⟨ht', record_within _ hs, reported_within _ _ _ hr⟩

theorem lines_within {p : Pipeline} (ls : List Line) (h : p.Within n) :
    (p.lines ls).Within (n + ls.length) := by
  induction ls generalizing p n with
  | nil => exact h
  | cons l ls ih =>
    have := ih (line_within l h)
    rwa [List.length_cons, Nat.add_comm ls.length 1, ← Nat.add_assoc]

end Tallies

section Lines

omit [Doubles] in
theorem eat_lines (maxLen : ℕ) (r : LineReassembler) (b : Byte) :
    (r.eat maxLen b).2.length ≤ 1 := by
  unfold LineReassembler.eat
  split
  · split <;> simp
  · split
    · simp
    · split <;> simp

omit [Doubles] in
theorem eatAll_lines (maxLen : ℕ) (r : LineReassembler) (bs : Bytes) :
    (r.eatAll maxLen bs).2.length ≤ bs.length := by
  induction bs generalizing r with
  | nil => simp [LineReassembler.eatAll]
  | cons b bs ih =>
    have h1 := eat_lines maxLen r b
    have h2 := ih (r.eat maxLen b).1
    simp only [LineReassembler.eatAll, List.length_append, List.length_cons]
    omega

omit [Doubles] in
theorem finish_lines (r : LineReassembler) : r.finish.2.length ≤ 1 := by
  unfold LineReassembler.finish
  split
  · simp
  · simp

theorem analyzed_within (payload : Bytes) :
    (Pipeline.after payload).finish.Within (payload.length + 1) := by
  have hreset : Pipeline.reset.Within 0 := by
    refine ⟨le_refl _, ⟨?_, fun _ _ he => ?_, le_refl _, le_refl _, le_refl _⟩, le_refl _,
      fun _ => le_refl _⟩
    · simp [Pipeline.reset, StatsCollector.reset, StatsCollector.totalEntries, moduleIds]
    · simp [Pipeline.reset, StatsCollector.reset] at he
  have hfed : (Pipeline.after payload).Within payload.length := by
    have hb := LineReassembler.feed_eq_eatAll kMaxLineLength Pipeline.reset.reassembler payload
      Pipeline.bounded_reset
    unfold Pipeline.after Pipeline.feed
    rw [hb]
    have := eatAll_lines kMaxLineLength Pipeline.reset.reassembler payload
    obtain ⟨h1, h2, h3⟩ := lines_within (p := { Pipeline.reset with
      reassembler := (Pipeline.reset.reassembler.eatAll kMaxLineLength payload).1 })
      (Pipeline.reset.reassembler.eatAll kMaxLineLength payload).2 hreset
    rw [Nat.zero_add] at h1 h2 h3
    exact ⟨h1.trans this, stats_mono this h2, reporter_mono this h3⟩
  have := finish_lines (Pipeline.after payload).reassembler
  obtain ⟨h1, h2, h3⟩ := lines_within (p := { Pipeline.after payload with
    reassembler := (Pipeline.after payload).reassembler.finish.1 })
    (Pipeline.after payload).reassembler.finish.2 hfed
  exact ⟨h1.trans (by omega), stats_mono (by omega) h2, reporter_mono (by omega) h3⟩

end Lines

section Csv

variable {n : ℕ}

theorem bucketRows_length (s : StatsCollector) : s.bucketRows.length = s.totalEntries := by
  have hperm : StatsCollector.moduleOrder.Perm moduleIds := List.perm_insertionSort _ _
  have hrows := (hperm.flatMap_right fun m => (s.buckets m).map fun e => (m, e.1, e.2)).length_eq
  rw [StatsCollector.bucketRows, hrows]
  simp [StatsCollector.totalEntries, moduleIds]
  omega

omit [Doubles] in
theorem flatMap_length_le {α : Type} (f : α → Bytes) (k : ℕ) (l : List α)
    (h : ∀ a ∈ l, (f a).length ≤ k) : (l.flatMap f).length ≤ l.length * k := by
  induction l with
  | nil => simp
  | cons a l ih =>
    obtain ⟨ha, hl⟩ := List.forall_mem_cons.mp h
    have := ih hl
    simp only [List.flatMap_cons, List.length_append, List.length_cons, Nat.succ_mul]
    omega

theorem bucketRows_size {s : StatsCollector} (h : s.Within n) (hn : n < 10 ^ 20) :
    (s.bucketRows.flatMap bucketRow).length ≤ kMaxStatsEntries * 57 := by
  have hrow : ∀ row ∈ s.bucketRows, (bucketRow row).length ≤ 57 := by
    intro row hr
    obtain ⟨m, -, hm⟩ := List.mem_flatMap.mp hr
    obtain ⟨e, he, rfl⟩ := List.mem_map.mp hm
    have h1 := moduleName_length m
    have h2 := decimal_length e.2 (lt_of_le_of_lt (h.counts m e he) hn)
    simp only [bucketRow, List.length_append, List.length_singleton, formatHourKey_length]
    omega
  have hlen := flatMap_length_le bucketRow 57 s.bucketRows hrow
  have he := h.entries
  rw [← bucketRows_length] at he
  exact hlen.trans (Nat.mul_le_mul_right 57 he)

omit [Doubles] in
theorem reasonRows_perm (r : SkipReporter) :
    (reasonRows r).Perm ((skipReasons.filter fun c => r.counts c > 0).map fun c =>
      (skipReasonCode c, r.counts c)) := List.perm_insertionSort _ _

omit [Doubles] in
theorem reasonRows_size {r : SkipReporter} (h : r.Within n) (hn : n < 10 ^ 20) :
    ((reasonRows r).flatMap reasonRow).length ≤ 11 * 50 := by
  have hperm := reasonRows_perm r
  have hcount : (reasonRows r).length ≤ 11 := by
    rw [hperm.length_eq, List.length_map]
    exact (List.length_filter_le _ _).trans (by decide)
  have hrow : ∀ row ∈ reasonRows r, (reasonRow row).length ≤ 50 := by
    intro row hr
    obtain ⟨c, -, rfl⟩ := List.mem_map.mp (hperm.mem_iff.mp hr)
    have h1 := skipReasonCode_length c
    have h2 := decimal_length (r.counts c) (lt_of_le_of_lt (h.counts c) hn)
    have h3 : (bytesOf "skip_reason_").length = 12 := by decide
    simp only [reasonRow, List.length_append, List.length_singleton, h3]
    omega
  exact (flatMap_length_le reasonRow 50 _ hrow).trans (Nat.mul_le_mul_right 50 hcount)

theorem formatFixed6_length (ht : Doubles.Truncates inferInstance) (v : Doubles.Val) :
    (formatFixed6 v).length ≤ 27 := by
  unfold formatFixed6
  split
  · decide
  · have hw := ht v
    dsimp only
    generalize Doubles.truncate v = whole at hw ⊢
    have hd : (decimal (whole + 1)).length ≤ 20 ∧ (decimal whole).length ≤ 20 :=
      ⟨decimal_length _ (by omega), decimal_length _ (by omega)⟩
    simp only [List.length_append, List.length_singleton, putDigits_length]
    split <;> omega

omit [Doubles] in
theorem metricRow_length (name : String) (value : Bytes) (k : ℕ)
    (hn : (bytesOf name).length ≤ 20) (hv : value.length ≤ k) :
    (metricRow name value).length ≤ k + 22 := by
  simp only [metricRow, List.length_append, List.length_singleton]
  omega

/-- With the statistics below their limit and every number of at most twenty
digits, the limit of the client is out of reach. -/
theorem buildResultCsv_length {stats : StatsCollector} {reporter : SkipReporter} {totalLines : ℕ}
    (hs : stats.Within n) (hr : reporter.Within n) (hl : totalLines ≤ n) (hn : n < 10 ^ 20)
    (havg : (formatFixed6 stats.averageSpeed).length ≤ 27) :
    (buildResultCsv stats reporter totalLines).length ≤ kMaxCsvSize := by
  have hd (k : ℕ) (hk : k ≤ n) : (decimal k).length ≤ 20 :=
    decimal_length k (lt_of_le_of_lt hk hn)
  have h1 := bucketRows_size hs hn
  have h2 := reasonRows_size hr hn
  have h3 := metricRow_length "total_lines" _ 20 (by decide) (hd _ hl)
  have h4 := metricRow_length "avg_speed" _ 27 (by decide) havg
  have h5 := metricRow_length "valid_spd_samples" _ 20 (by decide) (hd _ hs.samples.1)
  have h6 := metricRow_length "excluded_spd_samples" _ 20 (by decide) (hd _ hs.samples.2.1)
  have h7 := metricRow_length "missing_spd_samples" _ 20 (by decide) (hd _ hs.samples.2.2)
  have h8 := metricRow_length "skipped_lines" _ 20 (by decide) (hd _ hr.total)
  have h9 : (bytesOf "module,hour,count\n").length = 18 := by decide
  have h10 : (bytesOf "metric,value\n").length = 13 := by decide
  have hrows : kMaxStatsEntries * 57 = 570000 := rfl
  have hmax : kMaxCsvSize = 4194304 := rfl
  simp only [buildResultCsv, List.length_append, List.length_singleton]
  omega

/-- The limit of the client leaves room for every result of the server. -/
theorem csv_size (ht : Doubles.Truncates inferInstance) (payload : Bytes)
    (hp : payload.length ≤ kMaxFileSize) : (analyze payload).csv.length ≤ kMaxCsvSize := by
  obtain ⟨hl, hs, hr⟩ := analyzed_within payload
  have hn : payload.length + 1 < 10 ^ 20 := by
    have : kMaxFileSize = 8589934592 := rfl
    omega
  exact buildResultCsv_length hs hr hl hn (formatFixed6_length ht _)

theorem csv_ne_nil (payload : Bytes) : (analyze payload).csv ≠ [] := by
  have h : bytesOf "module,hour,count\n" ≠ [] := by decide
  simp [analyze, Pipeline.result, buildResultCsv, h]

end Csv

end LogTransfer
