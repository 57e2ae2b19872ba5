import LogTransfer.Download
import LogTransfer.ResultSize
import Mathlib.Data.List.Induction

/-!
# No result is too large for the protocol

The statistics refuse a new hour at their limit, whatever lines they are
given, and a counter that overflows starts again at 0. A result file is
therefore below the limit of the client in every state, and each offset into
it can be asked for.
-/

set_option autoImplicit false

namespace LogTransfer

section Counters

variable [Doubles]

namespace StatsCollector

/-- The counters as `u64` variables hold them. -/
def wrapped (s : StatsCollector) : StatsCollector :=
  { s with
    buckets := fun m => (s.buckets m).map fun e => (e.1, e.2 % 2 ^ 64),
    validSpdSamples := s.validSpdSamples % 2 ^ 64,
    excludedSpdSamples := s.excludedSpdSamples % 2 ^ 64,
    missingSpdSamples := s.missingSpdSamples % 2 ^ 64 }

/-- The collector after some calls of `record`, each modulo the range of its
counters. -/
def recorded (ls : List ParsedLine) : StatsCollector :=
  ls.foldl (fun s l => (s.record l).1.wrapped) reset

end StatsCollector

theorem wrapped_within {s : StatsCollector} (h : s.totalEntries ≤ kMaxStatsEntries) :
    s.wrapped.Within (2 ^ 64 - 1) := by
  have hwrap (n : ℕ) : n % 2 ^ 64 ≤ 2 ^ 64 - 1 := by omega
  refine ⟨?_, ?_, hwrap _, hwrap _, hwrap _⟩
  · simpa [StatsCollector.wrapped, StatsCollector.totalEntries, moduleIds] using h
  · intro m e he
    obtain ⟨e', -, rfl⟩ := List.mem_map.mp he
    exact hwrap e'.2

theorem reset_within (n : ℕ) : StatsCollector.reset.Within n := by
  refine ⟨?_, ?_, Nat.zero_le n, Nat.zero_le n, Nat.zero_le n⟩
  · simp [StatsCollector.reset, StatsCollector.totalEntries, moduleIds]
  · intro m e he
    cases he

theorem recorded_within (ls : List ParsedLine) :
    (StatsCollector.recorded ls).Within (2 ^ 64 - 1) := by
  induction ls using List.reverseRecOn with
  | nil => exact reset_within _
  | append_singleton ls l ih =>
    rw [StatsCollector.recorded, List.foldl_append, List.foldl_cons, List.foldl_nil]
    exact wrapped_within (record_within l ih).entries

omit [Doubles] in
theorem counts64_within {r : SkipReporter} (h : r.Counts64) : r.Within (2 ^ 64 - 1) :=
  ⟨Nat.le_pred_of_lt h.total, fun c => Nat.le_pred_of_lt (h.counts c)⟩

end Counters

namespace Client
open Program

section Checks

variable {csv : Bytes}

/-- The size check of `beginCsvReceive` passes. -/
theorem beginCsvReceive_admits (hmax : csv.length ≤ kMaxCsvSize) (s : Service) (crc : Crc)
    (resuming : Bool) (hs : resuming = true → s.csv.length ≤ csv.length) :
    s.beginCsvReceive { csvSize := csv.length, crc32 := crc } resuming = (do
      act (.note (.header { csvSize := csv.length, crc32 := crc }))
      let s ← s.receiveCsv { csvSize := csv.length, crc32 := crc } resuming
      pure (s, true)) := by
  have hsmaller : ¬ (resuming && decide (csv.length < s.csv.length)) = true := by
    rw [Bool.and_eq_true, decide_eq_true_iff]
    rintro ⟨hr, hlt⟩
    exact absurd (hs hr) (Nat.not_le.mpr hlt)
  unfold Service.beginCsvReceive
  simp only [if_neg (Nat.not_lt.mpr hmax), if_neg hsmaller]

end Checks

section Limit

variable [Doubles]

/-- In every state that lines of any content can bring about, the result is
within the limit, its header passes the client's check, and a request from any
offset into it is decoded. -/
theorem csv_within_limit (ls : List ParsedLine) (reporter : SkipReporter) (totalLines : ℕ)
    (hr : reporter.Counts64) (hn : totalLines < 2 ^ 64)
    (havg : (formatFixed6 (StatsCollector.recorded ls).averageSpeed).length ≤ 27) :
    let csv := buildResultCsv (StatsCollector.recorded ls) reporter totalLines
    csv.length ≤ kMaxCsvSize ∧
      (∃ header, decodeResultHeader (announce csv) = .ok header ∧
        ∀ (s : Service) (resuming : Bool), (resuming = true → s.csv.length ≤ csv.length) →
          s.beginCsvReceive header resuming = (do
            act (.note (.header header))
            let s ← s.receiveCsv header resuming
            pure (s, true))) ∧
      ∀ request : ResultRequest, request.fileSize ≤ kMaxFileSize →
        isValidFilename request.filename = true → request.startOffset ≤ csv.length →
        decodeResultRequest (encodeResultRequest request) = .ok request := by
  intro csv
  have hmax : csv.length ≤ kMaxCsvSize :=
    buildResultCsv_length (recorded_within ls) (counts64_within hr) (Nat.le_pred_of_lt hn)
      (by decide) havg
  have hwire : csv.length < 256 ^ 8 := lt_of_le_of_lt hmax (by decide)
  refine ⟨hmax, ⟨_, decodeResultHeader_encode _ hwire, ?_⟩, ?_⟩
  · intro s resuming hs
    exact beginCsvReceive_admits hmax s _ resuming hs
  · intro request hsize hname hoffset
    exact decodeResultRequest_encode request ⟨hsize, hoffset.trans hmax, hname⟩

/-- A line that the parser would never pass on. -/
def oddLine : ParsedLine :=
  { module := .antennaProfileSpec, year := -1, month := 99, day := 0, hour := 100, hasSpd := true,
    spdInRange := false, spd := Doubles.ofNat 0 }

omit [Doubles] in
theorem odd_line_within_limit :
    letI := wholeDoubles
    let csv := buildResultCsv (StatsCollector.recorded [oddLine]) SkipReporter.reset 1
    csv.length ≤ kMaxCsvSize ∧ ∃ header, decodeResultHeader (announce csv) = .ok header := by
  let _ := wholeDoubles
  have hr : SkipReporter.reset.Counts64 := ⟨by decide, fun c => by cases c <;> decide⟩
  intro csv
  obtain ⟨hmax, ⟨header, hheader, -⟩, -⟩ :=
    csv_within_limit [oddLine] SkipReporter.reset 1 hr (by decide) (by decide)
  exact ⟨hmax, header, hheader⟩

end Limit

end Client

end LogTransfer
