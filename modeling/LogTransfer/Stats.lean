import LogTransfer.LogLineParser
import Mathlib.Logic.Function.Basic
import Mathlib.Algebra.Group.Int.Defs
import Mathlib.Data.List.Sort

/-!
# Statistics, skip report and result file

The ordered maps of the source are association lists kept in key order, one
per module for the hour buckets and one for the unknown module names. The two
files of a session are built as byte strings; writing them is the parser
thread's business.
-/

set_option autoImplicit false

namespace LogTransfer

def decimal (n : ℕ) : Bytes := (Nat.toDigits 10 n).map ch

def lexLt : Bytes → Bytes → Bool
  | _, [] => false
  | [], _::_ => true
  | a::as, b::bs => if a = b then lexLt as bs else a.toNat < b.toNat

section OrderedMap

variable {K : Type} [DecidableEq K]

def insertKey (lt : K → K → Bool) (key : K) : List (K × ℕ) → List (K × ℕ)
  | [] => [(key, 1)]
  | (k, n)::rest => if lt key k then (key, 1)::(k, n)::rest else (k, n)::insertKey lt key rest

def bumpKey (key : K) : List (K × ℕ) → List (K × ℕ)
  | [] => []
  | (k, n)::rest => if k = key then (k, n + 1)::rest else (k, n)::bumpKey key rest

def hasKey (key : K) (m : List (K × ℕ)) : Bool := m.any fun e => e.1 = key

end OrderedMap

abbrev HourKey : Type := ℕ

def kMaxStatsEntries : ℕ := 10000

-- The sum of four casts to `u64`, each product modulo its range.
def makeHourKey (year month day hour : ℤ) : HourKey :=
  ((year * 1000000 + month * 10000 + day * 100 + hour) % 2 ^ 64).toNat

-- The lowest `count` decimal digits, most significant first.
def putDigits : ℕ → ℕ → Bytes
  | 0, _ => []
  | count+1, value => putDigits count (value / 10) ++ [BitVec.ofNat 8 (0x30 + value % 10)]

/-- `static_cast<int>` of an unsigned value. -/
def toInt (n : ℕ) : ℤ := (BitVec.ofNat 32 n).toInt

-- The loop of `formatHourKey`: an `int` is divided towards zero.
def putInt : ℕ → ℤ → Bytes
  | 0, _ => []
  | count+1, value => putInt count (value.tdiv 10) ++ [BitVec.ofInt 8 (0x30 + value.tmod 10)]

def formatHourKey (key : HourKey) : Bytes :=
  putInt 4 (toInt (key / 1000000)) ++ [ch '-'] ++ putInt 2 (toInt (key / 10000 % 100)) ++
    [ch '-'] ++ putInt 2 (toInt (key / 100 % 100)) ++ [ch ' '] ++ putInt 2 (toInt (key % 100))

structure StatsCollector [Doubles] where
  buckets : ModuleId → List (HourKey × ℕ)
  validSpdSamples : ℕ
  excludedSpdSamples : ℕ
  missingSpdSamples : ℕ
  spdSum : Doubles.Val

namespace StatsCollector

variable [Doubles]

def reset : StatsCollector :=
  { buckets := fun _ => [], validSpdSamples := 0, excludedSpdSamples := 0,
    missingSpdSamples := 0, spdSum := Doubles.ofNat 0 }

def totalEntries (s : StatsCollector) : ℕ :=
  moduleIds.foldl (fun n m => n + (s.buckets m).length) 0

def sample (s : StatsCollector) (line : ParsedLine) : StatsCollector :=
  if line.hasSpd then
    if line.spdInRange then
      { s with spdSum := Doubles.add s.spdSum line.spd,
               validSpdSamples := s.validSpdSamples + 1 }
    else { s with excludedSpdSamples := s.excludedSpdSamples + 1 }
  else if line.module = .beamSteerCtrlUnitImpl then
    { s with missingSpdSamples := s.missingSpdSamples + 1 }
  else s

def record (s : StatsCollector) (line : ParsedLine) : StatsCollector × Bool :=
  let bucket := s.buckets line.module
  let key := makeHourKey line.year line.month line.day line.hour
  if hasKey key bucket then
    let buckets := Function.update s.buckets line.module (bumpKey key bucket)
    (sample { s with buckets := buckets } line, true)
  else if s.totalEntries ≥ kMaxStatsEntries then (s, false)
  else
    let entry := insertKey (fun a b => decide (a < b)) key bucket
    (sample { s with buckets := Function.update s.buckets line.module entry } line, true)

def moduleOrder : List ModuleId :=
  moduleIds.insertionSort fun a b => lexLt (moduleName b) (moduleName a) = false

/-- The rows of `forEachBucket`, in its order. -/
def bucketRows (s : StatsCollector) : List (ModuleId × HourKey × ℕ) :=
  moduleOrder.flatMap fun m => (s.buckets m).map fun e => (m, e.1, e.2)

def averageSpeed (s : StatsCollector) : Doubles.Val :=
  if s.validSpdSamples = 0 then Doubles.ofNat 0
  else Doubles.div s.spdSum (Doubles.ofNat s.validSpdSamples)

end StatsCollector

def kMaxSkipSamples : ℕ := 100
def kMaxSkipSampleBytes : ℕ := 200
def kMaxUnknownModules : ℕ := 50
def kMaxModuleNameBytes : ℕ := 64

structure Sample where
  reason : SkipReason
  offset : ℕ
  text : Bytes
  deriving DecidableEq, Repr

structure SkipReporter where
  counts : SkipReason → ℕ
  unknownModules : List (Bytes × ℕ)
  unlistedUnknownLines : ℕ
  samples : List Sample
  total : ℕ

namespace SkipReporter

def reset : SkipReporter :=
  { counts := fun _ => 0, unknownModules := [], unlistedUnknownLines := 0, samples := [],
    total := 0 }

def hexDigit (n : ℕ) : Byte :=
  if n < 10 then BitVec.ofNat 8 (0x30 + n) else BitVec.ofNat 8 (0x37 + n)

def escapeNonPrintable (text : Bytes) : Bytes :=
  text.flatMap fun b =>
    if b.toNat < 0x20 || b.toNat = 0x7F then
      bytesOf "\\x" ++ [hexDigit (b.toNat / 16), hexDigit (b.toNat % 16)]
    else [b]

/-- The module name of a line whose frame was accepted, cut to the name limit. -/
def unknownName (text : Bytes) : Option Bytes :=
  match find text LogLineParser.kSeparator 0 with
  | none => none
  | some marker =>
    let start := marker + LogLineParser.kSeparator.length
    match find text (bytesOf ": ") start with
    | none => none
    | some colon =>
      if colon = start then none
      else some (escapeNonPrintable (substr text start (min (colon - start) kMaxModuleNameBytes)))

def recordUnknownModule (r : SkipReporter) (text : Bytes) : SkipReporter :=
  match unknownName text with
  | none => { r with unlistedUnknownLines := r.unlistedUnknownLines + 1 }
  | some name =>
    if hasKey name r.unknownModules then
      { r with unknownModules := bumpKey name r.unknownModules }
    else if r.unknownModules.length ≥ kMaxUnknownModules then
      { r with unlistedUnknownLines := r.unlistedUnknownLines + 1 }
    else { r with unknownModules := insertKey lexLt name r.unknownModules }

def addSample (r : SkipReporter) (reason : SkipReason) (offset : ℕ) (text : Bytes) :
    SkipReporter :=
  if r.samples.length < kMaxSkipSamples then
    let escaped := escapeNonPrintable (text.take kMaxSkipSampleBytes)
    { r with samples := r.samples ++ [{ reason := reason, offset := offset, text := escaped }] }
  else r

def record (r : SkipReporter) (reason : SkipReason) (offset : ℕ) (text : Bytes) : SkipReporter :=
  let counted :=
    { r with total := r.total + 1,
             counts := Function.update r.counts reason (r.counts reason + 1) }
  let named := if reason = .unknownModule then recordUnknownModule counted text else counted
  addSample named reason offset text

def unknownOrder (r : SkipReporter) : List (Bytes × ℕ) :=
  r.unknownModules.insertionSort fun a b =>
    if a.2 ≠ b.2 then a.2 > b.2 else lexLt b.1 a.1 = false

def unknownBlock (r : SkipReporter) : Bytes :=
  if r.counts .unknownModule > 0 then
    bytesOf "\n[Unknown module names]\n" ++
      (unknownOrder r).flatMap (fun e => e.1 ++ bytesOf " " ++ decimal e.2 ++ bytesOf "\n") ++
      (if r.unlistedUnknownLines > 0 then
        bytesOf "... " ++ decimal r.unlistedUnknownLines ++
          bytesOf " more skipped lines whose module name is not listed (distinct-name limit " ++
          decimal kMaxUnknownModules ++ bytesOf ")\n"
      else [])
  else []

def sampleRow (s : Sample) : Bytes :=
  bytesOf "[" ++ skipReasonCode s.reason ++ bytesOf "] offset=" ++ decimal s.offset ++
    bytesOf " | " ++ s.text ++ bytesOf "\n"

/-- The text `writeReport` puts into the report file. -/
def report (r : SkipReporter) : Bytes :=
  bytesOf "=== Skip Report ===\n" ++
    bytesOf "Total skipped lines: " ++ decimal r.total ++ bytesOf "\n\n" ++
    bytesOf "[Counts by reason]\n" ++
    skipReasons.flatMap (fun c => skipReasonCode c ++ bytesOf " " ++ decimal (r.counts c) ++
      bytesOf "\n") ++
    unknownBlock r ++
    bytesOf "\n[First " ++ decimal kMaxSkipSamples ++
    bytesOf " skipped lines: reason, byte offset, raw prefix]\n" ++
    r.samples.flatMap sampleRow ++
    (if r.total > r.samples.length then
      bytesOf "... " ++ decimal (r.total - r.samples.length) ++
        bytesOf " more skipped lines not shown (sample limit)\n"
    else [])

end SkipReporter

section Csv

variable [Doubles]

def formatFixed6 (value : Doubles.Val) : Bytes :=
  if !Doubles.lt (Doubles.ofNat 0) value then bytesOf "0.000000"
  else
    let whole := Doubles.truncate value
    let fractional := Doubles.sub value (Doubles.ofNat whole)
    let micros := Doubles.truncate
      (Doubles.add (Doubles.mul fractional (Doubles.ofNat 1000000)) Doubles.half)
    let carry := micros ≥ 1000000
    decimal (if carry then whole + 1 else whole) ++ [ch '.'] ++
      putDigits 6 (if carry then micros - 1000000 else micros)

def bucketRow (row : ModuleId × HourKey × ℕ) : Bytes :=
  moduleName row.1 ++ [ch ','] ++ formatHourKey row.2.1 ++ [ch ','] ++ decimal row.2.2 ++
    [newline]

def metricRow (name : String) (value : Bytes) : Bytes :=
  bytesOf name ++ [ch ','] ++ value ++ [newline]

def reasonRows (r : SkipReporter) : List (Bytes × ℕ) :=
  ((skipReasons.filter fun c => r.counts c > 0).map fun c => (skipReasonCode c, r.counts c))
    |>.insertionSort fun a b => lexLt b.1 a.1 = false

def reasonRow (row : Bytes × ℕ) : Bytes :=
  bytesOf "skip_reason_" ++ row.1 ++ [ch ','] ++ decimal row.2 ++ [newline]

def buildResultCsv (stats : StatsCollector) (reporter : SkipReporter) (totalLines : ℕ) : Bytes :=
  bytesOf "module,hour,count\n" ++ stats.bucketRows.flatMap bucketRow ++ [newline] ++
    bytesOf "metric,value\n" ++
    metricRow "total_lines" (decimal totalLines) ++
    metricRow "avg_speed" (formatFixed6 stats.averageSpeed) ++
    metricRow "valid_spd_samples" (decimal stats.validSpdSamples) ++
    metricRow "excluded_spd_samples" (decimal stats.excludedSpdSamples) ++
    metricRow "missing_spd_samples" (decimal stats.missingSpdSamples) ++
    metricRow "skipped_lines" (decimal reporter.total) ++
    (reasonRows reporter).flatMap reasonRow

end Csv

end LogTransfer
