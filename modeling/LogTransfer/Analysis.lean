import LogTransfer.Stats

/-!
# Analysis of a payload

The parser thread owns one pipeline: reassembler, line parser, statistics and
skip report. Feeding is a left action of byte strings on pipelines, so a
payload has one analysis however it was cut into ring slots.
-/

set_option autoImplicit false

namespace LogTransfer

structure AnalysisResult where
  csv : Bytes
  crc32 : Crc
  totalLines : ℕ
  skippedLines : ℕ
  deriving DecidableEq, Repr

/-- A default-constructed result, left behind when a result is moved out. -/
def AnalysisResult.blank : AnalysisResult :=
  { csv := [], crc32 := 0#32, totalLines := 0, skippedLines := 0 }

def AnalysisResult.Sealed (r : AnalysisResult) : Prop := r.crc32 = LogTransfer.crc32 0#32 r.csv

theorem AnalysisResult.sealed_blank : AnalysisResult.blank.Sealed := by
  simp [Sealed, blank, crc32_nil]

/-- A record adds one to the total and one to its reason; names and samples
leave the counters alone. -/
theorem SkipReporter.record_counters (r : SkipReporter) (reason : SkipReason) (offset : ℕ)
    (text : Bytes) :
    (r.record reason offset text).total = r.total + 1 ∧
      (r.record reason offset text).counts =
        Function.update r.counts reason (r.counts reason + 1) := by
  have hsample (r' : SkipReporter) : (r'.addSample reason offset text).total = r'.total ∧
      (r'.addSample reason offset text).counts = r'.counts := by
    unfold SkipReporter.addSample
    split <;> exact ⟨rfl, rfl⟩
  have hnamed (r' : SkipReporter) : (r'.recordUnknownModule text).total = r'.total ∧
      (r'.recordUnknownModule text).counts = r'.counts := by
    unfold SkipReporter.recordUnknownModule
    split
    · exact ⟨rfl, rfl⟩
    · split_ifs <;> exact ⟨rfl, rfl⟩
  simp only [SkipReporter.record, hsample]
  split
  · exact hnamed _
  · exact ⟨rfl, rfl⟩

structure Pipeline [Doubles] where
  reassembler : LineReassembler
  parser : LogLineParser
  stats : StatsCollector
  reporter : SkipReporter
  totalLines : ℕ

namespace Pipeline

variable [Doubles]

def reset : Pipeline :=
  { reassembler := LineReassembler.reset, parser := LogLineParser.reset,
    stats := StatsCollector.reset, reporter := SkipReporter.reset, totalLines := 0 }

def line (p : Pipeline) (l : Line) : Pipeline :=
  let p := { p with totalLines := p.totalLines + 1 }
  let parsed := p.parser.parse l.text l.tooLong
  let p := { p with parser := parsed.1 }
  match parsed.2 with
  | .error reason => { p with reporter := p.reporter.record reason l.offset l.text }
  | .ok parsedLine =>
    let recorded := p.stats.record parsedLine
    if recorded.2 then { p with stats := recorded.1 }
    else { p with stats := recorded.1,
                  reporter := p.reporter.record .mapLimit l.offset l.text }

def lines (p : Pipeline) (ls : List Line) : Pipeline := ls.foldl line p

def feed (p : Pipeline) (chunk : Bytes) : Pipeline :=
  let fed := p.reassembler.feed kMaxLineLength chunk
  lines { p with reassembler := fed.1 } fed.2

def finish (p : Pipeline) : Pipeline :=
  let fed := p.reassembler.finish
  lines { p with reassembler := fed.1 } fed.2

def result (p : Pipeline) : AnalysisResult :=
  let csv := buildResultCsv p.stats p.reporter p.totalLines
  { csv := csv, crc32 := LogTransfer.crc32 0#32 csv, totalLines := p.totalLines,
    skippedLines := p.reporter.total }

theorem result_sealed (p : Pipeline) : p.result.Sealed := rfl

theorem line_reassembler (p : Pipeline) (l : Line) (r : LineReassembler) :
    line { p with reassembler := r } l = { line p l with reassembler := r } := by
  unfold line
  dsimp only
  split
  · rfl
  · split <;> rfl

theorem lines_reassembler (p : Pipeline) (ls : List Line) (r : LineReassembler) :
    lines { p with reassembler := r } ls = { lines p ls with reassembler := r } := by
  induction ls generalizing p with
  | nil => rfl
  | cons l ls ih =>
    have h := ih (line p l)
    rw [← line_reassembler p l r] at h
    exact h

theorem lines_append (p : Pipeline) (a b : List Line) :
    lines p (a ++ b) = lines (lines p a) b := by
  simp [lines]

theorem feed_reassembler (p : Pipeline) (chunk : Bytes) :
    (feed p chunk).reassembler = (p.reassembler.feed kMaxLineLength chunk).1 := by
  simp only [feed, lines_reassembler]

def Bounded (p : Pipeline) : Prop := LineReassembler.Bounded kMaxLineLength p.reassembler

theorem bounded_reset : Bounded reset := LineReassembler.bounded_reset kMaxLineLength

theorem bounded_feed (p : Pipeline) (chunk : Bytes) (h : Bounded p) : Bounded (feed p chunk) := by
  unfold Bounded
  rw [feed_reassembler]
  exact LineReassembler.bounded_feed kMaxLineLength _ chunk h

theorem feed_append (p : Pipeline) (a b : Bytes) (h : Bounded p) :
    feed p (a ++ b) = feed (feed p a) b := by
  have ha := feed_reassembler p a
  have hcut := LineReassembler.feed_append kMaxLineLength p.reassembler a b h
  have hl : feed (feed p a) b = lines
      { feed p a with
        reassembler := ((p.reassembler.feed kMaxLineLength a).1.feed kMaxLineLength b).1 }
      ((p.reassembler.feed kMaxLineLength a).1.feed kMaxLineLength b).2 := by
    rw [← ha]
    rfl
  rw [hl]
  simp only [feed, hcut, lines_append, lines_reassembler]

theorem feed_nil (p : Pipeline) (h : Bounded p) : feed p [] = p := by
  have hr := LineReassembler.feed_eq_eatAll kMaxLineLength p.reassembler [] h
  simp only [feed, hr, LineReassembler.eatAll, lines, List.foldl_nil]

/-- The pipeline after a payload, from the initial state. -/
def after (payload : Bytes) : Pipeline := feed reset payload

theorem after_nil : after [] = reset := feed_nil reset bounded_reset

theorem feed_after (p chunk : Bytes) : feed (after p) chunk = after (p ++ chunk) :=
  (feed_append reset p chunk bounded_reset).symm

end Pipeline

/-- Reassembler, parser, statistics and `buildResultCsv` from the initial state
over exactly this payload. -/
def analyze [Doubles] (payload : Bytes) : AnalysisResult := (Pipeline.after payload).finish.result

theorem analyze_sealed [Doubles] (payload : Bytes) : (analyze payload).Sealed :=
  Pipeline.result_sealed _

/-- Whole-number doubles: enough for a log without fractional speeds. -/
@[reducible] def wholeDoubles : Doubles where
  Val := ℕ
  fromChars token :=
    let digits := token.takeWhile isDigit
    if digits.isEmpty then none else some (digitsValue digits, digits.length)
  isFinite _ := true
  lt a b := decide (a < b)
  le a b := decide (a ≤ b)
  ofNat n := n
  half := 0
  add := (· + ·)
  sub := (· - ·)
  mul := (· * ·)
  div := (· / ·)
  truncate v := v

example : (@analyze wholeDoubles (bytesOf "x")).totalLines = 1 := by decide

end LogTransfer
