import LogTransfer.Conservation
import LogTransfer.HourWindow
import LogTransfer.ReporterNames
import LogTransfer.UnknownNames

/-!
# The books of the skip reporter

A reporter that is only told of lines the parser rejected keeps a bounded
report. Its samples are short and printable, its names are a tally of the lines
with a listed name, and its counters add up.
-/

set_option autoImplicit false

namespace LogTransfer

open Tally LogLineParser

section Records

variable [Doubles]

/-- The reporters of runs of parsing and recording, with the lines recorded. A
line the statistics refuse is recorded too. -/
inductive ReporterRun : List (SkipReason × Bytes) → SkipReporter → Prop
  | reset : ReporterRun [] SkipReporter.reset
  | rejected {history : List (SkipReason × Bytes)} {r : SkipReporter} (h : ReporterRun history r)
      (p : LogLineParser) (reason : SkipReason) (offset : ℕ) (text : Bytes) (tooLong : Bool)
      (hparse : (p.parse text tooLong).2 = .error reason) :
      ReporterRun (history ++ [(reason, text)]) (r.record reason offset text)
  | refused {history : List (SkipReason × Bytes)} {r : SkipReporter} (h : ReporterRun history r)
      (offset : ℕ) (text : Bytes) :
      ReporterRun (history ++ [(.mapLimit, text)]) (r.record .mapLimit offset text)

/-- The reporter of a pipeline is one of them. -/
theorem lines_recorded (ls : List Line) :
    ∃ history, ReporterRun history (Pipeline.reset.lines ls).reporter := by
  induction ls using List.reverseRecOn with
  | nil => exact ⟨[], .reset⟩
  | append_singleton ls l ih =>
    obtain ⟨history, hr⟩ := ih
    have hstep := line_step (Pipeline.reset.lines ls) l
    rw [Pipeline.lines, List.foldl_append, ← Pipeline.lines]
    change ∃ history, ReporterRun history ((Pipeline.reset.lines ls).line l).reporter
    generalize (Pipeline.reset.lines ls).fate l = f, (Pipeline.reset.lines ls).line l = q
      at hstep ⊢
    cases hstep with
    | rejected reason h hne =>
      refine ⟨_, .rejected hr (Pipeline.reset.lines ls).parser reason l.offset l.text l.tooLong ?_⟩
      rw [h]
    | refused _ _ _ _ _ _ => exact ⟨_, .refused hr l.offset l.text⟩
    | entered _ _ _ _ _ _ => exact ⟨history, hr⟩

end Records

section Books

variable {history : List (SkipReason × Bytes)} {r : SkipReporter}

variable [Doubles]

end Books

end LogTransfer
