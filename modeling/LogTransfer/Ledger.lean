import LogTransfer.Acceptance
import LogTransfer.CountMap
import LogTransfer.DamagedLines

/-!
# The fate of every line

A line is either entered into the statistics or reported with one reason; a
line that the statistics refuse counts as the last. The state of a pipeline is
a function of the fates so far, which is what it means that no line is lost or
counted twice.
-/

set_option autoImplicit false

namespace LogTransfer

open Tally

section Fates

variable [Doubles]

abbrev Fate : Type := Except SkipReason ParsedLine

/-- What becomes of the next line. -/
def Pipeline.fate (p : Pipeline) (l : Line) : Fate :=
  match (p.parser.parse l.text l.tooLong).2 with
  | .error reason => .error reason
  | .ok parsed => if (p.stats.record parsed).2 then .ok parsed else .error .mapLimit

def Pipeline.fates : Pipeline → List Line → List Fate
  | _, [] => []
  | p, l::ls => p.fate l :: (p.line l).fates ls

def entered (fs : List Fate) : List ParsedLine :=
  fs.filterMap fun f => match f with
    | .ok parsed => some parsed
    | .error _ => none

def reported (fs : List Fate) : List SkipReason :=
  fs.filterMap fun f => match f with
    | .ok _ => none
    | .error reason => some reason

def ParsedLine.key (l : ParsedLine) : HourKey := makeHourKey l.year l.month l.day l.hour

/-- Module and hour of the lines that were entered. -/
def entries (fs : List Fate) : List (ModuleId × HourKey) :=
  (entered fs).map fun l => (l.module, l.key)

theorem fates_length (p : Pipeline) (ls : List Line) : (p.fates ls).length = ls.length := by
  induction ls generalizing p with
  | nil => rfl
  | cons l ls ih => rw [Pipeline.fates, List.length_cons, List.length_cons, ih]

theorem fates_append (p : Pipeline) (ls ls' : List Line) :
    p.fates (ls ++ ls') = p.fates ls ++ (p.lines ls).fates ls' := by
  induction ls generalizing p with
  | nil => rfl
  | cons l ls ih =>
    rw [List.cons_append, Pipeline.fates, Pipeline.fates, ih]
    rfl

theorem entered_reported (fs : List Fate) :
    (entered fs).length + (reported fs).length = fs.length := by
  induction fs with
  | nil => rfl
  | cons f fs ih =>
    unfold entered reported at ih ⊢
    cases f with
    | ok parsed =>
      simp only [List.filterMap_cons, List.length_cons]
      omega
    | error reason =>
      simp only [List.filterMap_cons, List.length_cons]
      omega

end Fates

section Books

variable [Doubles]

def isBeam (l : ParsedLine) : Bool := l.module = .beamSteerCtrlUnitImpl

/-- The books of a pipeline whose lines had these fates. -/
structure Books (fs : List Fate) (p : Pipeline) : Prop where
  lines : p.totalLines = fs.length
  skipped : p.reporter.total = (reported fs).length
  reasons : ∀ c, p.reporter.counts c = (reported fs).count c
  buckets : ∀ m, IsTally (· < ·) (members m (entries fs)) (p.stats.buckets m)
  samples : p.stats.validSpdSamples + p.stats.excludedSpdSamples + p.stats.missingSpdSamples =
    (entered fs).countP isBeam

theorem books_reset : Books [] Pipeline.reset :=
  ⟨rfl, rfl, fun _ => rfl, fun _ => isTally_nil, rfl⟩

theorem books_reported {fs : List Fate} {p q : Pipeline} (reason : SkipReason) (offset : ℕ)
    (text : Bytes) (h : Books fs p) (hlines : q.totalLines = p.totalLines + 1)
    (hstats : q.stats = p.stats) (hreporter : q.reporter = p.reporter.record reason offset text) :
    Books (fs ++ [.error reason]) q := by
  have he : entered (fs ++ [.error reason]) = entered fs := by simp [entered]
  have hr : reported (fs ++ [.error reason]) = reported fs ++ [reason] := by simp [reported]
  have hentries : entries (fs ++ [.error reason]) = entries fs := by rw [entries, he, entries]
  refine ⟨?_, ?_, ?_, ?_, ?_⟩
  · rw [hlines, h.lines, List.length_append, List.length_singleton]
  · rw [hreporter, (p.reporter.record_counters reason offset text).1, h.skipped, hr,
      List.length_append, List.length_singleton]
  · intro c
    rw [hreporter, (p.reporter.record_counters reason offset text).2, hr, List.count_append,
      ← h.reasons]
    by_cases hc : c = reason
    · subst hc
      simp
    · simp [Function.update_of_ne hc, Ne.symm hc]
  · rw [hstats, hentries]
    exact h.buckets
  · rw [hstats, he]
    exact h.samples

def countHour (key : HourKey) (bucket : List (HourKey × ℕ)) : List (HourKey × ℕ) :=
  if hasKey key bucket then bumpKey key bucket
  else insertKey (fun a b => decide (a < b)) key bucket

def StatsCollector.withBucket (s : StatsCollector) (m : ModuleId) (bucket : List (HourKey × ℕ)) :
    StatsCollector := { s with buckets := Function.update s.buckets m bucket }

theorem withBucket_self (s : StatsCollector) (m : ModuleId) (bucket : List (HourKey × ℕ)) :
    (s.withBucket m bucket).buckets m = bucket := by
  simp [StatsCollector.withBucket]

theorem withBucket_of_ne (s : StatsCollector) {m m' : ModuleId} (bucket : List (HourKey × ℕ))
    (h : m' ≠ m) : (s.withBucket m bucket).buckets m' = s.buckets m' := by
  simp [StatsCollector.withBucket, h]

/-- A line that is taken adds one to its hour and, for one module, one sample. -/
theorem record_true {s : StatsCollector} {parsed : ParsedLine} (hr : (s.record parsed).2 = true) :
    (s.record parsed).1 =
      (s.withBucket parsed.module (countHour parsed.key (s.buckets parsed.module))).sample
        parsed := by
  unfold StatsCollector.record at hr ⊢
  dsimp only at hr ⊢
  unfold countHour ParsedLine.key
  split
  · rfl
  · rename_i hkey
    rw [if_neg hkey] at hr
    split
    · rename_i hfull
      rw [if_pos hfull] at hr
      cases hr
    · rfl

theorem sample_buckets (s : StatsCollector) (parsed : ParsedLine) :
    (s.sample parsed).buckets = s.buckets := by
  unfold StatsCollector.sample
  split_ifs <;> rfl

theorem sample_counts (s : StatsCollector) (parsed : ParsedLine)
    (hspeed : parsed.hasSpd = true → parsed.module = .beamSteerCtrlUnitImpl) :
    (s.sample parsed).validSpdSamples + (s.sample parsed).excludedSpdSamples +
        (s.sample parsed).missingSpdSamples =
      s.validSpdSamples + s.excludedSpdSamples + s.missingSpdSamples +
        if isBeam parsed then 1 else 0 := by
  unfold StatsCollector.sample isBeam
  by_cases hs : parsed.hasSpd = true
  · rw [if_pos hs, hspeed hs]
    split <;> simp <;> omega
  · rw [if_neg hs]
    split
    · rename_i hm
      simp [hm]
      omega
    · rename_i hm
      simp [hm]

omit [Doubles] in
theorem isTally_countHour {keys : List HourKey} {m : List (HourKey × ℕ)} (key : HourKey)
    (h : IsTally (· < ·) keys m) : IsTally (· < ·) (keys ++ [key]) (countHour key m) := by
  unfold countHour
  split
  · rename_i hkey
    exact isTally_bump (fun k => lt_irrefl k) h hkey
  · rename_i hkey
    exact isTally_insert _ (fun a b => decide_eq_true_iff) lt_trichotomy
      (fun a b c hab hbc => lt_trans hab hbc) h hkey

theorem books_entered {fs : List Fate} {p q : Pipeline} (parsed : ParsedLine) (h : Books fs p)
    (hspeed : parsed.hasSpd = true → parsed.module = .beamSteerCtrlUnitImpl)
    (hr : (p.stats.record parsed).2 = true) (hlines : q.totalLines = p.totalLines + 1)
    (hstats : q.stats = (p.stats.record parsed).1) (hreporter : q.reporter = p.reporter) :
    Books (fs ++ [.ok parsed]) q := by
  have he : entered (fs ++ [.ok parsed]) = entered fs ++ [parsed] := by simp [entered]
  have hs : reported (fs ++ [.ok parsed]) = reported fs := by simp [reported]
  have hentries : entries (fs ++ [.ok parsed]) =
      entries fs ++ [(parsed.module, parsed.key)] := by
    rw [entries, he, List.map_append, entries]
    rfl
  rw [record_true hr] at hstats
  refine ⟨?_, ?_, ?_, ?_, ?_⟩
  · rw [hlines, h.lines, List.length_append, List.length_singleton]
  · rw [hreporter, h.skipped, hs]
  · rw [hreporter, hs]
    exact h.reasons
  · intro m
    rw [hstats, sample_buckets, hentries, members_snoc]
    by_cases hm : parsed.module = m
    · subst hm
      rw [withBucket_self, if_pos rfl]
      exact isTally_countHour parsed.key (h.buckets parsed.module)
    · rw [withBucket_of_ne _ _ (Ne.symm hm), if_neg hm, List.append_nil]
      exact h.buckets m
  · rw [hstats, sample_counts _ _ hspeed, he, List.countP_append, ← h.samples]
    simp [List.countP_singleton, StatsCollector.withBucket]

end Books

section Steps

variable [Doubles]

/-- Everything a line can do to the pipeline. -/
inductive LineStep (p : Pipeline) (l : Line) : Fate → Pipeline → Prop
  | rejected (reason : SkipReason)
      (h : p.parser.parse l.text l.tooLong = (p.parser, .error reason))
      (hne : reason ≠ .mapLimit) :
      LineStep p l (.error reason)
        { p with totalLines := p.totalLines + 1,
                 reporter := p.reporter.record reason l.offset l.text }
  | refused (parsed : ParsedLine) (f : Frame) (ts : Timestamp)
      (h : (p.parser.parse l.text l.tooLong).2 = .ok parsed)
      (ha : LogLineParser.Accepted p.parser.anchor l.text f ts parsed)
      (hr : (p.stats.record parsed).2 = false) :
      LineStep p l (.error .mapLimit)
        { p with totalLines := p.totalLines + 1,
                 parser := { anchor := some (p.parser.anchor.getD ts.absSeconds) },
                 reporter := p.reporter.record .mapLimit l.offset l.text }
  | entered (parsed : ParsedLine) (f : Frame) (ts : Timestamp)
      (h : (p.parser.parse l.text l.tooLong).2 = .ok parsed)
      (ha : LogLineParser.Accepted p.parser.anchor l.text f ts parsed)
      (hr : (p.stats.record parsed).2 = true) :
      LineStep p l (.ok parsed)
        { p with totalLines := p.totalLines + 1,
                 parser := { anchor := some (p.parser.anchor.getD ts.absSeconds) },
                 stats := (p.stats.record parsed).1 }

theorem line_step (p : Pipeline) (l : Line) : LineStep p l (p.fate l) (p.line l) := by
  unfold Pipeline.fate Pipeline.line
  dsimp only
  rcases p.parser.parse_cases l.text l.tooLong with ⟨reason, hp, hne⟩ | ⟨parsed, f, ts, hp, ha⟩
  · rw [hp]
    exact .rejected reason hp hne
  · rw [hp]
    have hok : (p.parser.parse l.text l.tooLong).2 = .ok parsed := by rw [hp]
    dsimp only
    by_cases hr : (p.stats.record parsed).2 = true
    · rw [if_pos hr, if_pos hr]
      exact .entered parsed f ts hok ha hr
    · rw [if_neg hr, if_neg hr]
      have hr : (p.stats.record parsed).2 = false := by simpa using hr
      rw [(Pipeline.record_full hr).1]
      exact .refused parsed f ts hok ha hr

theorem books_line {fs : List Fate} {p : Pipeline} (l : Line) (h : Books fs p) :
    Books (fs ++ [p.fate l]) (p.line l) := by
  have hstep := line_step p l
  generalize p.fate l = f, p.line l = q at hstep ⊢
  cases hstep with
  | rejected reason _ _ => exact books_reported reason l.offset l.text h rfl rfl rfl
  | refused _ _ _ _ _ _ => exact books_reported .mapLimit l.offset l.text h rfl rfl rfl
  | entered parsed _ _ _ ha hr => exact books_entered parsed h ha.speed hr rfl rfl rfl

theorem books_lines {fs : List Fate} {p : Pipeline} (ls : List Line) (h : Books fs p) :
    Books (fs ++ p.fates ls) (p.lines ls) := by
  induction ls generalizing fs p with
  | nil =>
    rw [Pipeline.fates, List.append_nil]
    exact h
  | cons l ls ih =>
    rw [Pipeline.fates, List.append_cons]
    exact ih (books_line l h)

/-- The books are right after any lines, from the initial state. -/
theorem books_session (ls : List Line) :
    Books (Pipeline.reset.fates ls) (Pipeline.reset.lines ls) := books_lines ls books_reset

end Steps

end LogTransfer
