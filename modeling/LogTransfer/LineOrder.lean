import LogTransfer.HourWindow
import LogTransfer.SkipReasons

/-!
# The order of the lines

When all moments of a list of lines are within the allowed range of each other,
no anchor that one of them sets matters to another: the fate of a line is its
own, and the counters of a run are those of any other order.
-/

set_option autoImplicit false

namespace LogTransfer

open Tally LogLineParser

section Samples

variable [Doubles]

def isValidSample (l : ParsedLine) : Bool := l.hasSpd && l.spdInRange
def isExcludedSample (l : ParsedLine) : Bool := l.hasSpd && !l.spdInRange
def isMissingSample (l : ParsedLine) : Bool := !l.hasSpd && isBeam l

structure SampleBooks (fs : List Fate) (p : Pipeline) : Prop where
  valid : p.stats.validSpdSamples = (entered fs).countP isValidSample
  excluded : p.stats.excludedSpdSamples = (entered fs).countP isExcludedSample
  missing : p.stats.missingSpdSamples = (entered fs).countP isMissingSample

theorem sample_each (s : StatsCollector) (parsed : ParsedLine) :
    (s.sample parsed).validSpdSamples =
        s.validSpdSamples + (if isValidSample parsed then 1 else 0) ∧
      (s.sample parsed).excludedSpdSamples =
        s.excludedSpdSamples + (if isExcludedSample parsed then 1 else 0) ∧
      (s.sample parsed).missingSpdSamples =
        s.missingSpdSamples + (if isMissingSample parsed then 1 else 0) := by
  unfold StatsCollector.sample isValidSample isExcludedSample isMissingSample isBeam
  by_cases hs : parsed.hasSpd = true
  · by_cases hr : parsed.spdInRange = true
    · simp [hs, hr]
    · simp [hs, hr]
  · by_cases hm : parsed.module = .beamSteerCtrlUnitImpl
    · simp [hs, hm]
    · simp [hs, hm]

theorem sampleBooks_line {fs : List Fate} {p : Pipeline} (l : Line) (h : SampleBooks fs p) :
    SampleBooks (fs ++ [p.fate l]) (p.line l) := by
  have hstep := line_step p l
  generalize p.fate l = f, p.line l = q at hstep ⊢
  cases hstep with
  | rejected reason _ _ =>
    have he : entered (fs ++ [.error reason]) = entered fs := by simp [entered]
    exact ⟨he ▸ h.valid, he ▸ h.excluded, he ▸ h.missing⟩
  | refused _ _ _ _ _ _ =>
    have he : entered (fs ++ [.error .mapLimit]) = entered fs := by simp [entered]
    exact ⟨he ▸ h.valid, he ▸ h.excluded, he ▸ h.missing⟩
  | entered parsed _ _ _ _ hr =>
    have he : entered (fs ++ [.ok parsed]) = entered fs ++ [parsed] := by simp [entered]
    obtain ⟨hvalid, hexcluded, hmissing⟩ := sample_each
      (p.stats.withBucket parsed.module (countHour parsed.key (p.stats.buckets parsed.module)))
      parsed
    refine ⟨?_, ?_, ?_⟩
    · rw [he, List.countP_append, List.countP_singleton, ← h.valid, record_true hr, hvalid]
      rfl
    · rw [he, List.countP_append, List.countP_singleton, ← h.excluded, record_true hr, hexcluded]
      rfl
    · rw [he, List.countP_append, List.countP_singleton, ← h.missing, record_true hr, hmissing]
      rfl

theorem sampleBooks_lines {fs : List Fate} {p : Pipeline} (ls : List Line)
    (h : SampleBooks fs p) : SampleBooks (fs ++ p.fates ls) (p.lines ls) := by
  induction ls generalizing fs p with
  | nil =>
    rw [Pipeline.fates, List.append_nil]
    exact h
  | cons l ls ih =>
    rw [Pipeline.fates, List.append_cons]
    exact ih (sampleBooks_line l h)

end Samples

section Windows

/-- A line that comes as far as the check of its moment. -/
structure Timed (l : Line) (ts : Timestamp) : Prop where
  short : l.tooLong = false
  visible : ∃ b ∈ l.text, b ≠ ch ' '
  printable : ∀ b ∈ l.text, 0x20 ≤ b.toNat ∧ b.toNat ≠ 0x7F
  framed : ∃ f, FilledFrame l.text f ∧ Stamp f.stamp ts

def Window (ls : List Line) : Prop :=
  ∀ l ∈ ls, ∀ l' ∈ ls, ∀ ts ts', Timed l ts → Timed l' ts' →
    |ts.absSeconds - ts'.absSeconds| ≤ 172800

theorem timed_of_frame {l : Line} {f : Frame} (hbytes : checkBytes l.text l.tooLong = .ok ())
    (hframe : frame l.text = .ok f) {ts : Timestamp} (hts : parseTimestamp f.stamp = some ts) :
    Timed l ts := by
  obtain ⟨hshort, hvisible, hprintable⟩ := checkBytes_ok.mp hbytes
  exact ⟨hshort, hvisible, hprintable, f, frame_ok.mp hframe, parseTimestamp_iff.mp hts⟩

variable [Doubles]

/-- What the parser says of a line with no anchor set. -/
def verdict (l : Line) : Fate := (LogLineParser.reset.parse l.text l.tooLong).2

omit [Doubles] in
theorem bind_congr_ok {ε α β : Type} {x : Except ε α} {f g : α → Except ε β}
    (h : ∀ a, x = .ok a → f a = g a) : x >>= f = x >>= g := by
  cases x with
  | error e => rfl
  | ok a => exact h a rfl

theorem check_anchor {l : Line} {a : ℤ}
    (hnear : ∀ ts, Timed l ts → |ts.absSeconds - a| ≤ 172800) :
    check (some a) l.text l.tooLong = check none l.text l.tooLong := by
  unfold check
  apply bind_congr_ok
  intro _ hbytes
  apply bind_congr_ok
  intro f hframe
  cases hts : parseTimestamp f.stamp with
  | none => rfl
  | some ts =>
    have hrange : checkRange (some a) ts.absSeconds = .ok () := by
      apply checkRange_iff.mpr
      rintro _ ⟨⟩
      exact hnear ts (timed_of_frame hbytes hframe hts)
    dsimp only
    rw [hrange]
    rfl

/-- An anchor is the moment of one of the lines. -/
def AnchorOf (ls : List Line) (p : LogLineParser) : Prop :=
  ∀ a, p.anchor = some a → ∃ l ∈ ls, ∃ ts, Timed l ts ∧ ts.absSeconds = a

theorem verdict_parse {ls : List Line} {l : Line} {p : LogLineParser} (hw : Window ls)
    (hl : l ∈ ls) (ha : AnchorOf ls p) : (p.parse l.text l.tooLong).2 = verdict l := by
  have hcheck : check p.anchor l.text l.tooLong = check none l.text l.tooLong := by
    cases hanchor : p.anchor with
    | none => rfl
    | some a =>
      obtain ⟨l', hl', ts', hts', rfl⟩ := ha a hanchor
      apply check_anchor
      intro ts hts
      exact hw l hl l' hl' ts ts' hts hts'
  have hreset : LogLineParser.reset.anchor = none := rfl
  unfold verdict parse
  rw [hcheck, hreset]
  cases check none l.text l.tooLong with
  | error reason => rfl
  | ok result => rfl

theorem anchorOf_parse {ls : List Line} {l : Line} {p : LogLineParser} (hl : l ∈ ls)
    (ha : AnchorOf ls p) : AnchorOf ls (p.parse l.text l.tooLong).1 := by
  intro a hanchor
  cases hresult : (p.parse l.text l.tooLong).2 with
  | error reason =>
    rw [(parse_grammar p l.text l.tooLong).2.2 reason hresult] at hanchor
    exact ha a hanchor
  | ok line =>
    obtain ⟨hlong, f, ts, id, hg, -, hset⟩ := parse_accepted (Prod.ext rfl hresult)
    rw [hset] at hanchor
    cases hold : p.anchor with
    | some a' =>
      rw [hold] at hanchor
      cases hanchor
      exact ha _ hold
    | none =>
      rw [hold] at hanchor
      cases hanchor
      exact ⟨l, hl, ts, ⟨hlong, hg.visible, hg.printable, f, grammatical_filled hg, hg.stamp⟩, rfl⟩

theorem parser_after_line (p : Pipeline) (l : Line) :
    (p.line l).parser = (p.parser.parse l.text l.tooLong).1 := by
  unfold Pipeline.line
  dsimp only
  split
  · rfl
  · split <;> rfl

theorem anchorOf_lines {ls done : List Line} (hsub : ∀ l ∈ done, l ∈ ls) {p : Pipeline}
    (ha : AnchorOf ls p.parser) : AnchorOf ls (p.lines done).parser := by
  induction done generalizing p with
  | nil => exact ha
  | cons l done ih =>
    rw [List.forall_mem_cons] at hsub
    apply ih hsub.2
    rw [parser_after_line]
    exact anchorOf_parse hsub.1 ha

/-- Within a window the fate of each line is its verdict. -/
theorem fates_verdicts {ls : List Line} (hw : Window ls) :
    Pipeline.reset.fates ls = ls.map verdict := by
  have hprefix (done rest : List Line) (h : done ++ rest = ls) :
      Pipeline.reset.fates done = done.map verdict := by
    induction done using List.reverseRecOn generalizing rest with
    | nil => rfl
    | append_singleton done l ih =>
      have hl : l ∈ ls := by simp [← h]
      have hsub : ∀ l' ∈ done, l' ∈ ls := by
        intro l' hl'
        simp [← h, hl']
      have ha : AnchorOf ls (Pipeline.reset.lines done).parser :=
        anchorOf_lines hsub fun a hanchor => by cases hanchor
      have hfate : (Pipeline.reset.lines done).fate l = verdict l := by
        rw [Pipeline.fate, ← verdict_parse hw hl ha]
        split
        · rename_i reason hreason
          exact hreason.symm
        · rename_i parsed hparsed
          rw [if_pos (lines_taken done parsed), hparsed]
      rw [fates_append, ih (l :: rest) (by simp [← h]), List.map_append, Pipeline.fates, hfate]
      rfl
  exact hprefix ls [] (List.append_nil ls)

end Windows

section Orders

variable [Doubles]

/-- Two runs that agree in all of their counters. -/
structure SameCounters (p q : Pipeline) : Prop where
  buckets : ∀ m, p.stats.buckets m = q.stats.buckets m
  valid : p.stats.validSpdSamples = q.stats.validSpdSamples
  excluded : p.stats.excludedSpdSamples = q.stats.excludedSpdSamples
  missing : p.stats.missingSpdSamples = q.stats.missingSpdSamples
  reasons : ∀ c, p.reporter.counts c = q.reporter.counts c
  skipped : p.reporter.total = q.reporter.total
  lines : p.totalLines = q.totalLines

theorem counters_of_fates {fs fs' : List Fate} {p q : Pipeline} (hperm : fs.Perm fs')
    (hp : Books fs p) (hq : Books fs' q) (hps : SampleBooks fs p) (hqs : SampleBooks fs' q) :
    SameCounters p q := by
  have hentered : (entered fs).Perm (entered fs') := hperm.filterMap _
  have hreported : (reported fs).Perm (reported fs') := hperm.filterMap _
  have hentries : (entries fs).Perm (entries fs') := hentered.map _
  refine ⟨?_, ?_, ?_, ?_, ?_, ?_, ?_⟩
  · intro m
    have hmembers : (members m (entries fs)).Perm (members m (entries fs')) :=
      (hentries.filter _).map _
    exact isTally_unique (fun a b hab => Nat.lt_asymm hab) (isTally_perm (hp.buckets m) hmembers)
      (hq.buckets m)
  · rw [hps.valid, hqs.valid, hentered.countP_eq]
  · rw [hps.excluded, hqs.excluded, hentered.countP_eq]
  · rw [hps.missing, hqs.missing, hentered.countP_eq]
  · intro c
    rw [hp.reasons, hq.reasons, hreported.count_eq]
  · rw [hp.skipped, hq.skipped, hreported.length_eq]
  · rw [hp.lines, hq.lines, hperm.length_eq]

theorem sampleBooks_reset : SampleBooks [] Pipeline.reset := ⟨rfl, rfl, rfl⟩

omit [Doubles] in
theorem window_texts {ls ls' : List Line}
    (htexts : (ls.map fun l => (l.text, l.tooLong)).Perm (ls'.map fun l => (l.text, l.tooLong)))
    (hw : Window ls) : Window ls' := by
  have hback (l' : Line) (hl' : l' ∈ ls') : ∃ l ∈ ls, ∀ ts, Timed l' ts → Timed l ts := by
    have hmem : (l'.text, l'.tooLong) ∈ ls'.map fun l => (l.text, l.tooLong) :=
      List.mem_map_of_mem (f := fun l : Line => (l.text, l.tooLong)) hl'
    obtain ⟨l, hl, heq⟩ := List.mem_map.mp (htexts.mem_iff.mpr hmem)
    obtain ⟨htext, hflag⟩ := Prod.mk.inj heq
    refine ⟨l, hl, ?_⟩
    rintro ts ⟨hshort, hvisible, hprintable, hframed⟩
    exact ⟨hflag ▸ hshort, htext ▸ hvisible, htext ▸ hprintable, htext ▸ hframed⟩
  intro l' hl' l'' hl'' ts ts' hts hts'
  obtain ⟨m, hm, hm'⟩ := hback l' hl'
  obtain ⟨n, hn, hn'⟩ := hback l'' hl''
  exact hw m hm n hn ts ts' (hm' ts hts) (hn' ts' hts')

/-- Within a window the counters do not depend on the order of the lines,
wherever in the stream each of them starts. -/
theorem counters_order_independent (ls ls' : List Line)
    (htexts : (ls.map fun l => (l.text, l.tooLong)).Perm (ls'.map fun l => (l.text, l.tooLong)))
    (hw : Window ls) : SameCounters (Pipeline.reset.lines ls) (Pipeline.reset.lines ls') := by
  have hverdicts : (ls.map verdict).Perm (ls'.map verdict) := by
    have hmap := htexts.map fun t => (LogLineParser.reset.parse t.1 t.2).2
    rwa [List.map_map, List.map_map] at hmap
  have hfates : (Pipeline.reset.fates ls).Perm (Pipeline.reset.fates ls') := by
    rw [fates_verdicts hw, fates_verdicts (window_texts htexts hw)]
    exact hverdicts
  exact counters_of_fates hfates (books_session ls) (books_session ls')
    (sampleBooks_lines ls sampleBooks_reset) (sampleBooks_lines ls' sampleBooks_reset)

/-- Two lines of the log, two days apart. -/
def earlyLine : Line :=
  { text := bytesOf "[2026-01-02_03:04:05.000006][1][2][3] BYDA::DetectionTaskRunner: jobID[7]",
    offset := 0, tooLong := false }

def lateLine : Line :=
  { text := bytesOf "[2026-01-04_03:04:05.000006][1][2][3] BYDA::DetectionTaskRunner: jobID[8]",
    offset := 75, tooLong := false }

omit [Doubles] in
theorem timed_seconds {l : Line} {ts : Timestamp} (h : Timed l ts) :
    ((frame l.text).toOption.bind fun f => (parseTimestamp f.stamp).map (·.absSeconds)) =
      some ts.absSeconds := by
  obtain ⟨f, hf, hstamp⟩ := h.framed
  rw [frame_ok.mpr hf, Except.toOption, Option.bind_some, parseTimestamp_iff.mpr hstamp,
    Option.map_some]

omit [Doubles] in
theorem early_late_window : Window [earlyLine, lateLine] := by
  have hseconds : ∀ l ∈ [earlyLine, lateLine], ∀ ts, Timed l ts →
      ts.absSeconds = 1767323045 ∨ ts.absSeconds = 1767495845 := by
    rw [List.forall_mem_cons, List.forall_mem_singleton]
    constructor
    · intro ts h
      exact .inl (Option.some.inj ((timed_seconds h).symm.trans (by decide)))
    · intro ts h
      exact .inr (Option.some.inj ((timed_seconds h).symm.trans (by decide)))
  intro l hl l' hl' ts ts' hts hts'
  rw [abs_le]
  have hts := hseconds l hl ts hts
  have hts' := hseconds l' hl' ts' hts'
  omega

omit [Doubles] in
theorem early_late_counters :
    letI := wholeDoubles
    SameCounters (Pipeline.reset.lines [earlyLine, lateLine])
      (Pipeline.reset.lines [lateLine, earlyLine]) := by
  let _ := wholeDoubles
  exact counters_order_independent [earlyLine, lateLine] [lateLine, earlyLine]
    (List.Perm.swap _ _ []) early_late_window

end Orders

end LogTransfer
