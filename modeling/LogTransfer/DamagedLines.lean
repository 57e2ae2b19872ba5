import LogTransfer.LineSplit
import LogTransfer.Acceptance
import LogTransfer.Analysis

/-!
# A damaged line leaves the rest of the analysis alone

A session's lines are the reference split of its payload, so inserting a line
inserts one line and shifts the later offsets. A rejected line moves neither
the timestamp anchor nor the statistics: `OneMore` relates the two runs from
there on.
-/

set_option autoImplicit false

namespace LogTransfer
open LineReassembler (reference lineOf fresh feedAll)

section Lines

theorem eat_newline (maxLen : ℕ) (r : LineReassembler) (hb : r.Bounded maxLen) :
    (r.eat maxLen newline).1 = fresh (r.streamOffset + 1) := by
  unfold LineReassembler.eat
  by_cases hd : r.discarding = true
  · simp [hd, hb.2 hd, fresh]
  · simp [hd, fresh]

theorem eatAll_streamOffset (maxLen : ℕ) (r : LineReassembler) (bs : Bytes) :
    (r.eatAll maxLen bs).1.streamOffset = r.streamOffset + bs.length := by
  induction bs generalizing r with
  | nil => rfl
  | cons b bs ih =>
    have h : (r.eat maxLen b).1.streamOffset = r.streamOffset + 1 := by
      unfold LineReassembler.eat
      split_ifs <;> rfl
    rw [LineReassembler.eatAll, ih, h, List.length_cons]
    omega

/-- Empty, or closed by a newline. -/
def WholeLines (x : Bytes) : Prop := x = [] ∨ x.getLast? = some newline

theorem eatAll_wholeLines (maxLen : ℕ) (x : Bytes) (hx : WholeLines x) :
    ((fresh 0).eatAll maxLen x).1 = fresh x.length := by
  rcases hx with rfl | hx
  · rfl
  · obtain ⟨init, rfl⟩ := List.getLast?_eq_some_iff.mp hx
    have hb := LineReassembler.bounded_eatAll maxLen (fresh 0) init
      (LineReassembler.bounded_reset maxLen)
    rw [LineReassembler.eatAll_append]
    change ((LineReassembler.eat maxLen _ newline).1) = _
    rw [eat_newline maxLen _ hb, eatAll_streamOffset, List.length_append]
    simp [fresh]

theorem reference_append (maxLen : ℕ) (x z : Bytes) (hx : WholeLines x) :
    reference maxLen 0 (x ++ z) =
      ((fresh 0).eatAll maxLen x).2 ++ reference maxLen x.length z := by
  rw [← LineReassembler.eatAll_reference, ← LineReassembler.eatAll_reference maxLen x.length z,
    LineReassembler.eatAll_append, eatAll_wholeLines maxLen x hx, List.append_assoc]

def SameText (l l' : Line) : Prop := l.text = l'.text ∧ l.tooLong = l'.tooLong

theorem placed_shift (maxLen pos pos' : ℕ) (es : List Bytes) :
    List.Forall₂ SameText ((LineReassembler.placed pos es).map (lineOf maxLen))
      ((LineReassembler.placed pos' es).map (lineOf maxLen)) := by
  have hline (pos pos' : ℕ) (e : Bytes) :
      SameText (lineOf maxLen (pos, e)) (lineOf maxLen (pos', e)) := by
    unfold lineOf
    by_cases h : e.length > maxLen
    · simp [h, SameText]
    · simp [h, SameText]
  induction es generalizing pos pos' with
  | nil => exact .nil
  | cons e es ih =>
    by_cases hes : es = []
    · rw [hes]
      simp only [LineReassembler.placed]
      split
      · exact .nil
      · exact .cons (hline pos pos' e) .nil
    · rw [LineReassembler.placed_cons pos e es hes, LineReassembler.placed_cons pos' e es hes]
      exact .cons (hline pos pos' e) (ih _ _)

end Lines

namespace Pipeline

variable [Doubles]

/-- Whether the line made of the bytes `d` is skipped in this state. -/
def rejects (p : Pipeline) (d : Bytes) : Bool :=
  let l := lineOf kMaxLineLength (0, d)
  match (p.parser.parse l.text l.tooLong).2 with
  | .error _ => true
  | .ok parsed => !(p.stats.record parsed).2

/-- The speed that a line adds to the sum, if it does. -/
def sampleOf (p : Pipeline) (l : Line) : List Doubles.Val :=
  match (p.parser.parse l.text l.tooLong).2 with
  | .error _ => []
  | .ok parsed =>
    if (p.stats.record parsed).2 && parsed.hasSpd && parsed.spdInRange then [parsed.spd] else []

def samples : Pipeline → List Line → List Doubles.Val
  | _, [] => []
  | p, l::ls => sampleOf p l ++ samples (line p l) ls

omit [Doubles] in
theorem record_total (r : SkipReporter) (reason : SkipReason) (offset : ℕ) (text : Bytes) :
    (r.record reason offset text).total = r.total + 1 := (r.record_counters reason offset text).1

section Relation

/-- The first run has seen one skipped line more. -/
structure OneMore (p q : Pipeline) : Prop where
  parser : p.parser = q.parser
  stats : p.stats = q.stats
  totalLines : p.totalLines = q.totalLines + 1
  skipped : p.reporter.total = q.reporter.total + 1

theorem oneMore_line {p q : Pipeline} {l l' : Line} (h : OneMore p q) (hl : SameText l l') :
    OneMore (line p l) (line q l') := by
  obtain ⟨hp, hs, ht, hk⟩ := h
  unfold line
  dsimp only
  rw [hp, hs, hl.1, hl.2]
  split
  · exact ⟨rfl, rfl, by simp [ht], by simp [record_total, hk]⟩
  · split
    · exact ⟨rfl, rfl, by simp [ht], hk⟩
    · exact ⟨rfl, rfl, by simp [ht], by simp [record_total, hk]⟩

theorem oneMore_sampleOf {p q : Pipeline} {l l' : Line} (h : OneMore p q) (hl : SameText l l') :
    sampleOf p l = sampleOf q l' := by
  simp only [sampleOf, h.parser, h.stats, hl.1, hl.2]

theorem oneMore_lines {p q : Pipeline} {ls ls' : List Line} (h : OneMore p q)
    (hl : List.Forall₂ SameText ls ls') :
    OneMore (lines p ls) (lines q ls') ∧ samples p ls = samples q ls' := by
  induction hl generalizing p q with
  | nil => exact ⟨h, rfl⟩
  | cons hhead _ ih =>
    obtain ⟨hrest, hsamples⟩ := ih (oneMore_line h hhead)
    exact ⟨hrest, by rw [samples, samples, hsamples, oneMore_sampleOf h hhead]⟩

end Relation

section Anchor

/-- Until a line is accepted nothing has been counted. -/
def Anchored (p : Pipeline) : Prop := p.parser.anchor = none → ∀ m, p.stats.buckets m = []

theorem anchored_line {p : Pipeline} (l : Line) (h : Anchored p) : Anchored (line p l) := by
  unfold line
  dsimp only
  rcases p.parser.parse_cases l.text l.tooLong with ⟨reason, hp, -⟩ | ⟨parsed, _, ts, hp, -⟩
  · rw [hp]
    exact h
  · rw [hp]
    dsimp only
    split
    · exact fun hn => by cases hn
    · exact fun hn => by cases hn

theorem anchored_lines {p : Pipeline} (ls : List Line) (h : Anchored p) :
    Anchored (lines p ls) := by
  induction ls generalizing p with
  | nil => exact h
  | cons l ls ih => exact ih (anchored_line l h)

theorem record_full {s : StatsCollector} {parsed : ParsedLine} (h : (s.record parsed).2 = false) :
    (s.record parsed).1 = s ∧ ∃ m, s.buckets m ≠ [] := by
  unfold StatsCollector.record at h ⊢
  dsimp only at h ⊢
  split at h
  · cases h
  · rename_i hkey
    split at h
    · rename_i hfull
      rw [if_neg hkey, if_pos hfull]
      refine ⟨rfl, ?_⟩
      by_contra hall
      push Not at hall
      simp [StatsCollector.totalEntries, hall, moduleIds, kMaxStatsEntries] at hfull
    · cases h

/-- A rejected line leaves anchor and statistics alone. -/
theorem oneMore_rejected {p : Pipeline} {d : Bytes} (pos : ℕ) (ha : Anchored p)
    (hr : p.rejects d = true) :
    OneMore (line p (lineOf kMaxLineLength (pos, d))) p ∧
      sampleOf p (lineOf kMaxLineLength (pos, d)) = [] := by
  have hsame : SameText (lineOf kMaxLineLength (pos, d)) (lineOf kMaxLineLength (0, d)) := by
    unfold lineOf
    by_cases h : d.length > kMaxLineLength
    · simp [h, SameText]
    · simp [h, SameText]
  unfold rejects at hr
  dsimp only at hr
  rw [← hsame.1, ← hsame.2] at hr
  generalize lineOf kMaxLineLength (pos, d) = l at hr ⊢
  unfold line sampleOf
  dsimp only
  rcases p.parser.parse_cases l.text l.tooLong with ⟨reason, hp, -⟩ | ⟨parsed, _, ts, hp, -⟩
  · rw [hp]
    exact ⟨⟨rfl, rfl, rfl, record_total _ _ _ _⟩, rfl⟩
  · rw [hp] at hr ⊢
    have hr : (p.stats.record parsed).2 = false := by simpa using hr
    obtain ⟨hstats, m, hm⟩ := record_full hr
    dsimp only
    rw [hr]
    refine ⟨⟨?_, hstats, rfl, record_total _ _ _ _⟩, rfl⟩
    obtain ⟨a, hanchor⟩ := Option.ne_none_iff_exists'.mp fun hnone => hm (ha hnone m)
    rw [if_neg (by simp), hanchor, Option.getD_some, ← hanchor]

end Anchor

section Sessions

/-- The pipeline at the end of a session whose slots hold `chunks`. -/
def analysed (chunks : List Bytes) : Pipeline := (chunks.foldl feed reset).finish

/-- The lines the session's callbacks get, in order. -/
def sessionLines (chunks : List Bytes) : List Line :=
  (feedAll kMaxLineLength LineReassembler.reset chunks).2 ++
    (feedAll kMaxLineLength LineReassembler.reset chunks).1.finish.2

theorem foldl_feed (p : Pipeline) (chunks : List Bytes) :
    chunks.foldl feed p =
      { lines p (feedAll kMaxLineLength p.reassembler chunks).2 with
        reassembler := (feedAll kMaxLineLength p.reassembler chunks).1 } := by
  induction chunks generalizing p with
  | nil => rfl
  | cons c cs ih =>
    rw [List.foldl_cons, ih, feed_reassembler]
    simp only [feedAll, feed, lines_append, lines_reassembler]

theorem analysed_lines (chunks : List Bytes) :
    ∃ r, analysed chunks = { lines reset (sessionLines chunks) with reassembler := r } := by
  unfold analysed finish sessionLines
  rw [foldl_feed, lines_append]
  simp only [lines_reassembler]
  exact ⟨_, rfl⟩

omit [Doubles] in
theorem sessionLines_reference (chunks : List Bytes) :
    sessionLines chunks = reference kMaxLineLength 0 chunks.flatten :=
  (LineReassembler.reassembly_is_split kMaxLineLength chunks).1

theorem after_lines (x : Bytes) :
    ∃ r, after x =
      { lines reset ((fresh 0).eatAll kMaxLineLength x).2 with reassembler := r } := by
  unfold after feed
  rw [LineReassembler.feed_eq_eatAll kMaxLineLength _ x bounded_reset, lines_reassembler]
  exact ⟨_, rfl⟩

theorem samples_append (p : Pipeline) (a b : List Line) :
    samples p (a ++ b) = samples p a ++ samples (lines p a) b := by
  induction a generalizing p with
  | nil => rfl
  | cons l a ih =>
    rw [List.cons_append, samples, samples, ih, List.append_assoc]
    rfl

theorem line_spdSum (p : Pipeline) (l : Line) :
    (line p l).stats.spdSum = (sampleOf p l).foldl Doubles.add p.stats.spdSum := by
  unfold line sampleOf
  dsimp only
  cases (p.parser.parse l.text l.tooLong).2 with
  | error reason => rfl
  | ok parsed =>
    unfold StatsCollector.record StatsCollector.sample
    dsimp only
    split_ifs <;> simp_all

/-- `samples` is what the sum is made of, in order. -/
theorem lines_spdSum (p : Pipeline) (ls : List Line) :
    (lines p ls).stats.spdSum = (samples p ls).foldl Doubles.add p.stats.spdSum := by
  induction ls generalizing p with
  | nil => rfl
  | cons l ls ih =>
    change (lines (line p l) ls).stats.spdSum = _
    rw [ih, samples, List.foldl_append, line_spdSum]

/-- A damaged line does not touch the rest of the analysis, wherever it stands
between whole lines and however the payload is cut into slots. -/
theorem damaged_line_isolated (x d y : Bytes) (chunks chunks' : List Bytes) (hx : WholeLines x)
    (hd : newline ∉ d) (hr : (after x).rejects d = true)
    (hc : chunks.flatten = x ++ d ++ newline :: y) (hc' : chunks'.flatten = x ++ y) :
    let p := analysed chunks
    let q := analysed chunks'
    let speeds := samples reset (sessionLines chunks')
    p.stats.buckets = q.stats.buckets ∧
      p.stats.validSpdSamples = q.stats.validSpdSamples ∧
      p.stats.excludedSpdSamples = q.stats.excludedSpdSamples ∧
      p.stats.missingSpdSamples = q.stats.missingSpdSamples ∧
      samples reset (sessionLines chunks) = speeds ∧
      p.stats.spdSum = speeds.foldl Doubles.add (Doubles.ofNat 0) ∧
      q.stats.spdSum = speeds.foldl Doubles.add (Doubles.ofNat 0) ∧
      p.result.totalLines = q.result.totalLines + 1 ∧
      p.result.skippedLines = q.result.skippedLines + 1 := by
  intro p q speeds
  let before := ((fresh 0).eatAll kMaxLineLength x).2
  have hlines : sessionLines chunks = before ++
      (lineOf kMaxLineLength (x.length, d) ::
        reference kMaxLineLength (x.length + d.length + 1) y) := by
    rw [sessionLines_reference, hc, List.append_assoc, reference_append _ x _ hx,
      LineReassembler.reference_line _ _ d y hd]
  have hlines' : sessionLines chunks' = before ++ reference kMaxLineLength x.length y := by
    rw [sessionLines_reference, hc', reference_append _ x _ hx]
  have hanchored : Anchored (lines reset before) := anchored_lines before fun _ _ => rfl
  have hrejects : (lines reset before).rejects d = true := by
    obtain ⟨r, hafter⟩ := after_lines x
    rw [hafter] at hr
    exact hr
  obtain ⟨hone, hnone⟩ := oneMore_rejected x.length hanchored hrejects
  obtain ⟨hmore, hsame⟩ := oneMore_lines hone
    (placed_shift kMaxLineLength (x.length + d.length + 1) x.length (y.splitOn newline))
  have hspeeds : samples reset (sessionLines chunks) = speeds := by
    rw [hlines, samples_append, samples, hnone, List.nil_append]
    change _ = samples reset (sessionLines chunks')
    rw [hlines', samples_append]
    exact congrArg _ hsame
  have hpq : OneMore (lines reset (sessionLines chunks)) (lines reset (sessionLines chunks')) := by
    rw [hlines, hlines', lines_append, lines_append]
    exact hmore
  have hp := lines_spdSum reset (sessionLines chunks)
  have hq := lines_spdSum reset (sessionLines chunks')
  rw [hspeeds] at hp
  obtain ⟨r, har⟩ := analysed_lines chunks
  obtain ⟨r', har'⟩ := analysed_lines chunks'
  have hstats : p.stats = q.stats := by
    change (analysed chunks).stats = (analysed chunks').stats
    rw [har, har']
    exact hpq.stats
  refine ⟨by rw [hstats], by rw [hstats], by rw [hstats], by rw [hstats], hspeeds, ?_, ?_, ?_, ?_⟩
  · change (analysed chunks).stats.spdSum = _
    rw [har]
    exact hp
  · change (analysed chunks').stats.spdSum = _
    rw [har']
    exact hq
  · change (analysed chunks).totalLines = (analysed chunks').totalLines + 1
    rw [har, har']
    exact hpq.totalLines
  · change (analysed chunks).reporter.total = (analysed chunks').reporter.total + 1
    rw [har, har']
    exact hpq.skipped

/-- A line of the log with a speed. -/
def steerLine : Bytes :=
  bytesOf "[2026-01-02_03:04:05.000006][1][2][3] BYDA::BeamSteerCtrlUnitImpl: unitAddr[7] spd[5]"

omit [Doubles] in
theorem damaged_line_between :
    letI := wholeDoubles
    ∃ p : Pipeline,
      p = analysed [steerLine ++ [newline], bytesOf "[2026", newline :: steerLine] ∧
      p.stats.validSpdSamples = 2 ∧ p.result.totalLines = 3 ∧ p.result.skippedLines = 1 := by
  let _ := wholeDoubles
  have hclean : (analysed [steerLine ++ [newline], steerLine]).stats.validSpdSamples = 2 ∧
      (analysed [steerLine ++ [newline], steerLine]).result.totalLines = 2 ∧
      (analysed [steerLine ++ [newline], steerLine]).result.skippedLines = 0 := by
    decide
  have h := damaged_line_isolated (steerLine ++ [newline]) (bytesOf "[2026") steerLine
      [steerLine ++ [newline], bytesOf "[2026", newline :: steerLine]
      [steerLine ++ [newline], steerLine] (.inr (by simp)) (by decide) (by decide)
      (by simp) (by simp)
  dsimp only at h
  generalize analysed [steerLine ++ [newline], steerLine] = q at h hclean
  generalize analysed [steerLine ++ [newline], bytesOf "[2026", newline :: steerLine] = p at h ⊢
  obtain ⟨-, hvalid, -, -, -, -, -, htotal, hskipped⟩ := h
  obtain ⟨hv, ht, hk⟩ := hclean
  exact ⟨p, rfl, hvalid.trans hv, by rw [htotal, ht], by rw [hskipped, hk]⟩

end Sessions

end Pipeline

end LogTransfer
