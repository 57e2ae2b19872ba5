import LogTransfer.DamagedLines
import LogTransfer.SummaryOrder

/-!
# Line endings

The reassembler takes the return off when it emits a line, but it measures the
raw bytes. So a log saved with `\r\n` gives the lines of the same log saved with
`\n`, but for a closed line of exactly the limit: its return is the byte too many.
-/

set_option autoImplicit false

namespace LogTransfer.LineReassembler
open Client (crlf crlf_whole crlf_line)

/-- The lines the callbacks get of a stream that arrives in these chunks. -/
def emitted (maxLen : ℕ) (chunks : List Bytes) : List Line :=
  (feedAll maxLen reset chunks).2 ++ (finish (feedAll maxLen reset chunks).1).2

def pairOf (l : Line) : Bytes × Bool := (l.text, l.tooLong)

def pairs (maxLen : ℕ) (chunks : List Bytes) : List (Bytes × Bool) :=
  (emitted maxLen chunks).map pairOf

/-- The lines of `s` with a newline behind them. -/
def closedLines (s : Bytes) : List Bytes := (s.splitOn newline).dropLast

theorem closedLines_line {piece : Bytes} (hp : newline ∉ piece) (rest : Bytes) :
    closedLines (piece ++ newline :: rest) = piece :: closedLines rest := by
  unfold closedLines
  rw [List.splitOn_append_cons_self_of_not_mem hp,
    List.dropLast_cons_of_ne_nil (List.splitOn_ne_nil newline rest)]

theorem closedLines_tail {tail : Bytes} (hp : newline ∉ tail) : closedLines tail = [] := by
  rw [closedLines, List.splitOn_eq_singleton hp, List.dropLast_singleton]

/-- No closed line has exactly as many bytes as the limit allows. -/
def OffLimit (maxLen : ℕ) (s : Bytes) : Prop := ∀ line ∈ closedLines s, line.length ≠ maxLen

instance (maxLen : ℕ) (s : Bytes) : Decidable (OffLimit maxLen s) :=
  inferInstanceAs (Decidable (∀ line ∈ closedLines s, line.length ≠ maxLen))

section OneLine

theorem pairOf_within {maxLen pos : ℕ} {e : Bytes} (h : e.length ≤ maxLen) :
    pairOf (lineOf maxLen (pos, e)) = (stripReturn e, false) := by
  rw [lineOf, if_neg (Nat.not_lt.mpr h)]
  rfl

theorem pairOf_beyond {maxLen pos : ℕ} {e : Bytes} (h : maxLen < e.length) :
    pairOf (lineOf maxLen (pos, e)) = (e.take maxLen, true) := by
  rw [lineOf, if_pos h]
  rfl

theorem stripReturn_plain {e : Bytes} (h : carriageReturn ∉ e) : stripReturn e = e := by
  rw [stripReturn, if_neg fun hlast => h (List.mem_of_getLast? hlast)]

theorem stripReturn_returned (e : Bytes) : stripReturn (e ++ [carriageReturn]) = e := by
  rw [stripReturn, if_pos List.getLast?_concat, List.dropLast_concat]

/-- What is emitted of a line does not depend on the position. -/
theorem pairOf_placed (maxLen pos pos' : ℕ) (e : Bytes) :
    pairOf (lineOf maxLen (pos, e)) = pairOf (lineOf maxLen (pos', e)) := by
  rcases Nat.lt_or_ge maxLen e.length with h | h
  · rw [pairOf_beyond h, pairOf_beyond h]
  · rw [pairOf_within h, pairOf_within h]

/-- The return is taken off unless it is the byte that passes the limit. -/
theorem pairOf_returned {maxLen pos pos' : ℕ} {e : Bytes} (h : carriageReturn ∉ e) :
    pairOf (lineOf maxLen (pos', e ++ [carriageReturn])) = pairOf (lineOf maxLen (pos, e)) ↔
      e.length ≠ maxLen := by
  have hlen : (e ++ [carriageReturn]).length = e.length + 1 := List.length_append
  rcases Nat.lt_trichotomy e.length maxLen with hlt | heq | hgt
  · have hcr : (e ++ [carriageReturn]).length ≤ maxLen := by omega
    rw [pairOf_within hcr, pairOf_within hlt.le, stripReturn_returned, stripReturn_plain h]
    exact iff_of_true rfl (Nat.ne_of_lt hlt)
  · have hcr : maxLen < (e ++ [carriageReturn]).length := by omega
    rw [pairOf_beyond hcr, pairOf_within heq.le]
    refine iff_of_false ?_ (not_not_intro heq)
    intro hsame
    cases (Prod.mk.inj hsame).2
  · have hcr : maxLen < (e ++ [carriageReturn]).length := by omega
    rw [pairOf_beyond hcr, pairOf_beyond hgt, List.take_append_of_le_length hgt.le]
    exact iff_of_true rfl (Nat.ne_of_gt hgt)

end OneLine

/-- Both endings give the same lines of the split, line by line. -/
theorem reference_crlf (maxLen pos pos' : ℕ) (s : Bytes) (hs : carriageReturn ∉ s) :
    (reference maxLen pos' (crlf s)).map pairOf = (reference maxLen pos s).map pairOf ↔
      OffLimit maxLen s := by
  induction hn : s.length using Nat.strong_induction_on generalizing pos pos' s with
  | _ n ih =>
    by_cases hmem : newline ∈ s
    · obtain ⟨line, rest, rfl, hline⟩ := List.eq_append_cons_of_mem hmem
      rw [List.mem_append, List.mem_cons, not_or, not_or] at hs
      obtain ⟨hplain, -, hrest⟩ := hs
      have hreturn : newline ∉ line ++ [carriageReturn] := by
        rw [List.mem_append, List.mem_singleton, not_or]
        exact ⟨hline, by decide⟩
      have hshort : rest.length < n := by
        rw [← hn, List.length_append, List.length_cons]
        omega
      have htail := ih _ hshort (pos + line.length + 1)
        (pos' + (line ++ [carriageReturn]).length + 1) rest hrest rfl
      rw [crlf_line hline, reference_line _ _ _ _ hreturn, reference_line _ _ _ _ hline,
        List.map_cons, List.map_cons, List.cons.injEq, pairOf_returned hplain, htail, OffLimit,
        OffLimit, closedLines_line hline, List.forall_mem_cons]
    · rw [crlf_whole hmem, OffLimit, closedLines_tail hmem, reference_tail _ _ _ hmem,
        reference_tail _ _ _ hmem]
      refine iff_of_true ?_ (List.forall_mem_nil _)
      split
      · rfl
      · rw [List.map_singleton, List.map_singleton, pairOf_placed maxLen pos' pos]

theorem emitted_reference (maxLen : ℕ) (chunks : List Bytes) :
    emitted maxLen chunks = reference maxLen 0 chunks.flatten :=
  (reassembly_is_split maxLen chunks).1

theorem pairs_crlf {maxLen : ℕ} {chunks chunks' : List Bytes}
    (hs : carriageReturn ∉ chunks.flatten) (hc : chunks'.flatten = crlf chunks.flatten) :
    pairs maxLen chunks' = pairs maxLen chunks ↔ OffLimit maxLen chunks.flatten := by
  unfold pairs
  rw [emitted_reference, emitted_reference, hc]
  exact reference_crlf maxLen 0 0 chunks.flatten hs

end LogTransfer.LineReassembler

namespace LogTransfer.Pipeline
open LineReassembler (pairOf pairs pairs_crlf OffLimit)
open Client (crlf)

variable [Doubles]

/-- All that is counted, apart from the offsets of the skipped lines. -/
structure SameStatistics (p q : Pipeline) : Prop where
  parser : p.parser = q.parser
  stats : p.stats = q.stats
  totalLines : p.totalLines = q.totalLines
  skipped : p.reporter.total = q.reporter.total
  reasons : p.reporter.counts = q.reporter.counts

theorem sameStatistics_line {p q : Pipeline} {l l' : Line} (h : SameStatistics p q)
    (hl : pairOf l = pairOf l') : SameStatistics (line p l) (line q l') := by
  obtain ⟨hparser, hstats, htotal, hskipped, hreasons⟩ := h
  obtain ⟨htext, hlong⟩ := Prod.mk.inj hl
  have hrecord (reason : SkipReason) :
      (p.reporter.record reason l.offset l.text).total =
          (q.reporter.record reason l'.offset l.text).total ∧
        (p.reporter.record reason l.offset l.text).counts =
          (q.reporter.record reason l'.offset l.text).counts := by
    obtain ⟨ht, hr⟩ := p.reporter.record_counters reason l.offset l.text
    obtain ⟨ht', hr'⟩ := q.reporter.record_counters reason l'.offset l.text
    rw [ht, hr, ht', hr', hskipped, hreasons]
    exact ⟨rfl, rfl⟩
  unfold line
  dsimp only
  rw [hparser, hstats, htotal, ← htext, ← hlong]
  split
  · exact ⟨rfl, rfl, rfl, (hrecord _).1, (hrecord _).2⟩
  · split
    · exact ⟨rfl, rfl, rfl, hskipped, hreasons⟩
    · exact ⟨rfl, rfl, rfl, (hrecord _).1, (hrecord _).2⟩

theorem sameStatistics_lines {p q : Pipeline} {ls ls' : List Line} (h : SameStatistics p q)
    (hl : ls.map pairOf = ls'.map pairOf) : SameStatistics (lines p ls) (lines q ls') := by
  induction ls generalizing p q ls' with
  | nil =>
    rw [List.map_eq_nil_iff.mp hl.symm]
    exact h
  | cons l ls ih =>
    cases ls' with
    | nil => cases hl
    | cons l' ls' =>
      obtain ⟨hhead, htail⟩ := List.cons.inj hl
      change SameStatistics (lines (line p l) ls) (lines (line q l') ls')
      exact ih (sameStatistics_line h hhead) htail

theorem sameStatistics_analysed {chunks chunks' : List Bytes}
    (h : pairs kMaxLineLength chunks' = pairs kMaxLineLength chunks) :
    SameStatistics (analysed chunks') (analysed chunks) := by
  obtain ⟨r, hr⟩ := analysed_lines chunks
  obtain ⟨r', hr'⟩ := analysed_lines chunks'
  rw [hr, hr']
  obtain ⟨hparser, hstats, htotal, hskipped, hreasons⟩ :=
    sameStatistics_lines (⟨rfl, rfl, rfl, rfl, rfl⟩ : SameStatistics reset reset) h
  exact ⟨hparser, hstats, htotal, hskipped, hreasons⟩

/-- A log free of returns gives the same lines with either ending if and only if
no closed line of it is exactly as long as the limit, and then, at the limit of
the server, the same statistics. -/
theorem crlf_same_lines (s : Bytes) (chunks chunks' : List Bytes) (hs : carriageReturn ∉ s)
    (hc : chunks.flatten = s) (hc' : chunks'.flatten = crlf s) :
    (∀ maxLen, pairs maxLen chunks' = pairs maxLen chunks ↔ OffLimit maxLen s) ∧
      (OffLimit kMaxLineLength s → SameStatistics (analysed chunks') (analysed chunks)) := by
  subst hc
  refine ⟨fun maxLen => pairs_crlf hs hc', ?_⟩
  intro hoff
  exact sameStatistics_analysed ((pairs_crlf hs hc').mpr hoff)

omit [Doubles] in
theorem crlf_same_lines_short :
    letI := wholeDoubles
    pairs 4 [bytesOf "ab", bytesOf "c\r", bytesOf "\nabcdef\r\n"] =
        pairs 4 [bytesOf "abc\nabc", bytesOf "def\n"] ∧
      OffLimit 4 (bytesOf "abc\nabcdef\n") := by
  let _ := wholeDoubles
  have hoff : OffLimit 4 (bytesOf "abc\nabcdef\n") := by decide
  exact ⟨((crlf_same_lines (bytesOf "abc\nabcdef\n") [bytesOf "abc\nabc", bytesOf "def\n"]
    [bytesOf "ab", bytesOf "c\r", bytesOf "\nabcdef\r\n"] (by decide) (by decide)
    (by decide)).1 4).mpr hoff, hoff⟩

omit [Doubles] in
/-- With a limit of eight bytes the line of the limit test is valid as it stands
and too long with a return before its end. -/
theorem crlf_exact_limit_differs :
    let s := bytesOf "01234567\n"
    carriageReturn ∉ s ∧ pairs 8 [s] = [(bytesOf "01234567", false)] ∧
      pairs 8 [crlf s] = [(bytesOf "01234567", true)] ∧ pairs 8 [crlf s] ≠ pairs 8 [s] := by
  decide

end LogTransfer.Pipeline
