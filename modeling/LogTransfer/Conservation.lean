import LogTransfer.Ledger
import LogTransfer.ResultLines

/-!
# No line is lost

The elements of a payload, the entries of the statistics and the reasons of
the skip report add up, and the result file prints these counters and nothing
else. Every sample of the one module with a speed is valid, excluded or
missing.
-/

set_option autoImplicit false

namespace LogTransfer

open Tally

section Elements

/-- The newline-separated elements; the last counts only if it is non-empty. -/
def lineElements (payload : Bytes) : List Bytes :=
  let es := payload.splitOn newline
  if es.getLast? = some [] then es.dropLast else es

theorem placed_elements (pos : ℕ) (es : List Bytes) :
    (LineReassembler.placed pos es).map Prod.snd =
      if es.getLast? = some [] then es.dropLast else es := by
  induction es generalizing pos with
  | nil => rfl
  | cons e es ih =>
    cases es with
    | nil =>
      rw [LineReassembler.placed, List.getLast?_singleton]
      cases e with
      | nil => rfl
      | cons b e => simp
    | cons e' es =>
      rw [LineReassembler.placed_cons pos e _ (List.cons_ne_nil e' es), List.map_cons, ih,
        List.getLast?_cons_cons, List.dropLast_cons_cons]
      split <;> rfl

theorem sessionLines_length (chunks : List Bytes) :
    (Pipeline.sessionLines chunks).length = (lineElements chunks.flatten).length := by
  rw [Pipeline.sessionLines_reference, LineReassembler.reference, List.length_map, lineElements,
    ← placed_elements 0, List.length_map]

end Elements

section Totals

variable [Doubles] {fs : List Fate} {p : Pipeline}

def StatsCollector.moduleCount (s : StatsCollector) (m : ModuleId) : ℕ :=
  ((s.buckets m).map Prod.snd).sum

theorem Books.moduleCount (h : Books fs p) (m : ModuleId) :
    p.stats.moduleCount m = occurs m ((entered fs).map ParsedLine.module) := by
  rw [StatsCollector.moduleCount, (h.buckets m).total fun k => lt_irrefl k, members_length, entries,
    List.map_map]
  rfl

theorem Books.entered_total (h : Books fs p) :
    (moduleIds.map p.stats.moduleCount).sum = (entered fs).length := by
  rw [List.map_congr_left fun m _ => h.moduleCount m,
    sum_occurs moduleIds (by decide) _ fun m _ => mem_moduleIds m, List.length_map]

theorem Books.reported_total (h : Books fs p) :
    (skipReasons.map p.reporter.counts).sum = (reported fs).length := by
  rw [List.map_congr_left fun c _ => h.reasons c]
  exact sum_occurs skipReasons (by decide) _ fun c _ => mem_skipReasons c

theorem Books.beam_total (h : Books fs p) :
    p.stats.moduleCount .beamSteerCtrlUnitImpl =
      p.stats.validSpdSamples + p.stats.excludedSpdSamples + p.stats.missingSpdSamples := by
  rw [h.moduleCount, h.samples, occurs, List.count_eq_countP, List.countP_map]
  apply List.countP_congr
  intro l _
  simp [isBeam]

theorem Books.conserved (h : Books fs p) :
    p.totalLines = (moduleIds.map p.stats.moduleCount).sum + p.reporter.total ∧
      (skipReasons.map p.reporter.counts).sum = p.reporter.total := by
  rw [h.lines, h.entered_total, h.skipped, h.reported_total, entered_reported]
  exact ⟨rfl, rfl⟩

end Totals

namespace Pipeline

variable [Doubles]

theorem analysed_books (chunks : List Bytes) :
    Books (reset.fates (sessionLines chunks)) (analysed chunks) := by
  obtain ⟨r, hr⟩ := analysed_lines chunks
  obtain ⟨h1, h2, h3, h4, h5⟩ := books_session (sessionLines chunks)
  rw [hr]
  exact ⟨h1, h2, h3, h4, h5⟩

/-- Lines and samples are conserved, for every payload and every way it was
cut into ring slots. -/
theorem lines_conserved (chunks : List Bytes) :
    let p := analysed chunks
    let r := p.result
    r.totalLines = (lineElements chunks.flatten).length ∧
      r.totalLines = (moduleIds.map p.stats.moduleCount).sum + r.skippedLines ∧
      (skipReasons.map p.reporter.counts).sum = r.skippedLines ∧
      p.stats.moduleCount .beamSteerCtrlUnitImpl =
        p.stats.validSpdSamples + p.stats.excludedSpdSamples + p.stats.missingSpdSamples ∧
      r.csv.splitOn newline = resultLines p.stats p.reporter r.totalLines ++ [[]] := by
  intro p r
  have h : Books (reset.fates (sessionLines chunks)) p := analysed_books chunks
  refine ⟨?_, h.conserved.1, h.conserved.2, h.beam_total, csv_splitOn _ _ _⟩
  calc r.totalLines = (reset.fates (sessionLines chunks)).length := h.lines
    _ = (sessionLines chunks).length := fates_length _ _
    _ = (lineElements chunks.flatten).length := sessionLines_length chunks

end Pipeline

end LogTransfer
