import LogTransfer.Stats

/-!
# The client's reading of a result

`summarizeResultCsv` looks for the metric block by its header and for each row
by its name; `formatSkipWarning` is the one line the user sees of it.
-/

set_option autoImplicit false

namespace LogTransfer.Client

def kMetricHeader : Bytes := bytesOf "metric,value"
def kTotalLines : Bytes := bytesOf "total_lines"
def kSkippedLines : Bytes := bytesOf "skipped_lines"
def kReasonPrefix : Bytes := bytesOf "skip_reason_"
def kMaxReasonsShown : ℕ := 3
def kUint64Max : ℕ := 18446744073709551615

structure ResultSummary where
  totalLines : ℕ
  hasTotal : Bool
  skippedLines : ℕ
  reasons : List (Bytes × ℕ)
  deriving DecidableEq, Repr

def isBlank (b : Byte) : Bool := b = ch ' ' || b = ch '\t'

def isTrailing (b : Byte) : Bool := isBlank b || b = carriageReturn

def trim (text : Bytes) : Bytes :=
  ((text.dropWhile isBlank).reverse.dropWhile isTrailing).reverse

def parseCount (token : Bytes) : Option ℕ :=
  let token := trim token
  if allDigits token && digitsValue token ≤ kUint64Max then some (digitsValue token) else none

structure Scan where
  summary : ResultSummary
  haveSkipped : Bool
  deriving DecidableEq, Repr

/-- One row of the metric block. -/
def scanRow (s : Scan) (line : Bytes) : Scan :=
  match find line [ch ','] 0 with
  | none => s
  | some comma =>
    let name := trim (line.take comma)
    let value := parseCount (line.drop (comma + 1))
    if name = kTotalLines then
      { s with summary := { s.summary with
          hasTotal := value.isSome, totalLines := value.getD s.summary.totalLines } }
    else if name = kSkippedLines then
      { summary := { s.summary with skippedLines := value.getD s.summary.skippedLines },
        haveSkipped := value.isSome }
    else if name.length > kReasonPrefix.length && kReasonPrefix.isPrefixOf name then
      match value with
      | none => s
      | some count =>
        { s with summary := { s.summary with
            reasons := s.summary.reasons ++ [(name.drop kReasonPrefix.length, count)] } }
    else s

def scanLines (s : Scan) (inMetricBlock : Bool) : List Bytes → Scan
  | [] => s
  | line::lines =>
    let line := trim line
    if !inMetricBlock then scanLines s (line = kMetricHeader) lines
    else if line.isEmpty then s
    else scanLines (scanRow s line) true lines

def reasonBefore (a b : Bytes × ℕ) : Bool :=
  if a.2 ≠ b.2 then decide (a.2 > b.2) else !lexLt b.1 a.1

def summarizeResultCsv (csv : Bytes) : ResultSummary :=
  let blank : ResultSummary :=
    { totalLines := 0, hasTotal := false, skippedLines := 0, reasons := [] }
  let s := scanLines { summary := blank, haveSkipped := false } false (csv.splitOn newline)
  let skipped :=
    if s.haveSkipped then s.summary.skippedLines
    else s.summary.reasons.foldl (fun total r => (total + r.2) % (kUint64Max + 1)) 0
  { s.summary with skippedLines := skipped, reasons := s.summary.reasons.mergeSort reasonBefore }

def formatSkipWarning (summary : ResultSummary) : Bytes :=
  if summary.skippedLines = 0 then []
  else
    let total := if summary.hasTotal then bytesOf " of " ++ decimal summary.totalLines else []
    let text := decimal summary.skippedLines ++ total ++ bytesOf " lines were skipped"
    if summary.reasons.isEmpty then text
    else
      let shown := (summary.reasons.take kMaxReasonsShown).map fun r =>
        r.1 ++ bytesOf " " ++ decimal r.2
      let more :=
        if summary.reasons.length > kMaxReasonsShown then
          bytesOf ", +" ++ decimal (summary.reasons.length - kMaxReasonsShown) ++ bytesOf " more"
        else []
      text ++ bytesOf " - " ++ (bytesOf ", ").intercalate shown ++ more

example : formatSkipWarning (summarizeResultCsv (bytesOf
    "metric,value\ntotal_lines,9\nskipped_lines,2\nskip_reason_EMPTY,2\n")) =
      bytesOf "2 of 9 lines were skipped - EMPTY 2" := by decide +kernel

end LogTransfer.Client
