import LogTransfer.Analysis

/-!
# Parser thread

The thread is a program counter over the state it shares with the loop thread.
Each step of `parserStep` makes one shared access of `run`,
`consumeReadySlots`, `finishSession` or `resetSessionState`, so the loop thread
can come between any two of them. `ParserLog` is history: no step reads it.
-/

set_option autoImplicit false

namespace LogTransfer

/-- Where `resetSessionState` returns to. -/
inductive Branch where
  | abort | finish
  deriving DecidableEq, Repr

inductive ParserPc where
  | wait | checkAbort
  | peek | checkAbortSlot | feed | release | checkReadStopped | wakeReader
  | checkUpload | checkEmpty
  | flush | writeFiles | publish
  | drain (b : Branch) | resetState (b : Branch) | checkResume (b : Branch)
  | wakeResume (b : Branch)
  | clearAbort | sendAbortDone
  | sendCompletion | clearUpload
  deriving DecidableEq, Repr

structure ParserLog where
  owner : ℕ
  finishFor : ℕ
  completionFor : ℕ
  entered : Bool
  published : ℕ
  completions : ℕ
  rewrites : ℕ
  deriving DecidableEq, Repr

structure ParserThread [Doubles] where
  ring : List Bytes
  uploadComplete : Bool
  abortRequested : Bool
  readStopped : Bool
  completionPending : Bool
  resumePending : Bool
  abortDonePending : Bool
  result : AnalysisResult
  pc : ParserPc
  pipe : Pipeline
  outcome : AnalysisResult
  csvFile : Bytes
  skipReport : Bytes
  log : ParserLog

namespace ParserThread

variable [Doubles]

def initial : ParserThread :=
  { ring := [], uploadComplete := false, abortRequested := false, readStopped := false,
    completionPending := false, resumePending := false, abortDonePending := false,
    result := AnalysisResult.blank, pc := .wait, pipe := Pipeline.reset,
    outcome := AnalysisResult.blank, csvFile := [], skipReport := [],
    log := { owner := 0, finishFor := 0, completionFor := 0, entered := false,
             published := 0, completions := 0, rewrites := 0 } }

section Producer

def beginSession (t : ParserThread) : ParserThread :=
  { t with uploadComplete := false, readStopped := false }

def ringFull (slots : ℕ) (t : ParserThread) : Bool := t.ring.length = slots

def tryAcquireSlot (slots : ℕ) (t : ParserThread) : Bool := t.ring.length ≠ slots

def commitSlot (t : ParserThread) (data : Bytes) : ParserThread :=
  { t with ring := t.ring ++ [data] }

def markUploadComplete (t : ParserThread) (id : ℕ) : ParserThread :=
  { t with uploadComplete := true, log := { t.log with owner := id, entered := false } }

def abortSession (t : ParserThread) : ParserThread := { t with abortRequested := true }

def setReadStopped (t : ParserThread) (stopped : Bool) : ParserThread :=
  { t with readStopped := stopped }

/-- The part of `onCompletionAsync` under the result mutex. -/
def takeResult (t : ParserThread) : AnalysisResult × ParserThread :=
  (t.result, { t with result := AnalysisResult.blank })

end Producer

section Consumer

def goto (t : ParserThread) (pc : ParserPc) : ParserThread := { t with pc := pc }

def awake (t : ParserThread) : Bool := t.abortRequested || t.uploadComplete || !t.ring.isEmpty

def enterFinish (t : ParserThread) : ParserThread :=
  { t with pc := .flush, log := { t.log with finishFor := t.log.owner, entered := true } }

def afterReset : Branch → ParserPc
  | .abort => .clearAbort
  | .finish => .sendCompletion

-- `none`: asleep in the condition variable. The stop flag is left out.
def parserStep (t : ParserThread) : Option ParserThread :=
  match t.pc with
  | .wait => if t.awake then some (t.goto .checkAbort) else none
  | .checkAbort => some (t.goto (if t.abortRequested then .drain .abort else .peek))
  | .peek => some (t.goto (if t.ring.isEmpty then .checkUpload else .checkAbortSlot))
  | .checkAbortSlot => some (t.goto (if t.abortRequested then .checkUpload else .feed))
  | .feed => some { t with pipe := t.pipe.feed (t.ring.headD []), pc := .release }
  | .release => some { t with ring := t.ring.tail, pc := .checkReadStopped }
  | .checkReadStopped => some (t.goto (if t.readStopped then .wakeReader else .peek))
  | .wakeReader => some { t with resumePending := true, pc := .peek }
  | .checkUpload => some (t.goto (if t.uploadComplete then .checkEmpty else .wait))
  | .checkEmpty => some (if t.ring.isEmpty then t.enterFinish else t.goto .wait)
  | .flush => some { t with pipe := t.pipe.finish, outcome := t.pipe.finish.result,
                            pc := .writeFiles }
  | .writeFiles =>
    some { t with csvFile := t.outcome.csv, skipReport := t.pipe.reporter.report, pc := .publish,
                  log := { t.log with rewrites := t.log.rewrites + 1 } }
  | .publish =>
    some { t with result := t.outcome, pc := .drain .finish,
                  log := { t.log with published := t.log.published + 1 } }
  | .drain b =>
    some (if t.ring.isEmpty then t.goto (.resetState b) else { t with ring := t.ring.tail })
  | .resetState b => some { t with pipe := Pipeline.reset, pc := .checkResume b }
  | .checkResume b =>
    some (t.goto (if t.readStopped then .wakeResume b else afterReset b))
  | .wakeResume b => some { t with resumePending := true, pc := afterReset b }
  | .clearAbort => some { t with abortRequested := false, pc := .sendAbortDone }
  | .sendAbortDone => some { t with abortDonePending := true, pc := .wait }
  | .sendCompletion =>
    some { t with completionPending := true, pc := .clearUpload,
                  log := { t.log with completionFor := t.log.finishFor,
                                      completions := t.log.completions + 1 } }
  | .clearUpload => some { t with uploadComplete := false, pc := .wait }

end Consumer

section Inversion

/-- The steps that only decide where to go on. -/
inductive Edge (t : ParserThread) : ParserPc → Prop
  | wake (hpc : t.pc = .wait) (h : t.awake = true) : Edge t .checkAbort
  | toAbort (hpc : t.pc = .checkAbort) (h : t.abortRequested = true) : Edge t (.drain .abort)
  | toSlots (hpc : t.pc = .checkAbort) (h : t.abortRequested = false) : Edge t .peek
  | gotSlot (hpc : t.pc = .peek) (h : t.ring ≠ []) : Edge t .checkAbortSlot
  | noSlot (hpc : t.pc = .peek) (h : t.ring = []) : Edge t .checkUpload
  | leaveSlot (hpc : t.pc = .checkAbortSlot) (h : t.abortRequested = true) : Edge t .checkUpload
  | takeSlot (hpc : t.pc = .checkAbortSlot) (h : t.abortRequested = false) : Edge t .feed
  | toReader (hpc : t.pc = .checkReadStopped) (h : t.readStopped = true) : Edge t .wakeReader
  | nextSlot (hpc : t.pc = .checkReadStopped) (h : t.readStopped = false) : Edge t .peek
  | complete (hpc : t.pc = .checkUpload) (h : t.uploadComplete = true) : Edge t .checkEmpty
  | incomplete (hpc : t.pc = .checkUpload) (h : t.uploadComplete = false) : Edge t .wait
  | notEmpty (hpc : t.pc = .checkEmpty) (h : t.ring ≠ []) : Edge t .wait
  | drained (b : Branch) (hpc : t.pc = .drain b) (h : t.ring = []) : Edge t (.resetState b)
  | toResume (b : Branch) (hpc : t.pc = .checkResume b) (h : t.readStopped = true) :
      Edge t (.wakeResume b)
  | noResume (b : Branch) (hpc : t.pc = .checkResume b) (h : t.readStopped = false) :
      Edge t (afterReset b)

inductive Step (t : ParserThread) : ParserThread → Prop
  | move (pc : ParserPc) (h : Edge t pc) : Step t (t.goto pc)
  | feed (hpc : t.pc = .feed) :
      Step t { t with pipe := t.pipe.feed (t.ring.headD []), pc := .release }
  | release (hpc : t.pc = .release) : Step t { t with ring := t.ring.tail, pc := .checkReadStopped }
  | wakeReader (hpc : t.pc = .wakeReader) : Step t { t with resumePending := true, pc := .peek }
  | enter (hpc : t.pc = .checkEmpty) (h : t.ring = []) : Step t t.enterFinish
  | flush (hpc : t.pc = .flush) :
      Step t { t with pipe := t.pipe.finish, outcome := t.pipe.finish.result, pc := .writeFiles }
  | writeFiles (hpc : t.pc = .writeFiles) :
      Step t { t with csvFile := t.outcome.csv, skipReport := t.pipe.reporter.report,
                      pc := .publish, log := { t.log with rewrites := t.log.rewrites + 1 } }
  | publish (hpc : t.pc = .publish) :
      Step t { t with result := t.outcome, pc := .drain .finish,
                      log := { t.log with published := t.log.published + 1 } }
  | discard (b : Branch) (hpc : t.pc = .drain b) (h : t.ring ≠ []) :
      Step t { t with ring := t.ring.tail }
  | resetState (b : Branch) (hpc : t.pc = .resetState b) :
      Step t { t with pipe := Pipeline.reset, pc := .checkResume b }
  | wakeResume (b : Branch) (hpc : t.pc = .wakeResume b) :
      Step t { t with resumePending := true, pc := afterReset b }
  | clearAbort (hpc : t.pc = .clearAbort) :
      Step t { t with abortRequested := false, pc := .sendAbortDone }
  | sendAbortDone (hpc : t.pc = .sendAbortDone) :
      Step t { t with abortDonePending := true, pc := .wait }
  | sendCompletion (hpc : t.pc = .sendCompletion) :
      Step t { t with completionPending := true, pc := .clearUpload,
                      log := { t.log with completionFor := t.log.finishFor,
                                          completions := t.log.completions + 1 } }
  | clearUpload (hpc : t.pc = .clearUpload) :
      Step t { t with uploadComplete := false, pc := .wait }

theorem move_ite (t : ParserThread) (c : Bool) (yes no : ParserPc) (hy : c = true → Edge t yes)
    (hn : c = false → Edge t no) : Step t (t.goto (if c then yes else no)) := by
  cases c with
  | true => exact .move _ (hy rfl)
  | false => exact .move _ (hn rfl)

/-- Everything a step of the parser thread can do. -/
theorem step_of_parserStep {t t' : ParserThread} (h : t.parserStep = some t') : Step t t' := by
  unfold parserStep at h
  split at h
  · rename_i hpc
    split at h
    · cases h
      exact .move _ (.wake hpc ‹_›)
    · cases h
  all_goals rename_i hpc
  all_goals cases h
  · exact move_ite t _ _ _ (.toAbort hpc) (.toSlots hpc)
  · exact move_ite t _ _ _ (fun h => .noSlot hpc (by simpa using h))
      (fun h => .gotSlot hpc (by simpa using h))
  · exact move_ite t _ _ _ (.leaveSlot hpc) (.takeSlot hpc)
  · exact .feed hpc
  · exact .release hpc
  · exact move_ite t _ _ _ (.toReader hpc) (.nextSlot hpc)
  · exact .wakeReader hpc
  · exact move_ite t _ _ _ (.complete hpc) (.incomplete hpc)
  · split
    · exact .enter hpc (by simpa using ‹t.ring.isEmpty = true›)
    · exact .move _ (.notEmpty hpc (by simpa using ‹¬ t.ring.isEmpty = true›))
  · exact .flush hpc
  · exact .writeFiles hpc
  · exact .publish hpc
  · split
    · exact .move _ (.drained _ hpc (by simpa using ‹t.ring.isEmpty = true›))
    · exact .discard _ hpc (by simpa using ‹¬ t.ring.isEmpty = true›)
  · exact .resetState _ hpc
  · exact move_ite t _ _ _ (.toResume _ hpc) (.noResume _ hpc)
  · exact .wakeResume _ hpc
  · exact .clearAbort hpc
  · exact .sendAbortDone hpc
  · exact .sendCompletion hpc
  · exact .clearUpload hpc

end Inversion

end ParserThread

/-- Inside `finishSession`, or about to clear the flag after it. -/
def ParserPc.finishing : ParserPc → Bool
  | .flush | .writeFiles | .publish | .drain .finish | .resetState .finish
  | .checkResume .finish | .wakeResume .finish | .sendCompletion | .clearUpload => true
  | _ => false

end LogTransfer
