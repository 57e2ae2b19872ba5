import LogTransfer.Interleave
import LogTransfer.Session

/-!
# Session manager

The loop thread: one session at a time, the accept gate, the deferred reap and
the routing of the parser's wake-ups. `Event` is what libuv may call; a
wake-up is delivered when its flag is set, and delivery clears the flag, so
merged wake-ups are one delivery. Shutdown is left out.
-/

set_option autoImplicit false

namespace LogTransfer
open Program Interleave

/-- `retainedResult`: the kept record answers to its own claim only. -/
def retainedResult (retained : Option RetainedResult) (filename : Bytes) (fileSize : ℕ)
    (crc : Crc) : Option RetainedResult :=
  match retained with
  | none => none
  | some kept =>
    if kept.filename ≠ filename || kept.fileSize ≠ fileSize || kept.uploadCrc32 ≠ crc then none
    else some kept

structure World [Doubles] where
  parser : ParserThread
  retained : Option RetainedResult
  backlog : ℕ
  inbox : Bytes

namespace World

variable [Doubles]

def initial : World :=
  { parser := ParserThread.initial, retained := none, backlog := 0, inbox := [] }

/-- `answer` is the outcome of a call into libuv. -/
def exec (cfg : ServerConfig) : (op : Op) → Bool → World → Ans op × World
  | .abortPending, _, w => (w.parser.abortRequested, w)
  | .acceptPending, answer, w =>
    if answer && decide (0 < w.backlog) then (true, { w with backlog := w.backlog - 1 })
    else (false, w)
  | .construct _, _, w =>
    ((), { w with
      inbox := [],
      parser := { w.parser with log := { w.parser.log with entered := false } } })
  | .startRead, answer, w => (answer, w)
  | .beginSession, _, w => ((), { w with parser := w.parser.beginSession })
  | .tryAcquireSlot, _, w => (w.parser.tryAcquireSlot cfg.ringSlots, w)
  | .recv count, _, w => (w.inbox.take count, { w with inbox := w.inbox.drop count })
  | .commitSlot _ data, _, w => ((), { w with parser := w.parser.commitSlot data })
  | .ringFull, _, w => (w.parser.ringFull cfg.ringSlots, w)
  | .setReadStopped b, _, w => ((), { w with parser := w.parser.setReadStopped b })
  | .markUploadComplete s, _, w => ((), { w with parser := w.parser.markUploadComplete s.id })
  | .abortSession _, _, w => ((), { w with parser := w.parser.abortSession })
  | .takeResult, _, w => (w.parser.takeResult.1, { w with parser := w.parser.takeResult.2 })
  | .passGuard _ _, _, w => ((), w)
  | .retain _ kept, _, w => ((), { w with retained := some kept })
  | .lookup filename fileSize crc, _, w => (retainedResult w.retained filename fileSize crc, w)
  | .send _ _, answer, w => (answer, w)

end World

structure Loop where
  session : Option Session
  pendingConnection : Bool
  sessionFinished : Bool
  reaperActive : Bool
  completedSessions : ℕ
  serial : ℕ
  now : ℕ
  deriving DecidableEq, Repr

inductive Event where
  | connection
  | readable (count : ℕ)
  | readError (text : String)
  | writeDone (ok : Bool) (text : String)
  | timeout
  | closed
  | reap
  | completion
  | resume
  | abortDone
  | tick (ms : ℕ)
  deriving DecidableEq, Repr

inductive Peer where
  | parser
  | arrive (bytes : Bytes)
  deriving DecidableEq, Repr

namespace SessionManager

def initial : Loop :=
  { session := none, pendingConnection := false, sessionFinished := false, reaperActive := false,
    completedSessions := 0, serial := 0, now := 0 }

variable (e : Env)

def acceptIfIdle (m : Loop) : P Loop :=
  if m.session.isSome then pure m
  else do
    let accepted ← act .acceptPending
    if !accepted then pure m
    else
      act (.construct (m.serial + 1))
      let (s, started) ← Session.start e (Session.construct (m.serial + 1))
      pure { m with pendingConnection := false, serial := m.serial + 1,
                    session := if started then some s else none }

def acceptWhenParserIdle (m : Loop) : P Loop := do
  let pending ← act .abortPending
  if pending then pure m else acceptIfIdle e m

def onConnection (m : Loop) : P Loop :=
  if m.session.isSome then pure { m with pendingConnection := true }
  else acceptWhenParserIdle e m

def onSessionFinished (m : Loop) : Loop := { m with sessionFinished := true, reaperActive := true }

def onClosed (m : Loop) (s : Session) : Loop :=
  if s.finished then m
  else onSessionFinished { m with session := some { s with finished := true } }

def onReap (m : Loop) : P Loop :=
  let m := { m with reaperActive := false }
  if !m.sessionFinished then pure m
  else acceptWhenParserIdle e
    { m with sessionFinished := false, session := none,
             completedSessions := m.completedSessions + 1 }

def forSession (m : Loop) (f : Session → P Session) : P Loop :=
  match m.session with
  | none => pure m
  | some s => do
    let s ← f s
    pure { m with session := some s }

def onCompletionAsync (m : Loop) : P Loop := do
  let result ← act .takeResult
  forSession m fun s => Session.onAnalysisComplete e s result

def onResumeAsync (m : Loop) : P Loop := forSession m Session.resumeReading

def expire (s : Session) : P Session := Session.onTimeout { s with timer := s.timer.stop }

end SessionManager

namespace Server
open SessionManager

variable [Doubles] (cfg : ServerConfig)

def env (m : Loop) : Env := { cfg with now := m.now }

def sessionEvent (m : Loop) (w : World) (ready : Session → Bool) (f : Session → P Session) :
    Option (P Loop × World) :=
  if m.session.any ready then some (forSession m f, w) else none

def start : Event → Loop → World → Option (P Loop × World)
  | .connection, m, w =>
    some (onConnection (env cfg m) m, { w with backlog := w.backlog + 1 })
  | .readable count, m, w =>
    sessionEvent m w (·.socket.reading) fun s => s.onReadable (env cfg m) count
  | .readError text, m, w => sessionEvent m w (·.socket.reading) fun s => s.onError text
  | .writeDone ok text, m, w =>
    sessionEvent m w (fun s => decide (0 < s.socket.pendingWrites)) fun s =>
      s.onWrite (env cfg m) ok text
  | .timeout, m, w => sessionEvent m w (fun s => s.timer.due.any (· ≤ m.now)) expire
  | .closed, m, w =>
    match m.session with
    | none => none
    | some s =>
      if s.socket.closing && !s.finished && s.socket.pendingWrites = 0 then
        some (pure (onClosed m s), w)
      else none
  | .reap, m, w => if m.reaperActive then some (onReap (env cfg m) m, w) else none
  | .completion, m, w =>
    if w.parser.completionPending then
      some (onCompletionAsync (env cfg m) m,
        { w with parser := { w.parser with completionPending := false } })
    else none
  | .resume, m, w =>
    if w.parser.resumePending then
      some (onResumeAsync m, { w with parser := { w.parser with resumePending := false } })
    else none
  | .abortDone, m, w =>
    if w.parser.abortDonePending then
      some (acceptWhenParserIdle (env cfg m) m,
        { w with parser := { w.parser with abortDonePending := false } })
    else none
  | .tick ms, m, w => some (pure { m with now := m.now + ms }, w)

def peer : Peer → World → Option World
  | .parser, w => w.parser.parserStep.map fun t => { w with parser := t }
  | .arrive bytes, w => some { w with inbox := w.inbox ++ bytes }

end Server

end LogTransfer
