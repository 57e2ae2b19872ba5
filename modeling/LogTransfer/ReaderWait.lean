import LogTransfer.CondVar
import LogTransfer.UploadConduct

/-!
# The wait of the file reader

`readLoop` waits for room in a full ring. Here the reader looks at the
predicate with the mutex held and blocks in a step of its own, and the
notifications of the loop thread are operations of their own. `voiced` puts
them into the callbacks of the service, where the source has them.
-/

set_option autoImplicit false

namespace LogTransfer.Client
open Program Interleave CondVar

inductive CvOp where
  | shared (op : Op)
  | notifyAll
  deriving DecidableEq, Repr

@[reducible] def CvAns : CvOp → Type
  | .shared op => Ans op
  | .notifyAll => Unit

abbrev CvP (α : Type) := Prog CvOp CvAns α

/-- Where the loop thread is between two notifications: `chunk` in `pumpUpload`
with a slot to release, `drain` in `drainRing`. -/
inductive Voice where
  | plain | chunk | drain
  deriving DecidableEq, Repr

namespace Voice

/-- `drainRing` is over before this operation. `handle` goes from there to
`beginUpload`, also when the ring was found empty. -/
def ends : Voice → Op → Bool
  | .drain, .tryPeek | .drain, .release => false
  | .drain, _ => true
  | .plain, .beginUpload _ _ => true
  | .plain, _ | .chunk, _ => false

/-- Operations with a notification of their own: `FileReader::abortUpload` and
the release in `pumpUpload`. -/
def speaks : Voice → Op → Bool
  | _, .abortUpload => true
  | .chunk, .release => true
  | _, _ => false

def turn : Voice → Op → Voice
  | _, .abortUpload => .drain
  | _, .send (.chunk _) => .chunk
  | .drain, .tryPeek => .drain
  | .drain, .release | .plain, .release => .drain
  | _, _ => .plain

end Voice

section Voiced

variable {α β : Type}

def notifyIf (b : Bool) (p : CvP α) : CvP α := if b then .call .notifyAll fun _ => p else p

def voiced : Voice → P α → CvP α
  | v, .done a => notifyIf (v = .drain) (.done a)
  | v, .call op k => notifyIf (v.ends op)
      (.call (.shared op) fun a => notifyIf (v.speaks op) (voiced (v.turn op) (k a)))

/-- The callback without its notifications. -/
def silent : CvP α → P α
  | .done a => .done a
  | .call .notifyAll k => silent (k ())
  | .call (.shared op) k => .call op fun a => silent (k a)

theorem silent_notifyIf (b : Bool) (p : CvP α) : silent (notifyIf b p) = silent p := by
  cases b <;> rfl

/-- Nothing but notifications is added. -/
theorem silent_voiced (v : Voice) (p : P α) : silent (voiced v p) = p := by
  induction p generalizing v with
  | done a => exact silent_notifyIf _ _
  | call op k ih =>
    rw [voiced, silent_notifyIf]
    change Prog.call op _ = Prog.call op k
    congr 1
    funext a
    rw [silent_notifyIf]
    exact ih a _

end Voiced

section Source

/-! The functions that notify, as the source has them. -/

def shared (op : Op) : CvP (Ans op) := ask (CvOp.shared op)

def notifySpaceAvailable : CvP Unit := ask CvOp.notifyAll

def readerAbort : CvP Unit := do
  shared .abortUpload
  ask CvOp.notifyAll

def cvDrainLoop : ℕ → CvP Unit
  | 0 => pure ()
  | fuel+1 => do
    let view ← shared .tryPeek
    match view with
    | none => pure ()
    | some _ => do
      shared .release
      cvDrainLoop fuel

def cvDrainRing : CvP Unit := do
  cvDrainLoop (kDefaultSlotCount + 2)
  notifySpaceAvailable

def cvAbortUpload (s : Service) (reason : Bytes) (level : LogLevel) : CvP Service := do
  readerAbort
  cvDrainRing
  shared (.emit (.log level reason))
  shared (.emit (.session .idle))
  pure (Service.closeSocket { s with uploading := false })

def cvFailSession (s : Service) (reason : Bytes) (level : LogLevel) : CvP Service := do
  if s.uploading then
    readerAbort
    cvDrainRing
  shared (.emit (.log level reason))
  shared (.emit (.session .idle))
  pure (Service.closeSocket s.failed)

def cvSend (s : Service) (m : Message) : CvP (Service × Bool) :=
  if !s.isOpen then pure (s, false)
  else do
    let ok ← shared (.send m)
    if ok then pure (s.queued, true) else pure (s, false)

def cvPumpLoop : ℕ → Service → CvP (Service × Bool)
  | 0, s => pure (s, true)
  | fuel+1, s =>
    if s.inFlightWrites < kMaxInFlightWrites then do
      let view ← shared .tryPeek
      match view with
      | none => pure (s, true)
      | some chunk => do
        let (s, ok) ← cvSend { s with uploadCrc := crc32 s.uploadCrc chunk } (.chunk chunk)
        let s := { s with inFlightWrites := s.inFlightWrites + 1 }
        shared .release
        notifySpaceAvailable
        if !ok then
          let s ← cvAbortUpload s (bytesOf "Send failed: ") .error
          pure (s, false)
        else cvPumpLoop fuel { s with uploadSent := s.uploadSent + chunk.length }
    else pure (s, true)

variable {α : Type}

/-- A drain that has given back a slot, or follows an abort. -/
theorem voiced_drainLoop (n : ℕ) (p : P α) :
    voiced .drain (Service.drainLoop n >>= fun _ => p) =
      cvDrainLoop n >>= fun _ => voiced .drain p := by
  induction n with
  | zero => rfl
  | succ n ih =>
    change Prog.call _ _ = Prog.call _ _
    congr 1
    funext view
    cases view with
    | none => rfl
    | some chunk =>
      change Prog.call _ _ = Prog.call _ _
      congr 1
      funext u
      exact ih

/-- The reader is stopped, and `p` goes on. -/
theorem voiced_stop (p : P α) :
    voiced .plain (act .abortUpload >>= fun _ => Service.drainRing >>= fun _ => p) =
      readerAbort >>= fun _ => cvDrainLoop (kDefaultSlotCount + 2) >>= fun _ =>
        voiced .drain p := by
  change Prog.call (CvOp.shared .abortUpload) _ = Prog.call (CvOp.shared .abortUpload) _
  congr 1
  funext u
  change Prog.call CvOp.notifyAll _ = Prog.call CvOp.notifyAll _
  congr 1
  funext u'
  exact voiced_drainLoop _ p

theorem voiced_abortUpload (s : Service) (reason : Bytes) (level : LogLevel)
    (f : Service → P α) :
    voiced .plain (s.abortUpload reason level >>= f) =
      cvAbortUpload s reason level >>= fun s => voiced .plain (f s) := by
  simp only [Service.abortUpload, cvAbortUpload, cvDrainRing, bind_assoc]
  exact voiced_stop _

theorem voiced_failSession (s : Service) (reason : Bytes) (level : LogLevel)
    (f : Service → P α) :
    voiced .plain (s.failSession reason level >>= f) =
      cvFailSession s reason level >>= fun s => voiced .plain (f s) := by
  unfold Service.failSession cvFailSession Service.stopReader
  split
  · simp only [cvDrainRing, bind_assoc]
    exact voiced_stop _
  · rfl

/-- `drainRing` in front of `beginUpload`. -/
theorem voiced_begin (path : Bytes) (size : ℕ) (k : Option String → P α) :
    voiced .plain (Service.drainRing >>= fun _ => .call (.beginUpload path size) k) =
      cvDrainRing >>= fun _ => .call (.shared (.beginUpload path size)) fun error =>
        voiced .plain (k error) := by
  change Prog.call (CvOp.shared .tryPeek) _ = Prog.call (CvOp.shared .tryPeek) _
  congr 1
  funext view
  cases view with
  | none => rfl
  | some chunk =>
    change Prog.call (CvOp.shared .release) _ = Prog.call (CvOp.shared .release) _
    congr 1
    funext u
    change voiced .drain (Service.drainLoop _ >>= fun _ => _) = _
    rw [voiced_drainLoop]
    change _ = (cvDrainLoop _ >>= fun _ => notifySpaceAvailable) >>= _
    rw [bind_assoc]
    rfl

theorem voiced_pumpLoop (n : ℕ) {s : Service} (ho : s.isOpen = true) :
    voiced .plain (s.pumpLoop n) = cvPumpLoop n s := by
  induction n generalizing s with
  | zero => rfl
  | succ n ih =>
    unfold Service.pumpLoop cvPumpLoop
    split
    · change Prog.call _ _ = Prog.call _ _
      congr 1
      funext view
      cases view with
      | none => rfl
      | some chunk =>
        have ho' : Service.isOpen { s with uploadCrc := crc32 s.uploadCrc chunk } = true := ho
        change voiced .plain (Service.send _ _ >>= _) = cvSend _ _ >>= _
        simp only [Service.send, cvSend, ho', Bool.not_true, Bool.false_eq_true, if_false]
        change Prog.call _ _ = Prog.call _ _
        congr 1
        funext ok
        cases ok with
        | false =>
          change Prog.call _ _ = Prog.call _ _
          congr 1
          funext u
          change Prog.call _ _ = Prog.call _ _
          congr 1
          funext u'
          exact voiced_abortUpload _ _ _ _
        | true =>
          change Prog.call _ _ = Prog.call _ _
          congr 1
          funext u
          change Prog.call _ _ = Prog.call _ _
          congr 1
          funext u'
          exact ih ((isOpen_queued _).trans ho')
    · rfl

end Source

section World

/-- The predicate of the wait. The quit flag is left out. -/
def FileReader.room (r : FileReader) : Bool := r.abort || !r.full

structure WaitWorld where
  world : World
  waiter : Waiter
  deriving DecidableEq, Repr

namespace WaitWorld

/-- The reader's step, its wait in `readLoop` taken apart. -/
def readerStep (w : WaitWorld) : Option WaitWorld :=
  match w.waiter with
  | .blocked => none
  | .armed => some { w with waiter := .blocked }
  | .awake =>
    if w.world.reader.pc = .waitSpace && !w.world.reader.room then
      some { w with waiter := .armed }
    else w.world.reader.readerStep.map fun r => { w with world := { w.world with reader := r } }

-- The mutex is free once the reader blocks. `beginUpload` notifies with it held.
def hear : (op : Op) → Ans op → Waiter → Waiter
  | .beginUpload _ _, error, w => if error.isNone then w.released.notified else w.released
  | .takeError, _, w => w.released
  | .takeCommand, _, w | .connect _ _, _, w | .send _, _, w | .recv _, _, w | .emit _, _, w
  | .abortUpload, _, w | .tryPeek, _, w | .release, _, w | .failed, _, w
  | .readComplete, _, w | .ringEmpty, _, w | .setResult _, _, w | .clearResult, _, w
  | .note _, _, w => w

def exec (files : Bytes → Option Bytes) : (op : CvOp) → Bool → WaitWorld →
    CvAns op × WaitWorld
  | .shared op, answer, w =>
    let r := World.exec files op answer w.world
    (r.1, { world := r.2, waiter := hear op r.1 w.waiter })
  | .notifyAll, _, w => ((), { w with waiter := w.waiter.notified })

def peer (w : WaitWorld) : Peer → Option WaitWorld
  | .reader => w.readerStep
  | d => (Client.peer w.world d).map fun world => { w with world := world }

end WaitWorld

/-- So many notifications are certain to come before the callback ends. -/
def owedNext (g : ℕ) : (op : CvOp) → CvAns op → ℕ
  | .shared .abortUpload, _ => 2
  | .shared .release, _ => 1
  | .notifyAll, _ => g - 1
  | .shared _, _ => g

def waitMachine (files : Bytes → Option Bytes) :
    Machine CvOp CvAns WaitWorld Service Signal Peer ℕ where
  exec := WaitWorld.exec files
  start e s w :=
    if ready s w.world e then
      some (voiced .plain (callback s e), { w with world := delivered w.world e })
    else none
  peer d w := w.peer d
  next := owedNext
  begin _ g := g

abbrev WaitState := Config CvOp CvAns WaitWorld Service ℕ

def waitInitial : WaitState :=
  { shared := { world := World.initial, waiter := .awake }, ghost := 0,
    thread := .done Service.initial }

end World

end LogTransfer.Client
