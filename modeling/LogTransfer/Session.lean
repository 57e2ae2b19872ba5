import LogTransfer.Program
import LogTransfer.Framer
import LogTransfer.ParserThread

/-!
# Server session

The callbacks of one session as programs over `Op`. The session's own fields
are passed along; what it reads or changes outside them (parser thread, socket
answers, retained result) is an operation. The field `payload` is history: the
bytes counted into `receivedBytes` and into the payload checksum.
-/

set_option autoImplicit false

namespace LogTransfer
open Program

structure RetainedResult where
  filename : Bytes
  fileSize : ℕ
  uploadCrc32 : Crc
  csv : Bytes
  csvCrc32 : Crc
  deriving DecidableEq, Repr

inductive SessionState where
  | waitHeader | receiving | verifying | analyzing | sendingResult | waitDone | cleanup
  deriving DecidableEq, Repr

def stateName : SessionState → String
  | .waitHeader => "WAIT_HEADER"
  | .receiving => "RECEIVING"
  | .verifying => "VERIFYING"
  | .analyzing => "ANALYZING"
  | .sendingResult => "SENDING_RESULT"
  | .waitDone => "WAIT_DONE"
  | .cleanup => "CLEANUP"

structure ServerConfig where
  chunkSize : ℕ
  ringSlots : ℕ
  idleMs : ℕ
  responseMs : ℕ
  chunk_pos : 0 < chunkSize
  slots_pos : 0 < ringSlots

/-- What the callbacks read but never change: the configuration and the loop's
current time. -/
structure Env extends ServerConfig where
  now : ℕ

def kSuggestedSize : ℕ := 65536

structure Timer where
  due : Option ℕ
  timeoutMs : ℕ
  deriving DecidableEq, Repr

namespace Timer

def start (now timeoutMs : ℕ) : Timer := { due := some (now + timeoutMs), timeoutMs := timeoutMs }

def restart (t : Timer) (now : ℕ) : Timer :=
  if t.due.isSome then { t with due := some (now + t.timeoutMs) } else t

def stop (t : Timer) : Timer := { t with due := none }

def active (t : Timer) : Bool := t.due.isSome

end Timer

structure Socket where
  reading : Bool
  closing : Bool
  pendingWrites : ℕ
  deriving DecidableEq, Repr

structure Session where
  id : ℕ
  socket : Socket
  timer : Timer
  state : SessionState
  framer : Framer
  slotAcquired : Bool
  fileSize : ℕ
  receivedBytes : ℕ
  payloadCrc : Crc
  filename : Bytes
  csv : Bytes
  finishReason : String
  closeAfterSend : Bool
  pendingFailReason : String
  cleanupStarted : Bool
  finished : Bool
  payload : Bytes
  deriving DecidableEq, Repr

/-- `passGuard` marks the point where `onAnalysisComplete` goes past its guard;
it touches nothing. Of the session in `markUploadComplete` only the number
reaches the parser. -/
inductive Op where
  | abortPending
  | acceptPending
  | construct (id : ℕ)
  | startRead
  | beginSession
  | tryAcquireSlot
  | recv (count : ℕ)
  | commitSlot (id : ℕ) (data : Bytes)
  | ringFull
  | setReadStopped (stopped : Bool)
  | markUploadComplete (s : Session)
  | abortSession (id : ℕ)
  | takeResult
  | passGuard (s : Session) (result : AnalysisResult)
  | retain (id : ℕ) (kept : RetainedResult)
  | lookup (filename : Bytes) (fileSize : ℕ) (crc : Crc)
  | send (id : ℕ) (bytes : Bytes)
  deriving DecidableEq, Repr

@[reducible] def Ans : Op → Type
  | .abortPending | .acceptPending | .startRead | .tryAcquireSlot | .ringFull | .send _ _ => Bool
  | .recv _ => Bytes
  | .takeResult => AnalysisResult
  | .lookup _ _ _ => Option RetainedResult
  | _ => Unit

abbrev P (α : Type) := Prog Op Ans α

abbrev act (op : Op) : P (Ans op) := ask op

namespace Session

def construct (id : ℕ) : Session :=
  { id := id, socket := { reading := false, closing := false, pendingWrites := 0 },
    timer := { due := none, timeoutMs := 0 }, state := .waitHeader,
    framer := Framer.reset .uploadHeader .resultRequest, slotAcquired := false, fileSize := 0,
    receivedBytes := 0, payloadCrc := 0#32, filename := [], csv := [], finishReason := "",
    closeAfterSend := false, pendingFailReason := "", cleanupStarted := false, finished := false,
    payload := [] }

section Socket

def setReading (s : Session) (reading : Bool) : Session :=
  { s with socket := { s.socket with reading := reading } }

def startRead (s : Session) : P (Session × Bool) :=
  if s.socket.closing then pure (s, false)
  else if s.socket.reading then pure (s, true)
  else do
    let ok ← act .startRead
    pure (setReading s ok, ok)

def stopRead (s : Session) : Session := setReading s false

def queued (s : Session) : Session :=
  { s with socket := { s.socket with pendingWrites := s.socket.pendingWrites + 1 } }

def send (s : Session) (bytes : Bytes) : P (Session × Bool) :=
  if s.socket.closing then pure (s, false)
  else do
    let ok ← act (.send s.id bytes)
    if ok then pure (queued s, true) else pure (s, false)

end Socket

section Transitions

variable (e : Env)

def timeoutForState (state : SessionState) : ℕ :=
  match state with
  | .waitHeader | .waitDone => e.responseMs
  | .receiving | .sendingResult => e.idleMs
  | .verifying | .analyzing | .cleanup => 0

def armTimer (s : Session) : Session :=
  let timeout := timeoutForState e s.state
  if timeout = 0 then { s with timer := s.timer.stop }
  else { s with timer := Timer.start e.now timeout }

theorem armTimer_eq (s : Session) : ∃ t, armTimer e s = { s with timer := t } := by
  unfold armTimer
  dsimp only
  split
  · exact ⟨_, rfl⟩
  · exact ⟨_, rfl⟩

/-- Only a session that still puts payload into the ring waits for a free slot. -/
def ringBlocks (s : Session) : P Bool :=
  if s.state = .receiving ∧ s.receivedBytes < s.fileSize then act .ringFull else pure false

def resumeReading (s : Session) : P Session :=
  if s.cleanupStarted || s.socket.reading then pure s
  else do
    let blocked ← ringBlocks s
    if blocked then pure s
    else do
      act (.setReadStopped false)
      let started ← startRead s
      pure started.1

def transition (s : Session) (next : SessionState) : P Session :=
  if s.state = next then pure s
  else
    let moved := armTimer e { s with state := next }
    if next ≠ .receiving ∧ next ≠ .cleanup then resumeReading moved else pure moved

def cleaned (s : Session) (reason : String) : Session :=
  { s with cleanupStarted := true, finishReason := reason, state := .cleanup,
           timer := s.timer.stop, socket := { s.socket with reading := false, closing := true } }

def cleanup (s : Session) (reason : String) : P Session :=
  if s.cleanupStarted then pure s
  else do
    act (.abortSession s.id)
    pure (cleaned s reason)

def closeSilently (s : Session) (reason : String) : P Session := cleanup s reason

def failWithAck (s : Session) (status : AckStatus) (reason : String) : P Session := do
  let ack : Ack := { status := status, receivedBytes := s.receivedBytes }
  let (s, ok) ← send s (encodeAck ack)
  if !ok then cleanup s reason
  else pure { stopRead s with closeAfterSend := true, pendingFailReason := reason }

def onTimeout (s : Session) : P Session := cleanup s ("timeout in " ++ stateName s.state)

end Transitions

section Stages

variable (e : Env)

def start (s : Session) : P (Session × Bool) := do
  let (s, ok) ← startRead s
  if !ok then
    let s ← cleanup s "startRead failed"
    pure (s, false)
  else
    act .beginSession
    pure (armTimer e s, true)

def sendResultBody (s : Session) (body : Bytes) (skipEmpty : Bool) : P Session :=
  if skipEmpty && body.isEmpty then pure s
  else do
    let (s, ok) ← send s body
    if ok then pure s else cleanup s "failed to send result.csv"

/-- The two sends which end both `handleResultRequest` and
`onAnalysisComplete`; only the former leaves out an empty body. -/
def sendResult (s : Session) (csvCrc : Crc) (body : Bytes) (skipEmpty : Bool) : P Session := do
  let header : ResultHeader := { csvSize := s.csv.length, crc32 := csvCrc }
  let s ← transition e s .sendingResult
  let (s, ok) ← send s (encodeResultHeader header)
  if !ok then cleanup s "failed to send ResultHeader"
  else sendResultBody s body skipEmpty

def handleResultRequest (s : Session) : P Session :=
  match decodeResultRequest s.framer.message with
  | .error .badValue => failWithAck s .protocolError "invalid result request value"
  | .error _ => closeSilently s "result request decode failed"
  | .ok request => do
    let kept ← act (.lookup request.filename request.fileSize request.crc32)
    match kept with
    | none => failWithAck s .noSuchResult "no retained result for this claim"
    | some kept =>
      if request.startOffset > kept.csv.length then
        failWithAck s .protocolError "result offset beyond csv size"
      else
        sendResult e { s with filename := request.filename, csv := kept.csv } kept.csvCrc32
          (kept.csv.drop request.startOffset) true

def acceptHeader (s : Session) (consumed : ℕ) : P (Session × ℕ) :=
  match decodeUploadHeader s.framer.message with
  | .error .badValue => do
    let s ← failWithAck s .protocolError "invalid header value"
    pure (s, 0)
  | .error _ => do
    let s ← closeSilently s "header decode failed"
    pure (s, 0)
  | .ok header => do
    let s := { s with
      fileSize := header.fileSize, filename := header.filename,
      framer := Framer.reset .uploadTrailer .uploadTrailer }
    let s ← transition e s .receiving
    pure (s, consumed)

/-- `consumeHeader` after the framer has taken its bytes. -/
def headerFramed (s : Session) (consumed : ℕ) : P (Session × ℕ) :=
  match s.framer.status with
  | .needMoreData => pure (s, consumed)
  | .ok =>
    if s.framer.messageType = MessageType.resultRequest.code then do
      let s ← handleResultRequest e s
      pure (s, consumed)
    else acceptHeader e s consumed
  | .badMagic | .badVersion | .badType => do
    let s ← closeSilently s "bad preamble in header"
    pure (s, 0)
  | .badValue => do
    let s ← failWithAck s .protocolError "header value out of range"
    pure (s, 0)

def consumeHeader (s : Session) (data : Bytes) : P (Session × ℕ) :=
  let fed := s.framer.feed data
  headerFramed e { s with framer := fed.1 } fed.2

def applyBackpressure (s : Session) : P Session := do
  let full ← act .ringFull
  if full && s.socket.reading then do
    let s := stopRead s
    act (.setReadStopped true)
    let again ← act .ringFull
    if !again then resumeReading s else pure s
  else pure s

-- One slot per pass; the fuel is the number of bytes left plus one.
def copySlots (s : Session) : ℕ → Bytes → P (Session × Bool)
  | 0, _ => pure (s, true)
  | fuel+1, rest =>
    if rest.isEmpty then pure (s, true)
    else do
      let acquired ← act .tryAcquireSlot
      if !acquired then
        let s ← cleanup s "ring slot unavailable for transition chunk"
        pure (s, false)
      else
        act (.commitSlot s.id (rest.take e.chunkSize))
        copySlots s fuel (rest.drop e.chunkSize)

def countPayload (s : Session) (payload : Bytes) : Session :=
  { s with payloadCrc := crc32 s.payloadCrc payload,
           receivedBytes := s.receivedBytes + payload.length, payload := s.payload ++ payload }

def consumePayload (s : Session) (data : Bytes) : P (Session × ℕ) := do
  let take := min (s.fileSize - s.receivedBytes) data.length
  let payload := data.take take
  let (s, copied) ← copySlots e (countPayload s payload) (take + 1) payload
  if !copied then pure (s, 0)
  else
    let s ← applyBackpressure s
    pure (s, take)

def analyzeAndSendResult (s : Session) : P Session := do
  let s ← transition e s .analyzing
  act (.markUploadComplete s)
  pure s

def verifyAndAck (s : Session) : P Session := do
  let s ← transition e s .verifying
  match decodeUploadTrailer s.framer.message with
  | .error _ => closeSilently s "trailer decode failed"
  | .ok trailer =>
    if trailer.crc32 ≠ s.payloadCrc then failWithAck s .crcMismatch "payload CRC mismatch"
    else
      let ack : Ack := { status := .ok, receivedBytes := s.receivedBytes }
      let (s, ok) ← send s (encodeAck ack)
      if !ok then cleanup s "failed to send Ack" else analyzeAndSendResult e s

def trailerFramed (s : Session) (consumed : ℕ) : P (Session × ℕ) :=
  match s.framer.status with
  | .needMoreData => pure (s, consumed)
  | .ok => do
    let s ← verifyAndAck e s
    pure (s, consumed)
  | .badValue => do
    let s ← failWithAck s .protocolError "invalid trailer value"
    pure (s, 0)
  | _ => do
    let s ← closeSilently s "bad preamble in trailer"
    pure (s, 0)

def consumeTrailer (s : Session) (data : Bytes) : P (Session × ℕ) :=
  let fed := s.framer.feed data
  trailerFramed e { s with framer := fed.1 } fed.2

def consumeDone (s : Session) (data : Bytes) : P (Session × ℕ) :=
  let fed := s.framer.feed data
  let s := { s with framer := fed.1 }
  match fed.1.status with
  | .needMoreData => pure (s, fed.2)
  | .ok => do
    let s ← cleanup s "completed"
    pure (s, fed.2)
  | _ => do
    let s ← closeSilently s "bad DownloadDone"
    pure (s, 0)

end Stages

section Callbacks

variable (e : Env)

def onAllocate (s : Session) : P (Session × ℕ) :=
  let s := { s with slotAcquired := false }
  let buffered := min kSuggestedSize e.chunkSize
  if s.state = .receiving ∧ s.receivedBytes < s.fileSize then do
    let acquired ← act .tryAcquireSlot
    if acquired then pure ({ s with slotAcquired := true }, e.chunkSize) else pure (s, buffered)
  else pure (s, buffered)

/-- The switch in the loop of `onRead`. -/
def consumeStage (s : Session) (data : Bytes) : P (Session × ℕ) :=
  match s.state with
  | .waitHeader => consumeHeader e s data
  | .receiving =>
    if s.receivedBytes < s.fileSize then consumePayload e s data else consumeTrailer e s data
  | .waitDone => consumeDone s data
  | _ => do
    let s ← closeSilently s ("unexpected data in " ++ stateName s.state)
    pure (s, 0)

-- A pass that consumes nothing leaves the loop, so the number of bytes bounds
-- the passes.
def readLoop : ℕ → Session → Bytes → P Session
  | 0, s, _ => pure s
  | fuel+1, s, data =>
    if data.isEmpty || s.cleanupStarted || s.closeAfterSend then pure s
    else do
      let (s, consumed) ← consumeStage e s data
      if consumed = 0 then pure s else readLoop fuel s (data.drop consumed)

/-- The slot path of `onRead`. What follows the trailer in the same read is
not looked at. -/
def readSlot (s : Session) (data : Bytes) : P Session := do
  let take := min (s.fileSize - s.receivedBytes) data.length
  let s := countPayload s (data.take take)
  act (.commitSlot s.id (data.take take))
  let s ← applyBackpressure s
  if (data.drop take).isEmpty then pure s
  else
    let (s, _) ← consumeTrailer e s (data.drop take)
    pure s

def onRead (s : Session) (data : Bytes) : P Session :=
  let s := { s with timer := s.timer.restart e.now }
  if s.slotAcquired then readSlot e { s with slotAcquired := false } data
  else readLoop e (data.length + 1) s data

/-- A readable socket: the buffer, the bytes the kernel has for it, `onRead`. -/
def onReadable (s : Session) (count : ℕ) : P Session := do
  let (s, size) ← onAllocate e s
  let data ← act (.recv (min count size))
  if data.isEmpty then pure s else onRead e s data

def onError (s : Session) (text : String) : P Session := cleanup s text

def onSendComplete (s : Session) (ok : Bool) : P Session :=
  if !ok then pure s
  else if s.closeAfterSend then cleanup s s.pendingFailReason
  else
    let s := { s with timer := s.timer.restart e.now }
    if s.state = .sendingResult then
      transition e { s with framer := Framer.reset .downloadDone .downloadDone } .waitDone
    else pure s

/-- `onWriteCb`: the oldest outstanding write is over. -/
def onWrite (s : Session) (ok : Bool) (text : String) : P Session := do
  let s := { s with
    socket := { s.socket with pendingWrites := s.socket.pendingWrites - 1 } }
  let s ← onSendComplete e s ok
  if ok then pure s else onError s ("write: " ++ text)

def recordOf (s : Session) (result : AnalysisResult) : RetainedResult :=
  { filename := s.filename, fileSize := s.fileSize, uploadCrc32 := s.payloadCrc,
    csv := result.csv, csvCrc32 := result.crc32 }

def onAnalysisComplete (s : Session) (result : AnalysisResult) : P Session :=
  if s.cleanupStarted || s.state ≠ .analyzing then pure s
  else do
    act (.passGuard s result)
    act (.retain s.id (recordOf s result))
    let s := { s with csv := result.csv }
    sendResult e s result.crc32 s.csv false

end Callbacks

section Loops

variable {e : Env} {G : Type} {next : G → (op : Op) → Ans op → G} {R : Rules Op Ans G}
  {I : Bytes → G → Session → Prop} {Q : G → Session → Prop} {g : G} {s : Session}

/-- A read is consumed in rounds, each over what the last one has left. There
are enough of them, or it does not matter where they end. -/
theorem keeps_readLoop
    (hend : ∀ data g s, I data g s →
      data = [] ∨ s.cleanupStarted = true ∨ s.closeAfterSend = true → Q g s)
    (hround : ∀ data g s, I data g s → data ≠ [] → s.cleanupStarted = false →
      s.closeAfterSend = false → Keeps next R (consumeStage e s data) g fun g r =>
        (r.2 = 0 → Q g r.1) ∧ (0 < r.2 → I (data.drop r.2) g r.1))
    (fuel : ℕ) (data : Bytes) (hn : data.length < fuel ∨ ∀ data g s, I data g s → Q g s)
    (h : I data g s) : Keeps next R (readLoop e fuel s data) g Q := by
  induction fuel generalizing g s data with
  | zero =>
    rcases hn with hshort | hcut
    · omega
    · exact hcut data g s h
  | succ fuel ih =>
    unfold readLoop
    split
    · rename_i hstop
      simp only [Bool.or_eq_true, List.isEmpty_iff, or_assoc] at hstop
      exact hend data g s h hstop
    · rename_i hgo
      simp only [Bool.or_eq_true, List.isEmpty_iff, not_or, Bool.not_eq_true] at hgo
      obtain ⟨⟨hne, hc⟩, hf⟩ := hgo
      have hpos : 0 < data.length := List.length_pos_iff.mpr hne
      refine keeps_seq _ _ _ _ _ (hround data g s h hne hc hf) ?_
      rintro g' ⟨s', consumed⟩ ⟨hstop, hgo⟩
      change Keeps next R (if consumed = 0 then _ else _) g' Q
      split
      · rename_i hzero
        exact hstop hzero
      · rename_i hmore
        have hrest (hshort : data.length < fuel + 1) : (data.drop consumed).length < fuel := by
          rw [List.length_drop]
          omega
        exact ih _ (hn.imp_left hrest) (hgo (Nat.pos_of_ne_zero hmore))

end Loops

end Session

end LogTransfer
