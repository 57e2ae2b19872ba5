import LogTransfer.Program
import LogTransfer.Framer
import LogTransfer.FileReader
import LogTransfer.ResultSummary

/-!
# Transfer service of the client

The callbacks of the client's loop thread as programs over `Op`. The fields
that only this thread touches are passed along; the command and event queues,
the file reader, the stored result and the socket's answers are operations. A
text that libuv supplies arrives with the callback that reports it; the
progress values are left out.
-/

set_option autoImplicit false

namespace LogTransfer.Client
open Program

inductive LinkState where
  | disconnected | reconnecting | connected
  deriving DecidableEq, Repr

inductive SessionState where
  | idle | connecting | sendingHeader | streaming | waitAck | waitResult | receivingResult
  | requestingResult | done
  deriving DecidableEq, Repr

inductive LogLevel where
  | info | warn | error
  deriving DecidableEq, Repr

inductive Command where
  | connect (ip : Bytes) (port : ℕ)
  | disconnect
  | startUpload (path filename : Bytes) (size : ℕ)
  | cancelUpload
  | requestResult
  deriving DecidableEq, Repr

/-- What the worker tells the screen. -/
inductive Event where
  | link (link : LinkState)
  | session (session : SessionState)
  | claim (available : Bool)
  | log (level : LogLevel) (message : Bytes)
  deriving DecidableEq, Repr

/-- What the service hands to its socket. -/
inductive Message where
  | header (m : UploadHeader)
  | chunk (data : Bytes)
  | trailer (m : UploadTrailer)
  | request (m : ResultRequest)
  | downloadDone
  deriving DecidableEq, Repr

def Message.bytes : Message → Bytes
  | .header m => encodeUploadHeader m
  | .chunk data => data
  | .trailer m => encodeUploadTrailer m
  | .request m => encodeResultRequest m
  | .downloadDone => encodeDownloadDone

structure Socket where
  connecting : Bool
  connected : Bool
  reading : Bool
  closing : Bool
  pendingWrites : ℕ
  deriving DecidableEq, Repr

inductive Expecting where
  | nothing | ack | resultHeader | csvPayload | resumeReply
  deriving DecidableEq, Repr

structure ResultClaim where
  filename : Bytes
  fileSize : ℕ
  crc32 : Crc
  received : ℕ
  deriving DecidableEq, Repr

def ResultClaim.none : ResultClaim :=
  { filename := [], fileSize := 0, crc32 := 0#32, received := 0 }

structure Service where
  socket : Option Socket
  connectTimer : Bool
  sessionCompleted : Bool
  uploading : Bool
  inFlightWrites : ℕ
  trailerSent : Bool
  uploadTotal : ℕ
  uploadSent : ℕ
  uploadCrc : Crc
  uploadFilename : Bytes
  expecting : Expecting
  framer : Framer
  csv : Bytes
  csvSize : ℕ
  csvExpectedCrc : Crc
  hasClaim : Bool
  claim : ResultClaim
  deriving DecidableEq, Repr

/-- Points of a callback that the history looks at. They touch nothing. -/
inductive Note where
  | header (header : ResultHeader)
  | payload (s : Service)
  | accept (s : Service)
  | request (s : Service) (request : ResultRequest)
  | unexpected (count : ℕ)
  deriving DecidableEq, Repr

inductive Op where
  | takeCommand
  | connect (ip : Bytes) (port : ℕ)
  | send (m : Message)
  | recv (count : ℕ)
  | emit (event : Event)
  | beginUpload (path : Bytes) (size : ℕ)
  | abortUpload
  | tryPeek
  | release
  | failed
  | takeError
  | readComplete
  | ringEmpty
  | setResult (csv : Bytes)
  | clearResult
  | note (n : Note)
  deriving DecidableEq, Repr

@[reducible] def Ans : Op → Type
  | .takeCommand => Option Command
  | .connect _ _ | .send _ | .failed | .readComplete | .ringEmpty => Bool
  | .recv _ => Bytes
  | .beginUpload _ _ => Option String
  | .tryPeek => Option Bytes
  | .takeError => String
  | _ => Unit

abbrev P (α : Type) := Prog Op Ans α

abbrev act (op : Op) : P (Ans op) := ask op

def kMaxInFlightWrites : ℕ := 8
def kSuggestedSize : ℕ := 65536
def kSizeRange : ℕ := 18446744073709551616

namespace Service

def initial : Service :=
  { socket := none, connectTimer := false, sessionCompleted := false, uploading := false,
    inFlightWrites := 0, trailerSent := false, uploadTotal := 0, uploadSent := 0,
    uploadCrc := 0#32, uploadFilename := [], expecting := .nothing,
    framer := Framer.reset .ack .ack, csv := [], csvSize := 0, csvExpectedCrc := 0#32,
    hasClaim := false, claim := ResultClaim.none }

section Queues

def pushLog (level : LogLevel) (message : Bytes) : P Unit := act (.emit (.log level message))

def pushLink (link : LinkState) : P Unit := act (.emit (.link link))

def pushSession (session : SessionState) : P Unit := act (.emit (.session session))

end Queues

section Socket

/-- The socket exists and nobody closes it. -/
def isOpen (s : Service) : Bool := s.socket.any fun k => !k.closing

def closeSocket (s : Service) : Service :=
  { s with socket := s.socket.map fun k => { k with reading := false, closing := true } }

def startRead (s : Service) : Service × Bool :=
  if s.isOpen then ({ s with socket := s.socket.map fun k => { k with reading := true } }, true)
  else (s, false)

def queued (s : Service) : Service :=
  { s with socket := s.socket.map fun k => { k with pendingWrites := k.pendingWrites + 1 } }

def send (s : Service) (m : Message) : P (Service × Bool) :=
  if !s.isOpen then pure (s, false)
  else do
    let ok ← act (.send m)
    if ok then pure (queued s, true) else pure (s, false)

end Socket

section Endings

-- The reader stops at its next look at the abort flag, so the ring can grow
-- by one slot while it is drained.
def drainLoop : ℕ → P Unit
  | 0 => pure ()
  | fuel+1 => do
    let view ← act .tryPeek
    match view with
    | none => pure ()
    | some _ => do
      act .release
      drainLoop fuel

def drainRing : P Unit := drainLoop (kDefaultSlotCount + 2)

def abortUpload (s : Service) (reason : Bytes) (level : LogLevel) : P Service := do
  act .abortUpload
  drainRing
  pushLog level reason
  pushSession .idle
  pure (closeSocket { s with uploading := false })

/-- What `failSession` leaves of the session: the bytes received are kept only
for a claim. -/
def failed (s : Service) : Service :=
  if s.hasClaim then
    { s with uploading := false, expecting := .nothing,
             claim := { s.claim with received := s.csv.length } }
  else { s with uploading := false, expecting := .nothing, csv := [] }

def stopReader (s : Service) : P Unit :=
  if s.uploading then do
    act .abortUpload
    drainRing
  else pure ()

def failSession (s : Service) (reason : Bytes) (level : LogLevel) : P Service := do
  stopReader s
  pushLog level reason
  pushSession .idle
  pure (closeSocket (failed s))

def dropResultClaim (s : Service) : P Service := do
  act (.emit (.claim false))
  pure { s with hasClaim := false, claim := ResultClaim.none }

end Endings

section Upload

def finishUpload (s : Service) : P Service := do
  let (s, ok) ← send { s with trailerSent := true } (.trailer { crc32 := s.uploadCrc })
  if !ok then abortUpload s (bytesOf "Failed to send the upload trailer: ") .error
  else do
    pushLog .info (bytesOf "Upload finished (" ++ decimal s.uploadSent ++
      bytesOf " bytes, crc32=" ++ decimal s.uploadCrc.toNat ++ bytesOf ") - waiting for ack")
    pushSession .waitAck
    pure { s with uploading := false, expecting := .ack, framer := Framer.reset .ack .ack }

-- A pass adds a write in flight, so the limit on these bounds the passes. The
-- answer is `false` once the upload was aborted.
def pumpLoop : ℕ → Service → P (Service × Bool)
  | 0, s => pure (s, true)
  | fuel+1, s =>
    if s.inFlightWrites < kMaxInFlightWrites then do
      let view ← act .tryPeek
      match view with
      | none => pure (s, true)
      | some chunk => do
        let (s, ok) ← send { s with uploadCrc := crc32 s.uploadCrc chunk } (.chunk chunk)
        let s := { s with inFlightWrites := s.inFlightWrites + 1 }
        act .release
        if !ok then
          let s ← abortUpload s (bytesOf "Send failed: ") .error
          pure (s, false)
        else pumpLoop fuel { s with uploadSent := s.uploadSent + chunk.length }
    else pure (s, true)

/-- The end of `pumpUpload`: the trailer, once everything was read and sent. -/
def pumpEnd (s : Service) : P Service :=
  if s.trailerSent then pure s
  else do
    let complete ← act .readComplete
    if !complete then pure s
    else
      let empty ← act .ringEmpty
      if empty && decide (s.uploadTotal ≤ s.uploadSent) then finishUpload s else pure s

def pumpUpload (s : Service) : P Service :=
  if !s.uploading || !s.isOpen then pure s
  else do
    let failed ← act .failed
    if failed then
      let error ← act .takeError
      abortUpload s (bytesOf error) .error
    else
      let (s, going) ← pumpLoop kMaxInFlightWrites s
      if going then pumpEnd s else pure s

end Upload

section Download

def warnSkipped (skipWarning : Bytes) : P Unit :=
  if skipWarning.isEmpty then pure () else pushLog .warn skipWarning

def finishDownload (s : Service) : P Service :=
  let actual := crc32 0#32 s.csv
  if actual ≠ s.csvExpectedCrc then
    let claim := if s.hasClaim then { s.claim with received := 0 } else s.claim
    failSession { s with csv := [], claim := claim }
      (bytesOf "result.csv CRC mismatch (expected " ++ decimal s.csvExpectedCrc.toNat ++
        bytesOf ", got " ++ decimal actual.toNat ++ bytesOf ")") .error
  else do
    let skipWarning := formatSkipWarning (summarizeResultCsv s.csv)
    act (.setResult s.csv)
    let s ← dropResultClaim { s with csv := [], expecting := .nothing }
    let (s, ok) ← send s .downloadDone
    if !ok then failSession s (bytesOf "Failed to send DownloadDone: ") .error
    else do
      pushLog .info (bytesOf "result.csv verified - session complete")
      warnSkipped skipWarning
      pushSession .done
      pure { s with sessionCompleted := true }

def receiving (s : Service) (header : ResultHeader) (resuming : Bool) : Service :=
  { s with csvSize := header.csvSize, csvExpectedCrc := header.crc32,
           csv := if resuming then s.csv else [], expecting := .csvPayload }

def completed (s : Service) : P Service :=
  if s.csv.length = s.csvSize then finishDownload s else pure s

/-- `beginCsvReceive` past its two checks. -/
def receiveCsv (s : Service) (header : ResultHeader) (resuming : Bool) : P Service := do
  let s := receiving s header resuming
  pushLog .info
    (if resuming then
      bytesOf "Resuming result.csv at " ++ decimal s.csv.length ++ bytesOf " of " ++
        decimal s.csvSize ++ bytesOf " bytes"
    else bytesOf "Receiving result.csv (" ++ decimal s.csvSize ++ bytesOf " bytes)")
  pushSession .receivingResult
  completed s

def beginCsvReceive (s : Service) (header : ResultHeader) (resuming : Bool) :
    P (Service × Bool) := do
  act (.note (.header header))
  if header.csvSize > kMaxCsvSize then do
    let s ← failSession s
      (bytesOf "Server declared an oversized result.csv (" ++ decimal header.csvSize ++
        bytesOf " bytes > limit " ++ decimal kMaxCsvSize ++ bytesOf ").") .error
    pure (s, false)
  else if resuming && decide (header.csvSize < s.csv.length) then do
    let s ← failSession s
      (bytesOf "Server offered a result smaller than what was already received (" ++
        decimal header.csvSize ++ bytesOf " < " ++ decimal s.csv.length ++
        bytesOf ") - the retained result is not the one being resumed.") .error
    pure (s, false)
  else do
    let s ← receiveCsv s header resuming
    pure (s, true)

def appended (s : Service) (bytes : Bytes) : Service :=
  let csv := s.csv ++ bytes
  { s with csv := csv,
           claim := if s.hasClaim then { s.claim with received := csv.length } else s.claim }

def handleCsvBytes (s : Service) (data : Bytes) : P (Service × ℕ) := do
  act (.note (.payload s))
  let remaining := (s.csvSize + kSizeRange - s.csv.length) % kSizeRange
  let take := min data.length remaining
  let s ← completed (appended s (data.take take))
  pure (s, take)

def rejection : AckStatus → Bytes
  | .crcMismatch => bytesOf "CRC mismatch"
  | .sizeMismatch => bytesOf "size mismatch"
  | .protocolError => bytesOf "protocol error"
  | .serverError => bytesOf "server error"
  | _ => bytesOf "unknown error"

def failBytes (s : Service) (reason : String) : P (Service × ℕ) := do
  let s ← failSession s (bytesOf reason) .error
  pure (s, 0)

def acceptAck (s : Service) (ack : Ack) : P Service := do
  act (.emit (.claim true))
  pushLog .info (bytesOf "Server verified the upload (" ++ decimal ack.receivedBytes ++
    bytesOf " bytes) - analyzing")
  pushSession .waitResult
  pure { s with
    hasClaim := true,
    claim := { filename := s.uploadFilename, fileSize := s.uploadTotal, crc32 := s.uploadCrc,
               received := 0 },
    expecting := .resultHeader, framer := Framer.reset .resultHeader .resultHeader }

def ackFramed (s : Service) (consumed : ℕ) : P (Service × ℕ) :=
  match decodeAck s.framer.message with
  | .error _ => failBytes s "Cannot decode the ack from server."
  | .ok ack =>
    if ack.status ≠ .ok then do
      let s ← failSession s (bytesOf "Server rejected the upload: " ++ rejection ack.status ++
        bytesOf " (received " ++ decimal ack.receivedBytes ++ bytesOf " bytes)") .error
      pure (s, 0)
    else do
      let s ← acceptAck s ack
      pure (s, consumed)

/-- The part that the three message handlers share: the framer takes its bytes,
and a whole message goes to `whole`. -/
def framed (s : Service) (data : Bytes) (malformed : String)
    (whole : Service → ℕ → P (Service × ℕ)) : P (Service × ℕ) :=
  let fed := s.framer.feed data
  let s := { s with framer := fed.1 }
  match s.framer.status with
  | .needMoreData => pure (s, fed.2)
  | .ok => whole s fed.2
  | _ => failBytes s malformed

def handleAckBytes (s : Service) (data : Bytes) : P (Service × ℕ) :=
  framed s data "Malformed ack from server - closing the session." ackFramed

def headerFramed (resuming : Bool) (s : Service) (consumed : ℕ) : P (Service × ℕ) :=
  match decodeResultHeader s.framer.message with
  | .error _ => failBytes s "Cannot decode the result header."
  | .ok header => do
    let (s, begun) ← beginCsvReceive s header resuming
    pure (s, if begun then consumed else 0)

def handleResultHeaderBytes (s : Service) (data : Bytes) : P (Service × ℕ) :=
  framed s data "Malformed result header from server." (headerFramed false)

def refusalReason (message : Bytes) : Bytes :=
  match decodeAck message with
  | .ok { status := .noSuchResult, receivedBytes := _ } =>
    bytesOf "The server no longer holds this result - the file must be sent again"
  | .ok { status := .protocolError, receivedBytes := _ } =>
    bytesOf "This server does not support resuming a result - the file must be sent again"
  | _ => bytesOf "The server refused the result request"

def resumeFramed (s : Service) (consumed : ℕ) : P (Service × ℕ) :=
  if s.framer.messageType = MessageType.ack.code then do
    let reason := refusalReason s.framer.message
    let s ← dropResultClaim s
    let s ← failSession { s with csv := [] } reason .warn
    pure (s, 0)
  else headerFramed true s consumed

def handleResumeReplyBytes (s : Service) (data : Bytes) : P (Service × ℕ) :=
  framed s data "Malformed reply to the result request." resumeFramed

/-- The switch in the loop of `onBytes`. -/
def consume (s : Service) (data : Bytes) : P (Service × ℕ) :=
  match s.expecting with
  | .ack => handleAckBytes s data
  | .resultHeader => handleResultHeaderBytes s data
  | .csvPayload => handleCsvBytes s data
  | .resumeReply => handleResumeReplyBytes s data
  | .nothing => do
    act (.note (.unexpected data.length))
    let s ← failSession s (bytesOf "Unexpected " ++ decimal data.length ++
      bytesOf " bytes from server - closing the session.") .error
    pure (s, 0)

-- A pass that consumes nothing leaves the loop.
def onBytes : ℕ → Service → Bytes → P Service
  | 0, s, _ => pure s
  | fuel+1, s, data =>
    if data.isEmpty then pure s
    else do
      let (s, consumed) ← consume s data
      if consumed = 0 then pure s else onBytes fuel s (data.drop consumed)

end Download

section Commands

/-- `beginConnect`, with the line that `handle` logs after it. -/
def handleConnect (s : Service) (ip : Bytes) (port : ℕ) : P Service :=
  if s.socket.isSome then do
    pushLog .warn (bytesOf "Already connected or connecting - ignoring Connect.")
    pure s
  else do
    pushLink .reconnecting
    let ok ← act (.connect ip port)
    if !ok then do
      pushLog .error (bytesOf "Connect request failed: ")
      pushLink .disconnected
      pure { s with sessionCompleted := false }
    else do
      pushLog .info (bytesOf "Connecting to " ++ ip ++ bytesOf ":" ++ decimal port ++
        bytesOf "...")
      pure { s with
        sessionCompleted := false, connectTimer := true,
        socket := some { connecting := true, connected := false, reading := false,
                         closing := false, pendingWrites := 0 } }

def handleDisconnect (s : Service) : P Service :=
  let s := { s with connectTimer := false }
  if s.socket.isNone then do
    pushLink .disconnected
    pure s
  else do
    pushLog .info (bytesOf "Disconnecting.")
    if s.uploading then abortUpload s (bytesOf "Upload stopped: disconnected by user.") .warn
    else if s.expecting ≠ .nothing then
      failSession s (bytesOf "Disconnected before the result arrived.") .warn
    else pure (closeSocket s)

/-- `handle(StartUploadCommand)` once the reader has taken the file. -/
def uploadAccepted (s : Service) (filename : Bytes) (size : ℕ) : P Service := do
  let s ← dropResultClaim { s with uploading := true, uploadFilename := filename }
  act .clearResult
  let s := { s with
    uploadTotal := size, uploadSent := 0, uploadCrc := 0#32, inFlightWrites := 0,
    trailerSent := false, expecting := .nothing, csv := [], csvSize := 0,
    csvExpectedCrc := 0#32 }
  pushSession .sendingHeader
  let (s, ok) ← send s (.header { fileSize := size, filename := filename })
  if !ok then abortUpload s (bytesOf "Failed to send the upload header: ") .error
  else do
    pushLog .info (bytesOf "Uploading " ++ filename ++ bytesOf " (" ++ decimal size ++
      bytesOf " bytes)")
    pushSession .streaming
    pumpUpload s

def handleStartUpload (s : Service) (path filename : Bytes) (size : ℕ) : P Service :=
  if s.uploading then do
    pushLog .warn (bytesOf "An upload is already in progress.")
    pure s
  else if !s.isOpen then do
    pushLog .error (bytesOf "Not connected - press Connect first.")
    pure s
  else do
    drainRing
    let error ← act (.beginUpload path size)
    match error with
    | some error => do
      pushLog .error (bytesOf error)
      pure s
    | none => do
      act (.note (.accept s))
      uploadAccepted s filename size

def handleCancelUpload (s : Service) : P Service :=
  if !s.uploading then pure s
  else abortUpload s (bytesOf "Upload cancelled by user.") .warn

def requestOf (claim : ResultClaim) : ResultRequest :=
  { fileSize := claim.fileSize, crc32 := claim.crc32, startOffset := claim.received,
    filename := claim.filename }

def handleRequestResult (s : Service) : P Service :=
  if !s.hasClaim then do
    pushLog .warn (bytesOf "No result to recover - send the file first.")
    pure s
  else if s.socket.isNone then do
    pushLog .warn (bytesOf "Connect to the server before requesting the result.")
    pure s
  else do
    act (.note (.request s (requestOf s.claim)))
    let (s, ok) ← send s (.request (requestOf s.claim))
    if !ok then failSession s (bytesOf "Failed to send the result request.") .error
    else do
      pushLog .info (bytesOf "Requesting the result " ++
        (if s.csvSize = 0 then bytesOf "from the beginning"
        else bytesOf "from " ++ decimal s.claim.received ++ bytesOf " of " ++ decimal s.csvSize ++
          bytesOf " bytes") ++
        bytesOf " - the file is not being sent again")
      pushSession .requestingResult
      pure { s with
        framer := Framer.reset .ack .resultHeader, expecting := .resumeReply,
        sessionCompleted := false }

def handle (s : Service) : Command → P Service
  | .connect ip port => handleConnect s ip port
  | .disconnect => handleDisconnect s
  | .startUpload path filename size => handleStartUpload s path filename size
  | .cancelUpload => handleCancelUpload s
  | .requestResult => handleRequestResult s

-- Commands may be posted while the queue is drained; `passes` is how many are
-- taken before it is seen empty.
def drainCommands : ℕ → Service → P Service
  | 0, s => pure s
  | passes+1, s => do
    let command ← act .takeCommand
    match command with
    | none => pure s
    | some command => do
      let s ← handle s command
      drainCommands passes s

end Commands

section Callbacks

def onAsync (passes : ℕ) (s : Service) : P Service := do
  let s ← drainCommands (passes + 1) s
  pumpUpload s

/-- The connect timer; it fires once. -/
def onConnectTimeout (s : Service) : P Service :=
  let s := { s with connectTimer := false }
  if s.isOpen then do
    pushLog .error (bytesOf "Connect timed out.")
    pushLink .disconnected
    pushSession .idle
    pure (closeSocket s)
  else pure s

/-- The connect request is over. -/
def answered (s : Service) (ok : Bool) : Service :=
  { s with connectTimer := false,
           socket := s.socket.map fun k => { k with connecting := false, connected := ok } }

/-- `text` is the error, or the peer's address. -/
def onConnect (s : Service) (ok : Bool) (text : Bytes) : P Service :=
  let s := answered s ok
  if !ok then do
    pushLog .error (bytesOf "Connect failed: " ++ text)
    pushLink .disconnected
    pure (closeSocket s)
  else do
    pushLog .info (bytesOf "Connected to " ++ text)
    pushLink .connected
    let (s, started) := startRead s
    if !started then do
      pushLog .error (bytesOf "startRead failed: ")
      pure (closeSocket s)
    else pure s

/-- A readable socket: the buffer, the bytes the kernel has for it, `onRead`. -/
def onReadable (s : Service) (count : ℕ) : P Service := do
  let data ← act (.recv (min count kSuggestedSize))
  onBytes (data.length + 1) s data

def sayClosed (s : Service) : P Unit :=
  if s.sessionCompleted then pushLog .info (bytesOf "Server closed the connection.")
  else if s.uploading || decide (s.expecting ≠ .nothing) then pure ()
  else pushLog .warn (bytesOf "Server closed the connection (idle timeout).")

def sayError (s : Service) : Option Bytes → P Unit
  | none => sayClosed s
  | some text => pushLog .error text

def giveUp (s : Service) : P Service :=
  if s.uploading then abortUpload s (bytesOf "Upload aborted: the connection was lost.") .error
  else if s.expecting ≠ .nothing then
    failSession s (bytesOf "The connection was lost before the result arrived.") .error
  else pure s

/-- `what` is the failed call with its error, or nothing at the end of the
stream. -/
def onError (s : Service) (what : Option Bytes) : P Service := do
  sayError s what
  let s ← giveUp s
  pushLink .disconnected
  pure (closeSocket s)

def onSendComplete (s : Service) (ok : Bool) (text : Bytes) : P Service :=
  let s := { s with inFlightWrites := s.inFlightWrites - 1 }
  if ok then pumpUpload s
  else if s.uploading then abortUpload s (bytesOf "Send failed: " ++ text) .error
  else pure s

def written (s : Service) : Service :=
  { s with socket := s.socket.map fun k => { k with pendingWrites := k.pendingWrites - 1 } }

/-- `onWriteCb`: the oldest outstanding write is over. -/
def onWrite (s : Service) (ok : Bool) (text : Bytes) : P Service := do
  let s ← onSendComplete (written s) ok text
  if ok then pure s else onError s (some (bytesOf "write: " ++ text))

def onClosed (s : Service) : P Service := do
  pushLink .disconnected
  pure { s with socket := none }

end Callbacks

section Loops

variable {G : Type} {next : G → (op : Op) → Ans op → G} {R : Rules Op Ans G}
  {Q : G → Service → Prop} {g : G} {s : Service}

/-- What every command keeps is kept while the queue is drained. -/
theorem keeps_drainCommands (hmay : ∀ g, R.may g .takeCommand)
    (hnone : ∀ g s, Q g s → Q (next g .takeCommand none) s)
    (hsome : ∀ g s command, Q g s → R.answers g .takeCommand (some command) →
      Keeps next R (handle s command) (next g .takeCommand (some command)) Q)
    (passes : ℕ) (h : Q g s) : Keeps next R (drainCommands passes s) g Q := by
  induction passes generalizing g s with
  | zero => exact h
  | succ passes ih =>
    refine (keeps_ask_bind _ _ _ _ _ _).mpr ⟨hmay g, fun command ha => ?_⟩
    cases command with
    | none => exact hnone g s h
    | some command => exact keeps_seq _ _ _ _ _ (hsome g s command h ha) fun _ _ => ih

/-- A read is consumed in rounds, each over what the last one has left. There
are enough of them, or it does not matter where they end. -/
theorem keeps_onBytes {I : Bytes → G → Service → Prop} (hend : ∀ g s, I [] g s → Q g s)
    (hround : ∀ data g s, data ≠ [] → I data g s → Keeps next R (consume s data) g fun g r =>
      (r.2 = 0 → Q g r.1) ∧ (0 < r.2 → I (data.drop r.2) g r.1))
    (n : ℕ) (data : Bytes) (hn : data.length < n ∨ ∀ data g s, I data g s → Q g s)
    (h : I data g s) : Keeps next R (onBytes n s data) g Q := by
  induction n generalizing g s data with
  | zero =>
    rcases hn with hshort | hcut
    · omega
    · exact hcut data g s h
  | succ n ih =>
    unfold onBytes
    split
    · rename_i hnil
      rw [List.isEmpty_iff.mp hnil] at h
      exact hend g s h
    · rename_i hnil
      have hne : data ≠ [] := fun hd => hnil (List.isEmpty_iff.mpr hd)
      have hpos : 0 < data.length := List.length_pos_iff.mpr hne
      refine keeps_seq _ _ _ _ _ (hround data g s hne h) ?_
      rintro g' ⟨s', consumed⟩ ⟨hstop, hgo⟩
      change Keeps next R (if consumed = 0 then _ else _) g' Q
      split
      · rename_i hzero
        exact hstop hzero
      · rename_i hmore
        have hrest (hshort : data.length < n + 1) : (data.drop consumed).length < n := by
          rw [List.length_drop]
          omega
        exact ih _ (hn.imp_left hrest) (hgo (Nat.pos_of_ne_zero hmore))

/-- What every round keeps is kept by the read, however many rounds there are. -/
theorem keeps_rounds
    (hround : ∀ data g s, Q g s → Keeps next R (consume s data) g fun g r => Q g r.1)
    (n : ℕ) (data : Bytes) (h : Q g s) : Keeps next R (onBytes n s data) g Q := by
  refine keeps_onBytes (I := fun _ => Q) (fun _ _ h => h) ?_ n data (.inr fun _ _ _ h => h) h
  intro data g s _ h
  exact keeps_mono _ _ _ _ (fun _ _ h => ⟨fun _ => h, fun _ => h⟩) (hround data g s h)

end Loops

end Service

/-- The subtraction in `size_t` does not wrap around before the result is whole. -/
theorem remaining_eq {s : Service} (hl : s.csv.length < s.csvSize) (hm : s.csvSize ≤ kMaxCsvSize) :
    (s.csvSize + kSizeRange - s.csv.length) % kSizeRange = s.csvSize - s.csv.length := by
  have hk : kMaxCsvSize < kSizeRange := by decide
  have heq : s.csvSize + kSizeRange - s.csv.length =
      (s.csvSize - s.csv.length) + kSizeRange := by omega
  rw [heq, Nat.add_mod_right, Nat.mod_eq_of_lt (by omega)]

end LogTransfer.Client
