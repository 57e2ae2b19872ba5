import LogTransfer.Interleave
import LogTransfer.TransferService

/-!
# The client around its service

What the loop thread shares with the reader thread, the screen and the
network. `Signal` is what libuv may call; the screen's buttons work only while
their gate is open, and a command may also be posted without the screen. The
parameter `files` is the file system, whose files do not change.
-/

set_option autoImplicit false

namespace LogTransfer.Client
open Program Interleave

structure UiState where
  serverIp : Bytes
  serverPort : Bytes
  link : LinkState
  session : SessionState
  filePath : Bytes
  fileName : Bytes
  fileSize : ℕ
  resultClaimAvailable : Bool
  deriving DecidableEq, Repr

namespace UiState

def initial : UiState :=
  { serverIp := [], serverPort := bytesOf "23507", link := .disconnected, session := .idle,
    filePath := [], fileName := [], fileSize := 0, resultClaimAvailable := false }

section Gates

def isBusy : SessionState → Bool
  | .connecting | .sendingHeader | .streaming | .waitAck | .waitResult | .receivingResult => true
  | .idle | .requestingResult | .done => false

def canEditAddress (u : UiState) : Bool := u.link = .disconnected && !isBusy u.session

def canConnect (u : UiState) : Bool := u.link = .disconnected && !isBusy u.session

def canDisconnect (u : UiState) : Bool := u.link ≠ .disconnected

def canBrowse (u : UiState) : Bool := !isBusy u.session

def canSend (u : UiState) : Bool :=
  u.link = .connected && !isBusy u.session && !u.filePath.isEmpty

def canCancelUpload (u : UiState) : Bool := u.session = .sendingHeader || u.session = .streaming

def canSaveResult (u : UiState) : Bool := u.session = .done

def canRequestResult (u : UiState) : Bool :=
  u.resultClaimAvailable && u.link = .connected && !isBusy u.session

end Gates

def parsePort (u : UiState) : Option ℕ :=
  let value := digitsValue u.serverPort
  if allDigits u.serverPort && value ≠ 0 && value ≤ 65535 then some value else none

/-- One event in the loop of `pumpWorkerEvents`. -/
def apply (u : UiState) : Event → UiState
  | .link link => { u with link := link }
  | .session session => { u with session := session }
  | .claim available => { u with resultClaimAvailable := available }
  | .log _ _ => u

end UiState

inductive UiAction where
  | edit (ip port : Bytes)
  | connect
  | disconnect
  | browse (path name : Bytes) (size : ℕ)
  | send (confirmed : Bool)
  | cancel
  | requestResult
  deriving DecidableEq, Repr

structure World where
  reader : FileReader
  commands : List Command
  events : List Event
  ui : UiState
  inbox : Bytes
  resultCsv : Bytes
  deriving DecidableEq, Repr

namespace World

def initial : World :=
  { reader := FileReader.initial, commands := [], events := [], ui := UiState.initial,
    inbox := [], resultCsv := [] }

def post (w : World) (command : Command) : World :=
  { w with commands := w.commands ++ [command], reader := { w.reader with wake := true } }

/-- The screen once the pending events are drained. -/
def drained (w : World) : UiState := w.events.foldl UiState.apply w.ui

def pumpWorkerEvents (w : World) : World := { w with ui := w.drained, events := [] }

/-- `answer` is the outcome of a call into libuv. -/
def exec (files : Bytes → Option Bytes) : (op : Op) → Bool → World → Ans op × World
  | .takeCommand, _, w =>
    match w.commands with
    | [] => (none, w)
    | command::commands => (some command, { w with commands := commands })
  | .connect _ _, answer, w => (answer, if answer then { w with inbox := [] } else w)
  | .send _, answer, w => (answer, w)
  | .recv count, _, w => (w.inbox.take count, { w with inbox := w.inbox.drop count })
  | .emit event, _, w => ((), { w with events := w.events ++ [event] })
  | .beginUpload path size, _, w =>
    let r := w.reader.beginUpload (files path) size
    (r.1, { w with reader := r.2 })
  | .abortUpload, _, w => ((), { w with reader := w.reader.abortUpload })
  | .tryPeek, _, w => (w.reader.tryPeek, w)
  | .release, _, w => ((), { w with reader := w.reader.release })
  | .failed, _, w => (w.reader.failed, w)
  | .takeError, _, w =>
    let r := w.reader.takeError
    (r.1, { w with reader := r.2 })
  | .readComplete, _, w => (w.reader.readComplete, w)
  | .ringEmpty, _, w => (w.reader.ring.isEmpty, w)
  | .setResult csv, _, w => ((), { w with resultCsv := csv })
  | .clearResult, _, w => ((), { w with resultCsv := [] })
  | .note _, _, w => ((), w)

section Screen

def gate (u : UiState) : UiAction → Bool
  | .edit _ _ => u.canEditAddress
  | .connect => u.canConnect
  | .disconnect => u.canDisconnect
  | .browse _ _ _ => u.canBrowse
  | .send _ => u.canSend
  | .cancel => u.canCancelUpload
  | .requestResult => u.canRequestResult

/-- The callbacks of `makeCallbacks`. -/
def click (w : World) : UiAction → World
  | .edit ip port => { w with ui := { w.ui with serverIp := ip, serverPort := port } }
  | .connect =>
    match w.ui.parsePort with
    | none => w
    | some port => if w.ui.serverIp.isEmpty then w else w.post (.connect w.ui.serverIp port)
  | .disconnect => { w with ui := { w.ui with session := .idle } }.post .disconnect
  | .browse path name size =>
    { w with ui := { w.ui with filePath := path, fileName := name, fileSize := size } }
  | .send confirmed =>
    if w.ui.filePath.isEmpty || !confirmed then w
    else w.post (.startUpload w.ui.filePath w.ui.fileName w.ui.fileSize)
  | .cancel => w.post .cancelUpload
  | .requestResult => w.post .requestResult

end Screen

end World

inductive Signal where
  | async (passes : ℕ)
  | connectDone (ok : Bool) (text : Bytes)
  | readable (count : ℕ)
  | readError (error : Option Bytes)
  | writeDone (ok : Bool) (text : Bytes)
  | connectTimeout
  | closed
  deriving DecidableEq, Repr

inductive Peer where
  | reader
  | arrive (bytes : Bytes)
  | post (command : Command)
  | frame
  | click (action : UiAction)
  deriving DecidableEq, Repr

/-- When libuv may call. A closed socket reports its outstanding requests
before `closed`, and only a connection that came about can have written. -/
def ready (s : Service) (w : World) : Signal → Bool
  | .async _ => w.reader.wake
  | .connectDone ok _ => s.socket.any fun k => k.connecting && (!ok || !k.closing)
  | .readable _ | .readError _ => s.socket.any (·.reading)
  | .writeDone ok _ => s.socket.any fun k => decide (0 < k.pendingWrites) && (!ok || k.connected)
  | .connectTimeout => s.connectTimer
  | .closed => s.socket.any fun k => k.closing && !k.connecting && k.pendingWrites = 0

def callback (s : Service) : Signal → P Service
  | .async passes => s.onAsync passes
  | .connectDone ok text => s.onConnect ok text
  | .readable count => s.onReadable count
  | .readError error => s.onError (error.map (bytesOf "read: " ++ ·))
  | .writeDone ok text => s.onWrite ok text
  | .connectTimeout => s.onConnectTimeout
  | .closed => s.onClosed

def delivered (w : World) : Signal → World
  | .async _ => { w with reader := { w.reader with wake := false } }
  | _ => w

def peer (w : World) : Peer → Option World
  | .reader => w.reader.readerStep.map fun r => { w with reader := r }
  | .arrive bytes => some { w with inbox := w.inbox ++ bytes }
  | .post command => some (w.post command)
  | .frame => some w.pumpWorkerEvents
  | .click action => if World.gate w.ui action then some (w.click action) else none

/-- The client under the history that `next` keeps. -/
def machine {G : Type} (files : Bytes → Option Bytes) (next : G → (op : Op) → Ans op → G) :
    Machine Op Ans World Service Signal Peer G where
  exec := World.exec files
  start e s w := if ready s w e then some (callback s e, delivered w e) else none
  peer d w := peer w d
  next := next
  begin _ g := g

abbrev ClientState (G : Type) := Config Op Ans World Service G

def clientInitial {G : Type} (g : G) : ClientState G :=
  { shared := World.initial, ghost := g, thread := .done Service.initial }

end LogTransfer.Client
