import LogTransfer.Errand
import LogTransfer.UploadConduct

/-!
# History of a service on an errand

`Call` records how far the one call of a run is: the commands taken, the bytes
handed over with what had come back by then, and the bytes received. `Follow`
is where in the replies the service stands, `OnErrand` what it is up to between
two callbacks.
-/

set_option autoImplicit false

namespace LogTransfer.Client
open Program

inductive CallStage where
  | away
  | linked
  | accepted
  | streaming (data : Bytes)
  | asked
  | thanked
  deriving DecidableEq, Repr

/-- `seen` has, for each byte handed over, how much had been received; `ended`:
the end of the stream was reported. -/
structure Call where
  taken : List Command
  stage : CallStage
  seen : List ℕ
  got : Bytes
  stored : Bool
  done : Bool
  ended : Bool
  deriving DecidableEq, Repr

namespace Call

def initial : Call :=
  { taken := [], stage := .away, seen := [], got := [], stored := false, done := false,
    ended := false }

def said (stage : CallStage) : Message → CallStage
  | .header _ => .streaming []
  | .chunk chunk =>
    match stage with
    | .streaming data => .streaming (data ++ chunk)
    | stage => stage
  | .trailer _ | .request _ => .asked
  | .downloadDone => .thanked

def next (c : Call) : (op : Op) → Ans op → Call
  | .takeCommand, command => { c with taken := c.taken ++ command.toList }
  | .connect _ _, ok => if ok then { c with stage := .linked, seen := [], got := [] } else c
  | .beginUpload _ _, error => if error.isNone then { c with stage := .accepted } else c
  | .send m, ok =>
    if ok then
      { c with stage := said c.stage m,
               seen := c.seen ++ List.replicate m.bytes.length c.got.length }
    else c
  | .recv _, data => { c with got := c.got ++ data }
  | .setResult _, _ => { c with stored := true }
  | .clearResult, _ => { c with stored := false }
  | .emit (.session .done), _ => { c with done := true }
  | _, _ => c

def begin (signal : Signal) (c : Call) : Call :=
  match signal with
  | .readError _ => { c with ended := true }
  | _ => c

/-- The server has been asked. -/
def Spoken (c : Call) : Prop := c.stage = .asked ∨ c.stage = .thanked

def Streams (c : Call) : Prop := ∃ data, c.stage = .streaming data

end Call

variable [Doubles] (e : Errand) (ip : Bytes) (port : ℕ)

def errandCommand : Command :=
  match e.task with
  | .upload path => .startUpload path e.name e.content.length
  | .resume _ => .requestResult

/-- Connect, then the one command of the errand. -/
def plan : List Command := [.connect ip port, errandCommand e]

def callRules : Rules Op Ans Call where
  may c
    | .connect _ _ => c.stage = .away
    | .beginUpload path size =>
      c.stage = .linked ∧ e.task = .upload path ∧ size = e.content.length
    | .send (.header h) => c.stage = .accepted ∧ h = e.header
    | .send (.chunk _) | .send (.trailer _) => c.Streams
    | .send (.request q) => c.stage = .linked ∧ ∃ n, e.task = .resume n ∧ q = e.claim n
    | .send .downloadDone => c.stage = .asked ∧ c.got = e.stream
    | .recv _ => c.stage ≠ .away
    | .setResult csv => c.stage = .asked ∧ csv = e.csv
    | .clearResult => c.stage = .accepted
    | .emit (.session .done) => c.stage = .thanked ∧ c.stored = true
    | .emit (.session .idle) | .emit (.log .error _) | .abortUpload | .note (.unexpected _) => False
    | _ => True
  answers c
    | .takeCommand, command => c.taken ++ command.toList <+: plan e ip port
    | .connect _ _, ok | .send _, ok => ok = true
    | .beginUpload _ _, error => error = none
    | .failed, failed => c.Streams → failed = false
    | .tryPeek, view => e.Uploads → c.stage = .linked → view = none
    | .recv _, data => c.got ++ data <+: e.stream ∧ (c.got ++ data ≠ [] → c.Spoken)
    | _, _ => True

abbrev Calls {α : Type} (p : P α) (c : Call) (Q : Call → α → Prop) : Prop :=
  Keeps Call.next (callRules e ip port) p c Q

namespace Call

/-- Before the errand's command: nothing runs, and what is held of a result is
the part the claim says. -/
def Prepared (s : Service) : Prop :=
  s.uploading = false ∧ s.expecting = .nothing ∧
    ∀ n, e.task = .resume n →
      s.hasClaim = true ∧ s.claim = ticketOf e.kept n ∧ s.csv = e.csv.take n

structure Feeding (data : Bytes) (s : Service) : Prop where
  uploads : e.Uploads
  uploading : s.uploading = true
  silent : s.expecting = .nothing
  csv : s.csv = []
  trailer : s.trailerSent = false
  total : s.uploadTotal = e.content.length
  sent : s.uploadSent = data.length
  crc : s.uploadCrc = crc32 0#32 data

/-- `consumed` of the replies have been handled. -/
def Follow (s : Service) (consumed : Bytes) : Prop :=
  match s.expecting with
  | .nothing => False
  | .ack => e.Uploads ∧ s.csv = [] ∧ Midway s.framer .ack .ack e.ack consumed
  | .resultHeader => e.Uploads ∧ s.csv = [] ∧ ∃ part, consumed = e.ack ++ part ∧
    Midway s.framer .resultHeader .resultHeader (wholeHeader e.csv) part
  | .resumeReply => ∃ n, e.task = .resume n ∧ s.csv = e.csv.take n ∧
    Midway s.framer .ack .resultHeader (wholeHeader e.csv) consumed
  | .csvPayload => s.csv <+: e.csv ∧ s.csv.length < e.csv.length ∧ s.csvSize = e.csv.length ∧
    s.csvExpectedCrc = crc32 0#32 e.csv ∧ consumed ++ e.csv.drop s.csv.length = e.stream

def Thanked (c : Call) (s : Service) : Prop :=
  c.stage = .thanked ∧ c.taken = plan e ip port ∧ c.got = e.stream ∧ s.uploading = false ∧
    s.expecting = .nothing ∧ s.sessionCompleted = true

/-- A reply is awaited; `data` is what is left of the read. -/
def Waits (c : Call) (s : Service) (consumed data : Bytes) : Prop :=
  c.stage = .asked ∧ c.taken = plan e ip port ∧ s.isOpen = true ∧ s.uploading = false ∧
    c.got = consumed ++ data ∧ c.got <+: e.stream

def Listening (c : Call) (s : Service) (consumed data : Bytes) : Prop :=
  Waits e ip port c s consumed data ∧ Follow e s consumed

def Feeds (c : Call) (s : Service) : Prop :=
  ∃ data, c.stage = .streaming data ∧ c.taken = plan e ip port ∧ c.got = [] ∧ s.isOpen = true ∧
    Feeding e data s

def Linked (c : Call) (s : Service) : Prop :=
  c.stage = .linked ∧ c.taken = [.connect ip port] ∧ c.got = [] ∧ s.isOpen = true ∧ Prepared e s

def Away (c : Call) (s : Service) : Prop :=
  c.stage = .away ∧ c.taken = [] ∧ c.got = [] ∧ s.socket = none ∧ Prepared e s

/-- The service between two callbacks. -/
def OnErrand (c : Call) (s : Service) : Prop :=
  Away e c s ∨ Linked e ip port c s ∨ Feeds e ip port c s ∨ Listening e ip port c s c.got [] ∨
    Thanked e ip port c s

end Call

end LogTransfer.Client
