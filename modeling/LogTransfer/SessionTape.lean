import LogTransfer.Reception

/-!
# The tape of a session

`Tape` records what one session received, committed to the ring and sent, and
what it knows of the ring. `rules` is the session's side: what it may say next,
and that it asks for a slot only when there is one. The bytes `rest` of a stage
are those of the current read which the session has not come to yet.
-/

set_option autoImplicit false

namespace LogTransfer
open Program

/-- `room`: a slot was free and none has been committed since. `owed`: reading
stopped under the flag with the ring seen full. `deaf`: a read could not be
started. -/
structure Tape where
  received : Bytes
  slots : List Bytes
  sent : List Bytes
  closed : Bool
  room : Bool
  stopped : Bool
  owed : Bool
  deaf : Bool
  deriving DecidableEq, Repr

namespace Tape

def initial : Tape :=
  { received := [], slots := [], sent := [], closed := false, room := true, stopped := false,
    owed := false, deaf := false }

def next (g : Tape) : (op : Op) → Ans op → Tape
  | .construct _, _ =>
    { g with received := [], slots := [], sent := [], closed := false, room := true, owed := false,
             deaf := false }
  | .beginSession, _ => { g with stopped := false, owed := false }
  | .recv _, data => { g with received := g.received ++ data }
  | .commitSlot _ data, _ => { g with slots := g.slots ++ [data], room := false }
  | .tryAcquireSlot, acquired => { g with room := acquired }
  | .ringFull, full => { g with room := !full, owed := g.owed || full && g.stopped }
  | .setReadStopped stopped, _ => { g with stopped := stopped, owed := g.owed && stopped }
  | .startRead, ok => { g with deaf := g.deaf || !ok }
  | .abortSession _, _ => { g with closed := true }
  | .send _ bytes, ok => if ok then { g with sent := g.sent ++ [bytes] } else g
  | _, _ => g

/-- A delivered resume is no longer owed. -/
def begin (ev : Event) (g : Tape) : Tape := if ev = .resume then { g with owed := false } else g

end Tape

/-- The header of a result: size and checksum of the whole csv. -/
def wholeHeader (csv : Bytes) : Bytes :=
  encodeResultHeader { csvSize := csv.length, crc32 := crc32 0#32 csv }

/-- What a session says from first to last, given the bytes it received. -/
inductive Conversation (received : Bytes) : List Bytes → Prop
  | refused (status : AckStatus) (count : ℕ) (h : status ≠ .ok) :
      Conversation received [encodeAck { status := status, receivedBytes := count }]
  | uploaded (u payload csv : Bytes) (hu : u <+: received) (h : Reception.Upload u payload) :
      Conversation received
        [encodeAck { status := .ok, receivedBytes := payload.length }, wholeHeader csv, csv]
  | resumed (csv : Bytes) (offset : ℕ) (h : offset ≤ csv.length) :
      Conversation received
        (wholeHeader csv :: if offset = csv.length then [] else [csv.drop offset])

def Speaks (received : Bytes) (messages : List Bytes) : Prop :=
  ∃ full, Conversation received full ∧ messages <+: full

namespace Tape

def sealedRecord (kept : RetainedResult) : Prop := kept.csvCrc32 = crc32 0#32 kept.csv

def Refused (g : Tape) : Prop :=
  ∃ status count, status ≠ AckStatus.ok ∧
    g.sent = [encodeAck { status := status, receivedBytes := count }]

def rules : Rules Op Ans Tape where
  may g
    | .send _ bytes => g.closed = false ∧ ¬ g.Refused ∧ Speaks g.received (g.sent ++ [bytes])
    | .tryAcquireSlot => g.room = true
    | .commitSlot _ _ => g.room = true
    | .retain _ kept => sealedRecord kept
    | _ => True
  answers _
    | .tryAcquireSlot, acquired => acquired = true
    | .recv count, data => data.length ≤ count
    | .takeResult, r => r.Sealed
    | .lookup _ _ _, kept => ∀ k, kept = some k → sealedRecord k
    | _, _ => True

/-- Everything but what is known of the ring and the reader. -/
def Same (g g' : Tape) : Prop :=
  g'.received = g.received ∧ g'.slots = g.slots ∧ g'.sent = g.sent ∧ g'.closed = g.closed

theorem same_refl (g : Tape) : g.Same g := ⟨rfl, rfl, rfl, rfl⟩

end Tape

namespace Session
open Tape (Same)

def Counted (g : Tape) (s : Session) : Prop :=
  s.receivedBytes = g.slots.flatten.length ∧ s.payloadCrc = crc32 0#32 g.slots.flatten

/-- The slots hold the payload as far as it was counted. -/
def Stored (g : Tape) (s : Session) : Prop :=
  Counted g s ∧ s.receivedBytes ≤ s.fileSize ∧
    (g.slots = [] ∨ ∃ h header, Reception.HeaderOf h header ∧ header.fileSize = s.fileSize ∧
      h ++ g.slots.flatten <+: g.received)

/-- The reader of a session that takes payload. -/
def Flowing (g : Tape) (s : Session) : Prop :=
  (s.socket.reading = true → s.receivedBytes < s.fileSize → g.room = true) ∧
    (s.socket.reading = false → g.deaf = false → g.stopped = true ∧ g.owed = true)

def AtHeader (g : Tape) (s : Session) (rest : Bytes) : Prop :=
  s.state = .waitHeader ∧ g.sent = [] ∧ g.slots = [] ∧ Counted g s ∧ s.fileSize = 0 ∧
    s.framer.Open ∧ g.received = s.framer.buffer ++ rest ∧ g.room = true ∧
    s.socket.reading = true

def TrailerFramer (f : Framer) : Prop := f.expected = .uploadTrailer ∧ f.alternate = .uploadTrailer

/-- Behind the header: the payload so far, and after it what the framer has. -/
def Behind (g : Tape) (s : Session) (rest : Bytes) : Prop :=
  ∃ h header, Reception.HeaderOf h header ∧ header.fileSize = s.fileSize ∧
    g.received = h ++ g.slots.flatten ++ s.framer.buffer ++ rest

def AtPayload (g : Tape) (s : Session) (rest : Bytes) : Prop :=
  s.state = .receiving ∧ g.sent = [] ∧ Counted g s ∧ s.receivedBytes ≤ s.fileSize ∧
    s.framer.Open ∧ TrailerFramer s.framer ∧ Behind g s rest ∧
    (s.receivedBytes < s.fileSize → s.framer.buffer = [])

/-- A whole upload came in and its Ack is all that was sent. -/
def Acked (g : Tape) : Prop :=
  ∃ u payload, u <+: g.received ∧ Reception.Upload u payload ∧
    g.sent = [encodeAck { status := .ok, receivedBytes := payload.length }]

def Ended (g : Tape) (s : Session) : Prop :=
  s.cleanupStarted = true ∧ s.state = .cleanup ∧ s.socket.reading = false ∧ g.closed = true

def Refusing (g : Tape) (s : Session) : Prop :=
  s.cleanupStarted = false ∧ s.socket.closing = false ∧ s.closeAfterSend = true ∧
    g.closed = false ∧ Stored g s ∧ (s.state = .waitHeader ∨ s.state = .verifying)

def Active (g : Tape) (s : Session) : Prop :=
  s.cleanupStarted = false ∧ s.socket.closing = false ∧ s.closeAfterSend = false ∧ g.closed = false

/-- No more of the upload is taken in. -/
def Past (g : Tape) (s : Session) : Prop :=
  Ended g s ∨ Refusing g s ∨
    Active g s ∧ Stored g s ∧
      (s.state = .analyzing ∧ Acked g ∨ s.state = .sendingResult ∨ s.state = .waitDone)

def Taped (rest : Bytes) (g : Tape) (s : Session) : Prop :=
  Past g s ∨ Active g s ∧ AtHeader g s rest ∨ Active g s ∧ AtPayload g s rest ∧ Flowing g s

end Session

end LogTransfer
