import LogTransfer.SessionManager

/-!
# Session history and its discipline

`Ghost` follows the current session through its operations. `rules` is what
the loop thread keeps to: operations of a session carry the latest session's
number, slots are committed and uploads marked only while receiving, a session
is constructed only after the parser was seen idle. The parameter `A` is what
the other side owes a session in ANALYZING about the result it takes.
-/

set_option autoImplicit false

namespace LogTransfer
open Program Interleave

inductive Phase where
  | vacant
  | aborted
  | fresh
  | receiving (payload : Bytes)
  | analyzing (payload : Bytes)
  | answered (payload : Bytes)
  deriving DecidableEq, Repr

def Phase.Live (p : Phase) : Prop := p ≠ .vacant ∧ p ≠ .aborted

/-- How far the delivery of a completion wake-up has come. -/
inductive Taking where
  | idle | started | took
  deriving DecidableEq, Repr

structure Ghost where
  latest : ℕ
  phase : Phase
  taking : Taking
  received : Bytes
  sent : List Bytes
  pledge : Option Session
  guards : List (Session × AnalysisResult)
  kept : Option RetainedResult
  deriving DecidableEq, Repr

namespace Ghost

def initial : Ghost :=
  { latest := 0, phase := .vacant, taking := .idle, received := [], sent := [],
    pledge := none, guards := [], kept := none }

def seen (pending : Bool) : Phase → Phase
  | .aborted => if pending then .aborted else .vacant
  | phase => phase

def commit (data : Bytes) : Phase → Phase
  | .receiving p => .receiving (p ++ data)
  | phase => phase

def mark : Phase → Phase
  | .receiving p => .analyzing p
  | phase => phase

def answer : Phase → Phase
  | .analyzing p => .answered p
  | phase => phase

def next (g : Ghost) : (op : Op) → Ans op → Ghost
  | .abortPending, pending => { g with phase := seen pending g.phase }
  | .construct id, _ => { g with latest := id, phase := .fresh, received := [], sent := [] }
  | .beginSession, _ => { g with phase := .receiving [] }
  | .recv _, data => { g with received := g.received ++ data }
  | .commitSlot _ data, _ => { g with phase := commit data g.phase }
  | .markUploadComplete s, _ => { g with phase := mark g.phase, pledge := some s }
  | .abortSession _, _ => { g with phase := .aborted }
  | .takeResult, _ => { g with taking := .took }
  | .passGuard s r, _ => { g with phase := answer g.phase, guards := (s, r) :: g.guards }
  | .retain _ kept, _ => { g with kept := some kept }
  | .send _ bytes, ok => if ok then { g with sent := g.sent ++ [bytes] } else g
  | .acceptPending, _ | .startRead, _ | .tryAcquireSlot, _ | .ringFull, _
  | .setReadStopped _, _ | .lookup _ _ _, _ => g

def begin (e : Event) (g : Ghost) : Ghost :=
  { g with taking := if e = .completion then .started else .idle }

end Ghost

def machine [Doubles] (cfg : ServerConfig) : Machine Op Ans World Loop Event Peer Ghost where
  exec := World.exec cfg
  start := Server.start cfg
  peer := Server.peer
  next := Ghost.next
  begin := Ghost.begin

abbrev ServerState [Doubles] := Config Op Ans World Loop Ghost

def serverInitial [Doubles] : ServerState :=
  { shared := World.initial, ghost := Ghost.initial, thread := .done SessionManager.initial }

section Schedules

def defaultConfig : ServerConfig :=
  { chunkSize := 4096, ringSlots := 4, idleMs := 30000, responseMs := 120000,
    chunk_pos := by decide, slots_pos := by decide }

/-- A callback of `n` operations, all of them answered with success. -/
def callback (ev : Event) (n : ℕ) : List (Act Event Peer) :=
  .start ev :: List.replicate n (.loop true)

def parserSteps (n : ℕ) : List (Act Event Peer) := List.replicate n (.peer .parser)

def arrival (bytes : Bytes) : List (Act Event Peer) := [.peer (.arrive bytes)]

/-- The bytes of a well-formed upload. -/
def uploadBytes (name payload : Bytes) : Bytes :=
  encodeUploadHeader { fileSize := payload.length, filename := name } ++ payload ++
    encodeUploadTrailer { crc32 := crc32 0#32 payload }

def anyRun [Doubles] (as : List (Act Event Peer)) : Option ServerState :=
  run (machine defaultConfig) (fun _ _ => true) serverInitial as

theorem anyRun_reach [Doubles] {as : List (Act Event Peer)} {c : ServerState}
    (h : anyRun as = some c) : Reach (machine defaultConfig) Always serverInitial c :=
  run_always _ h

end Schedules

namespace Session

def Ticketed (s : Session) : Prop :=
  s.fileSize ≤ kMaxFileSize ∧ isValidFilename s.filename = true

def SameUpload (s u : Session) : Prop :=
  s.id = u.id ∧ s.filename = u.filename ∧ s.fileSize = u.fileSize ∧ s.payloadCrc = u.payloadCrc

end Session

section Rules

variable (A : Bytes → AnalysisResult → Prop)

/-- After the guard a session sends the result it was given and nothing else. -/
def SendsOwn (g : Ghost) (bytes : Bytes) : Prop :=
  ∀ p, g.phase = .answered p → ∃ e rest, g.guards = e :: rest ∧ e.1.payload = p ∧
    (bytes = encodeResultHeader { csvSize := e.2.csv.length, crc32 := e.2.crc32 } ∨
      bytes = e.2.csv)

/-- The upload has a ticket the wire can carry, and Ack(Ok) for it is the last
thing sent. -/
def Acknowledged (g : Ghost) (s : Session) : Prop :=
  s.Ticketed ∧
    g.sent.getLast? = some (encodeAck { status := .ok, receivedBytes := s.receivedBytes })

/-- The session is the one last acknowledged, its ticket unchanged. -/
def Pledged (g : Ghost) (s : Session) : Prop :=
  ∃ u, g.pledge = some u ∧ s.SameUpload u

def may (g : Ghost) : Op → Prop
  | .abortPending => g.taking = .idle
  | .construct id => g.phase = .vacant ∧ id = g.latest + 1
  | .beginSession => g.phase = .fresh
  | .commitSlot id _ => id = g.latest ∧ ∃ p, g.phase = .receiving p
  | .markUploadComplete s => s.id = g.latest ∧ (∃ p, g.phase = .receiving p) ∧ Acknowledged g s
  | .abortSession id => id = g.latest ∧ g.phase.Live
  | .takeResult => g.taking = .started
  | .passGuard s r =>
    s.id = g.latest ∧ g.phase = .analyzing s.payload ∧ g.taking = .took ∧ A s.payload r ∧
      Pledged g s
  | .retain id kept => id = g.latest ∧
    ∃ e rest, g.guards = e :: rest ∧ e.1.id = id ∧ kept = Session.recordOf e.1 e.2
  | .send id bytes => id = g.latest ∧ SendsOwn g bytes
  | _ => True

def answers (g : Ghost) : (op : Op) → Ans op → Prop
  | .takeResult, r => ∀ p, g.phase = .analyzing p → A p r
  | _, _ => True

def rules : Rules Op Ans Ghost where
  may := may A
  answers := answers A

end Rules

end LogTransfer
