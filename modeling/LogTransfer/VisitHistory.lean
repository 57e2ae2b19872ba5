import LogTransfer.Errand
import LogTransfer.TapeConduct

/-!
# History of a session on an errand

`Visit` records what the one session of a run was asked and what it answered.
Bytes behind the request come in only once the completions of all replies were
delivered. `Seat` is where the session stands between two stages: in the
opening message, in the file, in the trailer, waiting for the analysis,
sending, waiting for DownloadDone, and gone.
-/

set_option autoImplicit false

namespace LogTransfer
open Program
open Client (Midway midway_feed midway_reset midway_status)

/-- `waiting`: the upload was marked complete and its result not yet given
out. `kept`: the result was put on record. -/
structure Visit where
  called : Bool
  accepted : Bool
  received : Bytes
  sent : List Bytes
  completed : ℕ
  waiting : Bool
  kept : Bool
  closed : Bool
  deriving DecidableEq, Repr

namespace Visit

def initial : Visit :=
  { called := false, accepted := false, received := [], sent := [], completed := 0,
    waiting := false, kept := false, closed := false }

def next (v : Visit) : (op : Op) → Ans op → Visit
  | .acceptPending, ok => if ok then { v with accepted := true } else v
  | .recv _, data => { v with received := v.received ++ data }
  | .markUploadComplete _, _ => { v with waiting := true }
  | .passGuard _ _, _ => { v with waiting := false }
  | .retain _ _, _ => { v with kept := true }
  | .abortSession _, _ => { v with closed := true }
  | .send _ bytes, ok => if ok then { v with sent := v.sent ++ [bytes] } else v
  | _, _ => v

def begin (ev : Event) (v : Visit) : Visit :=
  match ev with
  | .connection => { v with called := true }
  | .writeDone _ _ => { v with completed := v.completed + 1 }
  | _ => v

end Visit

variable [Doubles] (e : Errand)

/-- What follows the request comes after the completions of all replies. -/
def InTime (received : Bytes) (completed : ℕ) : Prop :=
  received <+: e.request ++ encodeDownloadDone ∧
    (e.request.length < received.length → e.replies.length ≤ completed)

def visitRules : Rules Op Ans Visit where
  may v
    | .send _ bytes => v.received = e.request ∧ v.sent ++ [bytes] <+: e.replies ∧
      (e.Uploads → v.sent ≠ [] → v.kept = true)
    | .abortSession _ => v.received = e.request ++ encodeDownloadDone ∧ v.sent = e.replies ∧
      v.completed = e.replies.length ∧ v.waiting = false
    | .retain _ kept => kept = e.kept
    | _ => True
  answers v
    | .acceptPending, ok => ok = true → v.called = true ∧ v.accepted = false
    | .startRead, ok | .tryAcquireSlot, ok | .send _ _, ok => ok = true
    | .recv _, data => InTime e (v.received ++ data) v.completed
    | .passGuard s r, _ => r = analyze s.payload
    | .lookup filename fileSize crc, kept =>
      ¬ e.Uploads → kept = retainedResult (some e.kept) filename fileSize crc
    | _, _ => True

abbrev Attends {α : Type} (p : P α) (v : Visit) (Q : Visit → α → Prop) : Prop :=
  Keeps Visit.next (visitRules e) p v Q

namespace Visit

section Seats

def Live (v : Visit) (s : Session) : Prop :=
  s.cleanupStarted = false ∧ s.socket.closing = false ∧ s.closeAfterSend = false ∧
    s.socket.pendingWrites + v.completed = v.sent.length ∧ v.accepted = true ∧ v.closed = false ∧
    InTime e v.received v.completed

def Counted (s : Session) : Prop :=
  s.receivedBytes = s.payload.length ∧ s.payloadCrc = crc32 0#32 s.payload

def AtOpening (v : Visit) (s : Session) (rest : Bytes) : Prop :=
  s.state = .waitHeader ∧ v.sent = [] ∧ v.waiting = false ∧ Counted s ∧ s.payload = [] ∧
    ∃ part, v.received = part ++ rest ∧
      Midway s.framer .uploadHeader .resultRequest e.opening part

/-- The upload is the announced one. -/
def Announced (s : Session) : Prop :=
  e.Uploads ∧ s.fileSize = e.content.length ∧ s.filename = e.name

def AtFile (v : Visit) (s : Session) (rest : Bytes) : Prop :=
  s.payload.length < e.content.length ∧ s.framer = Framer.reset .uploadTrailer .uploadTrailer ∧
    v.received = e.opening ++ s.payload ++ rest

def AtTrailer (v : Visit) (s : Session) (rest : Bytes) : Prop :=
  s.payload = e.content ∧ ∃ part, v.received = e.opening ++ e.content ++ part ++ rest ∧
    Midway s.framer .uploadTrailer .uploadTrailer e.trailer part

def AtBody (v : Visit) (s : Session) (rest : Bytes) : Prop :=
  s.state = .receiving ∧ v.sent = [] ∧ v.waiting = false ∧ Counted s ∧ Announced e s ∧
    (AtFile e v s rest ∨ AtTrailer e v s rest)

def AtAnalysis (v : Visit) (s : Session) (rest : Bytes) : Prop :=
  s.state = .analyzing ∧ v.sent = [e.ack] ∧ v.waiting = true ∧ Counted s ∧ Announced e s ∧
    s.payload = e.content ∧ v.received = e.request ++ rest

def AtResult (v : Visit) (s : Session) (rest : Bytes) : Prop :=
  s.state = .sendingResult ∧ v.sent = e.replies ∧ v.waiting = false ∧
    v.completed < e.replies.length ∧ v.received = e.request ++ rest

def AtDone (v : Visit) (s : Session) (rest : Bytes) : Prop :=
  s.state = .waitDone ∧ v.sent = e.replies ∧ v.waiting = false ∧
    s.socket.reading = true ∧ ∃ part, v.received = e.request ++ part ++ rest ∧
      Midway s.framer .downloadDone .downloadDone encodeDownloadDone part

def Over (v : Visit) (s : Session) : Prop :=
  s.cleanupStarted = true ∧ s.state = .cleanup ∧ s.socket.pendingWrites = 0 ∧
    s.socket.reading = false ∧ s.finishReason = "completed" ∧ v.accepted = true ∧ v.closed = true ∧
    v.received = e.request ++ encodeDownloadDone ∧ v.sent = e.replies

/-- Nothing but the end of the conversation is left to be read. -/
def Behind (v : Visit) (s : Session) (rest : Bytes) : Prop :=
  AtAnalysis e v s rest ∨ AtResult e v s rest ∨ AtDone e v s rest

def Seat (rest : Bytes) (v : Visit) (s : Session) : Prop :=
  Over e v s ∨ Live e v s ∧ (AtOpening e v s rest ∨ AtBody e v s rest ∨ Behind e v s rest)

end Seats

section Arithmetic

variable {e} {v : Visit} {s : Session} {rest : Bytes}

/-- Before all completions nothing comes behind the request. -/
theorem inTime_nothing (h : InTime e (e.request ++ rest) v.completed)
    (hc : v.completed < e.replies.length) : rest = [] := by
  by_contra hne
  have hpos := List.length_pos_iff.mpr hne
  have := h.2 (by rw [List.length_append]; omega)
  omega

theorem live_early (hl : Live e v s) (hn : v.sent = []) : v.completed = 0 := by
  have := hl.2.2.2.1
  rw [hn] at this
  simp only [List.length_nil] at this
  omega

theorem live_opening (hl : Live e v s) (hn : v.sent = []) (hr : v.received = e.request ++ rest) :
    rest = [] := by
  have hin := hl.2.2.2.2.2.2
  rw [hr] at hin
  refine inTime_nothing (v := v) hin ?_
  rw [live_early hl hn]
  exact e.replies_pos

/-- A longer file than was read so far is read next. -/
theorem file_next {path : Bytes} (ht : e.task = .upload path) {p data : Bytes}
    (h : InTime e (e.opening ++ p ++ data) v.completed) :
    p ++ data <+: e.content ++ (e.trailer ++ encodeDownloadDone) := by
  have hin := h.1
  rw [Errand.request_upload ht] at hin
  simpa [List.append_assoc] using hin

theorem take_file {p data : Bytes} {n : ℕ} {tail : Bytes} (h : p ++ data <+: e.content ++ tail)
    (hp : p.length < e.content.length) (hn : n = min (e.content.length - p.length) data.length) :
    p ++ data.take n <+: e.content ∧
      ((p ++ data.take n).length < e.content.length → data.drop n = []) := by
  have hlen : (p ++ data.take n).length ≤ e.content.length := by
    rw [List.length_append, List.length_take]
    omega
  have hpre : p ++ data.take n <+: e.content ++ tail :=
    ((List.prefix_append_right_inj p).mpr (List.take_prefix n data)).trans h
  refine ⟨List.prefix_of_prefix_length_le hpre (List.prefix_append _ _) hlen, fun hlt => ?_⟩
  rw [List.length_append, List.length_take] at hlt
  rw [List.drop_eq_nil_iff]
  omega

end Arithmetic

end Visit

end LogTransfer
