import LogTransfer.ServerTape

/-!
# Zero-loss receive and its backpressure

What the tape says of a session between two callbacks: the slots committed are
the counted payload in order, a reader that takes payload has a free slot ahead
of it, and a reader that was stopped is owed a wake-up.
-/

set_option autoImplicit false

namespace LogTransfer
open Program Interleave

/-- `payload` is what follows the header of the upload in `stream`, up to `n`
bytes. -/
def PayloadOf (stream : Bytes) (fileSize n : ℕ) (payload : Bytes) : Prop :=
  ∃ h header, Reception.HeaderOf h header ∧ header.fileSize = fileSize ∧ h <+: stream ∧
    payload = (stream.drop h.length).take n

namespace Session

variable {g : Tape} {s : Session}

theorem payloadOf_stored (h : Stored g s) :
    g.slots = [] ∧ s.receivedBytes = 0 ∨
      PayloadOf g.received s.fileSize s.receivedBytes g.slots.flatten := by
  obtain ⟨⟨hc, -⟩, -, hn | ⟨hd, header, hh, hs, t, ht⟩⟩ := h
  · exact .inl ⟨hn, by rw [hc, hn]; rfl⟩
  · refine .inr ⟨hd, header, hh, hs, ⟨g.slots.flatten ++ t, ?_⟩, ?_⟩
    · rw [← ht, List.append_assoc]
    · rw [← ht, List.append_assoc, List.drop_left, hc, List.take_left]

theorem stored_taped (h : Taped [] g s) (hc : s.cleanupStarted = false) : Stored g s := by
  rcases h with (h | h | ⟨-, hs, -⟩) | ⟨-, h⟩ | ⟨-, h, -⟩
  · simp [h.1] at hc
  · exact h.2.2.2.2.1
  · exact hs
  · exact ⟨h.2.2.2.1, by rw [h.2.2.2.1.1, h.2.2.1]; simp, .inl h.2.2.1⟩
  · exact stored_payload h

theorem flowing_taped (h : Taped [] g s) (hst : s.state = .receiving) : Flowing g s := by
  rcases h with h | ⟨-, h⟩ | h
  · exact absurd hst (past_state h)
  · exact absurd (h.1.symm.trans hst) (by simp)
  · exact h.2.2

end Session

variable [Doubles] {cfg : ServerConfig} {c : TapeState}

theorem taped_between {m : Loop} {s : Session} (h : TapeHeld cfg c) (hm : c.thread = .done m)
    (hs : m.session = some s) : Session.Taped [] c.ghost.2 s := by
  have hi := h.1
  rw [hm] at hi
  exact hi.2 s hs

/-- Zero-loss receive: between two callbacks the committed slots are the payload
as far as it was counted, and the checksum is theirs; a reading session that
takes payload has a free slot, and every slot asked for is granted. -/
theorem zero_loss_receive (cfg : ServerConfig) (c : TapeState)
    (h : Reach (tapeMachine cfg) Always tapeInitial c) :
    (∀ m s, c.thread = .done m → m.session = some s → s.cleanupStarted = false →
      (c.ghost.2.slots = [] ∧ s.receivedBytes = 0 ∨
        PayloadOf c.ghost.2.received s.fileSize s.receivedBytes c.ghost.2.slots.flatten) ∧
      c.ghost.2.slots.flatten.length = s.receivedBytes ∧ s.receivedBytes ≤ s.fileSize ∧
      s.payloadCrc = crc32 0#32 c.ghost.2.slots.flatten ∧
      (s.socket.reading = true → s.state = .receiving → s.receivedBytes < s.fileSize →
        c.shared.parser.ringFull cfg.ringSlots = false)) ∧
      (c.pending = some .tryAcquireSlot →
        c.shared.parser.tryAcquireSlot cfg.ringSlots = true) := by
  have held := tape_reach h
  have hfree : c.ghost.2.room = true → c.shared.parser.ring.length ≠ cfg.ringSlots :=
    fun hr => Nat.ne_of_lt (held.2.2.room hr)
  refine ⟨fun m s hm hs hc => ?_, fun hp => ?_⟩
  · have ht := taped_between held hm hs
    have hst := Session.stored_taped ht hc
    refine ⟨Session.payloadOf_stored hst, hst.1.1.symm, hst.2.1, hst.1.2, fun hr hrec hlt => ?_⟩
    have hroom := (Session.flowing_taped ht hrec).1 hr hlt
    simpa [ParserThread.ringFull] using hfree hroom
  · have hroom : c.ghost.2.room = true := (held_pending (tapeMachine cfg) held hp).2
    simpa [ParserThread.tryAcquireSlot] using hfree hroom

section Schedules

def smallRing : ServerConfig := { defaultConfig with ringSlots := 1, slots_pos := Nat.one_pos }

/-- Half of an upload of four bytes, read into a ring of one slot. -/
def halfUpload : List (Act Event Peer) :=
  callback .connection 5 ++
    arrival (encodeUploadHeader { fileSize := 4, filename := bytesOf "a" } ++ bytesOf "xy") ++
    callback (.readable 100) 6

def resting (c : TapeState) : Option Session :=
  match c.thread with
  | .done m => m.session
  | .call _ _ => none

theorem resting_some {s : Session} (h : resting c = some s) :
    ∃ m, c.thread = .done m ∧ m.session = some s := by
  unfold resting at h
  split at h
  · rename_i m hm
    exact ⟨m, hm, h⟩
  · cases h

def allTrue (_ : TapeState) : Act Event Peer → Bool
  | .loop answer => answer
  | _ => true

end Schedules

omit [Doubles] in
theorem half_upload_stored :
    letI := wholeDoubles
    ∃ (c : TapeState) (s : Session), Reach (tapeMachine smallRing) Always tapeInitial c ∧
      resting c = some s ∧ s.receivedBytes = 2 ∧
      PayloadOf c.ghost.2.received s.fileSize s.receivedBytes c.ghost.2.slots.flatten := by
  let _ := wholeDoubles
  have hrun : ((run (tapeMachine smallRing) allTrue tapeInitial halfUpload).bind resting).map
      (fun s => (s.receivedBytes, s.cleanupStarted)) = some (2, false) := by
    decide
  obtain ⟨s, hs, hp⟩ := Option.map_eq_some_iff.mp hrun
  obtain ⟨c, hc, hcs⟩ := Option.bind_eq_some_iff.mp hs
  have hr : Reach (tapeMachine smallRing) Always tapeInitial c :=
    run_always _ hc
  obtain ⟨m, hm, hms⟩ := resting_some hcs
  simp only [Prod.mk.injEq] at hp
  have h := ((zero_loss_receive smallRing c hr).1 m s hm hms hp.2).1
  refine ⟨c, s, hr, hcs, hp.1, h.resolve_left fun hn => ?_⟩
  simp [hp.1] at hn

section Wakeup

/-- `uv_read_start` on an open stream that does not read. -/
def ReadStarts (_ : Ghost × Tape) (_ : World) (op : Op) (answer : Bool) : Prop :=
  op = .startRead → answer = true

def readLimits : Limits Op World Loop Event Peer (Ghost × Tape) :=
  { (Always : Limits Op World Loop Event Peer (Ghost × Tape)) with op := ReadStarts }

theorem deaf_next (cfg : ServerConfig) (g : Tape) (w : World) (op : Op) (b : Bool)
    (h : g.deaf = false) (hb : op = .startRead → b = true) :
    (g.next op (World.exec cfg op b w).1).deaf = false := by
  cases op with
  | startRead => simp [Tape.next, World.exec, h, hb rfl]
  | construct id => rfl
  | send id bytes =>
    simp only [Tape.next]
    split <;> exact h
  | _ => exact h

theorem deaf_reach (h : Reach (tapeMachine cfg) readLimits tapeInitial c) :
    c.ghost.2.deaf = false := by
  induction h with
  | init => rfl
  | step a _ ha hs ih =>
    obtain ⟨ev, m, p, w, ht, rfl, -, rfl⟩ | ⟨op, k, b, ht, rfl, rfl⟩ | ⟨d, w, rfl, -, rfl⟩ :=
      step_inversion (tapeMachine cfg) hs
    · simp only [tapeMachine, Machine.withHistory, Tape.begin]
      split <;> exact ih
    · simp only [Allowed, ht] at ha
      exact deaf_next cfg _ _ op b ih ha
    · exact ih

/-- Backpressure never loses its wake-up: between two callbacks a session in
RECEIVING that does not read is owed one. -/
theorem stopped_reader_is_woken (cfg : ServerConfig) (c : TapeState) (m : Loop) (s : Session)
    (h : Reach (tapeMachine cfg) readLimits tapeInitial c) (hm : c.thread = .done m)
    (hs : m.session = some s) (hst : s.state = .receiving) (hr : s.socket.reading = false) :
    c.shared.parser.ring ≠ [] ∧ c.shared.parser.readStopped = true ∨
      c.shared.parser.resumePending = true ∨ c.shared.parser.Signalling := by
  have held := tape_reach h
  have hflow := Session.flowing_taped (taped_between held hm hs) hst
  exact held.2.2.owed (hflow.2 hr (deaf_reach h)).2

theorem allTrue_reads (c : TapeState) (a : Act Event Peer) (h : allTrue c a = true) :
    Allowed readLimits c a := by
  cases a with
  | loop b =>
    simp only [Allowed]
    split
    · trivial
    · exact fun _ => h
  | start ev =>
    simp only [Allowed]
    split <;> trivial
  | peer d => trivial

omit [Doubles] in
theorem full_ring_is_woken :
    letI := wholeDoubles
    ∃ (c : TapeState) (s : Session), Reach (tapeMachine smallRing) readLimits tapeInitial c ∧
      resting c = some s ∧ s.state = .receiving ∧ s.socket.reading = false ∧
      (c.shared.parser.ring ≠ [] ∧ c.shared.parser.readStopped = true ∨
        c.shared.parser.resumePending = true ∨ c.shared.parser.Signalling) := by
  let _ := wholeDoubles
  have hrun : ((run (tapeMachine smallRing) allTrue tapeInitial halfUpload).bind resting).map
      (fun s => (s.state, s.socket.reading)) = some (.receiving, false) := by
    decide
  obtain ⟨s, hs, hp⟩ := Option.map_eq_some_iff.mp hrun
  obtain ⟨c, hc, hcs⟩ := Option.bind_eq_some_iff.mp hs
  have hr : Reach (tapeMachine smallRing) readLimits tapeInitial c :=
    run_reach _ allTrue_reads _ _ _ hc
  obtain ⟨m, hm, hms⟩ := resting_some hcs
  simp only [Prod.mk.injEq] at hp
  exact ⟨c, s, hr, hcs, hp.1, hp.2,
    stopped_reader_is_woken smallRing c m s hr hm hms hp.1 hp.2⟩

end Wakeup

end LogTransfer
