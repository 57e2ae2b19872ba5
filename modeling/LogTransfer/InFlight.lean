import LogTransfer.UploadExact

/-!
# The writes in flight

`Writes` keeps the writes that the current connection was handed and has not
completed, oldest first, beside the counter of the service. The counter is raised
for a chunk alone and lowered for every completion, and a new upload sets it
to zero: it covers the chunks in flight up to the first step that is out of
step with them.
-/

set_option autoImplicit false

namespace LogTransfer.Client
open Program Interleave

structure Writes where
  outstanding : List Message
  counter : ℕ
  deriving DecidableEq, Repr

def Message.isChunk : Message → Bool
  | .chunk _ => true
  | .header _ | .trailer _ | .request _ | .downloadDone => false

namespace Writes

def initial : Writes := { outstanding := [], counter := 0 }

def chunks (g : Writes) : ℕ := g.outstanding.countP Message.isChunk

def next (g : Writes) : (op : Op) → Ans op → Writes
  | .connect _ _, ok => if ok then { g with outstanding := [] } else g
  | .send m, ok =>
    { outstanding := if ok then g.outstanding ++ [m] else g.outstanding,
      counter := if m.isChunk then g.counter + 1 else g.counter }
  | .beginUpload _ _, error => if error.isNone then { g with counter := 0 } else g
  | .takeCommand, _ | .recv _, _ | .emit _, _ | .abortUpload, _ | .tryPeek, _ | .release, _
  | .failed, _ | .takeError, _ | .readComplete, _ | .ringEmpty, _ | .setResult _, _
  | .clearResult, _ | .note _, _ => g

/-- Writes complete in the order in which they were issued. -/
def begin (e : Signal) (g : Writes) : Writes :=
  match e with
  | .writeDone _ _ => { outstanding := g.outstanding.tail, counter := g.counter - 1 }
  | _ => g

end Writes

def writeMachine (files : Bytes → Option Bytes) :
    Machine Op Ans World Service Signal Peer Writes :=
  { machine files Writes.next with begin := Writes.begin }

def writesInitial : ClientState Writes := clientInitial Writes.initial

section Bounds

/-- The counter covers the chunks in flight and keeps to the limit. -/
def Covered (g : Writes) : Prop := g.chunks ≤ g.counter ∧ g.counter ≤ kMaxInFlightWrites

def queueOf (s : Service) : ℕ := (s.socket.map (·.pendingWrites)).getD 0

/-- The history says what the service and its socket have. -/
def Booked (g : Writes) (s : Service) : Prop :=
  s.inFlightWrites = g.counter ∧ queueOf s = g.outstanding.length

def ChunksCovered (c : ClientState Writes) : Prop :=
  c.ghost.chunks ≤ kMaxInFlightWrites ∧ c.ghost.chunks ≤ c.ghost.counter ∧
    ∀ s, c.thread = .done s →
      s.inFlightWrites = c.ghost.counter ∧ queueOf s = c.ghost.outstanding.length

/-- The write that completes is a chunk, or none is in flight, or the counter is
ahead of them; and the reader takes an upload only when none is in flight. -/
def inStep (files : Bytes → Option Bytes) : Limits Op World Service Signal Peer Writes where
  op g w op _ :=
    match op with
    | .beginUpload path _ =>
      w.reader.uploading = false → (files path).isSome = true → g.chunks = 0
    | _ => True
  start g _ _ e :=
    match e with
    | .writeDone _ _ => (∃ m, g.outstanding.head? = some m ∧ m.isChunk = true) ∨
        g.chunks = 0 ∨ g.chunks < g.counter
    | _ => True
  peer _ _ _ := True

def writeRules : Rules Op Ans Writes where
  may g op :=
    match op with
    | .send m => m.isChunk = true → g.counter < kMaxInFlightWrites
    | _ => True
  answers _ _ _ := True

end Bounds

section Books

variable {g : Writes} {s : Service}

theorem chunks_push (g : Writes) (m : Message) (n : ℕ) :
    ({ outstanding := g.outstanding ++ [m], counter := n } : Writes).chunks =
      g.chunks + if m.isChunk then 1 else 0 := by
  simp only [Writes.chunks, List.countP_append, List.countP_singleton]

theorem chunks_pop {m : Message} (h : g.outstanding.head? = some m) (n : ℕ) :
    ({ outstanding := g.outstanding.tail, counter := n } : Writes).chunks +
      (if m.isChunk then 1 else 0) = g.chunks := by
  obtain ⟨rest, hrest⟩ := List.head?_eq_some_iff.mp h
  simp only [Writes.chunks, hrest, List.tail_cons, List.countP_cons]

theorem chunks_pop_le (g : Writes) (n : ℕ) :
    ({ outstanding := g.outstanding.tail, counter := n } : Writes).chunks ≤ g.chunks :=
  List.Sublist.countP_le (List.tail_sublist _)

theorem queueOf_map (f : Socket → Socket) (hf : ∀ k, (f k).pendingWrites = k.pendingWrites) :
    queueOf { s with socket := s.socket.map f } = queueOf s := by
  cases hk : s.socket <;> simp [queueOf, hk, hf]

theorem queueOf_close (s : Service) : queueOf s.closeSocket = queueOf s :=
  queueOf_map (fun k => { k with reading := false, closing := true }) fun _ => rfl

theorem booked_close (h : Booked g s) : Booked g s.closeSocket :=
  ⟨h.1, (queueOf_close s).trans h.2⟩

theorem booked_failed (h : Booked g s) : Booked g s.failed := by
  unfold Service.failed
  split <;> exact h

theorem queueOf_queued (h : s.isOpen = true) : queueOf s.queued = queueOf s + 1 := by
  obtain ⟨k, hk, -⟩ := isOpen_some h
  simp [queueOf, Service.queued, hk]

end Books

section Steps

variable {α : Type} {g : Writes} {s : Service}

abbrev Counting (p : P α) (g : Writes) (Q : Writes → α → Prop) : Prop :=
  Keeps Writes.next writeRules p g Q

/-- The operations that neither hand over a write nor set the counter. -/
def Quiet : Op → Prop
  | .connect _ _ | .send _ | .beginUpload _ _ => False
  | _ => True

theorem next_quiet {op : Op} (h : Quiet op) (a : Ans op) : Writes.next g op a = g := by
  cases op with
  | connect | send | beginUpload => exact h.elim
  | _ => rfl

theorem may_quiet {op : Op} (h : Quiet op) : writeRules.may g op := by
  cases op with
  | send => exact h.elim
  | _ => trivial

theorem counting_act {op : Op} {f : Ans op → P α} {Q : Writes → α → Prop} (hq : Quiet op)
    (h : ∀ a, Counting (f a) g Q) : Counting (act op >>= f) g Q := by
  refine ⟨may_quiet hq, fun a _ => ?_⟩
  rw [next_quiet hq a]
  exact h a

theorem counting_quiet {p : P α} (h : Only Quiet p) : Counting p g (fun g' _ => g' = g) :=
  keeps_only (fun _ a hq => next_quiet hq a) (fun _ => may_quiet) h

theorem drainLoop_quiet (n : ℕ) : Only Quiet (Service.drainLoop n) := by
  induction n with
  | zero => trivial
  | succ n ih =>
    refine ⟨trivial, fun view => ?_⟩
    cases view with
    | none => trivial
    | some chunk => exact ⟨trivial, fun _ => ih⟩

/-- A message other than a chunk that is handed over joins the queue. -/
theorem send_booked (m : Message) (hm : m.isChunk = false) (h : Booked g s) :
    Counting (s.send m) g (fun g' r => Booked g' r.1) := by
  unfold Service.send
  split
  · exact h
  · rename_i hs
    have hopen : s.isOpen = true := by simpa using hs
    refine ⟨fun hc => by simp [hm] at hc, fun ok _ => ?_⟩
    cases ok with
    | false => exact ⟨by simpa [Writes.next, hm] using h.1, h.2⟩
    | true =>
      refine ⟨?_, ?_⟩
      · change s.inFlightWrites = _
        simpa [Writes.next, hm] using h.1
      · change queueOf s.queued = _
        rw [queueOf_queued hopen, h.2]
        simp [Writes.next]

theorem abortUpload_booked (reason : Bytes) (level : LogLevel) (h : Booked g s) :
    Counting (s.abortUpload reason level) g Booked := by
  refine counting_act trivial fun _ => ?_
  refine keeps_seq _ _ _ _ _ (counting_quiet (drainLoop_quiet _)) fun g' _ hg => ?_
  subst hg
  refine counting_act trivial fun _ => counting_act trivial fun _ => ?_
  exact booked_close (s := { s with uploading := false }) h

theorem failSession_booked (reason : Bytes) (level : LogLevel) (h : Booked g s) :
    Counting (s.failSession reason level) g Booked := by
  have hstop : Only Quiet (Service.stopReader s) := by
    unfold Service.stopReader
    split
    · exact ⟨trivial, fun _ => drainLoop_quiet _⟩
    · trivial
  refine keeps_seq _ _ _ _ _ (counting_quiet hstop) fun g' _ hg => ?_
  subst hg
  refine counting_act trivial fun _ => counting_act trivial fun _ => ?_
  exact booked_close (booked_failed h)

end Steps

section Upload

variable {g : Writes} {s : Service}

theorem finishUpload_booked (h : Booked g s) : Counting s.finishUpload g Booked := by
  have hsend := send_booked (s := { s with trailerSent := true })
    (.trailer { crc32 := s.uploadCrc }) rfl h
  refine keeps_seq _ _ _ _ _ hsend ?_
  rintro g' ⟨s', ok⟩ hc
  cases ok with
  | false => exact abortUpload_booked _ _ hc
  | true => exact counting_act trivial fun _ => counting_act trivial fun _ => hc

/-- A pass raises the counter with the chunk, whether the socket takes it or not. -/
theorem sendChunk_booked (chunk : Bytes) (ho : s.isOpen = true) (h : Booked g s)
    (hroom : s.inFlightWrites < kMaxInFlightWrites) :
    Counting (s.send (.chunk chunk)) g (fun g' r =>
      Booked g' { r.1 with inFlightWrites := r.1.inFlightWrites + 1 } ∧ r.1.isOpen = true) := by
  unfold Service.send
  rw [if_neg (by simp [ho])]
  refine ⟨fun _ => h.1 ▸ hroom, fun ok _ => ?_⟩
  cases ok with
  | false => exact ⟨⟨congrArg (· + 1) h.1, h.2⟩, ho⟩
  | true =>
    refine ⟨⟨congrArg (· + 1) h.1, ?_⟩, (isOpen_queued s).trans ho⟩
    change queueOf s.queued = _
    rw [queueOf_queued ho, h.2]
    simp [Writes.next]

theorem pumpLoop_booked (n : ℕ) (ho : s.isOpen = true) (h : Booked g s) :
    Counting (Service.pumpLoop n s) g (fun g' r => Booked g' r.1) := by
  induction n generalizing g s with
  | zero => exact h
  | succ n ih =>
    unfold Service.pumpLoop
    split
    · rename_i hroom
      refine counting_act trivial fun view => ?_
      cases view with
      | none => exact h
      | some chunk =>
        have hsend := sendChunk_booked (s := { s with uploadCrc := crc32 s.uploadCrc chunk })
          chunk ho h hroom
        refine keeps_seq _ _ _ _ _ hsend ?_
        rintro g' ⟨s', ok⟩ ⟨hc, hopen⟩
        refine counting_act trivial fun _ => ?_
        cases ok with
        | false => exact keeps_seq _ _ _ _ _ (abortUpload_booked _ _ hc) fun _ _ hend => hend
        | true => exact ih hopen hc
    · exact h

theorem pumpEnd_booked (h : Booked g s) : Counting s.pumpEnd g Booked := by
  unfold Service.pumpEnd
  split
  · exact h
  · refine counting_act trivial fun complete => ?_
    cases complete with
    | false => exact h
    | true =>
      refine counting_act trivial fun empty => ?_
      split
      · exact finishUpload_booked h
      · exact h

theorem pumpUpload_booked (h : Booked g s) : Counting s.pumpUpload g Booked := by
  unfold Service.pumpUpload
  split
  · exact h
  · rename_i hpump
    have hopen : s.isOpen = true := by
      rw [Bool.or_eq_true, not_or] at hpump
      simpa using hpump.2
    refine counting_act trivial fun failed => ?_
    cases failed with
    | true => exact counting_act trivial fun _ => abortUpload_booked _ _ h
    | false =>
      refine keeps_seq _ _ _ _ _ (pumpLoop_booked _ hopen h) ?_
      rintro g' ⟨s', going⟩ hc
      cases going with
      | true => exact pumpEnd_booked hc
      | false => exact hc

end Upload

section Download

variable {g : Writes} {s : Service}

theorem finishDownload_booked (h : Booked g s) : Counting s.finishDownload g Booked := by
  unfold Service.finishDownload
  dsimp only
  split
  · exact failSession_booked _ _ h
  · refine counting_act trivial fun _ => counting_act trivial fun _ => ?_
    refine keeps_seq _ _ _ _ _ (send_booked _ rfl h) ?_
    rintro g' ⟨s', ok⟩ hc
    cases ok with
    | false => exact failSession_booked _ _ hc
    | true =>
      have hwarn (warning : Bytes) : Only Quiet (Service.warnSkipped warning) := by
        unfold Service.warnSkipped
        split
        · trivial
        · exact ⟨trivial, fun _ => trivial⟩
      refine counting_act trivial fun _ => ?_
      refine keeps_seq _ _ _ _ _ (counting_quiet (hwarn _)) fun g'' _ hg => ?_
      subst hg
      exact counting_act trivial fun _ => hc

theorem completed_booked (h : Booked g s) : Counting s.completed g Booked := by
  unfold Service.completed
  split
  · exact finishDownload_booked h
  · exact h

theorem beginCsvReceive_booked (header : ResultHeader) (resuming : Bool) (h : Booked g s) :
    Counting (s.beginCsvReceive header resuming) g (fun g' r => Booked g' r.1) := by
  refine counting_act trivial fun _ => ?_
  split
  · exact keeps_seq _ _ _ _ _ (failSession_booked _ _ h) fun _ _ hc => hc
  · split
    · exact keeps_seq _ _ _ _ _ (failSession_booked _ _ h) fun _ _ hc => hc
    · refine keeps_seq _ _ _ _ _ ?_ fun _ _ hc => hc
      refine counting_act trivial fun _ => counting_act trivial fun _ => ?_
      exact completed_booked (s := s.receiving header resuming) h

theorem failBytes_booked (reason : String) (h : Booked g s) :
    Counting (s.failBytes reason) g (fun g' r => Booked g' r.1) :=
  keeps_seq _ _ _ _ _ (failSession_booked _ _ h) fun _ _ hc => hc

theorem framed_booked (data : Bytes) (malformed : String) (whole : Service → ℕ → P (Service × ℕ))
    (hwhole : ∀ f n, Counting (whole { s with framer := f } n) g (fun g' r => Booked g' r.1))
    (h : Booked g s) :
    Counting (s.framed data malformed whole) g (fun g' r => Booked g' r.1) := by
  unfold Service.framed
  dsimp only
  split
  · exact h
  · exact hwhole _ _
  · exact failBytes_booked (s := { s with framer := (s.framer.feed data).1 }) _ h

theorem ackFramed_booked (n : ℕ) (h : Booked g s) :
    Counting (s.ackFramed n) g (fun g' r => Booked g' r.1) := by
  unfold Service.ackFramed
  split
  · exact failBytes_booked _ h
  · split
    · exact keeps_seq _ _ _ _ _ (failSession_booked _ _ h) fun _ _ hc => hc
    · refine keeps_seq _ _ _ _ _ (Q := Booked) ?_ fun _ _ hc => hc
      refine counting_act trivial fun _ => counting_act trivial fun _ => ?_
      exact counting_act trivial fun _ => h

theorem headerFramed_booked (resuming : Bool) (n : ℕ) (h : Booked g s) :
    Counting (s.headerFramed resuming n) g (fun g' r => Booked g' r.1) := by
  unfold Service.headerFramed
  split
  · exact failBytes_booked _ h
  · exact keeps_seq _ _ _ _ _ (beginCsvReceive_booked _ _ h) fun _ _ hc => hc

theorem resumeFramed_booked (n : ℕ) (h : Booked g s) :
    Counting (s.resumeFramed n) g (fun g' r => Booked g' r.1) := by
  unfold Service.resumeFramed
  split
  · refine counting_act trivial fun _ => ?_
    exact keeps_seq _ _ _ _ _ (failSession_booked _ _ h) fun _ _ hc => hc
  · exact headerFramed_booked true n h

theorem consume_booked (data : Bytes) (h : Booked g s) :
    Counting (s.consume data) g (fun g' r => Booked g' r.1) := by
  unfold Service.consume
  cases s.expecting with
  | ack => exact framed_booked _ _ _ (fun _ n => ackFramed_booked n h) h
  | resultHeader => exact framed_booked _ _ _ (fun _ n => headerFramed_booked false n h) h
  | resumeReply => exact framed_booked _ _ _ (fun _ n => resumeFramed_booked n h) h
  | csvPayload =>
    refine counting_act trivial fun _ => ?_
    exact keeps_seq _ _ _ _ _ (completed_booked (s := s.appended _) h) fun _ _ hc => hc
  | nothing =>
    refine counting_act trivial fun _ => ?_
    exact keeps_seq _ _ _ _ _ (failSession_booked _ _ h) fun _ _ hc => hc

end Download

section Commands

variable {g : Writes} {s : Service}

theorem handleConnect_booked (ip : Bytes) (port : ℕ) (h : Booked g s) :
    Counting (s.handleConnect ip port) g Booked := by
  unfold Service.handleConnect
  split
  · exact counting_act trivial fun _ => h
  · refine counting_act trivial fun _ => ⟨trivial, fun ok _ => ?_⟩
    cases ok with
    | false => exact counting_act trivial fun _ => counting_act trivial fun _ => h
    | true => exact counting_act trivial fun _ => ⟨h.1, rfl⟩

theorem handleDisconnect_booked (h : Booked g s) : Counting s.handleDisconnect g Booked := by
  have htimer : Booked g { s with connectTimer := false } := h
  unfold Service.handleDisconnect
  dsimp only
  split
  · exact counting_act trivial fun _ => h
  · refine counting_act trivial fun _ => ?_
    split
    · exact abortUpload_booked _ _ htimer
    · split
      · exact failSession_booked _ _ htimer
      · exact booked_close htimer

/-- The new upload starts from zero, as its history does. -/
theorem uploadAccepted_booked (filename : Bytes) (size : ℕ) (hzero : g.counter = 0)
    (hqueue : queueOf s = g.outstanding.length) :
    Counting (s.uploadAccepted filename size) g Booked := by
  refine counting_act trivial fun _ => counting_act trivial fun _ => ?_
  refine counting_act trivial fun _ => ?_
  refine keeps_seq _ _ _ _ _ (send_booked _ rfl ⟨hzero.symm, hqueue⟩) ?_
  rintro g' ⟨s', ok⟩ hc
  cases ok with
  | false => exact abortUpload_booked _ _ hc
  | true => exact counting_act trivial fun _ => counting_act trivial fun _ => pumpUpload_booked hc

theorem handleStartUpload_booked (path filename : Bytes) (size : ℕ) (h : Booked g s) :
    Counting (s.handleStartUpload path filename size) g Booked := by
  unfold Service.handleStartUpload
  split
  · exact counting_act trivial fun _ => h
  · split
    · exact counting_act trivial fun _ => h
    · refine keeps_seq _ _ _ _ _ (counting_quiet (drainLoop_quiet _)) fun g' _ hg => ?_
      subst hg
      refine ⟨trivial, fun error _ => ?_⟩
      cases error with
      | some text => exact counting_act trivial fun _ => h
      | none => exact counting_act trivial fun _ => uploadAccepted_booked _ _ rfl h.2

theorem handleRequestResult_booked (h : Booked g s) :
    Counting s.handleRequestResult g Booked := by
  unfold Service.handleRequestResult
  split
  · exact counting_act trivial fun _ => h
  · split
    · exact counting_act trivial fun _ => h
    · refine counting_act trivial fun _ => ?_
      refine keeps_seq _ _ _ _ _ (send_booked _ rfl h) ?_
      rintro g' ⟨s', ok⟩ hc
      cases ok with
      | false => exact failSession_booked _ _ hc
      | true => exact counting_act trivial fun _ => counting_act trivial fun _ => hc

theorem handle_booked (command : Command) (h : Booked g s) :
    Counting (s.handle command) g Booked := by
  cases command with
  | connect ip port => exact handleConnect_booked ip port h
  | disconnect => exact handleDisconnect_booked h
  | startUpload path filename size => exact handleStartUpload_booked path filename size h
  | requestResult => exact handleRequestResult_booked h
  | cancelUpload =>
    change Counting s.handleCancelUpload g Booked
    unfold Service.handleCancelUpload
    split
    · exact h
    · exact abortUpload_booked _ _ h

end Commands

section Callbacks

variable {g : Writes} {s : Service}

theorem onConnect_booked (ok : Bool) (text : Bytes) (h : Booked g s) :
    Counting (s.onConnect ok text) g Booked := by
  have hanswered : Booked g (s.answered ok) :=
    ⟨h.1, (queueOf_map (fun k => { k with connecting := false, connected := ok })
      fun _ => rfl).trans h.2⟩
  unfold Service.onConnect
  dsimp only
  split
  · refine counting_act trivial fun _ => counting_act trivial fun _ => ?_
    exact booked_close hanswered
  · refine counting_act trivial fun _ => counting_act trivial fun _ => ?_
    unfold Service.startRead
    split
    · exact ⟨hanswered.1, (queueOf_map (fun k => { k with reading := true })
        fun _ => rfl).trans hanswered.2⟩
    · exact counting_act trivial fun _ => booked_close hanswered

theorem onConnectTimeout_booked (h : Booked g s) : Counting s.onConnectTimeout g Booked := by
  unfold Service.onConnectTimeout
  dsimp only
  split
  · refine counting_act trivial fun _ => counting_act trivial fun _ => ?_
    exact counting_act trivial fun _ => booked_close (s := { s with connectTimer := false }) h
  · exact h

theorem onError_booked (what : Option Bytes) (h : Booked g s) :
    Counting (s.onError what) g Booked := by
  have hsay : Only Quiet (s.sayError what) := by
    cases what with
    | some text => exact ⟨trivial, fun _ => trivial⟩
    | none =>
      change Only Quiet s.sayClosed
      unfold Service.sayClosed
      split
      · exact ⟨trivial, fun _ => trivial⟩
      · split
        · trivial
        · exact ⟨trivial, fun _ => trivial⟩
  refine keeps_seq _ _ _ _ _ (counting_quiet hsay) fun g' _ hg => ?_
  subst hg
  refine keeps_seq _ _ _ _ _ (Q := Booked) ?_ fun _ _ hc => ?_
  · unfold Service.giveUp
    split
    · exact abortUpload_booked _ _ h
    · split
      · exact failSession_booked _ _ h
      · exact h
  · exact counting_act trivial fun _ => booked_close hc

/-- The service lowers its counter as the history does, and the socket its queue. -/
theorem onWrite_booked (ok : Bool) (text : Bytes) (h : Booked g s) :
    Counting (s.onWrite ok text) (Writes.begin (.writeDone ok text) g) Booked := by
  have hdone : Booked (Writes.begin (.writeDone ok text) g)
      { s.written with inFlightWrites := s.inFlightWrites - 1 } := by
    refine ⟨congrArg (· - 1) h.1, ?_⟩
    change queueOf s.written = g.outstanding.tail.length
    rw [List.length_tail, ← h.2]
    cases hk : s.socket <;> simp [queueOf, Service.written, hk]
  refine keeps_seq _ _ _ _ _ (Q := Booked) ?_ fun g' s' hc => ?_
  · unfold Service.onSendComplete
    dsimp only
    split
    · exact pumpUpload_booked hdone
    · split
      · exact abortUpload_booked _ _ hdone
      · exact hdone
  · split
    · exact hc
    · exact onError_booked _ hc

theorem callback_booked (e : Signal) (h : Booked g s) (w : World) (hready : ready s w e = true) :
    Counting (callback s e) (Writes.begin e g) Booked := by
  cases e with
  | connectDone ok text => exact onConnect_booked ok text h
  | readError error => exact onError_booked _ h
  | writeDone ok text => exact onWrite_booked ok text h
  | connectTimeout => exact onConnectTimeout_booked h
  | async passes =>
    refine keeps_seq _ _ _ _ _ (Q := Booked) ?_ fun _ _ hc => pumpUpload_booked hc
    refine Service.keeps_drainCommands (fun _ => trivial) (fun _ _ hc => hc) ?_ _ h
    exact fun _ _ command hc _ => handle_booked command hc
  | readable count =>
    refine counting_act trivial fun data => ?_
    exact Service.keeps_rounds (fun data _ _ hc => consume_booked data hc) _ data h
  | closed =>
    -- the socket is gone only after its last write was reported
    refine counting_act trivial fun _ => ⟨h.1, ?_⟩
    change 0 = g.outstanding.length
    rw [← h.2]
    unfold ready at hready
    cases hk : s.socket with
    | none => simp [queueOf, hk]
    | some k =>
      simp only [hk, Option.any_some, Bool.and_eq_true, decide_eq_true_eq] at hready
      simp [queueOf, hk, hready.2]

end Callbacks

section Runs

variable {files : Bytes → Option Bytes}

theorem covered_pop {g : Writes} (ok : Bool) (text : Bytes) (h : Covered g)
    (hstep : (∃ m, g.outstanding.head? = some m ∧ m.isChunk = true) ∨
      g.chunks = 0 ∨ g.chunks < g.counter) :
    Covered (Writes.begin (.writeDone ok text) g) := by
  obtain ⟨hcover, hlimit⟩ := h
  have hle := chunks_pop_le g (g.counter - 1)
  have hlower : g.counter - 1 ≤ kMaxInFlightWrites := by omega
  refine ⟨?_, hlower⟩
  change Writes.chunks ⟨g.outstanding.tail, g.counter - 1⟩ ≤ g.counter - 1
  rcases hstep with ⟨m, hm, hchunk⟩ | hnone | hahead
  · have hpop := chunks_pop hm (g.counter - 1)
    rw [if_pos hchunk] at hpop
    omega
  · omega
  · omega

theorem covered_exec {g : Writes} {w : World} {op : Op} {b : Bool} (h : Covered g)
    (hmay : writeRules.may g op) (hlim : (inStep files).op g w op b) :
    Covered (Writes.next g op (World.exec files op b w).1) := by
  obtain ⟨hcover, hlimit⟩ := h
  cases op with
  | connect ip port =>
    cases b with
    | false => exact ⟨hcover, hlimit⟩
    | true => exact ⟨Nat.zero_le _, hlimit⟩
  | send m =>
    have hroom : m.isChunk = true → g.counter < kMaxInFlightWrites := hmay
    have hchunks : (Writes.next g (.send m) b).chunks ≤
        g.chunks + if m.isChunk then 1 else 0 := by
      cases b with
      | false => exact Nat.le_add_right _ _
      | true => exact (chunks_push g m _).le
    have hcounter : (Writes.next g (.send m) b).counter =
        g.counter + if m.isChunk then 1 else 0 := by
      cases hm : m.isChunk <;> simp [Writes.next, hm]
    change (Writes.next g (.send m) b).chunks ≤ (Writes.next g (.send m) b).counter ∧
      (Writes.next g (.send m) b).counter ≤ kMaxInFlightWrites
    rw [hcounter]
    refine ⟨by omega, ?_⟩
    split
    · rename_i hm
      exact hroom hm
    · exact hlimit
  | beginUpload path size =>
    have hclear : w.reader.uploading = false → (files path).isSome = true → g.chunks = 0 := hlim
    by_cases hu : w.reader.uploading = true
    · simpa [Covered, World.exec, FileReader.beginUpload, Writes.next, hu] using ⟨hcover, hlimit⟩
    · cases hf : files path with
      | none =>
        simpa [Covered, World.exec, FileReader.beginUpload, Writes.next, hu, hf] using
          ⟨hcover, hlimit⟩
      | some content =>
        have hnone : g.chunks = 0 := hclear (by simpa using hu) (by simp [hf])
        have hchunks : ({ g with counter := 0 } : Writes).chunks = 0 := hnone
        simp [Covered, World.exec, FileReader.beginUpload, Writes.next, hu, hf, hchunks]
  | _ => exact ⟨hcover, hlimit⟩

theorem writes_discipline : Discipline (writeMachine files) writeRules (inStep files)
    (fun g _ => Covered g) Booked where
  start := by
    intro g w s e p w' hc hj hlim hs
    have hs : (if ready s w e then some (callback s e, delivered w e) else none) =
        some (p, w') := hs
    split at hs
    · rename_i hready
      cases hs
      refine ⟨callback_booked e hc w hready, ?_⟩
      cases e with
      | writeDone ok text => exact covered_pop ok text hj hlim
      | _ => exact hj
    · cases hs
  op := fun g w op b hj hmay hlim => ⟨trivial, covered_exec hj hmay hlim⟩
  peer := fun _ _ _ _ hj _ _ => hj

theorem writes_initial : Held (writeMachine files) writeRules (fun g _ => Covered g) Booked
    writesInitial := ⟨⟨rfl, rfl⟩, Nat.le_refl 0, Nat.zero_le _⟩

theorem chunksCovered_reached {c : ClientState Writes}
    (h : Reach (writeMachine files) (inStep files) writesInitial c) : ChunksCovered c := by
  obtain ⟨hkeeps, hcover, hlimit⟩ := reach_held _ writes_discipline writes_initial h
  refine ⟨hcover.trans hlimit, hcover, fun s hs => ?_⟩
  rw [hs] at hkeeps
  exact hkeeps

/-- A step that is out of step leaves a chunk that the counter does not cover. -/
theorem inStep_of_covered {c c' : ClientState Writes} {a : Act Signal Peer}
    (hj : c.ghost.chunks ≤ c.ghost.counter)
    (hs : Interleave.step (writeMachine files) c a = some c')
    (h : c'.ghost.chunks ≤ c'.ghost.counter) : Allowed (inStep files) c a := by
  obtain ⟨e, s, p, w, ht, rfl, -, rfl⟩ | ⟨op, k, b, ht, rfl, rfl⟩ | ⟨d, w, rfl, -, rfl⟩ :=
    step_inversion _ hs
  · simp only [Allowed, ht]
    cases e with
    | writeDone ok text =>
      by_contra hout
      simp only [inStep, not_or, not_lt] at hout
      obtain ⟨hfront, hsome, hahead⟩ := hout
      have h : Writes.chunks ⟨c.ghost.outstanding.tail, c.ghost.counter - 1⟩ ≤
        c.ghost.counter - 1 := h
      cases hhead : c.ghost.outstanding.head? with
      | none =>
        have hnil := List.head?_eq_none_iff.mp hhead
        exact hsome (by simp [Writes.chunks, hnil])
      | some m =>
        have hpop := chunks_pop hhead (c.ghost.counter - 1)
        rw [if_neg fun hchunk => hfront ⟨m, hhead, hchunk⟩] at hpop
        omega
    | _ => trivial
  · simp only [Allowed, ht]
    cases op with
    | beginUpload path size =>
      intro hu hf
      obtain ⟨content, hcontent⟩ := Option.isSome_iff_exists.mp hf
      have hnone : ((World.exec files (.beginUpload path size) b c.shared).1).isNone = true := by
        simp [World.exec, FileReader.beginUpload, hu, hcontent]
      have h : (Writes.next c.ghost (.beginUpload path size)
          (World.exec files (.beginUpload path size) b c.shared).1).chunks ≤
        (Writes.next c.ghost (.beginUpload path size)
          (World.exec files (.beginUpload path size) b c.shared).1).counter := h
      simp only [Writes.next, if_pos hnone] at h
      exact Nat.le_zero.mp h
    | _ => trivial
  · trivial

end Runs

/-- In every run whose steps are in step with the chunks in flight, there are
never more of them than the limit and the counter covers them; the first step
that is not ends this. -/
theorem in_flight_bounded (files : Bytes → Option Bytes) (c : ClientState Writes)
    (h : Reach (writeMachine files) (inStep files) writesInitial c) :
    ChunksCovered c ∧ ∀ a c', Interleave.step (writeMachine files) c a = some c' →
      (ChunksCovered c' ↔ Allowed (inStep files) c a) := by
  have hc := chunksCovered_reached h
  refine ⟨hc, fun a c' hs => ⟨fun hc' => ?_, fun ha => ?_⟩⟩
  · exact inStep_of_covered hc.2.1 hs hc'.2.1
  · exact chunksCovered_reached (.step a h ha hs)

section Schedules

/-- No chunk is in flight when a write completes or an upload is taken. -/
def settledNow (c : ClientState Writes) (a : Act Signal Peer) : Bool :=
  match a, c.pending with
  | .start (.writeDone _ _), _ => c.ghost.chunks = 0
  | .loop _, some (.beginUpload _ _) => c.ghost.chunks = 0
  | _, _ => true

theorem settledNow_allowed (files : Bytes → Option Bytes) (c : ClientState Writes)
    (a : Act Signal Peer) (h : settledNow c a = true) : Allowed (inStep files) c a := by
  cases a with
  | peer d => trivial
  | start e =>
    simp only [Allowed]
    split
    · cases e with
      | writeDone ok text => exact .inr (.inl (by simpa [settledNow] using h))
      | _ => trivial
    · trivial
  | loop b =>
    simp only [Allowed]
    split
    · trivial
    · rename_i op k ht
      cases op with
      | beginUpload path size =>
        intro _ _
        simpa [settledNow, Config.pending, ht] using h
      | _ => trivial

def uploadByte : List (Act Signal Peer) :=
  posted (.startUpload (bytesOf "b") (bytesOf "b") 1) ++ signal (.async 1) 17 ++ readerSteps 6 ++
    signal (.async 0) 7

/-- The upload goes on to its trailer and the reader leaves it. -/
def toTrailer : List (Act Signal Peer) := readerSteps 5 ++ signal (.async 0) 8 ++ readerSteps 1

def headerCompletes : List (Act Signal Peer) :=
  connecting ++ uploadByte ++ signal (.writeDone true []) 3

/-- Nine uploads of one byte over one connection, and no write of them completes. -/
def nineUploads : List (Act Signal Peer) :=
  connecting ++ (List.replicate 9 (uploadByte ++ toTrailer)).flatten

def counterAtRest (c : ClientState Writes) : Option ℕ :=
  match c.thread with
  | .done s => some s.inFlightWrites
  | .call _ _ => none

end Schedules

theorem in_flight_byte : ∃ c : ClientState Writes, c.ghost.chunks = 1 ∧
    (ChunksCovered c ∧ ∀ a c', Interleave.step (writeMachine twoFiles) c a = some c' →
      (ChunksCovered c' ↔ Allowed (inStep twoFiles) c a)) := by
  have hrun : ((run (writeMachine twoFiles) settledNow writesInitial
      (connecting ++ uploadByte)).map fun c => c.ghost.chunks) = some 1 := by decide
  obtain ⟨c, hc, hn⟩ := Option.map_eq_some_iff.mp hrun
  exact ⟨c, hn, in_flight_bounded twoFiles c
    (run_reach _ (settledNow_allowed twoFiles) _ _ _ hc)⟩

set_option maxRecDepth 20000 in
/-- The header's completion takes the counter below the one chunk in flight, and
each upload over the same connection forgets the chunks of the one before. -/
theorem in_flight_not_bounded :
    (∃ c : ClientState Writes, Reach (writeMachine twoFiles) Always writesInitial c ∧
      counterAtRest c = some 0 ∧ c.ghost.chunks = 1) ∧
    ∃ c : ClientState Writes, Reach (writeMachine twoFiles) Always writesInitial c ∧
      kMaxInFlightWrites < c.ghost.chunks := by
  have hheader : ((run (writeMachine twoFiles) (fun _ _ => true) writesInitial
      headerCompletes).map fun c => (counterAtRest c, c.ghost.chunks)) = some (some 0, 1) := by
    decide
  have hnine : ((run (writeMachine twoFiles) (fun _ _ => true) writesInitial
      nineUploads).map fun c => c.ghost.chunks) = some 9 := by decide
  obtain ⟨c, hc, hk⟩ := Option.map_eq_some_iff.mp hheader
  obtain ⟨c', hc', hk'⟩ := Option.map_eq_some_iff.mp hnine
  obtain ⟨hcounter, hchunks⟩ := Prod.mk.inj hk
  refine ⟨⟨c, ?_, hcounter, hchunks⟩, c', ?_, by rw [hk']; decide⟩
  · exact run_always _ hc
  · exact run_always _ hc'

end LogTransfer.Client
