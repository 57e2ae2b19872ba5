import LogTransfer.Reception

/-!
# A session fed by reads

`Quiet` stands for the surroundings of a session while nothing but reads
happens: the ring has room, the socket calls succeed, the kept record does not
change. Under it a run of `onAllocate` and `onRead` mirrors `Reception`, with
one exception: a read into a ring slot is not looked at beyond the trailer.
-/

set_option autoImplicit false

namespace LogTransfer
open Program

structure Quiet where
  committed : Bytes
  sent : List Bytes
  retained : Option RetainedResult
  deriving DecidableEq, Repr

def Quiet.answer : (op : Op) → Quiet → Ans op × Quiet
  | .abortPending, q | .acceptPending, q | .ringFull, q => (false, q)
  | .startRead, q | .tryAcquireSlot, q => (true, q)
  | .recv _, q => ([], q)
  | .commitSlot _ data, q => ((), { q with committed := q.committed ++ data })
  | .takeResult, q => (AnalysisResult.blank, q)
  | .retain _ kept, q => ((), { q with retained := some kept })
  | .lookup filename fileSize crc, q => (retainedResult q.retained filename fileSize crc, q)
  | .send _ bytes, q => (true, { q with sent := q.sent ++ [bytes] })
  | .construct _, q | .beginSession, q | .setReadStopped _, q | .markUploadComplete _, q
  | .abortSession _, q | .passGuard _ _, q => ((), q)

def quietly {α : Type} (p : P α) (q : Quiet) : α × Quiet := eval Quiet.answer p q

theorem quietly_bind {α β : Type} (p : P α) (f : α → P β) (q : Quiet) :
    quietly (p >>= f) q = quietly (f (quietly p q).1) (quietly p q).2 :=
  eval_bind Quiet.answer p f q

theorem quietly_pure {α : Type} (a : α) (q : Quiet) : quietly (pure a) q = (a, q) := rfl

section Mirror

structure Live (s : Session) : Prop where
  cleanup : s.cleanupStarted = false
  failing : s.closeAfterSend = false
  closing : s.socket.closing = false
  reading : s.socket.reading = true

structure Carries (s : Session) (q : Quiet) (a : Reception) : Prop where
  sent : q.sent = a.sent
  committed : q.committed = a.payload
  retained : q.retained = a.retained
  received : s.receivedBytes = a.payload.length
  crc : s.payloadCrc = crc32 0#32 a.payload

def AtStage (s : Session) (a : Reception) : Prop :=
  match a.stage with
  | .header f => Live s ∧ s.framer = f ∧ f.Open ∧ a.payload = []
  | .payload => Live s ∧ s.fileSize = a.fileSize ∧ a.payload.length < a.fileSize ∧
    s.framer = Reception.trailerFramer
  | .trailer f => Live s ∧ s.fileSize = a.fileSize ∧ a.payload.length = a.fileSize ∧
    s.framer = f ∧ f.Open
  | .analyzing | .sendingResult => Live s
  | .failing state => s.cleanupStarted = false ∧ s.closeAfterSend = true ∧
    (state = .receiving → s.fileSize ≤ s.receivedBytes)
  | .closed => s.cleanupStarted = true

structure Mirrors (c : Session × Quiet) (a : Reception) : Prop where
  carries : Carries c.1 c.2 a
  state : c.1.state = a.stage.state
  stage : AtStage c.1 a

variable {e : Env} {s : Session} {q : Quiet} {a : Reception}

theorem quietly_send (bytes : Bytes) (hc : s.socket.closing = false) :
    quietly (Session.send s bytes) q =
      ((Session.queued s, true), { q with sent := q.sent ++ [bytes] }) := by
  simp [Session.send, hc, quietly, eval_bind, eval_ask, Quiet.answer, eval_pure]

theorem quietly_cleanup (reason : String) (hc : s.cleanupStarted = false) :
    quietly (Session.cleanup s reason) q = (Session.cleaned s reason, q) := by
  simp [Session.cleanup, hc, quietly, eval_bind, eval_ask, Quiet.answer, eval_pure]

theorem quietly_transition (next : SessionState) (hr : s.socket.reading = true)
    (hne : s.state ≠ next) :
    ∃ t, quietly (Session.transition e s next) q = ({ s with state := next, timer := t }, q) := by
  obtain ⟨t, ht⟩ := Session.armTimer_eq (e := e) { s with state := next }
  refine ⟨t, ?_⟩
  simp only [Session.transition, if_neg hne, ht]
  split
  · simp [Session.resumeReading, hr, quietly_pure]
  · rfl

theorem quietly_backpressure : quietly (Session.applyBackpressure s) q = (s, q) := by
  simp [Session.applyBackpressure, quietly, eval_bind, eval_ask, Quiet.answer, eval_pure]

theorem mirrors_close (reason : String) (hc : Carries s q a) (hl : s.cleanupStarted = false) :
    Mirrors (quietly (Session.cleanup s reason) q) a.close := by
  rw [quietly_cleanup reason hl]
  exact ⟨⟨hc.sent, hc.committed, hc.retained, hc.received, hc.crc⟩, rfl, rfl⟩

theorem mirrors_refuse (status : AckStatus) (reason : String) (hc : Carries s q a) (hl : Live s)
    (hr : s.state = .receiving → s.fileSize ≤ s.receivedBytes) :
    Mirrors (quietly (Session.failWithAck s status reason) q) (a.refuse s.state status) := by
  have hsend : quietly (Session.failWithAck s status reason) q =
      ({ Session.stopRead (Session.queued s) with
          closeAfterSend := true, pendingFailReason := reason },
        { q with sent := q.sent ++
            [encodeAck { status := status, receivedBytes := s.receivedBytes }] }) := by
    rw [Session.failWithAck, quietly_bind, quietly_send _ hl.closing]
    rfl
  rw [hsend]
  refine ⟨⟨?_, hc.committed, hc.retained, hc.received, hc.crc⟩, rfl, hl.cleanup, rfl, hr⟩
  simp [Reception.refuse, hc.sent, hc.received]

theorem mirrors_sendResult (kept : RetainedResult) (startOffset : ℕ) (hc : Carries s q a)
    (hl : Live s) (hs : s.state = .waitHeader) (hcsv : s.csv = kept.csv)
    (ho : startOffset ≤ kept.csv.length) :
    Mirrors (quietly (Session.sendResult e s kept.csvCrc32 (kept.csv.drop startOffset) true) q)
      { a with stage := .sendingResult,
               sent := a.sent ++ Reception.resultMessages kept startOffset } := by
  obtain ⟨t, ht⟩ := quietly_transition (e := e) (q := q) .sendingResult hl.reading
    (by rw [hs]; decide)
  rw [Session.sendResult, quietly_bind, ht, quietly_bind, quietly_send _ (by exact hl.closing)]
  simp only [Bool.not_true, Bool.false_eq_true, if_false]
  by_cases hb : startOffset = kept.csv.length
  · simp only [Session.sendResultBody, hb, List.drop_length, List.isEmpty_nil, Bool.and_self,
      if_true, quietly_pure]
    refine ⟨⟨?_, hc.committed, hc.retained, hc.received, hc.crc⟩, rfl, ?_⟩
    · simp [Reception.resultMessages, hc.sent, hcsv]
    · exact ⟨hl.cleanup, hl.failing, hl.closing, hl.reading⟩
  · have hne : (kept.csv.drop startOffset).isEmpty = false := by
      simp only [List.isEmpty_eq_false_iff, ne_eq, List.drop_eq_nil_iff]
      omega
    simp only [Session.sendResultBody, hne, Bool.and_false, Bool.false_eq_true, if_false]
    rw [quietly_bind, quietly_send _ (by exact hl.closing)]
    simp only [if_true, quietly_pure]
    refine ⟨⟨?_, hc.committed, hc.retained, hc.received, hc.crc⟩, rfl, ?_⟩
    · simp [Reception.resultMessages, hc.sent, hcsv, hb]
    · exact ⟨hl.cleanup, hl.failing, hl.closing, hl.reading⟩

theorem mirrors_respond (request : ResultRequest) (hc : Carries s q a) (hl : Live s)
    (hs : s.state = .waitHeader) (hd : decodeResultRequest s.framer.message = .ok request) :
    Mirrors (quietly (Session.handleResultRequest e s) q) (a.respond request) := by
  simp only [Session.handleResultRequest, hd, quietly, eval_bind, eval_ask, Quiet.answer,
    Reception.respond, hc.retained]
  cases hk : retainedResult a.retained request.filename request.fileSize request.crc32 with
  | none =>
    have := mirrors_refuse .noSuchResult "no retained result for this claim" hc hl (by simp [hs])
    rwa [hs] at this
  | some kept =>
    simp only
    split
    · have := mirrors_refuse .protocolError "result offset beyond csv size" hc hl (by simp [hs])
      rwa [hs] at this
    · rename_i ho
      exact mirrors_sendResult (s := { s with filename := request.filename, csv := kept.csv })
        kept request.startOffset ⟨hc.sent, hc.committed, hc.retained, hc.received, hc.crc⟩
        ⟨hl.cleanup, hl.failing, hl.closing, hl.reading⟩ hs rfl (by omega)

theorem quietly_then {p : P Session} {n : ℕ} :
    quietly (do let s ← p; pure (s, n)) q = (((quietly p q).1, n), (quietly p q).2) := by
  rw [quietly_bind, quietly_pure]

theorem mirrors_receiving (header : UploadHeader) (hc : Carries s q a) (hl : Live s)
    (hs : s.state = .receiving) (hf : s.framer = Reception.trailerFramer)
    (hz : s.fileSize = header.fileSize) (hp : a.payload = []) :
    Mirrors (s, q) (Reception.receive { a with fileSize := header.fileSize }) := by
  refine ⟨⟨hc.sent, hc.committed, hc.retained, hc.received, hc.crc⟩, ?_, ?_⟩
  · simp only [Reception.receive, hs]
    split <;> rfl
  · simp only [AtStage, Reception.receive, hp, List.length_nil]
    by_cases hpos : 0 < header.fileSize
    · simp only [hpos, if_true]
      exact ⟨hl, hz, trivial, hf⟩
    · simp only [hpos, if_false]
      exact ⟨hl, hz, by omega, hf, rfl, 8, rfl⟩

/-- The session after a stage saw `n` bytes: the stage took them all, or it
ended the conversation. -/
def Framed (a : Reception) (n : ℕ) (r : (Session × ℕ) × Quiet) : Prop :=
  Mirrors (r.1.1, r.2) a ∧ (r.1.2 = n ∨ a.stage.Over ∧ r.1.2 = 0)

theorem framed_all {n : ℕ} {p : P Session} (h : Mirrors (quietly p q) a) :
    Framed a n (quietly (do let s ← p; pure (s, n)) q) := by
  rw [quietly_then]
  exact ⟨h, .inl rfl⟩

theorem framed_over {n : ℕ} {p : P Session} (h : Mirrors (quietly p q) a) (ho : a.stage.Over) :
    Framed a n (quietly (do let s ← p; pure (s, 0)) q) := by
  rw [quietly_then]
  exact ⟨h, .inr ⟨ho, rfl⟩⟩

theorem framed_acceptHeader (n : ℕ) (header : UploadHeader) (hc : Carries s q a) (hl : Live s)
    (hs : s.state = .waitHeader) (hp : a.payload = [])
    (hd : decodeUploadHeader s.framer.message = .ok header) :
    Framed (Reception.receive { a with fileSize := header.fileSize }) n
      (quietly (Session.acceptHeader e s n) q) := by
  simp only [Session.acceptHeader, hd]
  refine framed_all ?_
  obtain ⟨t, ht⟩ := quietly_transition (e := e) (q := q)
    (s := { s with fileSize := header.fileSize, filename := header.filename,
                   framer := Framer.reset .uploadTrailer .uploadTrailer })
    .receiving hl.reading (by simp [hs])
  rw [ht]
  exact mirrors_receiving header ⟨hc.sent, hc.committed, hc.retained, hc.received, hc.crc⟩
    ⟨hl.cleanup, hl.failing, hl.closing, hl.reading⟩ rfl rfl rfl hp

theorem framed_header (n : ℕ) (hc : Carries s q a) (hl : Live s) (hs : s.state = .waitHeader)
    (hf : s.framer.Settled) (hp : a.payload = []) :
    Framed (a.headerStep s.framer) n (quietly (Session.headerFramed e s n) q) := by
  have refuse (status : AckStatus) (reason : String) :
      Mirrors (quietly (Session.failWithAck s status reason) q) (a.refuse .waitHeader status) := by
    have := mirrors_refuse status reason hc hl (by simp [hs])
    rwa [hs] at this
  have close (reason : String) : Mirrors (quietly (Session.closeSilently s reason) q) a.close :=
    mirrors_close reason hc hl.cleanup
  unfold Session.headerFramed Reception.headerStep
  cases hst : s.framer.status with
  | needMoreData =>
    obtain hn | ho := hf
    · exact absurd hst hn
    · exact ⟨⟨⟨hc.sent, hc.committed, hc.retained, hc.received, hc.crc⟩, hs, hl, rfl, ho, hp⟩,
        .inl rfl⟩
  | ok =>
    simp only
    split
    · refine framed_all ?_
      split
      · rename_i request hd
        exact mirrors_respond request hc hl hs hd
      · rename_i hd
        simp only [Session.handleResultRequest, hd]
        exact refuse _ _
      · rename_i st hne hd
        simp only [Session.handleResultRequest, hd]
        exact close _
    · split
      · rename_i header hd
        exact framed_acceptHeader n header hc hl hs hp hd
      · rename_i hd
        simp only [Session.acceptHeader, hd]
        exact framed_over (refuse _ _) trivial
      · rename_i st hne hd
        simp only [Session.acceptHeader, hd]
        exact framed_over (close _) trivial
  | badValue => exact framed_over (refuse _ _) trivial
  | badMagic => exact framed_over (close _) trivial
  | badVersion => exact framed_over (close _) trivial
  | badType => exact framed_over (close _) trivial

theorem quietly_analyze (hr : s.socket.reading = true) (hs : s.state = .verifying) :
    ∃ t, quietly (Session.analyzeAndSendResult e s) q =
      ({ s with state := .analyzing, timer := t }, q) := by
  obtain ⟨t, ht⟩ := quietly_transition (e := e) (q := q) .analyzing hr (by simp [hs])
  refine ⟨t, ?_⟩
  rw [Session.analyzeAndSendResult, quietly_bind, ht]
  rfl

theorem mirrors_verify (trailer : UploadTrailer) (hc : Carries s q a) (hl : Live s)
    (hs : s.state = .receiving) (hd : decodeUploadTrailer s.framer.message = .ok trailer) :
    Mirrors (quietly (Session.verifyAndAck e s) q) (a.verify trailer) := by
  obtain ⟨t, ht⟩ := quietly_transition (e := e) (q := q) .verifying hl.reading (by simp [hs])
  have hl' : Live { s with state := .verifying, timer := t } :=
    ⟨hl.cleanup, hl.failing, hl.closing, hl.reading⟩
  have hc' : Carries { s with state := .verifying, timer := t } q a :=
    ⟨hc.sent, hc.committed, hc.retained, hc.received, hc.crc⟩
  rw [Session.verifyAndAck, quietly_bind, ht]
  simp only [hd, Reception.verify, ← hc.crc]
  split
  · exact mirrors_refuse .crcMismatch _ hc' hl' nofun
  · rw [quietly_bind, quietly_send _ hl'.closing]
    simp only [Bool.not_true, Bool.false_eq_true, if_false]
    obtain ⟨t', ht'⟩ := quietly_analyze (e := e)
      (s := Session.queued { s with state := .verifying, timer := t })
      (q := { q with
        sent := q.sent ++ [encodeAck { status := .ok, receivedBytes := s.receivedBytes }] })
      hl'.reading rfl
    rw [ht']
    refine ⟨⟨?_, hc.committed, hc.retained, hc.received, hc.crc⟩, rfl, ?_⟩
    · simp [hc.sent, hc.received]
    · exact ⟨hl.cleanup, hl.failing, hl.closing, hl.reading⟩

theorem framed_trailer (n : ℕ) (hc : Carries s q a) (hl : Live s) (hs : s.state = .receiving)
    (hz : s.fileSize = a.fileSize) (hp : a.payload.length = a.fileSize) (hf : s.framer.Settled) :
    Framed (a.trailerStep s.framer) n (quietly (Session.trailerFramed e s n) q) := by
  have close (reason : String) : Mirrors (quietly (Session.closeSilently s reason) q) a.close :=
    mirrors_close reason hc hl.cleanup
  unfold Session.trailerFramed Reception.trailerStep
  cases hst : s.framer.status with
  | needMoreData =>
    obtain hn | ho := hf
    · exact absurd hst hn
    · exact ⟨⟨⟨hc.sent, hc.committed, hc.retained, hc.received, hc.crc⟩, hs, hl, hz, hp, rfl, ho⟩,
        .inl rfl⟩
  | ok =>
    refine framed_all ?_
    simp only
    split
    · rename_i trailer hd
      exact mirrors_verify trailer hc hl hs hd
    · rename_i st hd
      obtain ⟨t, ht⟩ := quietly_transition (e := e) (q := q) .verifying hl.reading (by simp [hs])
      rw [Session.verifyAndAck, quietly_bind, ht]
      simp only [hd]
      exact mirrors_close _ ⟨hc.sent, hc.committed, hc.retained, hc.received, hc.crc⟩ hl.cleanup
  | badValue =>
    have := mirrors_refuse .protocolError "invalid trailer value" hc hl
      (fun _ => by rw [hz, hc.received, hp])
    rw [hs] at this
    exact framed_over this trivial
  | badMagic => exact framed_over (close _) trivial
  | badVersion => exact framed_over (close _) trivial
  | badType => exact framed_over (close _) trivial

/-- What one pass of the read loop did with the head of its bytes. -/
def Consumed (a : Reception) (data : Bytes) (r : (Session × ℕ) × Quiet) : Prop :=
  ∃ k, 0 < k ∧ k ≤ data.length ∧ Framed (a.takeAll (data.take k)) k r

theorem consumed_header (data : Bytes) (f : Framer) (hm : Mirrors (s, q) a)
    (ha : a.stage = .header f) (hne : data ≠ []) :
    Consumed a data (quietly (Session.consumeHeader e s data) q) := by
  obtain ⟨hc, hs, hst⟩ := hm
  simp only [ha, AtStage, Stage.state] at hs hst
  obtain ⟨hl, hf, hopen, hp⟩ := hst
  refine ⟨(f.absorb data).2, Framer.absorb_pos f data hopen.1 hne,
    (Framer.absorb_consumed f data).1, ?_⟩
  rw [Reception.takeAll_header a f data hopen.1 ha hne]
  simp only [Session.consumeHeader, hf, Framer.feed_eq_absorb f data (.inr hopen)]
  exact framed_header (s := { s with framer := (f.absorb data).1 }) _
    ⟨hc.sent, hc.committed, hc.retained, hc.received, hc.crc⟩
    ⟨hl.cleanup, hl.failing, hl.closing, hl.reading⟩ hs
    (Framer.settled_absorb f data (.inr hopen)) hp

theorem framed_consumeTrailer (data : Bytes) (f : Framer) (hm : Mirrors (s, q) a)
    (ha : a.stage = .trailer f) (hne : data ≠ []) :
    Framed (a.takeAll (data.take (f.absorb data).2)) (f.absorb data).2
      (quietly (Session.consumeTrailer e s data) q) := by
  obtain ⟨hc, hs, hst⟩ := hm
  simp only [ha, AtStage, Stage.state] at hs hst
  obtain ⟨hl, hz, hp, hf, hopen⟩ := hst
  rw [Reception.takeAll_trailer a f data hopen.1 ha hne]
  simp only [Session.consumeTrailer, hf, Framer.feed_eq_absorb f data (.inr hopen)]
  exact framed_trailer (s := { s with framer := (f.absorb data).1 }) _
    ⟨hc.sent, hc.committed, hc.retained, hc.received, hc.crc⟩
    ⟨hl.cleanup, hl.failing, hl.closing, hl.reading⟩ hs hz hp
    (Framer.settled_absorb f data (.inr hopen))

theorem consumed_trailer (data : Bytes) (f : Framer) (hm : Mirrors (s, q) a)
    (ha : a.stage = .trailer f) (hne : data ≠ []) :
    Consumed a data (quietly (Session.consumeTrailer e s data) q) := by
  have hst : AtStage s a := hm.stage
  simp only [ha, AtStage] at hst
  obtain ⟨-, -, -, -, hopen⟩ := hst
  exact ⟨(f.absorb data).2, Framer.absorb_pos f data hopen.1 hne, (Framer.absorb_consumed f data).1,
    framed_consumeTrailer data f hm ha hne⟩

theorem quietly_copySlots (fuel : ℕ) (rest : Bytes) (hf : rest.length < fuel) :
    quietly (Session.copySlots e s fuel rest) q =
      ((s, true), { q with committed := q.committed ++ rest }) := by
  induction fuel generalizing rest q with
  | zero => omega
  | succ fuel ih =>
    by_cases hr : rest = []
    · subst hr
      simp [Session.copySlots, quietly_pure]
    · have hpos : 0 < rest.length := List.length_pos_iff.mpr hr
      have hchunk := e.chunk_pos
      have hih := ih (q := { q with committed := q.committed ++ rest.take e.chunkSize })
        (rest.drop e.chunkSize) (by simp only [List.length_drop]; omega)
      rw [List.append_assoc, List.take_append_drop] at hih
      simp only [quietly] at hih
      simp [Session.copySlots, hr, quietly, eval_bind, eval_ask, Quiet.answer, hih]

theorem mirrors_count (bs : Bytes) (hm : Mirrors (s, q) a) (ha : a.stage = .payload)
    (hl : a.payload.length + bs.length ≤ a.fileSize) :
    Mirrors (Session.countPayload s bs, { q with committed := q.committed ++ bs })
      (Reception.receive { a with payload := a.payload ++ bs }) := by
  have hc : Carries s q a := hm.carries
  obtain ⟨-, hs, hst⟩ := hm
  simp only [ha, AtStage, Stage.state] at hs hst
  obtain ⟨hlive, hz, hlt, hf⟩ := hst
  have hlive' : Live (Session.countPayload s bs) :=
    ⟨hlive.cleanup, hlive.failing, hlive.closing, hlive.reading⟩
  refine ⟨⟨hc.sent, ?_, hc.retained, ?_, ?_⟩, ?_, ?_⟩
  · simp [Reception.receive, hc.committed]
  · simp [Reception.receive, Session.countPayload, hc.received]
  · simp only [Reception.receive, Session.countPayload, hc.crc]
    exact (crc32_append _ _ _).symm
  · simp only [Reception.receive, Session.countPayload, hs]
    split <;> rfl
  · simp only [AtStage, Reception.receive, List.length_append]
    by_cases hfull : a.payload.length + bs.length < a.fileSize
    · simp only [hfull, if_true]
      exact ⟨hlive', hz, trivial, hf⟩
    · simp only [hfull, if_false]
      exact ⟨hlive', hz, by omega, hf, rfl, 8, rfl⟩

theorem consumed_payload (data : Bytes) (hm : Mirrors (s, q) a) (ha : a.stage = .payload)
    (hne : data ≠ []) : Consumed a data (quietly (Session.consumePayload e s data) q) := by
  have hpos : 0 < data.length := List.length_pos_iff.mpr hne
  obtain ⟨hc, -, hst⟩ := id hm
  simp only [ha, AtStage] at hst
  obtain ⟨-, hz, hlt, -⟩ := hst
  have hk : min (s.fileSize - s.receivedBytes) data.length =
      min (a.fileSize - a.payload.length) data.length := by rw [hz, hc.received]
  have hlen : (data.take (min (a.fileSize - a.payload.length) data.length)).length =
      min (a.fileSize - a.payload.length) data.length := by simp
  have hbs : data.take (min (a.fileSize - a.payload.length) data.length) ≠ [] :=
    List.length_pos_iff.mp (by omega)
  refine ⟨min (a.fileSize - a.payload.length) data.length, by omega, by omega, ?_⟩
  rw [Reception.takeAll_payload a _ ha hbs (by omega)]
  simp only [Session.consumePayload, hk]
  rw [quietly_bind, quietly_copySlots _ _ (by omega)]
  simp only [Bool.not_true, Bool.false_eq_true, if_false]
  rw [quietly_then, quietly_backpressure]
  exact ⟨mirrors_count _ hm ha (by omega), .inl rfl⟩

theorem consumed_refused (data : Bytes) (hm : Mirrors (s, q) a) (hne : data ≠ [])
    (ha : a.stage = .analyzing ∨ a.stage = .sendingResult) (reason : String) :
    Consumed a data (quietly (do let s ← Session.closeSilently s reason; pure (s, 0)) q) := by
  have hl : Live s := by
    have hst := hm.stage
    unfold AtStage at hst
    rcases ha with ha | ha <;> simpa [ha] using hst
  have hpos : 0 < data.length := List.length_pos_iff.mpr hne
  have htake : data.take 1 ≠ [] := List.length_pos_iff.mp (by simp; omega)
  refine ⟨1, Nat.one_pos, hpos, ?_⟩
  rw [Reception.takeAll_refused a _ htake ha]
  exact framed_over (mirrors_close reason hm.carries hl.cleanup) trivial

/-- The flags that end the read loop are those of the finished stages. -/
theorem mirrors_over (hm : Mirrors (s, q) a) :
    (s.cleanupStarted || s.closeAfterSend) = true ↔ a.stage.Over := by
  have hlive (hl : Live s) : ¬ (s.cleanupStarted || s.closeAfterSend) = true := by
    simp [hl.cleanup, hl.failing]
  have hst : AtStage s a := hm.stage
  cases ha : a.stage with
  | header f =>
    simp only [AtStage, ha] at hst
    exact iff_of_false (hlive hst.1) id
  | payload =>
    simp only [AtStage, ha] at hst
    exact iff_of_false (hlive hst.1) id
  | trailer f =>
    simp only [AtStage, ha] at hst
    exact iff_of_false (hlive hst.1) id
  | analyzing =>
    simp only [AtStage, ha] at hst
    exact iff_of_false (hlive hst) id
  | sendingResult =>
    simp only [AtStage, ha] at hst
    exact iff_of_false (hlive hst) id
  | failing state =>
    simp only [AtStage, ha] at hst
    exact iff_of_true (by simp [hst.2.1]) trivial
  | closed =>
    simp only [AtStage, ha] at hst
    exact iff_of_true (by simp [hst]) trivial

theorem consumed_stage (data : Bytes) (hm : Mirrors (s, q) a) (hne : data ≠ [])
    (ho : ¬ a.stage.Over) : Consumed a data (quietly (Session.consumeStage e s data) q) := by
  have hs : s.state = a.stage.state := hm.state
  have hc : Carries s q a := hm.carries
  have hst : AtStage s a := hm.stage
  cases ha : a.stage with
  | header f =>
    simp only [Session.consumeStage, hs, ha, Stage.state]
    exact consumed_header data f hm ha hne
  | payload =>
    simp only [AtStage, ha] at hst
    have hlt : s.receivedBytes < s.fileSize := by rw [hc.received, hst.2.1]; exact hst.2.2.1
    simp only [Session.consumeStage, hs, ha, Stage.state, if_pos hlt]
    exact consumed_payload data hm ha hne
  | trailer f =>
    simp only [AtStage, ha] at hst
    have hge : ¬ s.receivedBytes < s.fileSize := by rw [hc.received, hst.2.1, hst.2.2.1]; omega
    simp only [Session.consumeStage, hs, ha, Stage.state, if_neg hge]
    exact consumed_trailer data f hm ha hne
  | analyzing =>
    simp only [Session.consumeStage, hs, ha, Stage.state]
    exact consumed_refused data hm hne (.inl ha) _
  | sendingResult =>
    simp only [Session.consumeStage, hs, ha, Stage.state]
    exact consumed_refused data hm hne (.inr ha) _
  | failing state => exact absurd (ha ▸ trivial) ho
  | closed => exact absurd (ha ▸ trivial) ho

/-- The buffered path takes a read to its last byte. -/
theorem mirrors_readLoop (fuel : ℕ) (data : Bytes) (hf : data.length ≤ fuel)
    (hm : Mirrors (s, q) a) :
    Mirrors (quietly (Session.readLoop e fuel s data) q) (a.takeAll data) := by
  induction fuel generalizing s q a data with
  | zero =>
    have hnil : data = [] := List.length_eq_zero_iff.mp (by omega)
    subst hnil
    exact hm
  | succ fuel ih =>
    by_cases hnil : data = []
    · subst hnil
      exact hm
    · by_cases ho : a.stage.Over
      · have hflag := (mirrors_over hm).mpr ho
        rw [Session.readLoop, if_pos (by rw [Bool.or_assoc, hflag, Bool.or_true]),
          Reception.takeAll_over a data ho]
        exact hm
      · have hflag : (s.cleanupStarted || s.closeAfterSend) = false := by
          simpa using mt (mirrors_over hm).mp ho
        rw [Session.readLoop, if_neg (by simp [Bool.or_assoc, hflag, hnil]), quietly_bind]
        obtain ⟨k, hk, hkl, hr, hn⟩ := consumed_stage (e := e) data hm hnil ho
        generalize quietly (Session.consumeStage e s data) q = r at hr hn
        have hsplit : a.takeAll data = (a.takeAll (data.take k)).takeAll (data.drop k) := by
          rw [← Reception.takeAll_append, List.take_append_drop]
        rw [hsplit]
        rcases hn with hn | ⟨hgone, hn⟩
        · simp only [hn, if_neg hk.ne']
          exact ih _ (by simp only [List.length_drop]; omega) hr
        · simp only [hn, if_true]
          rw [Reception.takeAll_over _ _ hgone]
          exact hr

/-- How far the slot path looks into a read: the payload, then as much as the
trailer's framer takes. -/
def slotTake (a : Reception) (data : Bytes) : ℕ :=
  let n := min (a.fileSize - a.payload.length) data.length
  n + (Reception.trailerFramer.absorb (data.drop n)).2

theorem take_slotTake (a : Reception) (data : Bytes) (n : ℕ)
    (hn : n = min (a.fileSize - a.payload.length) data.length) :
    data.take (slotTake a data) =
      data.take n ++ (data.drop n).take (Reception.trailerFramer.absorb (data.drop n)).2 := by
  rw [slotTake, ← hn, List.take_add]

theorem receive_full {data : Bytes} {n : ℕ} (hl : a.payload.length < a.fileSize)
    (hn : min (a.fileSize - a.payload.length) data.length = n) (hrest : data.drop n ≠ []) :
    (Reception.receive { a with payload := a.payload ++ data.take n }).stage =
      .trailer Reception.trailerFramer := by
  have hdrop : 0 < (data.drop n).length := List.length_pos_iff.mpr hrest
  simp only [List.length_drop] at hdrop
  simp only [Reception.receive, List.length_append, List.length_take]
  exact if_neg (by omega)

theorem quietly_readSlot (data : Bytes) :
    let n := min (s.fileSize - s.receivedBytes) data.length
    quietly (Session.readSlot e s data) q =
      quietly (if (data.drop n).isEmpty then pure (Session.countPayload s (data.take n)) else do
        let (s, _) ← Session.consumeTrailer e (Session.countPayload s (data.take n)) (data.drop n)
        pure s) { q with committed := q.committed ++ data.take n } := by
  intro n
  rw [Session.readSlot, quietly_bind]
  change quietly (Session.applyBackpressure _ >>= _)
    { q with committed := q.committed ++ data.take n } = _
  rw [quietly_bind, quietly_backpressure]

theorem mirrors_readSlot (data : Bytes) (hm : Mirrors (s, q) a) (ha : a.stage = .payload)
    (hne : data ≠ []) :
    Mirrors (quietly (Session.readSlot e s data) q) (a.takeAll (data.take (slotTake a data))) := by
  have hpos : 0 < data.length := List.length_pos_iff.mpr hne
  have hc : Carries s q a := hm.carries
  have hst : AtStage s a := hm.stage
  simp only [AtStage, ha] at hst
  obtain ⟨-, hz, hlt, -⟩ := hst
  rw [quietly_readSlot, show s.fileSize - s.receivedBytes = a.fileSize - a.payload.length by
    rw [hz, hc.received]]
  generalize hn : min (a.fileSize - a.payload.length) data.length = n
  have hlen : (data.take n).length = n := by simp; omega
  have htake : a.takeAll (data.take n) =
      Reception.receive { a with payload := a.payload ++ data.take n } :=
    Reception.takeAll_payload a _ ha (List.length_pos_iff.mp (by omega)) (by omega)
  have hcount := mirrors_count (data.take n) hm ha (by omega)
  rw [take_slotTake a data n hn.symm, Reception.takeAll_append, htake]
  by_cases hrest : data.drop n = []
  · rw [hrest]
    exact hcount
  · have hfull := receive_full hlt hn hrest
    rw [if_neg (by simpa using hrest), quietly_bind]
    exact (framed_consumeTrailer (data.drop n) _ hcount hfull hrest).1

theorem trailerStep_done (bs : Bytes)
    (h : (Reception.trailerFramer.absorb bs).1.status ≠ .needMoreData) :
    (a.trailerStep (Reception.trailerFramer.absorb bs).1).stage.Over ∨
      (a.trailerStep (Reception.trailerFramer.absorb bs).1).stage = .analyzing ∧
        kUploadTrailerSize ≤ (Reception.trailerFramer.absorb bs).2 := by
  have hsize := Framer.absorb_ok Reception.trailerFramer bs rfl
  have hbuf := Framer.absorb_buffer Reception.trailerFramer bs
  generalize Reception.trailerFramer.absorb bs = r at h hsize hbuf
  unfold Reception.trailerStep
  cases hst : r.1.status with
  | needMoreData => exact absurd hst h
  | ok =>
    simp only
    split
    · rename_i trailer hd
      have hlen := (decodeUploadTrailer_ok _ _ hd).1
      rw [show r.1.message = r.1.buffer from rfl, hsize hst, hbuf] at hlen
      injection hlen with hlen
      have htaken : (bs.take r.2).length = kUploadTrailerSize := hlen
      unfold Reception.verify
      dsimp only
      split
      · exact .inl trivial
      · refine .inr ⟨rfl, ?_⟩
        rw [← htaken]
        exact List.length_take_le _ _
    · exact .inl trivial
  | badValue => exact .inl trivial
  | badMagic => exact .inl trivial
  | badVersion => exact .inl trivial
  | badType => exact .inl trivial

/-- Where the slot path stops short of the end of a read, the conversation is
over or the upload has just been accepted. -/
theorem slotTake_cases (data : Bytes) (ha : a.stage = .payload)
    (hl : a.payload.length < a.fileSize) (hne : data ≠ []) :
    slotTake a data = data.length ∨ (a.takeAll (data.take (slotTake a data))).stage.Over ∨
      (a.takeAll (data.take (slotTake a data))).stage = .analyzing ∧
        kUploadTrailerSize < slotTake a data := by
  have hpos : 0 < data.length := List.length_pos_iff.mpr hne
  generalize hn : min (a.fileSize - a.payload.length) data.length = n
  have hlen : (data.take n).length = n := by simp; omega
  rw [take_slotTake a data n hn.symm, Reception.takeAll_append,
    Reception.takeAll_payload a _ ha (List.length_pos_iff.mp (by omega)) (by omega)]
  have hk : slotTake a data = n + (Reception.trailerFramer.absorb (data.drop n)).2 := by
    rw [slotTake, hn]
  by_cases hrest : data.drop n = []
  · have : data.length ≤ n := List.drop_eq_nil_iff.mp hrest
    rw [hk, hrest]
    exact .inl (by simp only [Framer.absorb]; omega)
  · rw [Reception.takeAll_trailer _ _ _ rfl (receive_full hl hn hrest) hrest]
    by_cases hmore : (Reception.trailerFramer.absorb (data.drop n)).1.status = .needMoreData
    · have hall := (Framer.absorb_consumed Reception.trailerFramer (data.drop n)).2 hmore
      rw [hk, hall, List.length_drop]
      exact .inl (by omega)
    · rcases trailerStep_done
        (a := Reception.receive { a with payload := a.payload ++ data.take n })
        (data.drop n) hmore with ho | ⟨han, h12⟩
      · exact .inr (.inl ho)
      · exact .inr (.inr ⟨han, by omega⟩)

end Mirror

end LogTransfer
