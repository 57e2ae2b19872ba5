import LogTransfer.SessionManager

/-!
# What a callback moves

The callbacks of a session as moves of its state, its timer and its outstanding
writes. A callback enters states of work and arms the timer there, queues
writes and may clean up; everything else leaves these fields alone. Only a send
completion enters WAIT_DONE.
-/

set_option autoImplicit false

namespace LogTransfer
open Program

namespace Session

def Busy (next : SessionState) : Prop :=
  next = .receiving ∨ next = .verifying ∨ next = .analyzing ∨ next = .sendingResult

def Alike (s s' : Session) : Prop :=
  s'.state = s.state ∧ s'.timer = s.timer ∧ s'.socket.pendingWrites = s.socket.pendingWrites ∧
    s'.cleanupStarted = s.cleanupStarted

inductive Course (e : Env) (s : Session) : Session → Prop
  | here : Course e s s
  | touch {a b : Session} (h : Course e s a) (hab : Alike a b) : Course e s b
  | enter {a : Session} (next : SessionState) (h : Course e s a) (hn : Busy next)
      (ho : a.cleanupStarted = false) : Course e s (armTimer e { a with state := next })
  | queue {a : Session} (h : Course e s a) (hs : a.state ≠ .waitDone)
      (ho : a.cleanupStarted = false) : Course e s (queued a)
  | clean {a : Session} (reason : String) (h : Course e s a) : Course e s (cleaned a reason)

/-- Activity pushes a running timer back. -/
def refreshed (e : Env) (s : Session) : Session := { s with timer := s.timer.restart e.now }

/-- The session once its oldest write is over. -/
def popped (s : Session) : Session :=
  { s with socket := { s.socket with pendingWrites := s.socket.pendingWrites - 1 } }

variable {e : Env} {s : Session}

theorem alike_refl (s : Session) : Alike s s := ⟨rfl, rfl, rfl, rfl⟩

theorem alike_trans {a b c : Session} (h : Alike a b) (h' : Alike b c) : Alike a c :=
  ⟨h'.1.trans h.1, h'.2.1.trans h.2.1, h'.2.2.1.trans h.2.2.1, h'.2.2.2.trans h.2.2.2⟩

theorem course_trans {a b : Session} (h : Course e s a) (h' : Course e a b) : Course e s b := by
  induction h' with
  | here => exact h
  | touch _ hab ih => exact ih.touch hab
  | enter next _ hn ho ih => exact ih.enter next hn ho
  | queue _ hs ho ih => exact ih.queue hs ho
  | clean reason _ ih => exact ih.clean reason

theorem course_alike {a : Session} (h : Alike s a) : Course e s a := .touch .here h

/-- What a call does after a course extends it. -/
theorem course_after {α : Type} {f : α → Session} {a : Session} {p : P α} (h : Course e s a)
    (hp : Yields (fun r => Course e a (f r)) p) : Yields (fun r => Course e s (f r)) p :=
  yields_mono (fun _ hr => course_trans h hr) hp

section Socket

theorem startRead_alike (s : Session) : Yields (fun r => Alike s r.1) (startRead s) := by
  unfold startRead
  split
  · exact alike_refl s
  · split
    · exact alike_refl s
    · exact fun _ => alike_refl s

theorem resumeReading_alike (s : Session) : Yields (Alike s) (resumeReading s) := by
  unfold resumeReading
  split
  · exact alike_refl s
  · refine yields_seq _ fun blocked => ?_
    split
    · exact alike_refl s
    · exact yields_seq _ fun _ => yields_bind (startRead_alike s) fun _ h => h

theorem resumeReading_reading (s : Session) :
    Yields (fun s' => ∃ b, s' = setReading s b) (resumeReading s) := by
  have hsame : ∃ b, s = setReading s b := ⟨s.socket.reading, rfl⟩
  unfold resumeReading
  split
  · exact hsame
  · refine yields_seq _ fun blocked => ?_
    split
    · exact hsame
    · refine yields_seq _ fun _ => ?_
      unfold startRead
      split
      · exact hsame
      · split
        · exact hsame
        · exact fun b => ⟨b, rfl⟩

theorem transition_moved (s : Session) (next : SessionState) (hne : s.state ≠ next) :
    Yields (fun s' => ∃ b, s' = setReading (armTimer e { s with state := next }) b)
      (transition e s next) := by
  unfold transition
  rw [if_neg hne]
  dsimp only
  split
  · exact resumeReading_reading _
  · exact ⟨_, rfl⟩

theorem send_queued (s : Session) (bytes : Bytes) :
    Yields (fun r => r = (queued s, true) ∨ r = (s, false)) (send s bytes) := by
  unfold send
  split
  · exact .inr rfl
  · refine yields_seq _ fun ok => ?_
    cases ok with
    | true => exact .inl rfl
    | false => exact .inr rfl

theorem cleanup_course (s : Session) (reason : String) :
    Yields (Course e s) (cleanup s reason) := by
  unfold cleanup
  split
  · exact .here
  · exact fun _ => Course.here.clean reason

theorem moved_course (s : Session) {next : SessionState} (hn : Busy next)
    (ho : s.cleanupStarted = false) (b : Bool) :
    Course e s (setReading (armTimer e { s with state := next }) b) :=
  (Course.here.enter next hn ho).touch ⟨rfl, rfl, rfl, rfl⟩

theorem moved_open (s : Session) (next : SessionState) (b : Bool) :
    (setReading (armTimer e { s with state := next }) b).state = next ∧
      (setReading (armTimer e { s with state := next }) b).cleanupStarted = s.cleanupStarted ∧
      (setReading (armTimer e { s with state := next }) b).framer = s.framer ∧
      (setReading (armTimer e { s with state := next }) b).payloadCrc = s.payloadCrc := by
  obtain ⟨t, ht⟩ := armTimer_eq (e := e) { s with state := next }
  rw [ht]
  exact ⟨rfl, rfl, rfl, rfl⟩

end Socket

section Answers

theorem failWithAck_course (status : AckStatus) (reason : String)
    (ho : s.cleanupStarted = false) (hs : s.state ≠ .waitDone) :
    Yields (Course e s) (failWithAck s status reason) := by
  refine yields_bind (send_queued s _) ?_
  rintro r (rfl | rfl)
  · exact (Course.here.queue hs ho).touch ⟨rfl, rfl, rfl, rfl⟩
  · exact cleanup_course s reason

theorem sendResultBody_course (body : Bytes) (skipEmpty : Bool) (ho : s.cleanupStarted = false)
    (hs : s.state ≠ .waitDone) : Yields (Course e s) (sendResultBody s body skipEmpty) := by
  unfold sendResultBody
  split
  · exact .here
  · refine yields_bind (send_queued s _) ?_
    rintro r (rfl | rfl)
    · exact Course.here.queue hs ho
    · exact cleanup_course s _

theorem sendResult_course (crc : Crc) (body : Bytes) (skipEmpty : Bool)
    (ho : s.cleanupStarted = false) (hs : s.state ≠ .sendingResult) :
    Yields (Course e s) (sendResult e s crc body skipEmpty) := by
  refine yields_bind (transition_moved (e := e) s _ hs) ?_
  rintro s₁ ⟨b, rfl⟩
  obtain ⟨hst, hop, -, -⟩ := moved_open (e := e) s .sendingResult b
  have hmove : Course e s (setReading (armTimer e { s with state := .sendingResult }) b) :=
    moved_course s (.inr (.inr (.inr rfl))) ho b
  generalize setReading (armTimer e { s with state := .sendingResult }) b = s₁ at hst hop hmove ⊢
  have hne : s₁.state ≠ .waitDone := by rw [hst]; decide
  have ho₁ : s₁.cleanupStarted = false := hop.trans ho
  refine yields_bind (send_queued s₁ _) ?_
  rintro r (rfl | rfl)
  · exact course_after (hmove.queue hne ho₁)
      (sendResultBody_course (s := queued s₁) body skipEmpty ho₁ hne)
  · exact course_after hmove (cleanup_course s₁ _)

theorem handleResultRequest_course (ho : s.cleanupStarted = false) (hs : s.state = .waitHeader) :
    Yields (Course e s) (handleResultRequest e s) := by
  have hdone : s.state ≠ .waitDone := by rw [hs]; decide
  unfold handleResultRequest
  split
  · exact failWithAck_course _ _ ho hdone
  · exact cleanup_course s _
  · refine yields_seq _ fun kept => ?_
    split
    · exact failWithAck_course _ _ ho hdone
    · split
      · exact failWithAck_course _ _ ho hdone
      · generalize hs₁ : ({ s with filename := _, csv := _ } : Session) = s₁
        have hset : Alike s s₁ := by
          rw [← hs₁]
          exact ⟨rfl, rfl, rfl, rfl⟩
        refine course_after (course_alike hset)
          (sendResult_course _ _ _ (hset.2.2.2.trans ho) ?_)
        rw [hset.1, hs]
        decide

theorem then_course {p : P Session} (n : ℕ) (h : Yields (Course e s) p) :
    Yields (fun r => Course e s r.1) (p >>= fun s' => (pure (s', n) : P (Session × ℕ))) :=
  yields_bind h fun _ hs => hs

theorem acceptHeader_course (n : ℕ) (ho : s.cleanupStarted = false) (hs : s.state = .waitHeader) :
    Yields (fun r => Course e s r.1) (acceptHeader e s n) := by
  unfold acceptHeader
  split
  · exact then_course _ (failWithAck_course _ _ ho (by rw [hs]; decide))
  · exact then_course _ (cleanup_course s _)
  · refine then_course _ ?_
    generalize hs₁ : ({ s with fileSize := _, filename := _, framer := _ } : Session) = s₁
    have hset : Alike s s₁ := by
      rw [← hs₁]
      exact ⟨rfl, rfl, rfl, rfl⟩
    refine yields_mono ?_ (transition_moved s₁ .receiving (by rw [hset.1, hs]; decide))
    rintro _ ⟨b, rfl⟩
    exact course_trans (course_alike hset)
      (moved_course s₁ (.inl rfl) (hset.2.2.2.trans ho) b)

theorem consumeHeader_course (data : Bytes) (ho : s.cleanupStarted = false)
    (hs : s.state = .waitHeader) : Yields (fun r => Course e s r.1) (consumeHeader e s data) := by
  unfold consumeHeader
  have hfed : Course e s { s with framer := (s.framer.feed data).1 } :=
    course_alike ⟨rfl, rfl, rfl, rfl⟩
  refine course_after hfed ?_
  dsimp only
  generalize hs₁ : ({ s with framer := (s.framer.feed data).1 } : Session) = s₁
  have ho₁ : s₁.cleanupStarted = false := by rw [← hs₁]; exact ho
  have hst₁ : s₁.state = .waitHeader := by rw [← hs₁]; exact hs
  unfold headerFramed
  split
  · exact .here
  · split
    · exact then_course _ (handleResultRequest_course ho₁ hst₁)
    · exact acceptHeader_course _ ho₁ hst₁
  · exact then_course _ (cleanup_course s₁ _)
  · exact then_course _ (cleanup_course s₁ _)
  · exact then_course _ (cleanup_course s₁ _)
  · exact then_course _ (failWithAck_course _ _ ho₁ (by rw [hst₁]; decide))

end Answers

section Payload

theorem applyBackpressure_alike (s : Session) : Yields (Alike s) (applyBackpressure s) := by
  refine yields_seq _ fun full => ?_
  split
  · refine yields_seq _ fun _ => yields_seq _ fun again => ?_
    split
    · exact yields_mono (fun _ h => alike_trans ⟨rfl, rfl, rfl, rfl⟩ h)
        (resumeReading_alike (stopRead s))
    · exact ⟨rfl, rfl, rfl, rfl⟩
  · exact alike_refl s

theorem copySlots_course (s : Session) (fuel : ℕ) (rest : Bytes) :
    Yields (fun r => Course e s r.1) (copySlots e s fuel rest) := by
  induction fuel generalizing rest with
  | zero => exact .here
  | succ fuel ih =>
    unfold copySlots
    split
    · exact .here
    · refine yields_seq _ fun acquired => ?_
      split
      · exact yields_bind (cleanup_course s _) fun _ h => h
      · exact yields_seq _ fun _ => ih _

theorem consumePayload_course (s : Session) (data : Bytes) :
    Yields (fun r => Course e s r.1) (consumePayload e s data) := by
  have hcount (n : ℕ) : Course e s (countPayload s (data.take n)) :=
    course_alike ⟨rfl, rfl, rfl, rfl⟩
  refine yields_bind (copySlots_course _ _ _) ?_
  rintro ⟨s₁, copied⟩ hcopied
  have hs₁ : Course e s s₁ := course_trans (hcount _) hcopied
  dsimp only
  split
  · exact hs₁
  · exact yields_bind (applyBackpressure_alike s₁) fun _ h => hs₁.touch h

end Payload

section Trailer

theorem analyzeAndSendResult_course (ho : s.cleanupStarted = false) (hs : s.state = .verifying) :
    Yields (Course e s) (analyzeAndSendResult e s) := by
  refine yields_bind (transition_moved s .analyzing (by rw [hs]; decide)) ?_
  rintro _ ⟨b, rfl⟩
  exact yields_seq _ fun _ => moved_course s (.inr (.inr (.inl rfl))) ho b

theorem verifyAndAck_course (ho : s.cleanupStarted = false) (hs : s.state = .receiving) :
    Yields (Course e s) (verifyAndAck e s) := by
  refine yields_bind (transition_moved (e := e) s .verifying (by rw [hs]; decide)) ?_
  rintro s₁ ⟨b, rfl⟩
  obtain ⟨hst, hop, -, -⟩ := moved_open (e := e) s .verifying b
  have hmove : Course e s (setReading (armTimer e { s with state := .verifying }) b) :=
    moved_course s (.inr (.inl rfl)) ho b
  generalize setReading (armTimer e { s with state := .verifying }) b = s₁ at hst hop hmove ⊢
  have hne : s₁.state ≠ .waitDone := by rw [hst]; decide
  have ho₁ : s₁.cleanupStarted = false := hop.trans ho
  refine course_after hmove ?_
  split
  · exact cleanup_course s₁ _
  · split
    · exact failWithAck_course _ _ ho₁ hne
    · refine yields_bind (send_queued s₁ _) ?_
      rintro r (rfl | rfl)
      · exact course_after (Course.here.queue hne ho₁)
          (analyzeAndSendResult_course (s := queued s₁) ho₁ hst)
      · exact cleanup_course s₁ _

theorem consumeTrailer_course (data : Bytes) (ho : s.cleanupStarted = false)
    (hs : s.state = .receiving) : Yields (fun r => Course e s r.1) (consumeTrailer e s data) := by
  unfold consumeTrailer
  dsimp only
  generalize hs₁ : ({ s with framer := (s.framer.feed data).1 } : Session) = s₁
  have hset : Alike s s₁ := by
    rw [← hs₁]
    exact ⟨rfl, rfl, rfl, rfl⟩
  have ho₁ : s₁.cleanupStarted = false := hset.2.2.2.trans ho
  have hst₁ : s₁.state = .receiving := hset.1.trans hs
  refine course_after (course_alike hset) ?_
  unfold trailerFramed
  split
  · exact .here
  · exact then_course _ (verifyAndAck_course ho₁ hst₁)
  · exact then_course _ (failWithAck_course _ _ ho₁ (by rw [hst₁]; decide))
  · exact then_course _ (cleanup_course s₁ _)

theorem consumeDone_course (s : Session) (data : Bytes) :
    Yields (fun r => Course e s r.1) (consumeDone s data) := by
  unfold consumeDone
  dsimp only
  generalize hs₁ : ({ s with framer := (s.framer.feed data).1 } : Session) = s₁
  have hset : Alike s s₁ := by
    rw [← hs₁]
    exact ⟨rfl, rfl, rfl, rfl⟩
  refine course_after (course_alike hset) ?_
  split
  · exact .here
  · exact then_course _ (cleanup_course s₁ _)
  · exact then_course _ (cleanup_course s₁ _)

end Trailer

section Reads

theorem consumeStage_course (data : Bytes) (ho : s.cleanupStarted = false) :
    Yields (fun r => Course e s r.1) (consumeStage e s data) := by
  unfold consumeStage
  split
  · rename_i hs
    exact consumeHeader_course data ho hs
  · rename_i hs
    split
    · exact consumePayload_course s data
    · exact consumeTrailer_course data ho hs
  · exact consumeDone_course s data
  · exact then_course _ (cleanup_course s _)

theorem readLoop_course (fuel : ℕ) (s : Session) (data : Bytes) :
    Yields (Course e s) (readLoop e fuel s data) := by
  induction fuel generalizing s data with
  | zero => exact .here
  | succ fuel ih =>
    unfold readLoop
    split
    · exact .here
    · rename_i hgo
      have ho : s.cleanupStarted = false := by
        cases hc : s.cleanupStarted with
        | false => rfl
        | true => simp [hc] at hgo
      refine yields_bind (consumeStage_course data ho) ?_
      rintro ⟨s₁, n⟩ hs₁
      dsimp only
      split
      · exact hs₁
      · exact course_after hs₁ (ih s₁ _)

theorem readSlot_course (data : Bytes) (ho : s.cleanupStarted = false) (hs : s.state = .receiving) :
    Yields (Course e s) (readSlot e s data) := by
  refine yields_seq _ fun _ => ?_
  generalize hs₁ : countPayload s _ = s₁
  have hset : Alike s s₁ := by
    rw [← hs₁]
    exact ⟨rfl, rfl, rfl, rfl⟩
  refine yields_bind (applyBackpressure_alike s₁) fun s₂ hs₂ => ?_
  have hall : Alike s s₂ := alike_trans hset hs₂
  split
  · exact course_alike hall
  · refine yields_bind (consumeTrailer_course _ (hall.2.2.2.trans ho) (hall.1.trans hs)) ?_
    exact fun _ h => course_trans (course_alike hall) h

/-- A read with bytes is activity, whatever becomes of it. -/
theorem onRead_course (data : Bytes)
    (h : s.slotAcquired = true → s.cleanupStarted = false ∧ s.state = .receiving) :
    Yields (Course e (refreshed e s)) (onRead e s data) := by
  unfold onRead
  dsimp only
  split
  · rename_i hslot
    have hset : Alike (refreshed e s) { refreshed e s with slotAcquired := false } :=
      ⟨rfl, rfl, rfl, rfl⟩
    exact course_after (course_alike hset)
      (readSlot_course (s := { refreshed e s with slotAcquired := false }) data
        (h hslot).1 (h hslot).2)
  · exact readLoop_course _ _ _

theorem onAllocate_slot (s : Session) :
    Yields (fun r => ∃ b, r.1 = { s with slotAcquired := b } ∧ (b = true → s.state = .receiving))
      (onAllocate e s) := by
  unfold onAllocate
  dsimp only
  split
  · rename_i hc
    refine yields_seq _ fun acquired => ?_
    split
    · exact ⟨true, rfl, fun _ => hc.1⟩
    · exact ⟨false, rfl, fun hb => by cases hb⟩
  · exact ⟨false, rfl, fun hb => by cases hb⟩

end Reads

section Calls

theorem onAnalysisComplete_course (s : Session) (result : AnalysisResult) :
    Yields (Course e s) (onAnalysisComplete e s result) := by
  unfold onAnalysisComplete
  split
  · exact .here
  · rename_i hgo
    have hc : s.cleanupStarted = false ∧ s.state = .analyzing := by simpa using hgo
    refine yields_seq _ fun _ => yields_seq _ fun _ => ?_
    have hset : Alike s { s with csv := result.csv } := ⟨rfl, rfl, rfl, rfl⟩
    have hne : s.state ≠ .sendingResult := by rw [hc.2]; decide
    exact course_after (course_alike hset)
      (sendResult_course (s := { s with csv := result.csv }) result.crc32 result.csv false
        hc.1 hne)

theorem restart_stop (t : Timer) (now : ℕ) : (t.restart now).stop = t.stop := by
  unfold Timer.restart Timer.stop
  split <;> rfl

theorem onWrite_failed (s : Session) (text : String) :
    Yields (Course e (popped s)) (onWrite e s false text) :=
  cleanup_course (popped s) _

theorem onWrite_succeeded (s : Session) (text : String) :
    onWrite e s true text = onSendComplete e (popped s) true := by
  have hid (p : P Session) : (p >>= fun s' => (pure s' : P Session)) = p := by
    induction p with
    | done a => rfl
    | call op k ih =>
      rw [call_bind]
      exact congrArg _ (funext ih)
  exact hid _

theorem onWrite_last (s : Session) (text : String) (h : s.closeAfterSend = true) :
    Yields (Course e (popped s)) (onWrite e s true text) := by
  have hc : (popped s).closeAfterSend = true := h
  rw [onWrite_succeeded, onSendComplete, if_neg (by decide), if_pos hc]
  exact cleanup_course (popped s) _

theorem onWrite_elsewhere (s : Session) (text : String) (h : s.closeAfterSend = false)
    (hs : s.state ≠ .sendingResult) :
    Yields (fun s' => s' = refreshed e (popped s)) (onWrite e s true text) := by
  have hc : ¬ (popped s).closeAfterSend = true := by
    change ¬ s.closeAfterSend = true
    simp [h]
  rw [onWrite_succeeded, onSendComplete, if_neg (by decide), if_neg hc]
  dsimp only
  rw [if_neg (show ¬ (popped s).state = .sendingResult from hs)]
  rfl

/-- Any successful completion in SENDING_RESULT enters WAIT_DONE. -/
theorem onWrite_sending (s : Session) (text : String) (h : s.closeAfterSend = false)
    (hs : s.state = .sendingResult) :
    Yields (fun s' => s'.state = .waitDone ∧ s'.cleanupStarted = s.cleanupStarted ∧
      s'.socket.pendingWrites = s.socket.pendingWrites - 1 ∧
      s'.timer = (armTimer e { s with state := .waitDone }).timer) (onWrite e s true text) := by
  have hc : ¬ (popped s).closeAfterSend = true := by
    change ¬ s.closeAfterSend = true
    simp [h]
  rw [onWrite_succeeded, onSendComplete, if_neg (by decide), if_neg hc]
  dsimp only
  rw [if_pos (show (popped s).state = .sendingResult from hs)]
  refine yields_mono ?_ (transition_moved _ _ ?_)
  · rintro _ ⟨b, rfl⟩
    unfold armTimer
    dsimp only
    split
    · exact ⟨rfl, rfl, rfl, restart_stop s.timer e.now⟩
    · exact ⟨rfl, rfl, rfl, rfl⟩
  · change s.state ≠ _
    rw [hs]
    decide

end Calls

end Session

end LogTransfer
