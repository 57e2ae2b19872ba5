import LogTransfer.SessionManager

/-!
# What the callbacks of a session ask for

A callback of a session never accepts a connection, constructs a session or
looks at the parser's abort flag; `start` alone begins one.
-/

set_option autoImplicit false

namespace LogTransfer
open Program

/-- Operations of a running session. -/
def Op.inSession : Op → Prop
  | .abortPending | .acceptPending | .construct _ | .beginSession => False
  | _ => True

namespace Session

variable (e : Env)

theorem startRead_inSession (s : Session) : Only Op.inSession (startRead s) := by
  unfold startRead
  split
  · exact only_pure _
  · split
    · exact only_pure _
    · exact only_bind (only_ask trivial) fun _ => only_pure _

theorem send_inSession (s : Session) (bytes : Bytes) : Only Op.inSession (send s bytes) := by
  unfold send
  split
  · exact only_pure _
  · refine only_bind (only_ask trivial) fun ok => ?_
    split <;> exact only_pure _

theorem resumeReading_inSession (s : Session) : Only Op.inSession (resumeReading s) := by
  unfold resumeReading ringBlocks
  split
  · exact only_pure _
  · refine only_bind ?_ fun blocked => ?_
    · split
      · exact only_ask trivial
      · exact only_pure _
    · split
      · exact only_pure _
      · exact only_bind (only_ask trivial) fun _ =>
          only_bind (startRead_inSession s) fun _ => only_pure _

theorem transition_inSession (s : Session) (next : SessionState) :
    Only Op.inSession (transition e s next) := by
  unfold transition
  split
  · exact only_pure _
  · dsimp only
    split
    · exact resumeReading_inSession _
    · exact only_pure _

theorem cleanup_inSession (s : Session) (reason : String) :
    Only Op.inSession (cleanup s reason) := by
  unfold cleanup
  split
  · exact only_pure _
  · exact only_bind (only_ask trivial) fun _ => only_pure _

theorem failWithAck_inSession (s : Session) (status : AckStatus) (reason : String) :
    Only Op.inSession (failWithAck s status reason) := by
  refine only_bind (send_inSession s _) fun r => ?_
  obtain ⟨s', ok⟩ := r
  cases ok with
  | false => exact cleanup_inSession _ _
  | true => exact only_pure _

theorem sendResult_inSession (s : Session) (crc : Crc) (body : Bytes) (skipEmpty : Bool) :
    Only Op.inSession (sendResult e s crc body skipEmpty) := by
  refine only_bind (transition_inSession e s _) fun s => ?_
  refine only_bind (send_inSession s _) fun r => ?_
  obtain ⟨s', ok⟩ := r
  cases ok with
  | false => exact cleanup_inSession _ _
  | true =>
    change Only _ (sendResultBody s' body skipEmpty)
    unfold sendResultBody
    split
    · exact only_pure _
    · refine only_bind (send_inSession _ _) fun r => ?_
      obtain ⟨s'', ok⟩ := r
      cases ok with
      | false => exact cleanup_inSession _ _
      | true => exact only_pure _

theorem handleResultRequest_inSession (s : Session) :
    Only Op.inSession (handleResultRequest e s) := by
  unfold handleResultRequest
  split
  · exact failWithAck_inSession _ _ _
  · exact cleanup_inSession _ _
  · refine only_bind (only_ask trivial) fun kept => ?_
    cases kept with
    | none => exact failWithAck_inSession _ _ _
    | some kept =>
      dsimp only
      split
      · exact failWithAck_inSession _ _ _
      · exact sendResult_inSession e _ _ _ _

theorem then_inSession {p : P Session} (n : ℕ) (h : Only Op.inSession p) :
    Only Op.inSession (p >>= fun s => pure (s, n)) :=
  only_bind h fun _ => only_pure _

theorem consumeHeader_inSession (s : Session) (data : Bytes) :
    Only Op.inSession (consumeHeader e s data) := by
  unfold consumeHeader headerFramed
  dsimp only
  split
  · exact only_pure _
  · split
    · exact then_inSession _ (handleResultRequest_inSession e _)
    · unfold acceptHeader
      split
      · exact then_inSession _ (failWithAck_inSession _ _ _)
      · exact then_inSession _ (cleanup_inSession _ _)
      · exact then_inSession _ (transition_inSession e _ _)
  · exact then_inSession _ (cleanup_inSession _ _)
  · exact then_inSession _ (cleanup_inSession _ _)
  · exact then_inSession _ (cleanup_inSession _ _)
  · exact then_inSession _ (failWithAck_inSession _ _ _)

theorem applyBackpressure_inSession (s : Session) :
    Only Op.inSession (applyBackpressure s) := by
  refine only_bind (only_ask trivial) fun full => ?_
  split
  · refine only_bind (only_ask trivial) fun _ => only_bind (only_ask trivial) fun again => ?_
    split
    · exact resumeReading_inSession _
    · exact only_pure _
  · exact only_pure _

theorem copySlots_inSession (s : Session) (fuel : ℕ) (rest : Bytes) :
    Only Op.inSession (copySlots e s fuel rest) := by
  induction fuel generalizing rest with
  | zero => exact only_pure _
  | succ fuel ih =>
    unfold copySlots
    split
    · exact only_pure _
    · refine only_bind (only_ask trivial) fun acquired => ?_
      split
      · exact only_bind (cleanup_inSession _ _) fun _ => only_pure _
      · exact only_bind (only_ask trivial) fun _ => ih _

theorem consumePayload_inSession (s : Session) (data : Bytes) :
    Only Op.inSession (consumePayload e s data) := by
  refine only_bind (copySlots_inSession e _ _ _) fun r => ?_
  obtain ⟨s', copied⟩ := r
  cases copied with
  | false => exact only_pure _
  | true => exact only_bind (applyBackpressure_inSession _) fun _ => only_pure _

theorem verifyAndAck_inSession (s : Session) : Only Op.inSession (verifyAndAck e s) := by
  refine only_bind (transition_inSession e s _) fun s => ?_
  split
  · exact cleanup_inSession _ _
  · split
    · exact failWithAck_inSession _ _ _
    · refine only_bind (send_inSession _ _) fun r => ?_
      obtain ⟨s', ok⟩ := r
      cases ok with
      | false => exact cleanup_inSession _ _
      | true => exact only_bind (transition_inSession e _ _) fun _ =>
          only_bind (only_ask trivial) fun _ => only_pure _

theorem consumeTrailer_inSession (s : Session) (data : Bytes) :
    Only Op.inSession (consumeTrailer e s data) := by
  unfold consumeTrailer trailerFramed
  dsimp only
  split
  · exact only_pure _
  · exact then_inSession _ (verifyAndAck_inSession e _)
  · exact then_inSession _ (failWithAck_inSession _ _ _)
  · exact then_inSession _ (cleanup_inSession _ _)

theorem consumeDone_inSession (s : Session) (data : Bytes) :
    Only Op.inSession (consumeDone s data) := by
  unfold consumeDone
  dsimp only
  split
  · exact only_pure _
  · exact then_inSession _ (cleanup_inSession _ _)
  · exact then_inSession _ (cleanup_inSession _ _)

theorem readLoop_inSession (fuel : ℕ) (s : Session) (data : Bytes) :
    Only Op.inSession (readLoop e fuel s data) := by
  induction fuel generalizing s data with
  | zero => exact only_pure _
  | succ fuel ih =>
    unfold readLoop
    split
    · exact only_pure _
    · refine only_bind ?_ fun r => ?_
      · unfold consumeStage
        split
        · exact consumeHeader_inSession e _ _
        · split
          · exact consumePayload_inSession e _ _
          · exact consumeTrailer_inSession e _ _
        · exact consumeDone_inSession _ _
        · exact then_inSession _ (cleanup_inSession _ _)
      · dsimp only
        split
        · exact only_pure _
        · exact ih _ _

theorem onReadable_inSession (s : Session) (count : ℕ) :
    Only Op.inSession (onReadable e s count) := by
  refine only_bind ?_ fun r => only_bind (only_ask trivial) fun data => ?_
  · unfold onAllocate
    dsimp only
    split
    · refine only_bind (only_ask trivial) fun acquired => ?_
      split <;> exact only_pure _
    · exact only_pure _
  · split
    · exact only_pure _
    · unfold onRead
      dsimp only
      split
      · refine only_bind (only_ask trivial) fun _ => ?_
        refine only_bind (applyBackpressure_inSession _) fun _ => ?_
        split
        · exact only_pure _
        · exact only_bind (consumeTrailer_inSession e _ _) fun _ => only_pure _
      · exact readLoop_inSession e _ _ _

theorem onWrite_inSession (s : Session) (ok : Bool) (text : String) :
    Only Op.inSession (onWrite e s ok text) := by
  refine only_bind ?_ fun s => ?_
  · unfold onSendComplete
    split
    · exact only_pure _
    · split
      · exact cleanup_inSession _ _
      · dsimp only
        split
        · exact transition_inSession e _ _
        · exact only_pure _
  · split
    · exact only_pure _
    · exact cleanup_inSession _ _

theorem onAnalysisComplete_inSession (s : Session) (result : AnalysisResult) :
    Only Op.inSession (onAnalysisComplete e s result) := by
  unfold onAnalysisComplete
  split
  · exact only_pure _
  · exact only_bind (only_ask trivial) fun _ => only_bind (only_ask trivial) fun _ =>
      sendResult_inSession e _ _ _ _

end Session

end LogTransfer
