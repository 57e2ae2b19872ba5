import LogTransfer.ServerLives
import LogTransfer.Retention

/-!
# Outstanding writes behind WAIT_DONE

A session is meant to enter WAIT_DONE with the last completion of its result.
Completions carry no name, and any one of them in SENDING_RESULT makes the
step. So WAIT_DONE is clear of outstanding writes when every such completion is
that of the only one, and otherwise it is not.
-/

set_option autoImplicit false

namespace LogTransfer
open Program Interleave

namespace Session

/-- Some of the result is still to be written. -/
def Unsent (s : Session) : Prop :=
  (s.state = .sendingResult ∨ s.state = .waitDone) ∧ 0 < s.socket.pendingWrites

/-- WAIT_DONE comes after the last write; until then the idle timer governs and
DownloadDone is unexpected. -/
structure WrittenFirst (e : Env) (s : Session) : Prop where
  written : s.state = .waitDone → s.socket.pendingWrites = 0
  idle : Unsent s → e.idleMs ≠ 0 → s.timer.active = true ∧ s.timer.timeoutMs = e.idleMs
  unexpected : Unsent s → ∀ data, consumeStage e s data =
    (closeSilently s ("unexpected data in " ++ stateName .sendingResult) >>= fun s =>
      pure (s, 0))

theorem unsent_sending {s : Session} (hw : s.state = .waitDone → s.socket.pendingWrites = 0)
    (h : Unsent s) : s.state = .sendingResult := by
  rcases h.1 with hs | hs
  · exact hs
  · exact absurd (hw hs) (Nat.ne_of_gt h.2)

theorem writtenFirst_of_written {e : Env} {s : Session} (harm : Armed e s)
    (hw : s.state = .waitDone → s.socket.pendingWrites = 0) : WrittenFirst e s := by
  refine ⟨hw, fun h hidle => ?_, fun h data => ?_⟩
  · have hs := unsent_sending hw h
    rw [Armed, hs] at harm
    exact harm.2 hidle
  · have hs := unsent_sending hw h
    unfold consumeStage
    rw [hs]

end Session

open Session

/-- A completion in SENDING_RESULT finds no other write outstanding. -/
def LastCompletion (m : Moment) (c : Call) (_ : Session) : Prop :=
  c.Succeeds m.session → m.session.state = .sendingResult → m.session.socket.pendingWrites = 1

section Account

variable {cfg : ServerConfig} {m : Moment}

theorem origin_pending (e : Env) (s : Session) (c : Call) :
    (c.origin e s).socket.pendingWrites ≤ s.socket.pendingWrites := by
  cases c with
  | read data =>
    dsimp only [Call.origin]
    split <;> exact Nat.le_refl _
  | readError text => exact Nat.le_refl _
  | written ok text => exact Nat.sub_le _ _
  | expired => exact Nat.le_refl _
  | closed => exact Nat.le_refl _
  | analysed result => exact Nat.le_refl _
  | resumed => exact Nat.le_refl _

theorem lives_written (h : Lives cfg LastCompletion m) :
    m.session.state = .waitDone → m.session.socket.pendingWrites = 0 := by
  induction h with
  | started id now s h =>
    obtain ⟨b, rfl⟩ := started_moved h
    obtain ⟨t, ht⟩ := armTimer_eq (e := { cfg with now := now }) (setReading (construct id) b)
    intro hd
    rw [ht] at hd
    cases hd
  | tick ms _ ih => exact ih
  | @call m c s' h _ ha hs ih =>
    intro hd
    by_cases hc : c.Succeeds m.session
    · rcases completion_cases hc hs with ⟨-, heq⟩ | ⟨hst, -, -, hp, -⟩
      · have hpop : s'.socket.pendingWrites = m.session.socket.pendingWrites - 1 := by
          rw [heq]
          rfl
        have hsame : s'.state = m.session.state := by
          rw [heq]
          rfl
        exact hpop.trans (by rw [ih (hsame.symm.trans hd)])
      · exact hp.trans (by rw [ha hc hst])
    · have hcourse := call_course (lives_cleanEnd h) hc hs
      obtain ⟨hst, -⟩ := origin_state (m.env cfg) m.session c
      obtain ⟨hsame, -⟩ := course_waits hcourse (.inr hd)
      have hbefore := ih (hst.symm.trans (hsame.symm.trans hd))
      have hle := origin_pending (m.env cfg) m.session c
      have hkeep := course_waitDone hcourse hd
      change s'.socket.pendingWrites = 0
      omega

theorem cleanup_state {s : Session} (reason : String) (ho : s.cleanupStarted = false) :
    Yields (fun s' => s'.state = .cleanup) (cleanup s reason) := by
  unfold cleanup
  rw [if_neg (by simp [ho])]
  exact fun _ => rfl

/-- The result of an upload goes out as two writes, so no completion of an
upload's session in SENDING_RESULT is that of the only one. -/
theorem analysed_writes (e : Env) (s : Session) (result : AnalysisResult)
    (hs : s.state = .analyzing) :
    Yields (fun s' => s'.state = .sendingResult →
      s'.socket.pendingWrites = s.socket.pendingWrites + 2) (onAnalysisComplete e s result) := by
  unfold onAnalysisComplete
  split
  · intro hsend
    rw [hs] at hsend
    cases hsend
  · rename_i hgo
    have ho : s.cleanupStarted = false := by simp [hs] at hgo; exact hgo
    refine yields_seq _ fun _ => yields_seq _ fun _ => ?_
    have hne : ({ s with csv := result.csv } : Session).state ≠ .sendingResult := by
      change s.state ≠ _
      rw [hs]
      decide
    refine yields_bind (transition_moved (e := e) _ _ hne) ?_
    rintro s₁ ⟨b, hs₁⟩
    have hp : s₁.socket.pendingWrites = s.socket.pendingWrites ∧ s₁.cleanupStarted = false := by
      obtain ⟨t, ht⟩ := armTimer_eq (e := e)
        { ({ s with csv := result.csv } : Session) with state := .sendingResult }
      rw [hs₁, ht]
      exact ⟨rfl, ho⟩
    have hstop (s₂ : Session) (reason : String) (hc : s₂.cleanupStarted = false) :
        Yields (fun s' => s'.state = .sendingResult →
          s'.socket.pendingWrites = s.socket.pendingWrites + 2) (cleanup s₂ reason) := by
      refine yields_mono ?_ (cleanup_state reason hc)
      intro s' hclean hsend
      rw [hclean] at hsend
      cases hsend
    refine yields_bind (send_queued s₁ _) ?_
    rintro r (rfl | rfl)
    · refine yields_bind (send_queued (queued s₁) _) ?_
      rintro r (rfl | rfl)
      · intro _
        change s₁.socket.pendingWrites + 1 + 1 = _
        rw [hp.1]
      · exact hstop (queued s₁) _ hp.2
    · exact hstop s₁ _ hp.2

end Account

/-- WAIT_DONE is clear of writes in every life whose completions in
SENDING_RESULT are those of the only outstanding write; any other completion
there leaves a write behind in WAIT_DONE. -/
theorem waitDone_after_writes (cfg : ServerConfig) :
    (∀ m, Lives cfg LastCompletion m → WrittenFirst (m.env cfg) m.session) ∧
      ∀ (m : Moment) (c : Call) (s' : Session), Lives cfg Unrestricted m →
        c.Due m.now m.session → Returns s' (c.program (m.env cfg) m.session) →
        ¬ LastCompletion m c s' → ¬ WrittenFirst (m.env cfg) s' := by
  refine ⟨fun m h => writtenFirst_of_written (lives_armed h) (lives_written h), ?_⟩
  intro m c s' _ hd hs hlast hw
  simp only [LastCompletion, Classical.not_imp] at hlast
  obtain ⟨hc, hst, hp⟩ := hlast
  rcases completion_cases hc hs with ⟨hne, -⟩ | ⟨-, hdone, -, hpop, -⟩
  · exact hne hst
  · obtain ⟨-, text, rfl⟩ := hc
    have hpos : 0 < m.session.socket.pendingWrites := hd
    have hzero := hw.written hdone
    omega

def idleSession [Doubles] (c : ServerState) : Option Session :=
  match c.thread with
  | .done m => m.session
  | .call _ _ => none

/-- An upload up to its result, its Ack long written, and the completion of the
result header. -/
def headerWritten : List (Act Event Peer) :=
  callback .connection 5 ++ arrival (uploadBytes (bytesOf "a") (bytesOf "x")) ++
    callback (.readable 65536) 6 ++ callback (.writeDone true "") 0 ++ parserSteps 17 ++
    callback .completion 5 ++ callback (.writeDone true "") 0

theorem body_outstanding_in_waitDone :
    ∃ m, Lives defaultConfig Unrestricted m ∧ m.session.state = .waitDone ∧
      m.session.socket.pendingWrites = 1 := by
  let _ := wholeDoubles
  have hrun : ((anyRun headerWritten).bind idleSession).map
      (fun s => (s.state, s.socket.pendingWrites)) = some (.waitDone, 1) := by
    decide
  obtain ⟨s, hs, hvals⟩ := Option.map_eq_some_iff.mp hrun
  obtain ⟨c, hc, hidle⟩ := Option.bind_eq_some_iff.mp hs
  unfold idleSession at hidle
  split at hidle
  · rename_i l hl
    obtain ⟨since, hlife⟩ := session_lives (anyRun_reach hc) l hl s hidle
    have hvals := Prod.mk.inj hvals
    exact ⟨_, hlife, hvals.1, hvals.2⟩
  · cases hidle

end LogTransfer
