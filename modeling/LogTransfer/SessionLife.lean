import LogTransfer.SessionMoves
import LogTransfer.SessionConduct

/-!
# The life of one session

A session by itself: the calls libuv and the manager may make on it, in any
order and with any answers to its operations. `since` is the loop time at which
its state was entered.
-/

set_option autoImplicit false

namespace LogTransfer
open Program Interleave

inductive Call where
  | read (data : Bytes)
  | readError (text : String)
  | written (ok : Bool) (text : String)
  | expired
  | closed
  | analysed (result : AnalysisResult)
  | resumed
  deriving DecidableEq, Repr

namespace Call
open Session

def program (e : Env) (s : Session) : Call → P Session
  | .read data => do
    let (s, _) ← s.onAllocate e
    if data.isEmpty then pure s else s.onRead e data
  | .readError text => s.onError text
  | .written ok text => s.onWrite e ok text
  | .expired => SessionManager.expire s
  | .closed => pure { s with finished := true }
  | .analysed result => s.onAnalysisComplete e result
  | .resumed => s.resumeReading

/-- When libuv makes the call. -/
def Due (now : ℕ) (s : Session) : Call → Prop
  | .read _ | .readError _ => s.socket.reading = true
  | .written _ _ => 0 < s.socket.pendingWrites
  | .expired => s.timer.due.any (· ≤ now) = true
  | .closed => s.socket.closing = true ∧ s.finished = false ∧ s.socket.pendingWrites = 0
  | .analysed _ | .resumed => True

/-- What a call does before anything else. -/
def origin (e : Env) (s : Session) : Call → Session
  | .read data => if data.isEmpty then s else refreshed e s
  | .written _ _ => popped s
  | .expired => { s with timer := s.timer.stop }
  | _ => s

/-- A completion that is not that of a failure Ack. -/
def Succeeds (s : Session) (c : Call) : Prop :=
  s.closeAfterSend = false ∧ ∃ text, c = .written true text

end Call

namespace Session

def CleanEnd (s : Session) : Prop := s.cleanupStarted = true → s.state = .cleanup

def Waits (s : Session) : Prop := s.state = .waitHeader ∨ s.state = .waitDone

/-- A state with a timeout has its timer running, any other has it stopped. -/
def Armed (e : Env) (s : Session) : Prop :=
  (timeoutForState e s.state = 0 → s.timer.due = none) ∧
    (timeoutForState e s.state ≠ 0 →
      s.timer.active = true ∧ s.timer.timeoutMs = timeoutForState e s.state)

section Courses

variable {e : Env} {s s' : Session}

theorem course_cleanEnd (h : Course e s s') (hs : CleanEnd s) : CleanEnd s' := by
  induction h with
  | here => exact hs
  | touch _ hab ih => exact fun hc => hab.1.trans (ih (hab.2.2.2.symm.trans hc))
  | @enter a next _ _ ho _ =>
    obtain ⟨t, ht⟩ := armTimer_eq (e := e) { a with state := next }
    intro hc
    rw [ht] at hc
    exact absurd hc (by simp [ho])
  | queue _ _ _ ih => exact ih
  | clean => exact fun _ => rfl

/-- A course that ends in a waiting state has not left it. -/
theorem course_waits (h : Course e s s') (hw : Waits s') :
    s'.state = s.state ∧ s'.timer = s.timer := by
  induction h with
  | here => exact ⟨rfl, rfl⟩
  | touch _ hab ih =>
    have hback := ih (by rwa [Waits, hab.1] at hw)
    exact ⟨hab.1.trans hback.1, hab.2.1.trans hback.2⟩
  | @enter a next _ hn _ _ =>
    obtain ⟨t, ht⟩ := armTimer_eq (e := e) { a with state := next }
    rw [Waits, ht] at hw
    rcases hn with rfl | rfl | rfl | rfl <;> rcases hw with hw | hw <;> cases hw
  | queue _ _ _ ih => exact ih hw
  | clean => rcases hw with hw | hw <;> cases hw

theorem course_waitDone (h : Course e s s') (hd : s'.state = .waitDone) :
    s'.socket.pendingWrites = s.socket.pendingWrites := by
  induction h with
  | here => rfl
  | touch _ hab ih => exact hab.2.2.1.trans (ih (hab.1.symm.trans hd))
  | @enter a next _ hn _ _ =>
    obtain ⟨t, ht⟩ := armTimer_eq (e := e) { a with state := next }
    rw [ht] at hd
    rcases hn with rfl | rfl | rfl | rfl <;> cases hd
  | queue _ hs _ _ => exact absurd hd hs
  | clean => cases hd

theorem armed_armTimer (e : Env) (s : Session) : Armed e (armTimer e s) := by
  obtain ⟨t, heq⟩ := armTimer_eq (e := e) s
  have hstate : (armTimer e s).state = s.state := by rw [heq]
  rw [Armed, hstate]
  constructor
  · intro ht
    simp [armTimer, ht, Timer.stop]
  · intro ht
    simp [armTimer, ht, Timer.start, Timer.active]

theorem armed_alike {a b : Session} (hab : Alike a b) (h : Armed e a) : Armed e b := by
  rw [Armed, hab.1, hab.2.1]
  exact h

theorem armed_cleaned (e : Env) (s : Session) (hs : s.state = .cleanup)
    (ht : s.timer.due = none) : Armed e s := by
  rw [Armed, hs]
  exact ⟨fun _ => ht, fun hne => absurd rfl hne⟩

theorem course_armed (h : Course e s s') (hs : Armed e s) : Armed e s' := by
  induction h with
  | here => exact hs
  | touch _ hab ih => exact armed_alike hab ih
  | enter => exact armed_armTimer e _
  | queue _ _ _ ih => exact ih
  | clean => exact armed_cleaned e _ rfl rfl

theorem restart_timeout (t : Timer) (now : ℕ) : (t.restart now).timeoutMs = t.timeoutMs := by
  unfold Timer.restart
  split <;> rfl

theorem restart_due (t : Timer) (now : ℕ) (h : t.active = true) :
    (t.restart now).due = some (now + t.timeoutMs) := by
  unfold Timer.restart
  rw [if_pos (show t.due.isSome = true from h)]

theorem restart_stopped (t : Timer) (now : ℕ) (h : t.due = none) : t.restart now = t := by
  unfold Timer.restart
  rw [if_neg (by simp [h])]

theorem armed_refreshed (hs : Armed e s) : Armed e (refreshed e s) := by
  refine ⟨fun ht => ?_, fun ht => ?_⟩
  · have hnone := hs.1 ht
    change (s.timer.restart e.now).due = none
    rw [restart_stopped _ _ hnone]
    exact hnone
  · obtain ⟨ha, hm⟩ := hs.2 ht
    exact ⟨(active_restart _ _).trans ha, (restart_timeout _ _).trans hm⟩

end Courses

section Calls

variable {e : Env} {s : Session}

theorem read_course (data : Bytes) (hend : CleanEnd s) :
    Yields (Course e ((Call.read data).origin e s)) ((Call.read data).program e s) := by
  refine yields_bind (onAllocate_slot (e := e) s) ?_
  rintro ⟨s₁, size⟩ ⟨b, heq, hb⟩
  have hs₁ : s₁ = { s with slotAcquired := b } := heq
  subst hs₁
  dsimp only [Call.origin]
  split
  · exact course_alike ⟨rfl, rfl, rfl, rfl⟩
  · have hset : Alike (refreshed e s) (refreshed e { s with slotAcquired := b }) :=
      ⟨rfl, rfl, rfl, rfl⟩
    refine yields_mono (fun _ h => course_trans (course_alike hset) h) (onRead_course data ?_)
    intro hslot
    have hrec : s.state = .receiving := hb hslot
    refine ⟨?_, hrec⟩
    by_contra hc
    have hclean := hend (by simpa using hc)
    rw [hrec] at hclean
    cases hclean

theorem expire_cleanup (hend : CleanEnd s) :
    Yields (fun s' => s'.state = .cleanup ∧ s'.timer.due = none) (SessionManager.expire s) := by
  unfold SessionManager.expire onTimeout cleanup
  split
  · rename_i hc
    exact ⟨hend hc, rfl⟩
  · exact fun _ => ⟨rfl, rfl⟩

/-- Every call but a successful completion is a course from its origin. -/
theorem program_course (c : Call) (hend : CleanEnd s) (hc : ¬ c.Succeeds s) :
    Yields (Course e (c.origin e s)) (c.program e s) := by
  cases c with
  | read data => exact read_course data hend
  | readError text => exact cleanup_course s text
  | written ok text =>
    cases ok with
    | false => exact onWrite_failed s text
    | true =>
      cases hclose : s.closeAfterSend with
      | false => exact absurd ⟨hclose, text, rfl⟩ hc
      | true => exact onWrite_last s text hclose
  | expired => exact cleanup_course _ _
  | closed => exact course_alike ⟨rfl, rfl, rfl, rfl⟩
  | analysed result => exact onAnalysisComplete_course s result
  | resumed => exact yields_mono (fun _ h => course_alike h) (resumeReading_alike s)

end Calls

end Session

structure Moment where
  session : Session
  now : ℕ
  since : ℕ
  deriving DecidableEq, Repr

namespace Moment

def env (cfg : ServerConfig) (m : Moment) : Env := { cfg with now := m.now }

def after (m : Moment) (s' : Session) : Moment :=
  { session := s', now := m.now,
    since := if s'.state = m.session.state then m.since else m.now }

end Moment

/-- `allow` is what the life may be restricted to: the moment, the call, and
the session after it. -/
inductive Lives (cfg : ServerConfig) (allow : Moment → Call → Session → Prop) : Moment → Prop
  | started (id now : ℕ) (s : Session)
      (h : Returns (s, true) (Session.start { cfg with now := now } (Session.construct id))) :
      Lives cfg allow { session := s, now := now, since := now }
  | tick {m : Moment} (ms : ℕ) (h : Lives cfg allow m) :
      Lives cfg allow { m with now := m.now + ms }
  | call {m : Moment} (c : Call) (s' : Session) (h : Lives cfg allow m)
      (hd : c.Due m.now m.session) (ha : allow m c s')
      (hs : Returns s' (c.program (m.env cfg) m.session)) : Lives cfg allow (m.after s')

abbrev Unrestricted : Moment → Call → Session → Prop := fun _ _ _ => True

section Invariants
open Session

variable {cfg : ServerConfig} {allow : Moment → Call → Session → Prop} {m : Moment}

theorem started_moved {id now : ℕ} {s : Session}
    (h : Returns (s, true) (Session.start { cfg with now := now } (Session.construct id))) :
    ∃ b, s = armTimer { cfg with now := now } (setReading (Session.construct id) b) := by
  have hyields : Yields (fun r : Session × Bool => r.2 = true →
      ∃ b, r.1 = armTimer { cfg with now := now } (setReading (Session.construct id) b))
      (Session.start { cfg with now := now } (Session.construct id)) := by
    refine yields_bind (Q := fun r => r = (setReading (Session.construct id) r.2, r.2)) ?_ ?_
    · exact fun ok => rfl
    · rintro ⟨s₁, ok⟩ hr
      cases ok with
      | false => exact yields_seq _ fun _ hb => by cases hb
      | true =>
        have hs₁ : s₁ = setReading (Session.construct id) true := congrArg Prod.fst hr
        subst hs₁
        exact fun _ _ => ⟨true, rfl⟩
  exact (yields_iff_returns _).mp hyields _ h rfl

variable {e : Env} {s s' : Session} {c : Call}

theorem origin_state (e : Env) (s : Session) (c : Call) :
    (c.origin e s).state = s.state ∧ (c.origin e s).cleanupStarted = s.cleanupStarted := by
  cases c with
  | read data =>
    dsimp only [Call.origin]
    split <;> exact ⟨rfl, rfl⟩
  | readError text => exact ⟨rfl, rfl⟩
  | written ok text => exact ⟨rfl, rfl⟩
  | expired => exact ⟨rfl, rfl⟩
  | closed => exact ⟨rfl, rfl⟩
  | analysed result => exact ⟨rfl, rfl⟩
  | resumed => exact ⟨rfl, rfl⟩

/-- What a successful completion leaves behind. -/
theorem completion_cases (hc : c.Succeeds s) (h : Returns s' (c.program e s)) :
    s.state ≠ .sendingResult ∧ s' = refreshed e (popped s) ∨
      s.state = .sendingResult ∧ s'.state = .waitDone ∧ s'.cleanupStarted = s.cleanupStarted ∧
        s'.socket.pendingWrites = s.socket.pendingWrites - 1 ∧
        s'.timer = (armTimer e { s with state := .waitDone }).timer := by
  obtain ⟨hclose, text, rfl⟩ := hc
  by_cases hs : s.state = .sendingResult
  · exact .inr ⟨hs, (yields_iff_returns _).mp (onWrite_sending s text hclose hs) _ h⟩
  · exact .inl ⟨hs, (yields_iff_returns _).mp (onWrite_elsewhere s text hclose hs) _ h⟩

theorem call_course (hend : CleanEnd s) (hc : ¬ c.Succeeds s) (h : Returns s' (c.program e s)) :
    Course e (c.origin e s) s' := (yields_iff_returns _).mp (program_course c hend hc) _ h

theorem call_cleanEnd (hend : CleanEnd s) (h : Returns s' (c.program e s)) : CleanEnd s' := by
  by_cases hc : c.Succeeds s
  · rcases completion_cases hc h with ⟨-, rfl⟩ | ⟨hs, -, hop, -, -⟩
    · exact hend
    · intro hstarted
      have hclean := hend (hop.symm.trans hstarted)
      rw [hs] at hclean
      cases hclean
  · obtain ⟨hst, hop⟩ := origin_state e s c
    exact course_cleanEnd (call_course hend hc h) fun hstarted =>
      hst.trans (hend (hop.symm.trans hstarted))

theorem call_armed (hend : CleanEnd s) (harm : Armed e s) (h : Returns s' (c.program e s)) :
    Armed e s' := by
  by_cases hc : c.Succeeds s
  · rcases completion_cases hc h with ⟨-, rfl⟩ | ⟨-, hst, -, -, htimer⟩
    · exact armed_refreshed (s := popped s) harm
    · have hnew := armed_armTimer e { s with state := .waitDone }
      obtain ⟨t, heq⟩ := armTimer_eq (e := e) { s with state := .waitDone }
      rw [heq] at hnew htimer
      rw [Armed, hst, htimer]
      exact hnew
  · have hcourse := call_course hend hc h
    cases c with
    | expired =>
      obtain ⟨hst, hdue⟩ := (yields_iff_returns _).mp (expire_cleanup hend) _ h
      exact armed_cleaned e s' hst hdue
    | read data =>
      refine course_armed hcourse ?_
      dsimp only [Call.origin]
      split
      · exact harm
      · exact armed_refreshed harm
    | readError text => exact course_armed hcourse harm
    | written ok text => exact course_armed hcourse harm
    | closed => exact course_armed hcourse harm
    | analysed result => exact course_armed hcourse harm
    | resumed => exact course_armed hcourse harm

theorem armed_now (m : Moment) (now : ℕ) (s : Session) :
    Armed (m.env cfg) s ↔ Armed { cfg with now := now } s := by
  unfold Armed timeoutForState Moment.env
  cases s.state <;> exact Iff.rfl

theorem lives_cleanEnd (h : Lives cfg allow m) : CleanEnd m.session := by
  induction h with
  | started id now s h =>
    obtain ⟨b, rfl⟩ := started_moved h
    obtain ⟨t, ht⟩ := armTimer_eq (e := { cfg with now := now }) (setReading (construct id) b)
    intro hc
    rw [ht] at hc
    cases hc
  | tick ms _ ih => exact ih
  | call c s' _ _ _ hs ih => exact call_cleanEnd ih hs

theorem lives_armed (h : Lives cfg allow m) : Armed (m.env cfg) m.session := by
  induction h with
  | started id now s h =>
    obtain ⟨b, rfl⟩ := started_moved h
    exact armed_armTimer _ _
  | @tick m ms _ ih => exact (armed_now _ _ _).mpr ((armed_now _ (m.now + ms) _).mp ih)
  | call c s' h _ _ hs ih => exact call_armed (lives_cleanEnd h) ih hs

end Invariants

end LogTransfer
