import LogTransfer.WriteAccount

/-!
# Deadlines of the waiting states

WAIT_HEADER and WAIT_DONE wait for something finite, so their timer is meant to
run from their entry on. But it is running, and `restart` pushes every running
timer back. The deadline stands exactly as long as no bytes and no successful
completion come later than the entry.
-/

set_option autoImplicit false

namespace LogTransfer
open Program Interleave Session

/-- A read with bytes, or a successful completion that is not a failure Ack's. -/
def Activity (s : Session) (c : Call) : Prop :=
  (∃ data, data ≠ [] ∧ c = .read data) ∨ c.Succeeds s

/-- When a response awaited from `time` on is overdue; no limit is no timer. -/
def deadline (cfg : ServerConfig) (time : ℕ) : Option ℕ :=
  if cfg.responseMs = 0 then none else some (time + cfg.responseMs)

/-- The timer of a waiting state is the one armed at its entry. -/
def OnDeadline (cfg : ServerConfig) (m : Moment) : Prop :=
  Waits m.session → m.session.timer.due = deadline cfg m.since

/-- Activity that leaves a waiting session where it is comes at the loop time
of its entry. -/
def Prompt (m : Moment) (c : Call) (s' : Session) : Prop :=
  Waits m.session → s'.state = m.session.state → Activity m.session c → m.now = m.since

section Steps

variable {cfg : ServerConfig} {e : Env} {m : Moment} {s s' : Session} {c : Call}

theorem waits_timeout (hw : Waits s) : timeoutForState e s.state = e.responseMs := by
  rcases hw with hw | hw <;> rw [hw] <;> rfl

theorem idle_call (hc : ¬ c.Succeeds s) (hr : ∀ data, c ≠ .read data) : ¬ Activity s c := by
  rintro (⟨data, -, heq⟩ | hs)
  · exact hr data heq
  · exact hc hs

/-- A call that leaves a waiting session where it is restarts its timer when it
is activity and leaves it alone when it is not. -/
theorem waiting_timer (hend : CleanEnd s) (hw : Waits s) (hstay : s'.state = s.state)
    (h : Returns s' (c.program e s)) :
    (Activity s c → s'.timer = s.timer.restart e.now) ∧ (¬ Activity s c → s'.timer = s.timer) := by
  have hw' : Waits s' := by rwa [Waits, hstay]
  by_cases hc : c.Succeeds s
  · refine ⟨fun _ => ?_, fun hno => absurd (.inr hc) hno⟩
    rcases completion_cases hc h with ⟨-, heq⟩ | ⟨hst, -⟩
    · rw [heq]
      rfl
    · rcases hw with hw | hw <;> rw [hw] at hst <;> cases hst
  · obtain ⟨-, htimer⟩ := course_waits (call_course hend hc h) hw'
    have hidle (hr : ∀ data, c ≠ .read data) (ht : s'.timer = s.timer) :
        (Activity s c → s'.timer = s.timer.restart e.now) ∧
          (¬ Activity s c → s'.timer = s.timer) :=
      ⟨fun ha => absurd ha (idle_call hc hr), fun _ => ht⟩
    cases c with
    | read data =>
      by_cases hdata : data = []
      · subst hdata
        refine ⟨?_, fun _ => htimer⟩
        rintro (⟨data, hne, heq⟩ | hs)
        · cases heq
          exact absurd rfl hne
        · exact absurd hs hc
      · refine ⟨fun _ => ?_, fun hno => absurd (.inl ⟨data, hdata, rfl⟩) hno⟩
        rw [htimer]
        simp only [Call.origin, List.isEmpty_iff, hdata, if_false]
        rfl
    | expired =>
      obtain ⟨hclean, -⟩ := (yields_iff_returns _).mp (expire_cleanup hend) _ h
      rcases hw' with hw' | hw' <;> rw [hclean] at hw' <;> cases hw'
    | readError text => exact hidle (fun _ => by simp) htimer
    | written ok text => exact hidle (fun _ => by simp) htimer
    | closed => exact hidle (fun _ => by simp) htimer
    | analysed result => exact hidle (fun _ => by simp) htimer
    | resumed => exact hidle (fun _ => by simp) htimer

/-- A restart counts the response time from now. -/
theorem restart_deadline (harm : Armed e s) (hw : Waits s) :
    (s.timer.restart e.now).due = deadline e.toServerConfig e.now := by
  rw [Armed, waits_timeout hw] at harm
  unfold deadline
  split
  · rename_i hr
    rw [restart_stopped _ _ (harm.1 hr)]
    exact harm.1 hr
  · rename_i hr
    obtain ⟨ha, hm⟩ := harm.2 hr
    rw [restart_due _ _ ha, hm]

theorem armed_deadline (s : Session) (hw : Waits s) :
    (armTimer e s).timer.due = deadline e.toServerConfig e.now := by
  unfold deadline armTimer
  simp only [waits_timeout hw]
  split <;> rfl

/-- In a life without late activity a waiting state keeps the timer it was
entered with. -/
theorem lives_onDeadline (h : Lives cfg Prompt m) : OnDeadline cfg m := by
  induction h with
  | started id now s h =>
    obtain ⟨b, rfl⟩ := started_moved h
    intro _
    exact armed_deadline (e := { cfg with now := now }) (setReading (construct id) b) (.inl rfl)
  | tick ms _ ih => exact ih
  | @call m c s' h _ ha hs ih =>
    intro hw'
    have hw' : Waits s' := hw'
    have hend := lives_cleanEnd h
    by_cases hstay : s'.state = m.session.state
    · have hw : Waits m.session := by rwa [Waits, ← hstay]
      obtain ⟨hact, hidle⟩ := waiting_timer hend hw hstay hs
      have hsince : (m.after s').since = m.since := if_pos hstay
      rw [hsince]
      by_cases hc : Activity m.session c
      · have hdue := restart_deadline (lives_armed h) hw
        rw [← ha hw hstay hc]
        change s'.timer.due = _
        rw [hact hc]
        exact hdue
      · change s'.timer.due = _
        rw [hidle hc]
        exact ih hw
    · have hsince : (m.after s').since = m.now := if_neg hstay
      rw [hsince]
      change s'.timer.due = _
      by_cases hc : c.Succeeds m.session
      · rcases completion_cases hc hs with ⟨-, heq⟩ | ⟨-, -, -, -, htimer⟩
        · exact absurd (by rw [heq]; rfl) hstay
        · rw [htimer]
          exact armed_deadline (e := m.env cfg) { m.session with state := .waitDone } (.inr rfl)
      · obtain ⟨hsame, -⟩ := course_waits (call_course hend hc hs) hw'
        exact absurd (hsame.trans (origin_state _ _ _).1) hstay

end Steps

/-- The deadline of a response stands in every life without late activity. A
call that leaves a waiting session where it is leaves its expiry unchanged if
and only if it is no activity or comes at the loop time the timer counts from. -/
theorem response_deadline (cfg : ServerConfig) :
    (∀ m, Lives cfg Prompt m → OnDeadline cfg m) ∧
      ∀ (m : Moment) (c : Call) (s' : Session), Lives cfg Unrestricted m →
        Returns s' (c.program (m.env cfg) m.session) → Waits m.session →
        s'.state = m.session.state →
        (s'.timer.due = m.session.timer.due ↔
          (Activity m.session c → m.session.timer.due = deadline cfg m.now)) := by
  refine ⟨fun m h => lives_onDeadline h, ?_⟩
  intro m c s' h hs hw hstay
  obtain ⟨hact, hidle⟩ := waiting_timer (lives_cleanEnd h) hw hstay hs
  have hdue := restart_deadline (lives_armed h) hw
  constructor
  · intro hsame hc
    rw [← hsame, hact hc]
    exact hdue
  · intro hprompt
    by_cases hc : Activity m.session c
    · rw [hact hc, hprompt hc]
      exact hdue
    · rw [hidle hc]

def greeted : Session :=
  (quietly (Session.start { defaultConfig with now := 0 } (construct 1))
    { committed := [], sent := [], retained := none }).1.1

/-- One byte of a header after a minute. -/
theorem deadline_pushed_back :
    ∃ (m : Moment) (c : Call) (s' : Session), Lives defaultConfig Unrestricted m ∧
      c.Due m.now m.session ∧ Returns s' (c.program (m.env defaultConfig) m.session) ∧
      Waits m.session ∧ s'.state = m.session.state ∧
      m.session.timer.due = some 120000 ∧ s'.timer.due = some 180000 := by
  have hstart : Returns (greeted, true)
      (Session.start { defaultConfig with now := 0 } (construct 1)) :=
    returns_eval Quiet.answer _ { committed := [], sent := [], retained := none }
  have hlife : Lives defaultConfig Unrestricted
      { session := greeted, now := 60000, since := 0 } :=
    (Lives.started 1 0 greeted hstart).tick 60000
  refine ⟨_, .read [0x4C#8], _, hlife, rfl, returns_eval Quiet.answer _
    { committed := [], sent := [], retained := none }, .inl rfl, ?_, rfl, ?_⟩
  · decide
  · decide

end LogTransfer
