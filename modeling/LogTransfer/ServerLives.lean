import LogTransfer.SessionLife

/-!
# The sessions of the server

A session of a run of the server, with the parser thread, the connections and
the network at work, has a life of its own: whatever a session does in the
server it can do by itself.
-/

set_option autoImplicit false

namespace LogTransfer
open Program Interleave SessionManager

variable (cfg : ServerConfig)

/-- The manager's session, if any, has a life up to now. -/
def Known (m : Loop) : Prop :=
  ∀ s, m.session = some s →
    ∃ since, Lives cfg Unrestricted { session := s, now := m.now, since := since }

variable {cfg} {m : Loop}

theorem yields_returned {α : Type} (p : P α) : Yields (fun a => Returns a p) p :=
  (yields_iff_returns p).mpr fun _ h => h

theorem known_call {s s' : Session} (c : Call) (h : Known cfg m) (hm : m.session = some s)
    (hd : c.Due m.now s) (hs : Returns s' (c.program (Server.env cfg m) s)) :
    ∃ since, Lives cfg Unrestricted { session := s', now := m.now, since := since } := by
  obtain ⟨since, hlife⟩ := h s hm
  exact ⟨_, Lives.call c s' hlife hd trivial hs⟩

theorem known_forSession {f : Session → P Session} (h : Known cfg m)
    (hf : ∀ s s', m.session = some s → Returns s' (f s) →
      ∃ since, Lives cfg Unrestricted { session := s', now := m.now, since := since }) :
    Yields (Known cfg) (forSession m f) := by
  unfold forSession
  cases hm : m.session with
  | none => exact h
  | some s =>
    refine yields_bind (yields_returned (f s)) fun s' hs' => ?_
    rintro _ ⟨⟩
    exact hf s s' hm hs'

theorem known_acceptIfIdle (h : Known cfg m) :
    Yields (Known cfg) (acceptIfIdle (Server.env cfg m) m) := by
  unfold acceptIfIdle
  split
  · exact h
  · refine yields_seq _ fun accepted => ?_
    split
    · exact h
    · refine yields_seq _ fun _ => yields_bind (yields_returned _) ?_
      rintro ⟨s, started⟩ hs
      cases started with
      | false => exact fun s' hs' => by cases hs'
      | true =>
        rintro _ ⟨⟩
        exact ⟨m.now, Lives.started _ m.now s hs⟩

theorem known_accept (h : Known cfg m) :
    Yields (Known cfg) (acceptWhenParserIdle (Server.env cfg m) m) := by
  refine yields_seq _ fun pending => ?_
  split
  · exact h
  · exact known_acceptIfIdle h

/-- A readable socket is a read of some bytes, or of none. -/
theorem readable_read {e : Env} {s s' : Session} {count : ℕ}
    (h : Returns s' (s.onReadable e count)) :
    ∃ data, Returns s' ((Call.read data).program e s) := by
  obtain ⟨⟨s₁, size⟩, hs₁, h⟩ := (returns_bind _ _ _).mp h
  obtain ⟨data, -, h⟩ := (returns_bind _ _ _).mp h
  exact ⟨data, (returns_bind _ _ _).mpr ⟨(s₁, size), hs₁, h⟩⟩

variable [Doubles]

theorem known_sessionEvent {w w' : World} {ready : Session → Bool} {f : Session → P Session}
    {p : P Loop} (h : Known cfg m) (hs : Server.sessionEvent m w ready f = some (p, w'))
    (hf : ∀ s s', m.session = some s → ready s = true → Returns s' (f s) →
      ∃ since, Lives cfg Unrestricted { session := s', now := m.now, since := since }) :
    Yields (Known cfg) p := by
  unfold Server.sessionEvent at hs
  split at hs
  · rename_i hready
    cases hs
    refine known_forSession h fun s s' hm hs' => hf s s' hm ?_ hs'
    rw [hm] at hready
    exact hready
  · cases hs

theorem known_start {ev : Event} {w w' : World} {p : P Loop} (h : Known cfg m)
    (hs : Server.start cfg ev m w = some (p, w')) : Yields (Known cfg) p := by
  cases ev with
  | connection =>
    cases hs
    unfold onConnection
    split
    · exact h
    · exact known_accept h
  | readable count =>
    refine known_sessionEvent h hs fun s s' hm hready hs' => ?_
    obtain ⟨data, hdata⟩ := readable_read hs'
    exact known_call (.read data) h hm hready hdata
  | readError text =>
    exact known_sessionEvent h hs fun s s' hm hready hs' =>
      known_call (.readError text) h hm hready hs'
  | writeDone ok text =>
    refine known_sessionEvent h hs fun s s' hm hready hs' => ?_
    have hpending : 0 < s.socket.pendingWrites := by simpa using hready
    exact known_call (.written ok text) h hm hpending hs'
  | timeout =>
    exact known_sessionEvent h hs fun s s' hm hready hs' =>
      known_call .expired h hm hready hs'
  | closed =>
    simp only [Server.start] at hs
    split at hs
    · cases hs
    · rename_i s hm
      split at hs
      · rename_i hc
        cases hs
        simp only [Bool.and_eq_true, Bool.not_eq_true', decide_eq_true_eq] at hc
        intro s' hs'
        have hnew : s' = { s with finished := true } := by
          simpa [onClosed, hc.1.2, onSessionFinished, eq_comm] using hs'
        have hnow : (onClosed m s).now = m.now := by simp [onClosed, hc.1.2, onSessionFinished]
        rw [hnow, hnew]
        exact known_call .closed h hm ⟨hc.1.1, hc.1.2, hc.2⟩ rfl
      · cases hs
  | reap =>
    simp only [Server.start] at hs
    split at hs
    · cases hs
      unfold onReap
      dsimp only
      split
      · exact h
      · exact known_accept (m := { m with
          reaperActive := false, sessionFinished := false, session := none,
          completedSessions := m.completedSessions + 1 }) fun s hs' => by cases hs'
    · cases hs
  | completion =>
    simp only [Server.start] at hs
    split at hs
    · cases hs
      refine yields_seq _ fun result => known_forSession h fun s s' hm hs' => ?_
      exact known_call (.analysed result) h hm trivial hs'
    · cases hs
  | resume =>
    simp only [Server.start] at hs
    split at hs
    · cases hs
      exact known_forSession h fun s s' hm hs' => known_call .resumed h hm trivial hs'
    · cases hs
  | abortDone =>
    simp only [Server.start] at hs
    split at hs
    · cases hs
      exact known_accept h
    · cases hs
  | tick ms =>
    cases hs
    intro s hm
    obtain ⟨since, hlife⟩ := h s hm
    exact ⟨since, hlife.tick ms⟩

/-- Every session of a run of the server has such a life. -/
theorem session_lives {c : ServerState} (h : Reach (machine cfg) Always serverInitial c)
    (m : Loop) (hm : c.thread = .done m) (s : Session) (hs : m.session = some s) :
    ∃ since, Lives cfg Unrestricted { session := s, now := m.now, since := since } := by
  have hknown : Yields (Known cfg) c.thread := by
    clear hm hs
    induction h with
    | init => exact fun s hs => by cases hs
    | @step c c' a _ _ hstep ih =>
      cases a with
      | start ev =>
        simp only [Interleave.step, stepStart] at hstep
        split at hstep
        · cases hstep
        · rename_i l hl
          obtain ⟨⟨p, w'⟩, hstart, rfl⟩ := Option.map_eq_some_iff.mp hstep
          rw [hl] at ih
          exact known_start ih hstart
      | loop answer =>
        simp only [Interleave.step, stepLoop] at hstep
        split at hstep
        · cases hstep
        · rename_i op k hop
          cases hstep
          rw [hop] at ih
          exact ih _
      | peer d =>
        obtain ⟨w', -, rfl⟩ := Option.map_eq_some_iff.mp hstep
        exact ih
  rw [hm] at hknown
  exact hknown s hs

end LogTransfer
