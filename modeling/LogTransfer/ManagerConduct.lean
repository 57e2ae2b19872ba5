import LogTransfer.SessionConduct

/-!
# The session manager keeps the discipline

`Idle` is the loop thread's state between two callbacks. Every event the loop
can deliver starts a program that keeps the rules and ends in `Idle` again.
-/

set_option autoImplicit false

namespace LogTransfer
open Program
open Session (Stable)

variable {A : Bytes → AnalysisResult → Prop}

def Recorded (g : Ghost) : Prop :=
  g.kept = g.guards.head?.map fun e => Session.recordOf e.1 e.2

def turn (g : Ghost) (m : Loop) : Session.Turn :=
  { taking := g.taking, latest := g.latest, closed := m.sessionFinished }

def Ready (cfg : ServerConfig) (g : Ghost) (m : Loop) : Prop :=
  m.serial = g.latest ∧ Recorded g ∧
    match m.session with
    | none => (g.phase = .vacant ∨ g.phase = .aborted) ∧ m.sessionFinished = false
    | some s => Stable cfg (turn g m) g s

def Idle (cfg : ServerConfig) (g : Ghost) (m : Loop) : Prop :=
  Ready cfg g m ∧ (g.taking ≠ .idle → ∀ p, g.phase ≠ .analyzing p)

theorem idle_none {cfg : ServerConfig} {g : Ghost} {m : Loop} (hser : m.serial = g.latest)
    (hrec : Recorded g) (hn : m.session = none) (hf : m.sessionFinished = false)
    (hp : g.phase = .vacant ∨ g.phase = .aborted) : Idle cfg g m := by
  refine ⟨⟨hser, hrec, ?_⟩, fun _ p h => ?_⟩
  · rw [hn]
    exact ⟨hp, hf⟩
  · rcases hp with hp | hp <;> simp [hp] at h

theorem idle_some {cfg : ServerConfig} {T : Session.Turn} {g : Ghost} {m : Loop} {s : Session}
    (hser : m.serial = g.latest) (hs : m.session = some s) (h : Stable cfg T g s)
    (hT : T.taking ≠ .idle → ∀ p, g.phase ≠ .analyzing p) (hf : m.sessionFinished = T.closed) :
    Idle cfg g m := by
  have ht : T = turn g m := by
    obtain ⟨h1, h2, -⟩ := h.1.2.2.2.2
    cases T
    simp_all [turn]
  refine ⟨⟨hser, h.1.2.2.2.1, ?_⟩, ?_⟩
  · rw [hs, ← ht]
    exact h
  · rwa [ht] at hT

namespace SessionManager

variable {e : Env} {g : Ghost} {m : Loop}

theorem acceptIfIdle_idle (hi : Idle e.toServerConfig g m) (ht : g.taking = .idle)
    (hv : m.session = none → g.phase = .vacant) :
    Safe A (acceptIfIdle e m) g (Idle e.toServerConfig) := by
  unfold acceptIfIdle
  split
  · exact hi
  · rename_i hn
    have hnone : m.session = none := by simpa using hn
    have hser := hi.1.1
    have hrec := hi.1.2.1
    have hfin : m.sessionFinished = false := by
      have hm := hi.1.2.2
      rw [hnone] at hm
      exact hm.2
    refine (keeps_ask_bind _ _ _ _ _ _).mpr ⟨trivial, fun accepted _ => ?_⟩
    cases accepted with
    | false => exact hi
    | true =>
      refine (keeps_ask_bind _ _ _ _ _ _).mpr
        ⟨⟨hv hnone, congrArg (· + 1) hser⟩, fun _ _ => ?_⟩
      refine keeps_seq _ _ _ _ _ (Session.start_stable rfl rfl rfl rfl hrec) ?_
      rintro g₁ ⟨s₁, started⟩ h₁
      cases started with
      | true => exact idle_some h₁.1.symm rfl h₁.2 (fun h => absurd ht h) hfin
      | false => exact idle_none h₁.1.symm h₁.2.2 rfl hfin (.inr h₁.2.1)

/-- Seeing no pending abort turns an aborted session's phase into `vacant`; the
session itself, if it still waits for the reap, is closed either way. -/
theorem abortPending_idle {cfg : ServerConfig} (hi : Idle cfg g m) :
    Idle cfg (g.next .abortPending false) m := by
  by_cases hp : g.phase = .aborted
  · simp only [Ghost.next, hp, Ghost.seen]
    refine ⟨⟨hi.1.1, hi.1.2.1, ?_⟩, by simp⟩
    have hm := hi.1.2.2
    split at hm
    · exact ⟨.inl rfl, hm.2⟩
    · refine ⟨hm.1, ?_⟩
      rcases hm.2 with hc | hc | hc
      · exact .inl ⟨hc.1, .inr rfl, hc.2.2⟩
      · exact absurd hp (Session.live_receiving hc.2.2.1).2
      · exact absurd hp (Session.working_live hc.2.2).2
  · have hsame : Ghost.seen false g.phase = g.phase := by
      cases h : g.phase <;> simp_all [Ghost.seen]
    simp only [Ghost.next, hsame]
    exact hi

theorem seen_vacant (pending : Phase) (h : pending = .vacant ∨ pending = .aborted) :
    Ghost.seen false pending = .vacant := by
  rcases h with rfl | rfl <;> rfl

theorem acceptWhenParserIdle_idle (hi : Idle e.toServerConfig g m) (ht : g.taking = .idle) :
    Safe A (acceptWhenParserIdle e m) g (Idle e.toServerConfig) := by
  refine (keeps_ask_bind _ _ _ _ _ _).mpr ⟨ht, fun pending _ => ?_⟩
  cases pending with
  | true =>
    have hsame : Ghost.seen true g.phase = g.phase := by
      cases g.phase <;> rfl
    simp only [Ghost.next, hsame]
    exact hi
  | false =>
    refine acceptIfIdle_idle (abortPending_idle hi) ht fun hn => ?_
    have hm := hi.1.2.2
    rw [hn] at hm
    exact seen_vacant _ hm.1

theorem forSession_idle {f : Session → P Session} (hi : Ready e.toServerConfig g m)
    (hf : ∀ s, Stable e.toServerConfig (turn g m) g s →
      Safe A (f s) g (fun g' s => Stable e.toServerConfig (turn g m) g' s ∧
        (g.taking ≠ .idle → ∀ p, g'.phase ≠ .analyzing p))) :
    Safe A (forSession m f) g (Idle e.toServerConfig) := by
  obtain ⟨hser, hrec, hm⟩ := hi
  unfold forSession
  split
  · rename_i hn
    rw [hn] at hm
    exact idle_none hser hrec hn hm.2 hm.1
  · rename_i s hs
    rw [hs] at hm
    refine keeps_seq _ _ _ _ _ (hf s hm) ?_
    rintro g' s' ⟨hs', hT⟩
    have hl : g'.latest = g.latest := hs'.1.2.2.2.2.2.1
    exact idle_some (hser.trans hl.symm) rfl hs' hT rfl

theorem forSession_quiet {f : Session → P Session} (hi : Idle e.toServerConfig g m)
    (ht : g.taking = .idle)
    (hf : ∀ s, Stable e.toServerConfig (turn g m) g s →
      Safe A (f s) g (Stable e.toServerConfig (turn g m))) :
    Safe A (forSession m f) g (Idle e.toServerConfig) :=
  forSession_idle hi.1 fun s hs => keeps_mono _ _ _ _ (fun _ _ h => ⟨h, fun hn => absurd ht hn⟩)
    (hf s hs)

theorem onConnection_idle (hi : Idle e.toServerConfig g m) (ht : g.taking = .idle) :
    Safe A (onConnection e m) g (Idle e.toServerConfig) := by
  unfold onConnection
  split
  · exact hi
  · exact acceptWhenParserIdle_idle hi ht

/-- Only a closed session is reaped. -/
theorem onReap_idle (hi : Idle e.toServerConfig g m) (ht : g.taking = .idle) :
    Safe A (onReap e m) g (Idle e.toServerConfig) := by
  unfold onReap
  dsimp only
  split
  · exact hi
  · rename_i hfin
    have hfin : m.sessionFinished = true := by simpa using hfin
    refine acceptWhenParserIdle_idle (idle_none hi.1.1 hi.1.2.1 rfl rfl ?_) ht
    have hm := hi.1.2.2
    split at hm
    · exact hm.1
    · have hcl := hm.1.2.2.2.2.2.2 hfin
      rcases hm.2 with h | h | h
      · exact h.2.1.symm
      · simp [h.1.1] at hcl
      · simp [h.1.1] at hcl

theorem onClosed_idle {cfg : ServerConfig} {s : Session} (hi : Idle cfg g m)
    (hs : m.session = some s) (hc : s.socket.closing = true) : Idle cfg g (onClosed m s) := by
  unfold onClosed
  split
  · exact hi
  · have hm := hi.1.2.2
    rw [hs] at hm
    obtain ⟨⟨h1, h2, h3, h4, h5, h6, -⟩, hst⟩ := hm
    have hcl : s.cleanupStarted = true ∧ Session.Closed g.phase s := by
      rcases hst with h | h | h
      · exact h
      · simp [h.1.2] at hc
      · simp [h.1.2] at hc
    exact ⟨⟨hi.1.1, hi.1.2.1, ⟨h1, h2, h3, h4, h5, h6, fun _ => hcl.1⟩, .inl hcl⟩, hi.2⟩

theorem onCompletionAsync_idle (hi : Ready e.toServerConfig g m) (ht : g.taking = .started) :
    Safe A (onCompletionAsync e m) g (Idle e.toServerConfig) := by
  refine (keeps_ask_bind _ _ _ _ _ _).mpr ⟨ht, fun result hA => ?_⟩
  have hi' : Ready e.toServerConfig { g with taking := .took } m := by
    refine ⟨hi.1, hi.2.1, ?_⟩
    have hm := hi.2.2
    split at hm
    · exact hm
    · obtain ⟨⟨h1, h2, h3, h4, -, h6, h7⟩, hst⟩ := hm
      exact ⟨⟨h1, h2, h3, h4, rfl, h6, h7⟩, hst⟩
  refine forSession_idle hi' fun s hs => ?_
  exact keeps_mono _ _ _ _ (fun _ _ h => ⟨h.1, fun _ => h.2⟩)
    (Session.onAnalysisComplete_stable result hs rfl hA)

end SessionManager

namespace Server
open SessionManager

variable [Doubles] {cfg : ServerConfig} {g : Ghost} {m : Loop}

omit [Doubles] in
theorem ready_begin (ev : Event) (hi : Idle cfg g m) : Ready cfg (g.begin ev) m := by
  refine ⟨hi.1.1, hi.1.2.1, ?_⟩
  have hm := hi.1.2.2
  split at hm
  · exact hm
  · obtain ⟨⟨h1, h2, h3, h4, -, h6, h7⟩, hst⟩ := hm
    exact ⟨⟨h1, h2, h3, h4, rfl, h6, h7⟩, hst⟩

omit [Doubles] in
theorem idle_begin {ev : Event} (hne : ev ≠ .completion) (hi : Idle cfg g m) :
    Idle cfg (g.begin ev) m ∧ (g.begin ev).taking = .idle := by
  have ht : (g.begin ev).taking = .idle := by simp [Ghost.begin, hne]
  exact ⟨⟨ready_begin ev hi, fun h => absurd ht h⟩, ht⟩

theorem sessionEvent_idle {ev : Event} {w w' : World} {ready : Session → Bool}
    {f : Session → P Session} {p : P Loop} (hne : ev ≠ .completion) (hi : Idle cfg g m)
    (h : sessionEvent m w ready f = some (p, w'))
    (hf : ∀ T g s, Stable cfg T g s → Safe A (f s) g (Stable cfg T)) :
    Safe A p (g.begin ev) (Idle cfg) := by
  unfold sessionEvent at h
  split at h
  · cases h
    obtain ⟨hi', ht⟩ := idle_begin hne hi
    exact forSession_quiet (e := env cfg m) hi' ht fun s hs => hf _ _ s hs
  · cases h

theorem start_idle {ev : Event} {w w' : World} {p : P Loop} (hi : Idle cfg g m)
    (h : start cfg ev m w = some (p, w')) : Safe A p (g.begin ev) (Idle cfg) := by
  cases ev with
  | connection =>
    cases h
    obtain ⟨hi', ht⟩ := idle_begin (by simp : Event.connection ≠ .completion) hi
    exact onConnection_idle (e := env cfg m) hi' ht
  | readable count =>
    exact sessionEvent_idle (by simp) hi h fun T g s hs =>
      Session.onReadable_stable (e := env cfg m) count hs
  | readError text =>
    exact sessionEvent_idle (by simp) hi h fun T g s hs => Session.stable_cleanup text hs
  | writeDone ok text =>
    exact sessionEvent_idle (by simp) hi h fun T g s hs =>
      Session.onWrite_stable (e := env cfg m) ok text hs
  | timeout =>
    exact sessionEvent_idle (by simp) hi h fun T g s hs =>
      Session.expire_stable (e := env cfg m) hs
  | closed =>
    simp only [start] at h
    split at h
    · cases h
    · rename_i s hs
      split at h
      · rename_i hg
        cases h
        simp only [Bool.and_eq_true] at hg
        exact onClosed_idle (idle_begin (by simp) hi).1 hs hg.1.1
      · cases h
  | reap =>
    simp only [start] at h
    split at h
    · cases h
      obtain ⟨hi', ht⟩ := idle_begin (by simp : Event.reap ≠ .completion) hi
      exact onReap_idle (e := env cfg m) hi' ht
    · cases h
  | completion =>
    simp only [start] at h
    split at h
    · cases h
      exact onCompletionAsync_idle (ready_begin _ hi) (by simp [Ghost.begin])
    · cases h
  | resume =>
    simp only [start] at h
    split at h
    · cases h
      obtain ⟨hi', ht⟩ := idle_begin (by simp : Event.resume ≠ .completion) hi
      exact forSession_quiet (e := env cfg m) hi' ht fun s hs => Session.stable_resumeReading hs
    · cases h
  | abortDone =>
    simp only [start] at h
    split at h
    · cases h
      obtain ⟨hi', ht⟩ := idle_begin (by simp : Event.abortDone ≠ .completion) hi
      exact acceptWhenParserIdle_idle (e := env cfg m) hi' ht
    · cases h
  | tick ms =>
    cases h
    exact (idle_begin (by simp) hi).1

/-- What an event changes outside the loop thread: a delivered wake-up loses
its flag, a connection joins the backlog. -/
def Delivers (ev : Event) (w w' : World) : Prop :=
  w'.retained = w.retained ∧ w'.inbox = w.inbox ∧
    (if ev = .completion then
      w.parser.completionPending = true ∧ w'.parser = { w.parser with completionPending := false }
    else ∃ r a, w'.parser = { w.parser with resumePending := r, abortDonePending := a })

theorem sessionEvent_world {w w' : World} {ready : Session → Bool} {f : Session → P Session}
    {p : P Loop} (h : sessionEvent m w ready f = some (p, w')) : w' = w := by
  unfold sessionEvent at h
  split at h
  · cases h
    rfl
  · cases h

theorem delivers_refl {ev : Event} (hne : ev ≠ .completion) (w : World) : Delivers ev w w := by
  refine ⟨rfl, rfl, ?_⟩
  rw [if_neg hne]
  exact ⟨_, _, rfl⟩

theorem start_delivers {ev : Event} {w w' : World} {p : P Loop}
    (h : start cfg ev m w = some (p, w')) : Delivers ev w w' := by
  cases ev with
  | connection =>
    cases h
    exact delivers_refl (by simp) w
  | readable count =>
    rw [sessionEvent_world h]
    exact delivers_refl (by simp) w
  | readError text =>
    rw [sessionEvent_world h]
    exact delivers_refl (by simp) w
  | writeDone ok text =>
    rw [sessionEvent_world h]
    exact delivers_refl (by simp) w
  | timeout =>
    rw [sessionEvent_world h]
    exact delivers_refl (by simp) w
  | closed =>
    simp only [start] at h
    split at h
    · cases h
    · split at h
      · cases h
        exact delivers_refl (by simp) w
      · cases h
  | reap =>
    simp only [start] at h
    split at h
    · cases h
      exact delivers_refl (by simp) w
    · cases h
  | completion =>
    simp only [start] at h
    split at h
    · rename_i hc
      cases h
      exact ⟨rfl, rfl, hc, rfl⟩
    · cases h
  | resume =>
    simp only [start] at h
    split at h
    · cases h
      exact ⟨rfl, rfl, _, _, rfl⟩
    · cases h
  | abortDone =>
    simp only [start] at h
    split at h
    · cases h
      exact ⟨rfl, rfl, _, _, rfl⟩
    · cases h
  | tick ms =>
    cases h
    exact delivers_refl (by simp) w

end Server

theorem idle_initial (cfg : ServerConfig) : Idle cfg Ghost.initial SessionManager.initial :=
  idle_none rfl rfl rfl rfl (.inl rfl)

end LogTransfer
