import LogTransfer.SessionScope
import LogTransfer.ManagerConduct

/-!
# No stranded connection

`Gate` follows the accept gate: whether a session object exists, whether its
socket has closed, and whether the callback in progress is still to look at the
backlog. A connection that waits with no session is either looked at by the
callback in progress or by the one which the parser's discard will start.
-/

set_option autoImplicit false

namespace LogTransfer
open Program Interleave

structure Gate where
  session : Bool
  finished : Bool
  reaping : Bool
  starting : Bool
  accepting : Bool
  deriving DecidableEq, Repr

namespace Gate

def initial : Gate :=
  { session := false, finished := false, reaping := false, starting := false,
    accepting := false }

def next (g : Gate) : (op : Op) → Ans op → Gate
  | .abortPending, pending => { g with accepting := g.accepting && !pending }
  | .acceptPending, accepted => { g with accepting := g.accepting && accepted }
  | .construct _, _ => { g with session := true, starting := true, accepting := false }
  | .beginSession, _ => { g with starting := false }
  | .abortSession _, _ => { g with session := g.session && !g.starting, starting := false }
  | _, _ => g

def begin (e : Event) (g : Gate) : Gate :=
  match e with
  | .connection | .abortDone => { g with accepting := !g.session }
  | .closed => { g with finished := true, reaping := true }
  | .reap =>
    { g with session := g.session && !g.finished, finished := false, reaping := false,
             accepting := g.finished }
  | _ => g

/-- While a callback is still to look at the backlog, it does nothing else. -/
def rules : Rules Op Ans Gate where
  may g op := g.accepting = true →
    op = .abortPending ∨ op = .acceptPending ∨ ∃ id, op = .construct id
  answers _ _ _ := True

/-- The manager's fields as the gate knows them. -/
def Matches (g : Gate) (m : Loop) : Prop :=
  g.session = m.session.isSome ∧ g.finished = m.sessionFinished ∧ g.reaping = m.reaperActive ∧
    g.starting = false

def Idle (g : Gate) (m : Loop) : Prop := g.Matches m ∧ g.accepting = false

/-- The gate has been told to look. -/
def Asked (g : Gate) (m : Loop) : Prop := g.Matches m ∧ g.accepting = !g.session

end Gate

namespace Gate

variable {e : Env} {g : Gate} {m : Loop}

abbrev Passes {α : Type} (p : P α) (g : Gate) (Q : Gate → α → Prop) : Prop :=
  Keeps next rules p g Q

theorem passes_inSession {α : Type} {p : P α} (hp : Only Op.inSession p)
    (hs : g.starting = false) (ha : g.accepting = false) : Passes p g (fun g' _ => g' = g) := by
  refine keeps_only (fun op a hop => ?_) (fun op _ h => ?_) hp
  · cases op with
    | abortSession id =>
      cases g
      simp_all [next]
    | abortPending => exact hop.elim
    | acceptPending => exact hop.elim
    | construct id => exact hop.elim
    | beginSession => exact hop.elim
    | _ => rfl
  · simp [ha] at h

/-- A session that cannot start is gone at once; its discard is then pending. -/
theorem passes_start (s : Session) (hs : s.socket.closing = false)
    (hc : s.cleanupStarted = false) (hst : g.starting = true) (hg : g.session = true)
    (ha : g.accepting = false) :
    Passes (Session.start e s) g
      (fun g' r => g' = { g with starting := false, session := r.2 }) := by
  have hmay : ∀ op, (rules.may g op) := fun op h => by simp [ha] at h
  refine keeps_seq _ _ _ _ _
    (Q := fun g' r => g' = g ∧ r.1.cleanupStarted = false) ?_ ?_
  · unfold Session.startRead
    rw [if_neg (by simp [hs])]
    split
    · exact ⟨rfl, hc⟩
    · exact ⟨hmay _, fun _ _ => ⟨rfl, hc⟩⟩
  · rintro g' ⟨s', ok⟩ ⟨rfl, hc'⟩
    cases ok with
    | false =>
      refine keeps_seq _ _ _ _ _
        (Q := fun g'' _ => g'' = { g' with starting := false, session := false }) ?_ ?_
      · unfold Session.cleanup
        rw [if_neg (by simpa using hc')]
        refine ⟨hmay _, fun _ _ => ?_⟩
        change g'.next (.abortSession s'.id) () = _
        simp [next, hst]
      · rintro _ _ rfl
        rfl
    | true =>
      refine ⟨hmay _, fun _ _ => ?_⟩
      change g'.next .beginSession () = _
      simp [next, hg]

theorem passes_acceptWhenParserIdle (h : Asked g m) :
    Passes (SessionManager.acceptWhenParserIdle e m) g Idle := by
  obtain ⟨⟨hs, hf, hr, hst⟩, ha⟩ := h
  refine (keeps_ask_bind _ _ _ _ _ _).mpr ⟨fun _ => .inl rfl, fun pending _ => ?_⟩
  cases pending with
  | true => exact ⟨⟨hs, hf, hr, hst⟩, by simp [next]⟩
  | false =>
    simp only [next, Bool.not_false, Bool.and_true, Bool.false_eq_true, if_false]
    unfold SessionManager.acceptIfIdle
    split
    · rename_i hsome
      exact ⟨⟨hs, hf, hr, hst⟩, by simp [ha, hs, hsome]⟩
    · rename_i hnone
      refine (keeps_ask_bind _ _ _ _ _ _).mpr ⟨fun _ => .inr (.inl rfl), fun accepted _ => ?_⟩
      cases accepted with
      | false => exact ⟨⟨hs, hf, hr, hst⟩, by simp [next]⟩
      | true =>
        refine (keeps_ask_bind _ _ _ _ _ _).mpr ⟨fun _ => .inr (.inr ⟨_, rfl⟩), fun _ _ => ?_⟩
        refine keeps_seq _ _ _ _ _ (passes_start _ rfl rfl rfl rfl rfl) ?_
        rintro g' ⟨s', started⟩ rfl
        refine ⟨⟨?_, hf, hr, rfl⟩, rfl⟩
        cases started <;> rfl

theorem passes_forSession {f : Session → P Session} (hf : ∀ s, Only Op.inSession (f s))
    (h : Idle g m) : Passes (SessionManager.forSession m f) g Idle := by
  unfold SessionManager.forSession
  split
  · exact h
  · rename_i s hs
    obtain ⟨⟨hse, hrest⟩, ha⟩ := h
    refine keeps_seq _ _ _ _ _ (passes_inSession (hf s) hrest.2.2 ha) ?_
    rintro g' s' rfl
    exact ⟨⟨hse.trans (by rw [hs]; rfl), hrest⟩, ha⟩

theorem passes_onReap (h : Idle g m) :
    Passes (SessionManager.onReap e m) (g.begin .reap) Idle := by
  obtain ⟨⟨hs, hf, -, hst⟩, -⟩ := h
  unfold SessionManager.onReap
  dsimp only
  split
  · rename_i hfin
    have hfin' : m.sessionFinished = false := by simpa using hfin
    have hg : g.finished = false := hf.trans hfin'
    refine ⟨⟨?_, ?_, rfl, hst⟩, hg⟩
    · simpa [begin, hg] using hs
    · simp [begin, hfin']
  · rename_i hfin
    have hg : g.finished = true := hf.trans (by simpa using hfin)
    refine passes_acceptWhenParserIdle ⟨⟨?_, rfl, rfl, hst⟩, ?_⟩
    · simp [begin, hg]
    · simp [begin, hg]

theorem reaping_next (g : Gate) (op : Op) (a : Ans op) :
    (g.next op a).finished = g.finished ∧ (g.next op a).reaping = g.reaping := by
  cases op <;> exact ⟨rfl, rfl⟩

theorem reaping_begin (g : Gate) (ev : Event) (h : g.finished = true → g.reaping = true) :
    (g.begin ev).finished = true → (g.begin ev).reaping = true := by
  cases ev with
  | closed => exact fun _ => rfl
  | reap => exact fun hf => by cases hf
  | _ => exact h

theorem asked_begin {ev : Event} (h : Idle g m) (hev : ev = .connection ∨ ev = .abortDone) :
    Asked (g.begin ev) m := by
  rcases hev with rfl | rfl <;> exact ⟨h.1, rfl⟩

end Gate

section Gate

variable [Doubles]

/-- The abort branch of the parser has not come to its end. -/
def ParserThread.AbortUnfinished (t : ParserThread) : Prop :=
  t.abortRequested = true ∨ t.pc = .sendAbortDone

def Attended (g : Gate) (w : World) : Prop :=
  0 < w.backlog → g.session = false → g.accepting = false →
    w.parser.AbortUnfinished ∨ w.parser.abortDonePending = true

def Guarded (g : Gate) (w : World) : Prop :=
  Attended g w ∧ (g.finished = true → g.reaping = true)

def gateMachine (cfg : ServerConfig) : Machine Op Ans World Loop Event Peer Gate where
  exec := World.exec cfg
  start := Server.start cfg
  peer := Server.peer
  next := Gate.next
  begin := Gate.begin

/-- `uv_accept` hands over a connection that waits. -/
def AcceptSucceeds (_ : Gate) (_ : World) (op : Op) (answer : Bool) : Prop :=
  op = .acceptPending → answer = true

def gateLimits : Limits Op World Loop Event Peer Gate :=
  { (Always : Limits Op World Loop Event Peer Gate) with op := AcceptSucceeds }

theorem attended_op (cfg : ServerConfig) (g : Gate) (w : World) (op : Op) (b : Bool)
    (h : Attended g w) (hok : AcceptSucceeds g w op b) :
    Attended (g.next op (World.exec cfg op b w).1) (World.exec cfg op b w).2 := by
  cases op with
  | abortPending =>
    intro hb hs ha
    simp only [Gate.next, World.exec] at hb hs ha ⊢
    cases hp : w.parser.abortRequested with
    | true => exact .inl (.inl hp)
    | false => exact h hb hs (by simpa [hp] using ha)
  | acceptPending =>
    have hb : b = true := hok rfl
    intro hback hs ha
    simp only [World.exec, hb, Bool.true_and] at hback ha ⊢
    by_cases hw : 0 < w.backlog
    · simp only [hw, decide_true, if_true, Gate.next, Bool.and_true] at ha ⊢
      exact h hw hs ha
    · simp [hw] at hback
  | construct id =>
    intro _ hs
    simp [Gate.next] at hs
  | abortSession id =>
    intro _ _ _
    exact .inl (.inl rfl)
  | _ => exact h

theorem unfinished_step {t t' : ParserThread} (hs : t.parserStep = some t')
    (h : t.AbortUnfinished ∨ t.abortDonePending = true) :
    t'.AbortUnfinished ∨ t'.abortDonePending = true := by
  cases ParserThread.step_of_parserStep hs with
  | clearAbort hpc => exact .inl (.inr rfl)
  | sendAbortDone hpc => exact .inr rfl
  | move pc he =>
    rcases h with (h | h) | h
    · exact .inl (.inl h)
    · cases he <;> simp_all
    · exact .inr h
  | _ =>
    rcases h with (h | h) | h
    · exact .inl (.inl h)
    · simp_all
    · exact .inr h

theorem start_gate {cfg : ServerConfig} {g : Gate} {m : Loop} {ev : Event} {w w' : World}
    {p : P Loop} (hi : g.Idle m) (h : Server.start cfg ev m w = some (p, w')) :
    Gate.Passes p (g.begin ev) Gate.Idle := by
  have hsession : ∀ (ready : Session → Bool) (f : Session → P Session),
      (∀ s, Only Op.inSession (f s)) → g.begin ev = g →
      Server.sessionEvent m w ready f = some (p, w') → Gate.Passes p (g.begin ev) Gate.Idle := by
    intro ready f hf hb hev
    unfold Server.sessionEvent at hev
    split at hev
    · cases hev
      rw [hb]
      exact Gate.passes_forSession hf hi
    · cases hev
  cases ev with
  | connection =>
    cases h
    unfold SessionManager.onConnection
    split
    · rename_i hsome
      exact ⟨hi.1, by simp [Gate.begin, hi.1.1, hsome]⟩
    · exact Gate.passes_acceptWhenParserIdle (Gate.asked_begin hi (.inl rfl))
  | readable count => exact hsession _ _ (Session.onReadable_inSession _ · _) rfl h
  | readError text => exact hsession _ _ (Session.cleanup_inSession · _) rfl h
  | writeDone ok text => exact hsession _ _ (Session.onWrite_inSession _ · _ _) rfl h
  | timeout => exact hsession _ _ (fun s => Session.cleanup_inSession _ _) rfl h
  | closed =>
    simp only [Server.start] at h
    split at h
    · cases h
    · rename_i s hs
      split at h
      · rename_i hg
        cases h
        obtain ⟨⟨hse, -, -, hst⟩, ha⟩ := hi
        have hfin : s.finished = false := by
          simp only [Bool.and_eq_true, Bool.not_eq_true'] at hg
          exact hg.1.2
        unfold SessionManager.onClosed
        rw [if_neg (by simp [hfin])]
        exact ⟨⟨hse.trans (by rw [hs]; rfl), rfl, rfl, hst⟩, ha⟩
      · cases h
  | reap =>
    simp only [Server.start] at h
    split at h
    · cases h
      exact Gate.passes_onReap hi
    · cases h
  | completion =>
    simp only [Server.start] at h
    split at h
    · cases h
      refine (keeps_ask_bind _ _ _ _ _ _).mpr ⟨fun ha => ?_, fun result _ => ?_⟩
      · simp [Gate.begin, hi.2] at ha
      · exact Gate.passes_forSession (Session.onAnalysisComplete_inSession _ · _) hi
    · cases h
  | resume =>
    simp only [Server.start] at h
    split at h
    · cases h
      exact Gate.passes_forSession Session.resumeReading_inSession hi
    · cases h
  | abortDone =>
    simp only [Server.start] at h
    split at h
    · cases h
      exact Gate.passes_acceptWhenParserIdle (Gate.asked_begin hi (.inr rfl))
    · cases h
  | tick ms =>
    cases h
    exact hi

theorem attended_begin {cfg : ServerConfig} {g : Gate} {m : Loop} {ev : Event} {w w' : World}
    {p : P Loop} (hi : g.Idle m) (hj : Attended g w)
    (h : Server.start cfg ev m w = some (p, w')) : Attended (g.begin ev) w' := by
  have hkeep : ∀ (ready : Session → Bool) (f : Session → P Session), g.begin ev = g →
      Server.sessionEvent m w ready f = some (p, w') → Attended (g.begin ev) w' := by
    intro ready f hb hev
    rw [hb, Server.sessionEvent_world hev]
    exact hj
  have hlook : (g.begin ev).accepting = !(g.begin ev).session → Attended (g.begin ev) w' := by
    intro ha _ hs ha'
    simp [ha', hs] at ha
  cases ev with
  | connection => exact hlook rfl
  | readable count => exact hkeep _ _ rfl h
  | readError text => exact hkeep _ _ rfl h
  | writeDone ok text => exact hkeep _ _ rfl h
  | timeout => exact hkeep _ _ rfl h
  | closed =>
    simp only [Server.start] at h
    split at h
    · cases h
    · split at h
      · cases h
        exact hj
      · cases h
  | reap =>
    simp only [Server.start] at h
    split at h
    · cases h
      intro hb hs ha
      have hf : g.finished = false := ha
      exact hj hb (by simpa [Gate.begin, hf] using hs) hi.2
    · cases h
  | completion =>
    simp only [Server.start] at h
    split at h
    · cases h
      exact hj
    · cases h
  | resume =>
    simp only [Server.start] at h
    split at h
    · cases h
      exact hj
    · cases h
  | abortDone => exact hlook rfl
  | tick ms =>
    cases h
    exact hj

theorem attended_peer {g : Gate} {w w' : World} {d : Peer} (h : Attended g w)
    (hp : Server.peer d w = some w') : Attended g w' := by
  cases d with
  | parser =>
    obtain ⟨t, ht, rfl⟩ := Option.map_eq_some_iff.mp hp
    exact fun hb hs ha => unfinished_step ht (h hb hs ha)
  | arrive bytes =>
    cases hp
    exact h

theorem gate_discipline (cfg : ServerConfig) :
    Discipline (gateMachine cfg) Gate.rules gateLimits Guarded Gate.Idle where
  start := by
    intro g w m ev p w' hi hj _ hs
    exact ⟨start_gate hi hs, attended_begin hi hj.1 hs, Gate.reaping_begin g ev hj.2⟩
  op := by
    intro g w op b hj _ hok
    refine ⟨trivial, attended_op cfg g w op b hj.1 hok, ?_⟩
    change (g.next op _).finished = true → (g.next op _).reaping = true
    rw [(Gate.reaping_next g op _).1, (Gate.reaping_next g op _).2]
    exact hj.2
  peer := by
    intro g w d w' hj _ hp
    exact ⟨attended_peer hj.1 hp, hj.2⟩

abbrev GateState := Config Op Ans World Loop Gate

def gateInitial : GateState :=
  { shared := World.initial, ghost := Gate.initial, thread := .done SessionManager.initial }

theorem gate_reach {cfg : ServerConfig} {c : GateState}
    (h : Reach (gateMachine cfg) gateLimits gateInitial c) :
    Held (gateMachine cfg) Gate.rules Guarded Gate.Idle c := by
  have hstart : Held (gateMachine cfg) Gate.rules Guarded Gate.Idle gateInitial := by
    refine ⟨⟨⟨rfl, rfl, rfl, rfl⟩, rfl⟩, fun hb => ?_, fun hf => by cases hf⟩
    exact absurd hb (Nat.lt_irrefl 0)
  exact reach_held _ (gate_discipline cfg) hstart h

/-- The step in progress is the gate in front of `acceptIfIdle`, or that
function itself. -/
def AboutToAccept (c : GateState) : Prop :=
  c.pending = some .abortPending ∨ c.pending = some .acceptPending ∨
    ∃ id, c.pending = some (.construct id)

theorem accepting_pending {cfg : ServerConfig} {c : GateState}
    (h : Held (gateMachine cfg) Gate.rules Guarded Gate.Idle c)
    (ha : c.ghost.accepting = true) : AboutToAccept c := by
  cases ht : c.thread with
  | done m =>
    have hi := h.1
    rw [ht] at hi
    have hz : c.ghost.accepting = false := hi.2
    simp [ha] at hz
  | call op k =>
    have hp : c.pending = some op := by simp [Config.pending, ht]
    have hm : Gate.rules.may c.ghost op := held_pending (gateMachine cfg) h hp
    unfold AboutToAccept
    rw [hp]
    rcases hm ha with rfl | rfl | ⟨id, rfl⟩
    · exact .inl rfl
    · exact .inr (.inl rfl)
    · exact .inr (.inr ⟨id, rfl⟩)

/-- A connection that waits while there is no session is taken up by the step
in progress, or the parser's discard still owes the wake-up that will. A
session whose socket has closed has its reap pending. -/
theorem no_stranded_connection (cfg : ServerConfig) (c : GateState)
    (h : Reach (gateMachine cfg) gateLimits gateInitial c) :
    (0 < c.shared.backlog → c.ghost.session = false →
      c.shared.parser.AbortUnfinished ∨ c.shared.parser.abortDonePending = true ∨
        AboutToAccept c) ∧
      (c.ghost.finished = true → c.ghost.reaping = true) ∧
      ∀ m, c.thread = .done m → c.ghost.session = m.session.isSome ∧
        c.ghost.finished = m.sessionFinished ∧ c.ghost.reaping = m.reaperActive := by
  have held := gate_reach h
  refine ⟨fun hb hs => ?_, held.2.2, fun m hm => ?_⟩
  · cases ha : c.ghost.accepting with
    | true => exact .inr (.inr (accepting_pending held ha))
    | false =>
      rcases held.2.1 hb hs ha with hp | hp
      · exact .inl hp
      · exact .inr (.inl hp)
  · have hi := held.1
    rw [hm] at hi
    exact ⟨hi.1.1, hi.1.2.1, hi.1.2.2.1⟩

/-- A client waits behind a session that breaks off. -/
def secondWaiting : List (Act Event Peer) :=
  callback .connection 5 ++ callback .connection 0 ++ callback (.readError "reset") 1 ++
    callback .closed 0 ++ callback .reap 1

def succeeding (_ : GateState) : Act Event Peer → Bool
  | .loop answer => answer
  | _ => true

theorem succeeding_allowed (c : GateState) (a : Act Event Peer) (h : succeeding c a = true) :
    Allowed gateLimits c a := by
  cases a with
  | loop b =>
    simp only [Allowed]
    split
    · trivial
    · exact fun _ => h
  | start ev =>
    simp only [Allowed]
    split <;> trivial
  | peer d => trivial

omit [Doubles] in
theorem second_client_attended :
    letI := wholeDoubles
    ∃ c : GateState, Reach (gateMachine defaultConfig) gateLimits gateInitial c ∧
      0 < c.shared.backlog ∧ c.ghost.session = false ∧
      (c.shared.parser.AbortUnfinished ∨ c.shared.parser.abortDonePending = true ∨
        AboutToAccept c) := by
  let _ := wholeDoubles
  have hrun : (run (gateMachine defaultConfig) succeeding gateInitial secondWaiting).map
      (fun c => (c.shared.backlog, c.ghost.session)) = some (1, false) := by
    decide
  obtain ⟨c, hc, hp⟩ := Option.map_eq_some_iff.mp hrun
  have hr := run_reach (gateMachine defaultConfig) succeeding_allowed secondWaiting _ _ hc
  simp only [Prod.mk.injEq] at hp
  have hb : 0 < c.shared.backlog := by omega
  exact ⟨c, hr, hb, hp.2, (no_stranded_connection defaultConfig c hr).1 hb hp.2⟩

end Gate

end LogTransfer
