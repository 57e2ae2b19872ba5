import LogTransfer.LoopHandle
import Mathlib.Data.List.Basic

/-!
# Handles of the server

Every handle of the loop has an owner that closes it, or leaves it to its close
callback. Sessions come and go; a signal shuts everything down, and the loop
returns when all handles are closed.
-/

set_option autoImplicit false

namespace LogTransfer.ServerLoop
open LoopHandle

section Source

/-- What a `Session` owns; `closing` is the socket's flag. -/
structure SessionHandles where
  socket : Life
  closing : Bool
  timer : Life
  deriving DecidableEq, Repr

/-- `orphans` are the handles whose owner is gone and whose memory is not. -/
structure World where
  sigterm : Static
  sigint : Static
  listener : Life
  listenerClosing : Bool
  session : Option SessionHandles
  parser : List Life
  reaper : Option Life
  reaping : Bool
  sessionFinished : Bool
  pruneTimer : Option Life
  managerClosing : Bool
  shuttingDown : Bool
  orphans : List Life
  deriving DecidableEq, Repr

/-- The outcomes of `uv_tcp_init`, `uv_accept`, `uv_timer_init` and `startRead`. -/
structure Answers where
  socket : Bool
  accepted : Bool
  timer : Bool
  reading : Bool
  deriving DecidableEq, Repr

namespace World

/-- After `init`; there is a prune timer when the log goes to a file. -/
def ready (toFile : Bool) : World :=
  { sigterm := ⟨false, false⟩, sigint := ⟨false, false⟩, listener := .init true,
    listenerClosing := false, session := none,
    parser := [.init true, .init true, .init true], reaper := some (.init true),
    reaping := false, sessionFinished := false,
    pruneTimer := if toFile then some (.init true) else none, managerClosing := false,
    shuttingDown := false, orphans := [] }

variable (w : World)

/-- A destructor. -/
def abandon (l : Life) : Except Fault World := do
  let orphans ← LoopHandle.abandon w.orphans l
  pure { w with orphans := orphans }

def abandonAll : List Life → World → Except Fault World
  | [], w => .ok w
  | l::rest, w => do
    let w ← w.abandon l
    abandonAll rest w

/-- `_session.reset()`. -/
def resetSession : Except Fault World :=
  match w.session with
  | none => .ok w
  | some s => do
    let w ← { w with session := none }.abandon s.timer
    w.abandon s.socket

/-- What `cleanup` does to the handles: the socket closes, once. -/
def cleanup : Except Fault World :=
  match w.session with
  | none => .ok w
  | some s =>
    if !s.socket.held || s.closing then .ok w
    else do
      let socket ← s.socket.close
      pure { w with session := some { s with socket := socket, closing := true } }

/-- `acceptIfIdle` with `acceptPending` and the start of the session. -/
def acceptIfIdle (a : Answers) : Except Fault World :=
  if w.managerClosing || w.session.isSome then .ok w
  else if !w.listener.held || w.listenerClosing then .ok w
  else if !a.socket || !a.accepted then w.abandon (.init a.socket)
  else
    let w := { w with session := some ⟨.init true, false, .init a.timer⟩ }
    if a.reading then .ok w
    else do
      let w ← w.cleanup
      w.resetSession

/-- The close callback of the session's socket, to `onSessionFinished`; `started`
is the outcome of `uv_idle_start`. -/
def socketClosed (started : Bool) : Except Fault World :=
  match w.session with
  | none => .ok w
  | some s => do
    let socket ← s.socket.onClose
    pure { w with session := some { s with socket := socket }, sessionFinished := true,
                  reaping := w.reaping || (w.reaper.isSome && !w.managerClosing && started) }

/-- `onReapCb` up to the next `accept`. -/
def reap : Except Fault World :=
  let w := { w with reaping := false }
  if !w.sessionFinished then .ok w else { w with sessionFinished := false }.resetSession

/-- `Listener::close`. -/
def closeListener : Except Fault World :=
  if !w.listener.held || w.listenerClosing then .ok w
  else do
    let listener ← w.listener.close
    pure { w with listener := listener, listenerClosing := true }

/-- The handles of `ParserThread::stop` and then the reaper. -/
def closeRest : Except Fault World := do
  let w ← abandonAll w.parser { w with parser := [] }
  abandonAll w.reaper.toList { w with reaper := none, reaping := false }

/-- `SessionManager::close`. -/
def closeManager : Except Fault World := do
  let w ← { w with managerClosing := true }.closeListener
  let w ← w.resetSession
  w.closeRest

/-- `shutdown`; its `uv_close` of a signal handle asks whether it is closing. -/
def shutdown : Except Fault World := do
  let w ← w.closeManager
  let w ← abandonAll w.pruneTimer.toList { w with pruneTimer := none }
  pure { w with sigterm := w.sigterm.closeHandle, sigint := w.sigint.closeHandle }

def onSignal : Except Fault World :=
  if w.shuttingDown then .ok w else { w with shuttingDown := true }.shutdown

/-- The close callback of an orphan. -/
def orphanClosed (i : ℕ) : Except Fault World := do
  let orphans ← LoopHandle.orphanClosed w.orphans i
  pure { w with orphans := orphans }

def listenerClosed : Except Fault World := do
  let listener ← w.listener.onClose
  pure { w with listener := listener }

inductive Act where
  | accept (answers : Answers)
  | cleanup
  | socketClosed (started : Bool)
  | reap
  | signal
  | orphanClosed (i : ℕ)
  | listenerClosed
  | sigtermClosed
  | sigintClosed
  deriving DecidableEq, Repr

def enabled : Act → Bool
  | .accept _ | .signal => true
  | .cleanup => w.session.isSome
  | .socketClosed _ => w.session.any (·.socket.due)
  | .reap => w.reaping
  | .orphanClosed i => w.orphans[i]?.any Life.due
  | .listenerClosed => w.listener.due
  | .sigtermClosed => w.sigterm.closing && !w.sigterm.closed
  | .sigintClosed => w.sigint.closing && !w.sigint.closed

def act : Act → Except Fault World
  | .accept answers => w.acceptIfIdle answers
  | .cleanup => w.cleanup
  | .socketClosed started => w.socketClosed started
  | .reap => w.reap
  | .signal => w.onSignal
  | .orphanClosed i => w.orphanClosed i
  | .listenerClosed => w.listenerClosed
  | .sigtermClosed => .ok { w with sigterm := { w.sigterm with closed := true } }
  | .sigintClosed => .ok { w with sigint := { w.sigint with closed := true } }

/-- What the loop calls on its own. -/
def Act.closes : Act → Bool
  | .orphanClosed _ | .listenerClosed | .sigtermClosed | .sigintClosed => true
  | _ => false

/-- The handles other than those of the signals. -/
def handles : List Life :=
  w.listener :: (w.session.toList.flatMap (fun s => [s.socket, s.timer]) ++ w.parser ++
    w.reaper.toList ++ w.pruneTimer.toList ++ w.orphans)

/-- What keeps `uv_run` from returning and `uv_loop_close` from succeeding. -/
def unclosed : ℕ :=
  w.handles.countP Life.known + (!w.sigterm.closed).toNat + (!w.sigint.closed).toNat

inductive Run (w : World) : List Act → World → Prop
  | start : Run w [] w
  | step {acts : List Act} {w₁ w₂ : World} (a : Act) :
      Run w acts w₁ → w₁.enabled a = true → w₁.act a = .ok w₂ → Run w (acts ++ [a]) w₂

def replay : List Act → World → Option World
  | [], w => some w
  | a::acts, w => if w.enabled a then (w.act a).toOption.bind (replay acts) else none

end World

end Source

namespace World

section Invariant

structure Legal (w : World) : Prop where
  listener : Follows w.listenerClosing w.listener
  socket : ∀ s ∈ w.session, Follows s.closing s.socket
  timer : ∀ s ∈ w.session, Ticks s.timer
  parser : ∀ l ∈ w.parser, l = HandlePhase.opened.life
  reaper : ∀ l ∈ w.reaper, l = HandlePhase.opened.life
  pruneTimer : ∀ l ∈ w.pruneTimer, l = HandlePhase.opened.life
  orphans : Orphaned w.orphans

/-- All that `shutdown` is to give up. -/
structure Down (w : World) : Prop where
  listener : w.listenerClosing = true
  session : w.session = none
  parser : w.parser = []
  reaper : w.reaper = none
  reaping : w.reaping = false
  pruneTimer : w.pruneTimer = none
  manager : w.managerClosing = true
  sigterm : w.sigterm.closing = true
  sigint : w.sigint.closing = true

theorem ready_legal (toFile : Bool) : (ready toFile).Legal where
  listener := rfl
  socket s h := by cases h
  timer s h := by cases h
  parser l h := by
    simp only [ready, List.mem_cons, List.not_mem_nil, or_false, or_self] at h
    exact h.trans (HandlePhase.init_life true)
  reaper l h := by
    obtain rfl := Option.some.inj h
    rfl
  pruneTimer l h := by
    cases toFile with
    | true =>
      obtain rfl := Option.some.inj h
      rfl
    | false => cases h
  orphans l h := by cases h

end Invariant

section Calls

variable {w : World}

/-- The world but for the handles that nobody owns. -/
def Rest (w w' : World) : Prop := w' = { w with orphans := w'.orphans }

theorem rest_trans {w₁ w₂ : World} (h₁ : w.Rest w₁) (h₂ : w₁.Rest w₂) : w.Rest w₂ := by
  rw [Rest] at h₁ h₂ ⊢
  rw [h₂, h₁]

theorem fine_abandon {p : HandlePhase} (h : w.Legal) (ha : p.life.alive = true) :
    Fine (w.abandon p.life) fun w' => w'.Legal ∧ w.Rest w' :=
  fine_bind (LoopHandle.fine_abandon h.orphans ha) fun _ ho => ⟨_, rfl, ⟨h.listener, h.socket,
    h.timer, h.parser, h.reaper, h.pruneTimer, ho⟩, rfl⟩

theorem fine_abandonAll {ls : List Life} (h : w.Legal)
    (hl : ∀ l ∈ ls, l = HandlePhase.opened.life) :
    Fine (abandonAll ls w) fun w' => w'.Legal ∧ w.Rest w' := by
  induction ls generalizing w with
  | nil => exact ⟨w, rfl, h, rfl⟩
  | cons l rest ih =>
    obtain rfl := hl l List.mem_cons_self
    rw [abandonAll]
    refine fine_bind (fine_abandon h rfl) fun w₁ h₁ => ?_
    exact fine_mono (ih h₁.1 fun l hm => hl l (List.mem_cons_of_mem _ hm)) fun w₂ h₂ =>
      ⟨h₂.1, rest_trans h₁.2 h₂.2⟩

theorem fine_resetSession (h : w.Legal) :
    Fine w.resetSession fun w' => w'.Legal ∧ ({ w with session := none } : World).Rest w' := by
  rw [resetSession]
  cases hs : w.session with
  | none =>
    refine ⟨w, rfl, h, ?_⟩
    rw [Rest, ← hs]
  | some s =>
    obtain ⟨p, hp, hpa⟩ := ticks_phase (h.timer s (by rw [hs]; rfl))
    obtain ⟨q, hq, hqa, -⟩ := follows_phase (h.socket s (by rw [hs]; rfl))
    have hnone : ({ w with session := none } : World).Legal :=
      ⟨h.listener, fun s h => (by cases h), fun s h => (by cases h), h.parser, h.reaper,
        h.pruneTimer, h.orphans⟩
    simp only [hp, hq]
    refine fine_bind (fine_abandon hnone hpa) fun w₁ h₁ => ?_
    exact fine_mono (fine_abandon h₁.1 hqa) fun w₂ h₂ => ⟨h₂.1, rest_trans h₁.2 h₂.2⟩

theorem fine_cleanup (h : w.Legal) :
    Fine w.cleanup fun w' => w'.Legal ∧ w' = { w with session := w'.session } := by
  rw [cleanup]
  cases hs : w.session with
  | none => exact ⟨w, rfl, h, rfl⟩
  | some s =>
    have hsocket := h.socket s (by rw [hs]; rfl)
    obtain ⟨q, hq, -, hqh⟩ := follows_phase hsocket
    cases hc : s.closing with
    | true => exact ⟨w, by simp [hc], h, rfl⟩
    | false =>
      have hheld : s.socket.held = true := by rw [hq, hqh]
      simp only [hheld, hc]
      refine fine_bind (fine_close hsocket hc) fun l hl => ⟨_, rfl, ?_, rfl⟩
      refine ⟨h.listener, fun s' hs' => ?_, fun s' hs' => ?_, h.parser, h.reaper, h.pruneTimer,
        h.orphans⟩
      · obtain rfl := Option.some.inj hs'
        exact hl
      · obtain rfl := Option.some.inj hs'
        exact h.timer s (by rw [hs]; rfl)

theorem fine_acceptIfIdle (h : w.Legal) (a : Answers) :
    Fine (w.acceptIfIdle a) fun w' => w'.Legal ∧
      w' = { w with session := w'.session, orphans := w'.orphans } := by
  rw [acceptIfIdle]
  split
  · exact ⟨w, rfl, h, rfl⟩
  · split
    · exact ⟨w, rfl, h, rfl⟩
    · split
      · rw [HandlePhase.init_life]
        refine fine_mono (fine_abandon h (by cases a.socket <;> rfl)) fun w' h' => ⟨h'.1, ?_⟩
        have hrest := h'.2
        rw [Rest] at hrest
        rw [hrest]
      · have hnew : ({ w with session := some ⟨.init true, false, .init a.timer⟩ } : World).Legal :=
          ⟨h.listener, fun s hs => (by obtain rfl := Option.some.inj hs; rfl),
            fun s hs => (by obtain rfl := Option.some.inj hs; exact ticks_init a.timer),
            h.parser, h.reaper, h.pruneTimer, h.orphans⟩
        split
        · exact ⟨_, rfl, hnew, rfl⟩
        · refine fine_bind (fine_cleanup hnew) fun w₁ h₁ => ?_
          refine fine_mono (fine_resetSession h₁.1) fun w₂ h₂ => ⟨h₂.1, ?_⟩
          have hrest := h₂.2
          rw [Rest, h₁.2] at hrest
          rw [hrest]

theorem fine_socketClosed (h : w.Legal) {started : Bool}
    (he : w.enabled (.socketClosed started) = true) :
    Fine (w.socketClosed started) fun w' => w'.Legal ∧ w'.shuttingDown = w.shuttingDown := by
  rw [socketClosed]
  cases hs : w.session with
  | none => exact ⟨w, rfl, h, rfl⟩
  | some s =>
    rw [enabled, hs] at he
    refine fine_bind (fine_onClose (h.socket s (by rw [hs]; rfl)) he) fun l hl =>
      ⟨_, rfl, ?_, rfl⟩
    refine ⟨h.listener, fun s' hs' => ?_, fun s' hs' => ?_, h.parser, h.reaper, h.pruneTimer,
      h.orphans⟩
    · obtain rfl := Option.some.inj hs'
      change Follows s.closing l
      rw [hl.2]
      exact .inr hl.1
    · obtain rfl := Option.some.inj hs'
      exact h.timer s (by rw [hs]; rfl)

theorem fine_reap (h : w.Legal) :
    Fine w.reap fun w' => w'.Legal ∧ w'.shuttingDown = w.shuttingDown := by
  rw [reap]
  have hstop : ({ w with reaping := false } : World).Legal :=
    ⟨h.listener, h.socket, h.timer, h.parser, h.reaper, h.pruneTimer, h.orphans⟩
  dsimp only
  split
  · exact ⟨_, rfl, hstop, rfl⟩
  · refine fine_mono (fine_resetSession ⟨h.listener, h.socket, h.timer, h.parser, h.reaper,
      h.pruneTimer, h.orphans⟩) fun w' h' => ⟨h'.1, ?_⟩
    have hrest := h'.2
    rw [Rest] at hrest
    rw [hrest]

theorem fine_orphanClosed (h : w.Legal) (i : ℕ) :
    Fine (w.orphanClosed i) fun w' => w'.Legal ∧
      w' = { w with orphans := w.orphans.eraseIdx i } := by
  refine fine_bind (LoopHandle.fine_orphanClosed h.orphans i) fun os ho => ⟨_, rfl, ?_, ?_⟩
  · exact ⟨h.listener, h.socket, h.timer, h.parser, h.reaper, h.pruneTimer, ho.1⟩
  · rw [ho.2]

theorem fine_listenerClosed (h : w.Legal) (he : w.listener.due = true) :
    Fine w.listenerClosed fun w' => w'.Legal ∧
      w' = { w with listener := HandlePhase.closed.life } := by
  rw [listenerClosed]
  refine fine_bind (fine_onClose h.listener he) fun l hl => ⟨_, rfl, ?_, by rw [hl.1]⟩
  refine ⟨?_, h.socket, h.timer, h.parser, h.reaper, h.pruneTimer, h.orphans⟩
  change Follows w.listenerClosing l
  rw [hl.2]
  exact .inr hl.1

theorem fine_closeListener (h : w.Legal) :
    Fine w.closeListener fun w' => w'.Legal ∧
      w' = { w with listener := w'.listener, listenerClosing := true } := by
  rw [closeListener]
  obtain ⟨p, hp, -, hh⟩ := follows_phase h.listener
  have hheld : w.listener.held = true := by rw [hp, hh]
  cases hc : w.listenerClosing with
  | true => exact ⟨w, by simp, h, by rw [← hc]⟩
  | false =>
    simp only [hheld]
    refine fine_bind (fine_close h.listener hc) fun l hl => ⟨_, rfl, ?_, rfl⟩
    exact ⟨hl, h.socket, h.timer, h.parser, h.reaper, h.pruneTimer, h.orphans⟩

theorem fine_closeRest (h : w.Legal) :
    Fine w.closeRest fun w' => w'.Legal ∧
      ({ w with parser := [], reaper := none, reaping := false } : World).Rest w' := by
  rw [closeRest]
  have hparser : ({ w with parser := [] } : World).Legal :=
    ⟨h.listener, h.socket, h.timer, fun l hl => (by cases hl), h.reaper, h.pruneTimer, h.orphans⟩
  refine fine_bind (fine_abandonAll hparser h.parser) fun w₁ h₁ => ?_
  have hreaper : ({ w₁ with reaper := none, reaping := false } : World).Legal :=
    ⟨h₁.1.listener, h₁.1.socket, h₁.1.timer, h₁.1.parser, fun l hl => (by cases hl),
      h₁.1.pruneTimer, h₁.1.orphans⟩
  refine fine_mono (fine_abandonAll hreaper fun l hl => ?_) fun w₂ h₂ => ⟨h₂.1, ?_⟩
  · exact h₁.1.reaper l (Option.mem_toList.mp hl)
  · have hrest := h₁.2
    have hrest' := h₂.2
    rw [Rest] at hrest hrest' ⊢
    rw [hrest', hrest]

theorem fine_closeManager (h : w.Legal) :
    Fine w.closeManager fun w' => w'.Legal ∧
      w' = { w with listener := w'.listener, listenerClosing := true, session := none,
                    parser := [], reaper := none, reaping := false, managerClosing := true,
                    orphans := w'.orphans } := by
  rw [closeManager]
  have hclosing : ({ w with managerClosing := true } : World).Legal :=
    ⟨h.listener, h.socket, h.timer, h.parser, h.reaper, h.pruneTimer, h.orphans⟩
  refine fine_bind (fine_closeListener hclosing) fun w₁ h₁ => ?_
  refine fine_bind (fine_resetSession h₁.1) fun w₂ h₂ => ?_
  refine fine_mono (fine_closeRest h₂.1) fun w₃ h₃ => ⟨h₃.1, ?_⟩
  have hreset := h₂.2
  have hrest := h₃.2
  rw [Rest] at hreset hrest
  rw [hrest, hreset, h₁.2]

theorem fine_shutdown (h : w.Legal) :
    Fine w.shutdown fun w' => w'.Legal ∧ w'.Down ∧ w'.shuttingDown = w.shuttingDown := by
  rw [shutdown]
  refine fine_bind (fine_closeManager h) fun w₁ h₁ => ?_
  have hprune : ({ w₁ with pruneTimer := none } : World).Legal :=
    ⟨h₁.1.listener, h₁.1.socket, h₁.1.timer, h₁.1.parser, h₁.1.reaper, fun l hl => (by cases hl),
      h₁.1.orphans⟩
  refine fine_bind (fine_abandonAll hprune fun l hl => ?_) fun w₂ h₂ => ⟨_, rfl, ?_, ?_, ?_⟩
  · exact h₁.1.pruneTimer l (Option.mem_toList.mp hl)
  · exact ⟨h₂.1.listener, h₂.1.socket, h₂.1.timer, h₂.1.parser, h₂.1.reaper, h₂.1.pruneTimer,
      h₂.1.orphans⟩
  · have hrest := h₂.2
    rw [Rest, h₁.2] at hrest
    rw [hrest]
    exact ⟨rfl, rfl, rfl, rfl, rfl, rfl, rfl, Static.closeHandle_closing _,
      Static.closeHandle_closing _⟩
  · have hrest := h₂.2
    rw [Rest, h₁.2] at hrest
    rw [hrest]

end Calls

section Steps

variable {w : World} {a : Act}

/-- No callback of the loop and no signal meets a fault. -/
theorem fine_act (h : w.Legal) (he : w.enabled a = true) :
    Fine (w.act a) fun w' => w'.Legal ∧
      (w'.shuttingDown = true ↔ w.shuttingDown = true ∨ a = .signal) := by
  cases a with
  | accept answers =>
    exact fine_mono (fine_acceptIfIdle h answers) fun w' h' => ⟨h'.1, by rw [h'.2]; simp⟩
  | cleanup => exact fine_mono (fine_cleanup h) fun w' h' => ⟨h'.1, by rw [h'.2]; simp⟩
  | socketClosed started =>
    exact fine_mono (fine_socketClosed h he) fun w' h' => ⟨h'.1, by rw [h'.2]; simp⟩
  | reap => exact fine_mono (fine_reap h) fun w' h' => ⟨h'.1, by rw [h'.2]; simp⟩
  | signal =>
    rw [act, onSignal]
    cases hs : w.shuttingDown with
    | true => exact ⟨w, by simp, h, by simp [hs]⟩
    | false =>
      have hdown : ({ w with shuttingDown := true } : World).Legal :=
        ⟨h.listener, h.socket, h.timer, h.parser, h.reaper, h.pruneTimer, h.orphans⟩
      exact fine_mono (fine_shutdown hdown) fun w' h' => ⟨h'.1, by rw [h'.2.2]; simp⟩
  | orphanClosed i =>
    exact fine_mono (fine_orphanClosed h i) fun w' h' => ⟨h'.1, by rw [h'.2]; simp⟩
  | listenerClosed =>
    exact fine_mono (fine_listenerClosed h he) fun w' h' => ⟨h'.1, by rw [h'.2]; simp⟩
  | sigtermClosed =>
    exact ⟨_, rfl, ⟨h.listener, h.socket, h.timer, h.parser, h.reaper, h.pruneTimer, h.orphans⟩,
      by simp⟩
  | sigintClosed =>
    exact ⟨_, rfl, ⟨h.listener, h.socket, h.timer, h.parser, h.reaper, h.pruneTimer, h.orphans⟩,
      by simp⟩

theorem handles_down (hd : w.Down) : w.handles = w.listener :: w.orphans := by
  simp [handles, hd.session, hd.parser, hd.reaper, hd.pruneTimer]

theorem unclosed_down (h : w.Legal) (hd : w.Down) :
    w.unclosed = w.listener.known.toNat + w.orphans.length + (!w.sigterm.closed).toNat +
      (!w.sigint.closed).toNat := by
  have horphans : w.orphans.countP Life.known = w.orphans.length :=
    List.countP_eq_length.mpr fun l hl => by rw [h.orphans l hl]; rfl
  rw [unclosed, handles_down hd, List.countP_cons, horphans]
  have hknown : (if w.listener.known = true then 1 else 0) = w.listener.known.toNat := by
    cases w.listener.known <;> rfl
  rw [hknown, Nat.add_comm w.orphans.length]

/-- After the signal a callback takes one handle from the loop, and nothing else has an effect. -/
theorem down_act (h : w.Legal) (hd : w.Down) (hs : w.shuttingDown = true)
    (he : w.enabled a = true) :
    Fine (w.act a) fun w' => w'.Legal ∧ w'.Down ∧ w'.shuttingDown = true ∧
      a.closes.toNat + w'.unclosed = w.unclosed ∧ (a.closes = false → w' = w) := by
  have hidle : Fine (.ok w) fun w' => w'.Legal ∧ w'.Down ∧ w'.shuttingDown = true ∧
      0 + w'.unclosed = w.unclosed ∧ (false = false → w' = w) :=
    ⟨w, rfl, h, hd, hs, Nat.zero_add _, fun _ => rfl⟩
  cases a with
  | accept answers =>
    rw [act, acceptIfIdle, hd.manager]
    exact hidle
  | signal =>
    rw [act, onSignal, hs]
    exact hidle
  | cleanup => simp [enabled, hd.session] at he
  | socketClosed started => simp [enabled, hd.session] at he
  | reap => simp [enabled, hd.reaping] at he
  | orphanClosed i =>
    refine fine_mono (fine_orphanClosed h i) fun w' h' => ?_
    obtain ⟨hl, rfl⟩ := h'
    have hdown : ({ w with orphans := w.orphans.eraseIdx i } : World).Down :=
      ⟨hd.listener, hd.session, hd.parser, hd.reaper, hd.reaping, hd.pruneTimer, hd.manager,
        hd.sigterm, hd.sigint⟩
    have hi : i < w.orphans.length := by
      by_contra hi
      rw [enabled, List.getElem?_eq_none_iff.mpr (Nat.le_of_not_lt hi)] at he
      cases he
    refine ⟨hl, hdown, hs, ?_, fun hc => by cases hc⟩
    rw [unclosed_down h hd, unclosed_down hl hdown]
    simp only [Act.closes, Bool.toNat_true, List.length_eraseIdx_of_lt hi]
    omega
  | listenerClosed =>
    refine fine_mono (fine_listenerClosed h he) fun w' h' => ?_
    obtain ⟨hl, rfl⟩ := h'
    have hdown : ({ w with listener := HandlePhase.closed.life } : World).Down :=
      ⟨hd.listener, hd.session, hd.parser, hd.reaper, hd.reaping, hd.pruneTimer, hd.manager,
        hd.sigterm, hd.sigint⟩
    refine ⟨hl, hdown, hs, ?_, fun hc => by cases hc⟩
    rw [unclosed_down h hd, unclosed_down hl hdown, Life.known_of_due he]
    simp only [Act.closes, Bool.toNat_true, show HandlePhase.closed.life.known = false from rfl,
      Bool.toNat_false]
    omega
  | sigtermClosed =>
    have hl : ({ w with sigterm := { w.sigterm with closed := true } } : World).Legal :=
      ⟨h.listener, h.socket, h.timer, h.parser, h.reaper, h.pruneTimer, h.orphans⟩
    have hdown : ({ w with sigterm := { w.sigterm with closed := true } } : World).Down :=
      ⟨hd.listener, hd.session, hd.parser, hd.reaper, hd.reaping, hd.pruneTimer, hd.manager,
        hd.sigterm, hd.sigint⟩
    have hopen : w.sigterm.closed = false := by simpa [enabled, hd.sigterm] using he
    refine ⟨_, rfl, hl, hdown, hs, ?_, fun hc => by cases hc⟩
    rw [unclosed_down h hd, unclosed_down hl hdown, hopen]
    simp only [Act.closes, Bool.toNat_true, Bool.not_true, Bool.toNat_false, Bool.not_false]
    omega
  | sigintClosed =>
    have hl : ({ w with sigint := { w.sigint with closed := true } } : World).Legal :=
      ⟨h.listener, h.socket, h.timer, h.parser, h.reaper, h.pruneTimer, h.orphans⟩
    have hdown : ({ w with sigint := { w.sigint with closed := true } } : World).Down :=
      ⟨hd.listener, hd.session, hd.parser, hd.reaper, hd.reaping, hd.pruneTimer, hd.manager,
        hd.sigterm, hd.sigint⟩
    have hopen : w.sigint.closed = false := by simpa [enabled, hd.sigint] using he
    refine ⟨_, rfl, hl, hdown, hs, ?_, fun hc => by cases hc⟩
    rw [unclosed_down h hd, unclosed_down hl hdown, hopen]
    simp only [Act.closes, Bool.toNat_true, Bool.not_true, Bool.toNat_false, Bool.not_false]
    omega

end Steps

section Runs

variable {toFile : Bool} {w w' : World} {acts more : List Act}

theorem run_replay {w₀ : World} {before : List Act} (hr : w₀.Run before w)
    (h : replay acts w = some w') : w₀.Run (before ++ acts) w' := by
  induction acts generalizing w before with
  | nil =>
    obtain rfl := Option.some.inj h
    rwa [List.append_nil]
  | cons a acts ih =>
    rw [replay, Option.ite_none_right_eq_some] at h
    obtain ⟨he, h⟩ := h
    cases hact : w.act a with
    | error e =>
      rw [hact] at h
      cases h
    | ok w₁ =>
      rw [hact] at h
      rw [List.append_cons]
      exact ih (.step a hr he hact) h

theorem run_legal (hr : (ready toFile).Run acts w) :
    w.Legal ∧ (w.shuttingDown = true → w.Down) ∧ (w.shuttingDown = true ↔ .signal ∈ acts) := by
  induction hr with
  | start => exact ⟨ready_legal toFile, fun h => (by cases h), by simp [ready]⟩
  | @step acts w₁ w₂ a hr he hact ih =>
    obtain ⟨hlegal, hdown, hsignal⟩ := ih
    obtain ⟨_, hok, hl, hs⟩ := fine_act hlegal he
    obtain rfl := Except.ok.inj (hact.symm.trans hok)
    refine ⟨hl, fun hnow => ?_, ?_⟩
    · cases hbefore : w₁.shuttingDown with
      | true =>
        obtain ⟨_, hok', -, hd, -⟩ := down_act hlegal (hdown hbefore) hbefore he
        obtain rfl := Except.ok.inj (hact.symm.trans hok')
        exact hd
      | false =>
        obtain h | rfl := hs.mp hnow
        · cases hbefore.symm.trans h
        · rw [act, onSignal, hbefore] at hact
          obtain ⟨_, hok', -, hd, -⟩ := fine_shutdown (w := { w₁ with shuttingDown := true })
            ⟨hlegal.listener, hlegal.socket, hlegal.timer, hlegal.parser, hlegal.reaper,
              hlegal.pruneTimer, hlegal.orphans⟩
          obtain rfl := Except.ok.inj (hact.symm.trans hok')
          exact hd
    · rw [hs, hsignal, List.mem_append, List.mem_singleton, eq_comm]

theorem handle_phase (h : w.Legal) {l : Life} (hl : l ∈ w.handles) :
    ∃ p : HandlePhase, l = p.life := by
  simp only [handles, List.mem_cons, List.mem_append, List.mem_flatMap, Option.mem_toList,
    List.not_mem_nil, or_false] at hl
  obtain rfl | ((((⟨s, hs, rfl | rfl⟩ | hl) | hl) | hl) | hl) := hl
  · obtain ⟨p, hp, -⟩ := follows_phase h.listener
    exact ⟨p, hp⟩
  · obtain ⟨p, hp, -⟩ := follows_phase (h.socket s hs)
    exact ⟨p, hp⟩
  · obtain ⟨p, hp, -⟩ := ticks_phase (h.timer s hs)
    exact ⟨p, hp⟩
  · exact ⟨.opened, h.parser l hl⟩
  · exact ⟨.opened, h.reaper l hl⟩
  · exact ⟨.opened, h.pruneTimer l hl⟩
  · exact ⟨.orphaned, h.orphans l hl⟩

/-- Every handle that the loop still knows has an owner that will close it, or is about to be
closed for good. -/
theorem known_cared (h : w.Legal) : ∀ l ∈ w.handles, l.known = true →
    l.alive = true ∨ l.due = true := by
  intro l hl hk
  obtain ⟨p, rfl⟩ := handle_phase h hl
  cases ha : p.life.alive with
  | true => exact .inl rfl
  | false => exact .inr (HandlePhase.due_of_known hk ha)

theorem run_down (h : w.Legal) (hd : w.Down) (hs : w.shuttingDown = true)
    (hr : w.Run more w') :
    w'.Legal ∧ w'.Down ∧ w'.shuttingDown = true ∧
      more.countP Act.closes + w'.unclosed = w.unclosed := by
  induction hr with
  | start => exact ⟨h, hd, hs, by simp⟩
  | @step acts w₁ w₂ a hr he hact ih =>
    obtain ⟨hl, hdown, hsd, hcount⟩ := ih
    obtain ⟨_, hok, hl', hdown', hs', hone, -⟩ := down_act hl hdown hsd he
    obtain rfl := Except.ok.inj (hact.symm.trans hok)
    refine ⟨hl', hdown', hs', ?_⟩
    have hlast : [a].countP Act.closes = a.closes.toNat := by
      rw [List.countP_singleton]
      cases a.closes <;> rfl
    rw [List.countP_append, hlast, ← hcount, ← hone]
    omega

/-- What is left to close is about to be closed. -/
theorem closes_enabled (h : w.Legal) (hd : w.Down) (hu : w.unclosed ≠ 0) :
    ∃ a : Act, a.closes = true ∧ w.enabled a = true := by
  rw [unclosed_down h hd] at hu
  cases ho : w.orphans with
  | cons l rest =>
    have hl := h.orphans l (by rw [ho]; exact List.mem_cons_self)
    exact ⟨.orphanClosed 0, rfl, by rw [enabled, ho, hl]; rfl⟩
  | nil =>
    have hlistener := h.listener
    rw [hd.listener] at hlistener
    obtain hl | hl := hlistener
    · exact ⟨.listenerClosed, rfl, by rw [enabled, hl]; rfl⟩
    · cases hterm : w.sigterm.closed with
      | false => exact ⟨.sigtermClosed, rfl, by rw [enabled, hd.sigterm, hterm]; rfl⟩
      | true =>
        cases hint : w.sigint.closed with
        | false => exact ⟨.sigintClosed, rfl, by rw [enabled, hd.sigint, hint]; rfl⟩
        | true => exact absurd (by rw [hl, ho, hterm, hint]; rfl) hu

/-- However connections come and sessions end, no handle is closed twice, used after it is freed
or forgotten. -/
theorem handles_cared (hr : (ready toFile).Run acts w) :
    (∀ a, w.enabled a = true → ∃ w', w.act a = .ok w') ∧
      ∀ l ∈ w.handles, l.known = true → l.alive = true ∨ l.due = true := by
  obtain ⟨h, -⟩ := run_legal hr
  refine ⟨fun a he => ?_, known_cared h⟩
  obtain ⟨w', hact, -⟩ := fine_act h he
  exact ⟨w', hact⟩

theorem handles_cared_reaped : ∃ w : World,
    replay [.accept ⟨true, true, true, true⟩, .cleanup, .socketClosed true, .reap] (ready true) =
      some w ∧ (∀ a, w.enabled a = true → ∃ w', w.act a = .ok w') ∧
      ∀ l ∈ w.handles, l.known = true → l.alive = true ∨ l.due = true := by
  obtain ⟨w, hw⟩ := Option.isSome_iff_exists.mp (show (replay
    [.accept ⟨true, true, true, true⟩, .cleanup, .socketClosed true, .reap] (ready true)).isSome
    = true by decide)
  exact ⟨w, hw, handles_cared (run_replay .start hw)⟩

/-- After the first signal the loop runs out of handles in as many callbacks as there are handles,
and neither connections nor further signals change that. -/
theorem signal_drains (hr : (ready toFile).Run acts w) (hs : .signal ∈ acts)
    (hmore : w.Run more w') :
    more.countP Act.closes + w'.unclosed = w.unclosed ∧
      (w'.unclosed ≠ 0 → ∃ a : Act, a.closes = true ∧ w'.enabled a = true) ∧
      ∀ a : Act, a.closes = false → w'.enabled a = true → w'.act a = .ok w' := by
  obtain ⟨h, hdown, hsignal⟩ := run_legal hr
  have hsd := hsignal.mpr hs
  obtain ⟨h', hd', hs', hcount⟩ := run_down h (hdown hsd) hsd hmore
  refine ⟨hcount, closes_enabled h' hd', fun a hc he => ?_⟩
  obtain ⟨_, hact, -, -, -, -, hsame⟩ := down_act h' hd' hs' he
  rw [hact, hsame hc]

theorem signal_drains_session : ∃ w w' : World,
    replay [.accept ⟨true, true, true, true⟩, .signal] (ready false) = some w ∧
      replay [.listenerClosed, .signal] w = some w' ∧ 1 + w'.unclosed = w.unclosed ∧
      (w'.unclosed ≠ 0 → ∃ a : Act, a.closes = true ∧ w'.enabled a = true) ∧
      ∀ a : Act, a.closes = false → w'.enabled a = true → w'.act a = .ok w' := by
  obtain ⟨w', hw'⟩ := Option.isSome_iff_exists.mp (show ((replay
    [.accept ⟨true, true, true, true⟩, .signal] (ready false)).bind
    (replay [.listenerClosed, .signal])).isSome = true by decide)
  obtain ⟨w, hw, hmore⟩ := Option.bind_eq_some_iff.mp hw'
  exact ⟨w, w', hw, hmore,
    signal_drains (run_replay .start hw) (by decide) (run_replay .start hmore)⟩

end Runs

end World

end LogTransfer.ServerLoop
