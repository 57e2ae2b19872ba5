import LogTransfer.LoopHandle

/-!
# Handles of the client

The loop thread opens a socket for each connection and one timer for all. To
quit it closes what has a wrapper through its wrapper, walks over the rest and
lets the loop run out.
-/

set_option autoImplicit false

namespace LogTransfer.ClientLoop
open LoopHandle

section Source

/-- `_socket`; `closing` is its own flag. -/
structure SocketHandle where
  life : Life
  closing : Bool
  deriving DecidableEq, Repr

structure World where
  wakeup : Static
  connectTimer : Option Life
  socket : Option SocketHandle
  quitting : Bool
  orphans : List Life
  deriving DecidableEq, Repr

/-- The outcomes of `uv_tcp_init`, of `connect` and of `uv_timer_init`. -/
structure Answers where
  socket : Bool
  connect : Bool
  timer : Bool
  deriving DecidableEq, Repr

/-- `uv_walk` closes a handle without a callback, so that its owner is not told. -/
def onWalkCloseCb (l : Life) : Life :=
  if l.takes then { l with memory := l.memory.map fun h => ⟨h.data, true, true⟩ } else l

namespace World

/-- After `start`. -/
def start : World :=
  { wakeup := ⟨false, false⟩, connectTimer := none, socket := none, quitting := false,
    orphans := [] }

variable (w : World)

def abandon (l : Life) : Except Fault World := do
  let orphans ← LoopHandle.abandon w.orphans l
  pure { w with orphans := orphans }

def beginConnect (a : Answers) : Except Fault World :=
  if w.socket.isSome then .ok w
  else if !a.socket || !a.connect then w.abandon (.init a.socket)
  else .ok { w with socket := some ⟨.init true, false⟩,
                    connectTimer := some (w.connectTimer.getD (.init a.timer)) }

/-- Of the timeout, the commands and the errors of the socket. -/
def closeSocket : Except Fault World :=
  match w.socket with
  | none => .ok w
  | some s =>
    if s.closing then .ok w
    else do
      let life ← s.life.close
      pure { w with socket := some ⟨life, true⟩ }

/-- The close callback of the socket and its `onClosed`, which destroys it. -/
def onClosed : Except Fault World :=
  match w.socket with
  | none => .ok w
  | some s => do
    let life ← s.life.onClose
    { w with socket := none }.abandon life

def resetTimer : Except Fault World :=
  match w.connectTimer with
  | none => .ok w
  | some timer => { w with connectTimer := none }.abandon timer

def walk : World :=
  { w with wakeup := w.wakeup.closeHandle, connectTimer := w.connectTimer.map onWalkCloseCb,
           socket := w.socket.map fun s => { s with life := onWalkCloseCb s.life },
           orphans := w.orphans.map onWalkCloseCb }

def quit : Except Fault World := do
  let w ← { w with quitting := true }.resetTimer
  let w ← w.closeSocket
  pure w.walk

def orphanClosed (i : ℕ) : Except Fault World := do
  let orphans ← LoopHandle.orphanClosed w.orphans i
  pure { w with orphans := orphans }

inductive Act where
  | beginConnect (answers : Answers)
  | closeSocket
  | onClosed
  | quit
  | orphanClosed (i : ℕ)
  | wakeupClosed
  deriving DecidableEq, Repr

/-- `stop` posts the last command, so that nothing connects after it. -/
def enabled : Act → Bool
  | .beginConnect _ | .quit => !w.quitting
  | .closeSocket => true
  | .onClosed => w.socket.any (·.life.due)
  | .orphanClosed i => w.orphans[i]?.any Life.due
  | .wakeupClosed => w.wakeup.closing && !w.wakeup.closed

def act : Act → Except Fault World
  | .beginConnect answers => w.beginConnect answers
  | .closeSocket => w.closeSocket
  | .onClosed => w.onClosed
  | .quit => w.quit
  | .orphanClosed i => w.orphanClosed i
  | .wakeupClosed => .ok { w with wakeup := { w.wakeup with closed := true } }

/-- What the loop calls on its own. -/
def Act.closes : Act → Bool
  | .onClosed | .orphanClosed _ | .wakeupClosed => true
  | .beginConnect _ | .closeSocket | .quit => false

/-- The handles other than the one that wakes the loop. -/
def handles : List Life :=
  (w.socket.map SocketHandle.life).toList ++ w.connectTimer.toList ++ w.orphans

/-- What keeps `uv_run` from returning. -/
def unclosed : ℕ := w.handles.countP Life.known + (!w.wakeup.closed).toNat

inductive Run (w : World) : List Act → World → Prop
  | start : Run w [] w
  | step {acts : List Act} {w₁ w₂ : World} (a : Act) :
      Run w acts w₁ → w₁.enabled a = true → w₁.act a = .ok w₂ → Run w (acts ++ [a]) w₂

def replay : List Act → World → Option World
  | [], w => some w
  | a::acts, w => if w.enabled a then (w.act a).toOption.bind (replay acts) else none

end World

end Source

namespace World

section Invariant

structure Legal (w : World) : Prop where
  /-- The socket does not outlive its close callback. -/
  socket : ∀ s ∈ w.socket, s.life = (if s.closing then HandlePhase.closing else .opened).life
  timer : ∀ l ∈ w.connectTimer, Ticks l
  orphans : Orphaned w.orphans

structure Down (w : World) : Prop where
  wakeup : w.wakeup.closing = true
  timer : w.connectTimer = none
  socket : ∀ s ∈ w.socket, s.closing = true

theorem start_legal : start.Legal :=
  ⟨fun s h => (by cases h), fun l h => (by cases h), fun l h => (by cases h)⟩

theorem socket_phase {w : World} (h : w.Legal) {s : SocketHandle} (hs : s ∈ w.socket) :
    ∃ p : HandlePhase, s.life = p.life ∧ p.life.alive = true ∧ p.life.known = true := by
  have hlife := h.socket s hs
  cases hc : s.closing with
  | true => exact ⟨.closing, by simpa [hc] using hlife, rfl, rfl⟩
  | false => exact ⟨.opened, by simpa [hc] using hlife, rfl, rfl⟩

end Invariant

section Calls

variable {w : World}

theorem fine_abandon {p : HandlePhase} (h : w.Legal) (ha : p.life.alive = true) :
    Fine (w.abandon p.life) fun w' => w'.Legal ∧ w' = { w with orphans := w'.orphans } :=
  fine_bind (LoopHandle.fine_abandon h.orphans ha) fun _ ho =>
    ⟨_, rfl, ⟨h.socket, h.timer, ho⟩, rfl⟩

theorem fine_beginConnect (h : w.Legal) (a : Answers) :
    Fine (w.beginConnect a) fun w' => w'.Legal ∧ w'.quitting = w.quitting := by
  rw [beginConnect]
  split
  · exact ⟨w, rfl, h, rfl⟩
  · split
    · rw [HandlePhase.init_life]
      refine fine_mono (fine_abandon h (by cases a.socket <;> rfl)) fun w' h' => ⟨h'.1, ?_⟩
      rw [h'.2]
    · refine ⟨_, rfl, ⟨fun s hs => ?_, fun l hl => ?_, h.orphans⟩, rfl⟩
      · obtain rfl := Option.some.inj hs
        rfl
      · obtain rfl := Option.some.inj hl
        cases ht : w.connectTimer with
        | none => exact ticks_init a.timer
        | some timer => exact h.timer timer ht

theorem fine_closeSocket (h : w.Legal) :
    Fine w.closeSocket fun w' => w'.Legal ∧ w' = { w with socket := w'.socket } ∧
      ∀ s ∈ w'.socket, s.closing = true := by
  rw [closeSocket]
  cases hs : w.socket with
  | none => exact ⟨w, rfl, h, rfl, fun s h => (by cases hs.symm.trans h)⟩
  | some s =>
    have hlife := h.socket s hs
    cases hc : s.closing with
    | true =>
      refine ⟨w, by simp [hc], h, rfl, fun s' hs' => ?_⟩
      obtain rfl := Option.some.inj (hs.symm.trans hs')
      exact hc
    | false =>
      rw [hc] at hlife
      simp only [hc, Bool.false_eq_true, if_false]
      refine fine_bind ⟨_, hlife ▸ HandlePhase.close_life, rfl⟩ fun life hl => ⟨_, rfl, ?_, rfl, ?_⟩
      · refine ⟨fun s' hs' => ?_, h.timer, h.orphans⟩
        obtain rfl := Option.some.inj hs'
        exact hl.symm
      · intro s' hs'
        obtain rfl := Option.some.inj hs'
        rfl

/-- The socket is freed inside its own close callback. -/
theorem fine_onClosed (h : w.Legal) (he : w.enabled .onClosed = true) :
    Fine w.onClosed fun w' => w'.Legal ∧ w' = { w with socket := none } ∧ w.socket.isSome := by
  cases hs : w.socket with
  | none =>
    rw [enabled, hs] at he
    cases he
  | some s =>
    have hlife := h.socket s hs
    rw [enabled, hs] at he
    cases hc : s.closing with
    | false =>
      rw [hc] at hlife
      rw [Option.any_some, hlife] at he
      cases he
    | true =>
      rw [hc] at hlife
      rw [onClosed, hs]
      simp only [hlife]
      exact ⟨_, rfl, ⟨fun s h => (by cases h), h.timer, h.orphans⟩, rfl, rfl⟩

theorem fine_resetTimer (h : w.Legal) :
    Fine w.resetTimer fun w' => w'.Legal ∧
      w' = { w with connectTimer := none, orphans := w'.orphans } := by
  rw [resetTimer]
  cases ht : w.connectTimer with
  | none => exact ⟨w, rfl, h, by rw [← ht]⟩
  | some timer =>
    obtain ⟨p, rfl, hp⟩ := ticks_phase (h.timer timer ht)
    have hnone : ({ w with connectTimer := none } : World).Legal :=
      ⟨h.socket, fun l hl => (by cases hl), h.orphans⟩
    exact fine_mono (fine_abandon hnone hp) fun w' h' => h'

/-- With the wrapped handles out of its way, the walk meets only the one that wakes the loop. -/
theorem walk_eq (h : w.Legal) (ht : w.connectTimer = none)
    (hs : ∀ s ∈ w.socket, s.closing = true) :
    w.walk = { w with wakeup := w.wakeup.closeHandle } := by
  have hsocket : (w.socket.map fun s => { s with life := onWalkCloseCb s.life }) = w.socket := by
    cases hw : w.socket with
    | none => rfl
    | some s =>
      have hlife := h.socket s hw
      rw [hs s hw] at hlife
      obtain ⟨life, closing⟩ := s
      obtain rfl : life = HandlePhase.closing.life := hlife
      rfl
  have horphans : w.orphans.map onWalkCloseCb = w.orphans := by
    refine (List.map_congr_left fun l hl => ?_).trans (List.map_id _)
    rw [h.orphans l hl]
    rfl
  rw [walk, hsocket, horphans, ht]
  rfl

theorem fine_quit (h : w.Legal) :
    Fine w.quit fun w' => w'.Legal ∧ w'.Down ∧ w'.quitting = true := by
  rw [quit]
  have hquit : ({ w with quitting := true } : World).Legal := ⟨h.socket, h.timer, h.orphans⟩
  refine fine_bind (fine_resetTimer hquit) fun w₁ h₁ => ?_
  refine fine_bind (fine_closeSocket h₁.1) fun w₂ h₂ => ?_
  have htimer : w₂.connectTimer = none := by rw [h₂.2.1, h₁.2]
  have hquitting : w₂.quitting = true := by rw [h₂.2.1, h₁.2]
  rw [walk_eq h₂.1 htimer h₂.2.2]
  exact ⟨_, rfl, ⟨h₂.1.socket, h₂.1.timer, h₂.1.orphans⟩,
    ⟨Static.closeHandle_closing _, htimer, h₂.2.2⟩, hquitting⟩

theorem fine_orphanClosed (h : w.Legal) (i : ℕ) :
    Fine (w.orphanClosed i) fun w' => w'.Legal ∧
      w' = { w with orphans := w.orphans.eraseIdx i } := by
  refine fine_bind (LoopHandle.fine_orphanClosed h.orphans i) fun os ho =>
    ⟨_, rfl, ⟨h.socket, h.timer, ho.1⟩, ?_⟩
  rw [ho.2]

end Calls

section Steps

variable {w : World} {a : Act}

theorem fine_act (h : w.Legal) (he : w.enabled a = true) :
    Fine (w.act a) fun w' => w'.Legal ∧
      (w'.quitting = true ↔ w.quitting = true ∨ a = .quit) := by
  cases a with
  | beginConnect answers =>
    exact fine_mono (fine_beginConnect h answers) fun w' h' => ⟨h'.1, by rw [h'.2]; simp⟩
  | closeSocket =>
    exact fine_mono (fine_closeSocket h) fun w' h' => ⟨h'.1, by rw [h'.2.1]; simp⟩
  | onClosed =>
    exact fine_mono (fine_onClosed h he) fun w' h' => ⟨h'.1, by rw [h'.2.1]; simp⟩
  | quit => exact fine_mono (fine_quit h) fun w' h' => ⟨h'.1, by rw [h'.2.2]; simp⟩
  | orphanClosed i =>
    exact fine_mono (fine_orphanClosed h i) fun w' h' => ⟨h'.1, by rw [h'.2]; simp⟩
  | wakeupClosed => exact ⟨_, rfl, ⟨h.socket, h.timer, h.orphans⟩, by simp⟩

theorem unclosed_down (h : w.Legal) (hd : w.Down) :
    w.unclosed = w.socket.toList.length + w.orphans.length + (!w.wakeup.closed).toNat := by
  have horphans : w.orphans.countP Life.known = w.orphans.length :=
    List.countP_eq_length.mpr fun l hl => by rw [h.orphans l hl]; rfl
  have hsocket : (w.socket.map SocketHandle.life).toList.countP Life.known =
      w.socket.toList.length := by
    cases hs : w.socket with
    | none => rfl
    | some s =>
      obtain ⟨p, hp, -, hk⟩ := socket_phase h hs
      simp [hp, hk]
  rw [unclosed, handles, hd.timer, List.countP_append, List.countP_append, horphans, hsocket]
  rfl

/-- After quitting, every callback takes one handle from the loop for good. -/
theorem down_act (h : w.Legal) (hd : w.Down) (hq : w.quitting = true)
    (he : w.enabled a = true) :
    Fine (w.act a) fun w' => w'.Legal ∧ w'.Down ∧ w'.quitting = true ∧
      a.closes.toNat + w'.unclosed = w.unclosed := by
  cases a with
  | beginConnect answers => simp [enabled, hq] at he
  | quit => simp [enabled, hq] at he
  | closeSocket =>
    rw [act, closeSocket]
    have hidle : Fine (.ok w) fun w' => w'.Legal ∧ w'.Down ∧ w'.quitting = true ∧
        0 + w'.unclosed = w.unclosed := ⟨w, rfl, h, hd, hq, Nat.zero_add _⟩
    cases hs : w.socket with
    | none => exact hidle
    | some s =>
      simp only [hd.socket s hs, if_true]
      exact hidle
  | onClosed =>
    refine fine_mono (fine_onClosed h he) fun w' h' => ?_
    obtain ⟨hl, rfl, hsome⟩ := h'
    have hdown : ({ w with socket := none } : World).Down :=
      ⟨hd.wakeup, hd.timer, fun s hs => by cases hs⟩
    obtain ⟨s, hs⟩ := Option.isSome_iff_exists.mp hsome
    refine ⟨hl, hdown, hq, ?_⟩
    rw [unclosed_down h hd, unclosed_down hl hdown, hs]
    simp only [Act.closes, Bool.toNat_true, Option.toList_none, Option.toList_some,
      List.length_nil, List.length_singleton]
    omega
  | orphanClosed i =>
    refine fine_mono (fine_orphanClosed h i) fun w' h' => ?_
    obtain ⟨hl, rfl⟩ := h'
    have hdown : ({ w with orphans := w.orphans.eraseIdx i } : World).Down :=
      ⟨hd.wakeup, hd.timer, hd.socket⟩
    have hi : i < w.orphans.length := by
      by_contra hi
      rw [enabled, List.getElem?_eq_none_iff.mpr (Nat.le_of_not_lt hi)] at he
      cases he
    refine ⟨hl, hdown, hq, ?_⟩
    rw [unclosed_down h hd, unclosed_down hl hdown]
    simp only [Act.closes, Bool.toNat_true, List.length_eraseIdx_of_lt hi]
    omega
  | wakeupClosed =>
    have hl : ({ w with wakeup := { w.wakeup with closed := true } } : World).Legal :=
      ⟨h.socket, h.timer, h.orphans⟩
    have hdown : ({ w with wakeup := { w.wakeup with closed := true } } : World).Down :=
      ⟨hd.wakeup, hd.timer, hd.socket⟩
    have hopen : w.wakeup.closed = false := by simpa [enabled, hd.wakeup] using he
    refine ⟨_, rfl, hl, hdown, hq, ?_⟩
    rw [unclosed_down h hd, unclosed_down hl hdown, hopen]
    simp only [Act.closes, Bool.toNat_true, Bool.not_true, Bool.toNat_false, Bool.not_false]
    omega

end Steps

section Runs

variable {w w' : World} {acts more : List Act}

theorem run_legal (hr : start.Run acts w) :
    w.Legal ∧ (w.quitting = true → w.Down) ∧ (w.quitting = true ↔ .quit ∈ acts) := by
  induction hr with
  | start => exact ⟨start_legal, fun h => (by cases h), by simp [start]⟩
  | @step acts w₁ w₂ a hr he hact ih =>
    obtain ⟨hlegal, hdown, hquit⟩ := ih
    obtain ⟨_, hok, hl, hs⟩ := fine_act hlegal he
    obtain rfl := Except.ok.inj (hact.symm.trans hok)
    refine ⟨hl, fun hnow => ?_, ?_⟩
    · cases hbefore : w₁.quitting with
      | true =>
        obtain ⟨_, hok', -, hd, -⟩ := down_act hlegal (hdown hbefore) hbefore he
        obtain rfl := Except.ok.inj (hact.symm.trans hok')
        exact hd
      | false =>
        obtain h | rfl := hs.mp hnow
        · cases hbefore.symm.trans h
        · obtain ⟨_, hok', -, hd, -⟩ := fine_quit hlegal
          obtain rfl := Except.ok.inj (hact.symm.trans hok')
          exact hd
    · rw [hs, hquit, List.mem_append, List.mem_singleton, eq_comm]

theorem run_down (h : w.Legal) (hd : w.Down) (hq : w.quitting = true)
    (hr : w.Run more w') :
    w'.Legal ∧ w'.Down ∧ w'.quitting = true ∧
      more.countP Act.closes + w'.unclosed = w.unclosed := by
  induction hr with
  | start => exact ⟨h, hd, hq, by simp⟩
  | @step acts w₁ w₂ a hr he hact ih =>
    obtain ⟨hl, hdown, hsd, hcount⟩ := ih
    obtain ⟨_, hok, hl', hdown', hs', hone⟩ := down_act hl hdown hsd he
    obtain rfl := Except.ok.inj (hact.symm.trans hok)
    refine ⟨hl', hdown', hs', ?_⟩
    have hlast : [a].countP Act.closes = a.closes.toNat := by
      rw [List.countP_singleton]
      cases a.closes <;> rfl
    rw [List.countP_append, hlast, ← hcount, ← hone]
    omega

theorem closes_enabled (h : w.Legal) (hd : w.Down) (hu : w.unclosed ≠ 0) :
    ∃ a : Act, a.closes = true ∧ w.enabled a = true := by
  rw [unclosed_down h hd] at hu
  cases ho : w.orphans with
  | cons l rest =>
    have hl := h.orphans l (by rw [ho]; exact List.mem_cons_self)
    exact ⟨.orphanClosed 0, rfl, by rw [enabled, ho, hl]; rfl⟩
  | nil =>
    cases hs : w.socket with
    | some s =>
      have hlife := h.socket s hs
      rw [hd.socket s hs] at hlife
      exact ⟨.onClosed, rfl, by rw [enabled, hs, Option.any_some, hlife]; rfl⟩
    | none =>
      cases hc : w.wakeup.closed with
      | false => exact ⟨.wakeupClosed, rfl, by rw [enabled, hd.wakeup, hc]; rfl⟩
      | true => exact absurd (by rw [hs, ho, hc]; rfl) hu

theorem run_replay {w₀ : World} {before : List Act} (hr : w₀.Run before w)
    (h : replay acts w = some w') : w₀.Run (before ++ acts) w' := by
  induction acts generalizing w before with
  | nil =>
    obtain rfl := Option.some.inj h
    rwa [List.append_nil]
  | cons a acts ih =>
    rw [replay, Option.ite_none_right_eq_some] at h
    obtain ⟨he, h⟩ := h
    cases hact : w.act a with
    | error e =>
      rw [hact] at h
      cases h
    | ok w₁ =>
      rw [hact] at h
      rw [List.append_cons]
      exact ih (.step a hr he hact) h

/-- Whatever the client was doing when it is told to quit, nothing is used after it is freed, the
loop runs out in as many callbacks as it has handles, and by then all of them are freed. -/
theorem quit_frees (hr : start.Run acts w) (hq : .quit ∈ acts) (hmore : w.Run more w') :
    (∀ a, w'.enabled a = true → ∃ w'', w'.act a = .ok w'') ∧
      more.countP Act.closes + w'.unclosed = w.unclosed ∧
      (w'.unclosed ≠ 0 → ∃ a : Act, a.closes = true ∧ w'.enabled a = true) ∧
      (w'.unclosed = 0 → w'.handles = [] ∧ w'.wakeup.closed = true) := by
  obtain ⟨h, hdown, hquit⟩ := run_legal hr
  have hquitting := hquit.mpr hq
  obtain ⟨h', hd', -, hcount⟩ := run_down h (hdown hquitting) hquitting hmore
  refine ⟨fun a he => ?_, hcount, closes_enabled h' hd', fun hu => ?_⟩
  · obtain ⟨w'', hact, -⟩ := fine_act h' he
    exact ⟨w'', hact⟩
  · rw [unclosed_down h' hd'] at hu
    have hsocket : w'.socket = none := by
      cases hs : w'.socket with
      | none => rfl
      | some s =>
        rw [hs] at hu
        simp at hu
    have horphans : w'.orphans = [] := List.length_eq_zero_iff.mp (by omega)
    refine ⟨by rw [handles, hsocket, hd'.timer, horphans]; rfl, ?_⟩
    cases hc : w'.wakeup.closed with
    | true => rfl
    | false =>
      rw [hc] at hu
      simp at hu

theorem quit_frees_connected : ∃ w w' : World,
    replay [.beginConnect ⟨true, true, true⟩, .quit] start = some w ∧
      replay [.onClosed, .orphanClosed 0] w = some w' ∧
      (∀ a, w'.enabled a = true → ∃ w'', w'.act a = .ok w'') ∧
      2 + w'.unclosed = w.unclosed ∧
      (w'.unclosed ≠ 0 → ∃ a : Act, a.closes = true ∧ w'.enabled a = true) ∧
      (w'.unclosed = 0 → w'.handles = [] ∧ w'.wakeup.closed = true) := by
  obtain ⟨w', hw'⟩ := Option.isSome_iff_exists.mp
    (show ((replay [.beginConnect ⟨true, true, true⟩, .quit] start).bind
      (replay [.onClosed, .orphanClosed 0])).isSome = true by decide)
  obtain ⟨w, hw, hmore⟩ := Option.bind_eq_some_iff.mp hw'
  exact ⟨w, w', hw, hmore, quit_frees (run_replay .start hw) (by decide) (run_replay .start hmore)⟩

/-- A walk that came first would leave the timer behind: closed, and with no callback to free it. -/
example : ((start.beginConnect ⟨true, true, true⟩).bind fun w => w.walk.resetTimer).toOption.map
    (fun w : World => w.orphans.map fun l => (l.there, l.due)) = some [(true, false)] := by decide

end Runs

end World

end LogTransfer.ClientLoop
