import LogTransfer.LoopHandle
import Mathlib.Data.List.Basic

/-!
# The timer over the event loop

A `Timer` rings once, a fixed time after it was last started or restarted, and
not after it was stopped or destroyed: it is an alarm clock. `C` is what it is
given to call.
-/

set_option autoImplicit false

namespace LogTransfer.Net
open LoopHandle

section Source

variable {C : Type}

/-- The object, the deadline of an active handle and the time of the loop. -/
structure Timer (C : Type) where
  life : Life
  callback : Option C
  timeoutMs : ℕ
  deadline : Option ℕ
  now : ℕ

namespace Timer

def create (started : Bool) : Timer C :=
  { life := .init started, callback := none, timeoutMs := 0, deadline := none, now := 0 }

/-- `uv_timer_start` without a repeat; a closing handle is refused. -/
def uvStart (t : Timer C) : Except Fault (Timer C) :=
  if !t.life.there then .error .freed
  else .ok (if t.life.takes then { t with deadline := some (t.now + t.timeoutMs) } else t)

def start (t : Timer C) (timeoutMs : ℕ) (callback : Option C) : Except Fault (Timer C) :=
  if !t.life.held then .ok t
  else { t with callback := callback, timeoutMs := timeoutMs }.uvStart

def isActive (t : Timer C) : Bool := t.life.held && t.deadline.isSome

def restart (t : Timer C) : Except Fault (Timer C) :=
  if !t.life.held || !t.isActive then .ok t else t.uvStart

def stop (t : Timer C) : Except Fault (Timer C) :=
  if !t.life.held then .ok t
  else if !t.life.there then .error .freed
  else .ok { t with deadline := none }

/-- A handle that closes is no longer active. -/
def destroy (t : Timer C) : Except Fault (Timer C) := do
  let life ← t.life.destroy
  pure { t with life := life, deadline := if life.takes then t.deadline else none }

/-- The loop stops a timer that is due before it calls; what runs is a copy. -/
def onTimeoutCb (t : Timer C) : Except Fault (Timer C × Option C) :=
  match t.life.memory with
  | none => .error .freed
  | some h =>
    if !h.data then .ok ({ t with deadline := none }, none)
    else if t.life.alive then .ok ({ t with deadline := none }, t.callback)
    else .error .freed

def onCloseCb (t : Timer C) : Except Fault (Timer C) := do
  let life ← t.life.onClose
  pure { t with life := life }

/-- The calls of the owner, also from the callback, and then the loop's. -/
inductive Act (C : Type) where
  | start (timeoutMs : ℕ) (callback : Option C)
  | restart
  | stop
  | destroy
  | tick (ms : ℕ)
  | fire
  | closed

def enabled (t : Timer C) : Act C → Bool
  | .start _ _ | .restart | .stop | .destroy => t.life.alive
  | .tick _ => true
  | .fire => t.deadline.any (· ≤ t.now)
  | .closed => t.life.due

/-- A step and the callback that it runs. -/
def act (t : Timer C) : Act C → Except Fault (Timer C × Option C)
  | .start timeoutMs callback => (t.start timeoutMs callback).map (·, none)
  | .restart => t.restart.map (·, none)
  | .stop => t.stop.map (·, none)
  | .destroy => t.destroy.map (·, none)
  | .tick ms => .ok ({ t with now := t.now + ms }, none)
  | .fire => t.onTimeoutCb
  | .closed => t.onCloseCb.map (·, none)

inductive Run (t : Timer C) : List (Act C) → List C → Timer C → Prop
  | start : Run t [] [] t
  | step {acts : List (Act C)} {rung : List C} {t₁ t₂ : Timer C} {call : Option C} (a : Act C) :
      Run t acts rung t₁ → t₁.enabled a = true → t₁.act a = .ok (t₂, call) →
      Run t (acts ++ [a]) (rung ++ call.toList) t₂

end Timer

end Source

section Alarm

variable {C : Type}

/-- A clock that was set: what it rings, after how long, and how long ago. -/
structure Alarm (C : Type) where
  callback : Option C
  interval : ℕ
  elapsed : ℕ

namespace Alarm

/-- What a step makes of an alarm; `started` is a timer that got its handle. -/
def after (started : Bool) (alarm : Option (Alarm C)) : Timer.Act C → Option (Alarm C)
  | .start timeoutMs callback => if started then some ⟨callback, timeoutMs, 0⟩ else none
  | .restart => alarm.map fun a => { a with elapsed := 0 }
  | .stop | .destroy | .fire => none
  | .tick ms => alarm.map fun a => { a with elapsed := a.elapsed + ms }
  | .closed => alarm

def of (started : Bool) (acts : List (Timer.Act C)) : Option (Alarm C) :=
  acts.foldl (after started) none

def ring (alarm : Option (Alarm C)) : Timer.Act C → List C
  | .fire => (alarm.bind (·.callback)).toList
  | .start _ _ | .restart | .stop | .destroy | .tick _ | .closed => []

/-- What the alarms of a run have rung. -/
def rings (started : Bool) : Option (Alarm C) → List (Timer.Act C) → List C
  | _, [] => []
  | alarm, a::acts => ring alarm a ++ rings started (after started alarm a) acts

theorem of_snoc (started : Bool) (acts : List (Timer.Act C)) (a : Timer.Act C) :
    of started (acts ++ [a]) = after started (of started acts) a := by
  rw [of, List.foldl_append]
  rfl

theorem rings_snoc (started : Bool) (alarm : Option (Alarm C)) (acts : List (Timer.Act C))
    (a : Timer.Act C) :
    rings started alarm (acts ++ [a]) =
      rings started alarm acts ++ ring (acts.foldl (after started) alarm) a := by
  induction acts generalizing alarm with
  | nil => simp [rings]
  | cons b acts ih => rw [List.cons_append, rings, ih, rings, List.append_assoc, List.foldl_cons]

end Alarm

end Alarm

section Refinement

namespace Timer

variable {C : Type} {started : Bool} {t t' : Timer C} {p : HandlePhase} {alarm : Option (Alarm C)}
  {a : Act C} {call : Option C}

/-- The timer is set as the alarm is. -/
structure Shows (started : Bool) (t : Timer C) (p : HandlePhase) (alarm : Option (Alarm C)) :
    Prop where
  life : t.life = p.life
  phase : if started then p = .opened ∨ p = .orphaned ∨ p = .gone else p = .refused ∨ p = .gone
  unset : alarm = none → t.deadline = none
  set : ∀ a, alarm = some a → p = .opened ∧ t.callback = a.callback ∧ t.timeoutMs = a.interval ∧
    ∃ since, since + a.elapsed = t.now ∧ t.deadline = some (since + a.interval)

theorem shows_create (started : Bool) :
    Shows started (create (C := C) started) (if started then .opened else .refused) none where
  life := HandlePhase.init_life started
  phase := by cases started <;> simp
  unset _ := rfl
  set a h := by cases h

theorem opened_of_alive (h : Shows started t p alarm) (ha : t.life.alive = true) :
    started = true ∧ p = .opened ∨ started = false ∧ p = .refused := by
  have hphase := h.phase
  rw [h.life] at ha
  cases started with
  | true =>
    obtain rfl | rfl | rfl := hphase
    · exact .inl ⟨rfl, rfl⟩
    · cases ha
    · cases ha
  | false =>
    obtain rfl | rfl := hphase
    · exact .inr ⟨rfl, rfl⟩
    · cases ha

theorem unset_of_refused (h : Shows started t p alarm) (hp : p ≠ .opened) : alarm = none := by
  cases alarm with
  | none => rfl
  | some a => exact absurd (h.set a rfl).1 hp

theorem shows_start (h : Shows started t p alarm) (ha : t.life.alive = true) (timeoutMs : ℕ)
    (callback : Option C) :
    ∃ t', t.start timeoutMs callback = .ok t' ∧
      Shows started t' p (Alarm.after started alarm (.start timeoutMs callback)) := by
  obtain ⟨rfl, rfl⟩ | ⟨rfl, rfl⟩ := opened_of_alive h ha
  · refine ⟨{ t with callback := callback, timeoutMs := timeoutMs,
                     deadline := some (t.now + timeoutMs) }, ?_, h.life, h.phase,
      fun hn => (by cases hn), fun a hs => ?_⟩
    · rw [start, uvStart, h.life]
      rfl
    · cases hs
      exact ⟨rfl, rfl, rfl, t.now, rfl, rfl⟩
  · refine ⟨t, by rw [start, h.life]; rfl, h.life, h.phase, fun _ => ?_, fun a hs => by cases hs⟩
    exact h.unset (unset_of_refused h (by decide))

theorem shows_restart (h : Shows started t p alarm) :
    ∃ t', t.restart = .ok t' ∧ Shows started t' p (Alarm.after started alarm .restart) := by
  have hidle : t.deadline = none → alarm = none → ∃ t', t.restart = .ok t' ∧
      Shows started t' p (Alarm.after started alarm .restart) := fun hd hn => by
    refine ⟨t, ?_, hn ▸ h⟩
    rw [restart, isActive, hd, Option.isSome_none, Bool.and_false, Bool.not_false, Bool.or_true,
      if_pos rfl]
  cases alarm with
  | none => exact hidle (h.unset rfl) rfl
  | some alarm =>
    obtain ⟨rfl, hcallback, hinterval, since, hsince, hdeadline⟩ := h.set alarm rfl
    refine ⟨{ t with deadline := some (t.now + t.timeoutMs) }, ?_, h.life, h.phase,
      fun hn => (by cases hn), fun a hs => ?_⟩
    · rw [restart, isActive, hdeadline, uvStart, h.life]
      rfl
    · cases hs
      exact ⟨rfl, hcallback, hinterval, t.now, rfl, by rw [hinterval]⟩

theorem shows_stop (h : Shows started t p alarm) (ha : t.life.alive = true) :
    ∃ t', t.stop = .ok t' ∧ Shows started t' p none := by
  obtain ⟨rfl, rfl⟩ | ⟨rfl, rfl⟩ := opened_of_alive h ha
  · exact ⟨{ t with deadline := none }, by rw [stop, h.life]; rfl, h.life, h.phase, fun _ => rfl,
      fun a hs => by cases hs⟩
  · exact ⟨t, by rw [stop, h.life]; rfl, h.life, h.phase,
      fun _ => h.unset (unset_of_refused h (by decide)), fun a hs => by cases hs⟩

theorem shows_destroy (h : Shows started t p alarm) (ha : t.life.alive = true) :
    ∃ t', t.destroy = .ok t' ∧ Shows started t' p.destroyed none := by
  refine ⟨{ t with life := p.destroyed.life, deadline := none }, ?_, rfl, ?_, fun _ => rfl,
    fun a hs => by cases hs⟩
  · have htakes : p.destroyed.life.takes = false := by cases p <;> rfl
    rw [destroy, h.life, HandlePhase.destroy_life (h.life ▸ ha)]
    change Except.ok _ = _
    rw [htakes]
    rfl
  · obtain ⟨rfl, rfl⟩ | ⟨rfl, rfl⟩ := opened_of_alive h ha <;> simp [HandlePhase.destroyed]

theorem shows_closed (h : Shows started t p alarm) (hd : t.life.due = true) :
    ∃ t', t.onCloseCb = .ok t' ∧ Shows started t' .gone alarm := by
  rw [h.life] at hd
  have hphase := h.phase
  obtain ⟨rfl, -⟩ | ⟨rfl, hclose⟩ := HandlePhase.onClose_life hd
  · cases started <;> simp at hphase
  · refine ⟨{ t with life := HandlePhase.life .gone }, ?_, rfl, ?_, h.unset, fun a hs => ?_⟩
    · rw [onCloseCb, h.life, hclose]
      rfl
    · cases started <;> simp
    · cases (h.set a hs).1

theorem shows_fire (h : Shows started t p alarm) (he : t.enabled .fire = true) :
    ∃ t', t.onTimeoutCb = .ok (t', alarm.bind (·.callback)) ∧ Shows started t' p none := by
  cases alarm with
  | none => simp [enabled, h.unset rfl] at he
  | some alarm =>
    obtain ⟨rfl, hcallback, -⟩ := h.set alarm rfl
    refine ⟨{ t with deadline := none }, ?_, h.life, h.phase, fun _ => rfl,
      fun a hs => by cases hs⟩
    rw [onTimeoutCb, h.life, Option.bind_some, ← hcallback]
    rfl

/-- No step is at fault, and each does to the timer what it does to the alarm. -/
theorem shows_act (h : Shows started t p alarm) (he : t.enabled a = true) :
    ∃ t' p' call, t.act a = .ok (t', call) ∧ call.toList = Alarm.ring alarm a ∧
      Shows started t' p' (Alarm.after started alarm a) := by
  cases a with
  | start timeoutMs callback =>
    obtain ⟨t', hact, hs⟩ := shows_start h he timeoutMs callback
    exact ⟨t', p, none, by rw [act, hact]; rfl, rfl, hs⟩
  | restart =>
    obtain ⟨t', hact, hs⟩ := shows_restart h
    exact ⟨t', p, none, by rw [act, hact]; rfl, rfl, hs⟩
  | stop =>
    obtain ⟨t', hact, hs⟩ := shows_stop h he
    exact ⟨t', p, none, by rw [act, hact]; rfl, rfl, hs⟩
  | destroy =>
    obtain ⟨t', hact, hs⟩ := shows_destroy h he
    exact ⟨t', _, none, by rw [act, hact]; rfl, rfl, hs⟩
  | tick ms =>
    refine ⟨_, p, none, rfl, rfl, h.life, h.phase, fun hn => ?_, fun a hs => ?_⟩
    · exact h.unset (Option.map_eq_none_iff.mp hn)
    · obtain ⟨alarm, rfl, rfl⟩ := Option.map_eq_some_iff.mp hs
      obtain ⟨hp, hcallback, hinterval, since, hsince, hdeadline⟩ := h.set alarm rfl
      exact ⟨hp, hcallback, hinterval, since, by rw [← hsince]; exact (Nat.add_assoc _ _ _).symm,
        hdeadline⟩
  | fire =>
    obtain ⟨t', hact, hs⟩ := shows_fire h he
    exact ⟨t', p, _, hact, rfl, hs⟩
  | closed =>
    obtain ⟨t', hact, hs⟩ := shows_closed h he
    exact ⟨t', _, none, by rw [act, hact]; rfl, rfl, hs⟩

theorem run_shows {acts : List (Act C)} {rung : List C} (hr : Run (create started) acts rung t) :
    (∃ p, Shows started t p (Alarm.of started acts)) ∧
      rung = Alarm.rings started none acts := by
  induction hr with
  | start => exact ⟨⟨_, shows_create started⟩, rfl⟩
  | step a _ he hact ih =>
    obtain ⟨⟨p, hs⟩, rfl⟩ := ih
    obtain ⟨t₂, p₂, call, hact', hcall, hs₂⟩ := shows_act hs he
    cases hact.symm.trans hact'
    rw [Alarm.of_snoc, Alarm.rings_snoc, hcall]
    exact ⟨⟨p₂, hs₂⟩, rfl⟩

/-- A timer rings as an alarm clock: what was last set, once that time has gone
by since it was last set or set back, and never after it was stopped; no step is
at fault. When nothing is due the handle of a destroyed timer is gone. -/
theorem timer_is_alarm {acts : List (Act C)} {rung : List C}
    (hr : Run (create started) acts rung t) :
    rung = Alarm.rings started none acts ∧
      (t.enabled .fire = true ↔
        ∃ a, Alarm.of started acts = some a ∧ a.interval ≤ a.elapsed) ∧
      (∀ a, t.enabled a = true → ∃ r, t.act a = .ok r) ∧
      (t.life.alive = false → t.enabled .closed = false → t.life.memory = none) := by
  obtain ⟨⟨p, hs⟩, hrung⟩ := run_shows hr
  refine ⟨hrung, ?_, fun a he => ?_, fun hdead hdue => ?_⟩
  · cases halarm : Alarm.of started acts with
    | none => simp [enabled, hs.unset halarm]
    | some alarm =>
      obtain ⟨-, -, -, since, hsince, hdeadline⟩ := hs.set alarm halarm
      simp only [enabled, hdeadline, Option.any_some, decide_eq_true_eq, Option.some.injEq]
      constructor
      · exact fun hle => ⟨alarm, rfl, by omega⟩
      · rintro ⟨_, rfl, hle⟩
        omega
  · obtain ⟨t', -, call, hact, -⟩ := shows_act hs he
    exact ⟨(t', call), hact⟩
  · rw [enabled, hs.life] at hdue
    rw [hs.life] at hdead ⊢
    obtain rfl | rfl := HandlePhase.orphaned_or_gone hdead
    · cases hdue
    · rfl

/-- Started, set back once, and rung. -/
def sampleRung : Timer ℕ :=
  { life := HandlePhase.life .opened, callback := some 7, timeoutMs := 5, deadline := none,
    now := 8 }

def sampleActs : List (Act ℕ) := [.start 5 (some 7), .tick 3, .restart, .tick 5, .fire]

theorem run_silent {t₀ : Timer C} {acts : List (Act C)} {rung : List C} (hr : Run t₀ acts rung t)
    (he : t.enabled a = true) (hact : t.act a = .ok (t', none)) :
    Run t₀ (acts ++ [a]) rung t' := by
  have hstep := Run.step a hr he hact
  rwa [Option.toList_none, List.append_nil] at hstep

theorem sampleRung_run : Run (create true) sampleActs [7] sampleRung := by
  have hstart : Run (create true) [.start 5 (some 7)] []
      { sampleRung with deadline := some 5, now := 0 } := run_silent .start rfl rfl
  have htick : Run (create true) [.start 5 (some 7), .tick 3] []
      { sampleRung with deadline := some 5, now := 3 } := run_silent hstart rfl rfl
  have hback : Run (create true) [.start 5 (some 7), .tick 3, .restart] []
      { sampleRung with deadline := some 8, now := 3 } := run_silent htick rfl rfl
  have hdue : Run (create true) [.start 5 (some 7), .tick 3, .restart, .tick 5] []
      { sampleRung with deadline := some 8 } := run_silent hback rfl rfl
  exact Run.step .fire hdue rfl (show act _ .fire = .ok (sampleRung, some 7) from rfl)

theorem timer_is_alarm_rung :
    [7] = Alarm.rings true none sampleActs ∧
      (sampleRung.enabled .fire = true ↔
        ∃ a, Alarm.of true sampleActs = some a ∧ a.interval ≤ a.elapsed) ∧
      (∀ a, sampleRung.enabled a = true → ∃ r, sampleRung.act a = .ok r) ∧
      (sampleRung.life.alive = false → sampleRung.enabled .closed = false →
        sampleRung.life.memory = none) :=
  timer_is_alarm sampleRung_run

end Timer

end Refinement

end LogTransfer.Net
