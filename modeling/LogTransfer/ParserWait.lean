import LogTransfer.CondVar
import LogTransfer.ParserThread

/-!
# The wait of the parser thread

`run` waits at a condition variable under the mutex; the loop thread changes what
it waits for and notifies in steps of their own. `stop` joins the thread before
the handles that it sends through are closed.
-/

set_option autoImplicit false

namespace LogTransfer.ParserWait
open CondVar

section Source

/-- What the loop thread has left of the call it is in. -/
inductive Duty where
  | idle
  /-- The empty critical section of `commitSlot`. -/
  | lock
  | notify (stopping : Bool)
  | join
  deriving DecidableEq, Repr

/-- The calls of the loop thread and its callbacks from the handles. -/
inductive LoopOp where
  | beginSession
  | commitSlot (data : Bytes)
  | markUploadComplete (id : ℕ)
  | abortSession
  | setReadStopped (stopped : Bool)
  | onCompletionAsync
  | onResumeAsync
  | onAbortDoneAsync
  | stop

variable [Doubles]

/-- `armed` and a true predicate hold the mutex; a `waiter` that is awake is
anywhere else. -/
structure ParserWorld where
  thread : ParserThread
  stopRequested : Bool
  waiter : Waiter
  returned : Bool
  duty : Duty
  handlesOpen : Bool

def started : ParserWorld :=
  { thread := .initial, stopRequested := false, waiter := .awake, returned := false,
    duty := .idle, handlesOpen := true }

/-- What a call changes, the stop flag apart. -/
def LoopOp.change : LoopOp → ParserThread → ParserThread
  | .beginSession, t => t.beginSession
  | .commitSlot data, t => t.commitSlot data
  | .markUploadComplete id, t => t.markUploadComplete id
  | .abortSession, t => t.abortSession
  | .setReadStopped stopped, t => t.setReadStopped stopped
  | .onCompletionAsync, t => { t.takeResult.2 with completionPending := false }
  | .onResumeAsync, t => { t with resumePending := false }
  | .onAbortDoneAsync, t => { t with abortDonePending := false }
  | .stop, t => t

/-- The calls that store under the mutex. -/
def LoopOp.locks : LoopOp → Bool
  | .markUploadComplete _ | .abortSession | .stop => true
  | .beginSession | .commitSlot _ | .setReadStopped _ | .onCompletionAsync | .onResumeAsync
  | .onAbortDoneAsync => false

def LoopOp.stops : LoopOp → Bool
  | .stop => true
  | .beginSession | .commitSlot _ | .markUploadComplete _ | .abortSession | .setReadStopped _
  | .onCompletionAsync | .onResumeAsync | .onAbortDoneAsync => false

def LoopOp.duty : LoopOp → Duty
  | .commitSlot _ => .lock
  | .markUploadComplete _ | .abortSession => .notify false
  | .stop => .notify true
  | .beginSession | .setReadStopped _ | .onCompletionAsync | .onResumeAsync
  | .onAbortDoneAsync => .idle

namespace ParserWorld

variable (w : ParserWorld)

/-- The predicate of the wait. -/
def ready : Bool := w.stopRequested || w.thread.awake

/-- The wait, up to the stop flag that is read before the mutex is released. -/
def waitTurn : Option ParserWorld :=
  match w.waiter with
  | .awake =>
    if w.ready then
      some (if w.stopRequested then { w with returned := true }
        else { w with thread := w.thread.goto .checkAbort })
    else some { w with waiter := .armed }
  | .armed => some { w with waiter := .blocked }
  | .blocked => none

/-- A step of `run`: `parserStep`, with the stop flag where the code reads it. -/
def parserTurn : Option ParserWorld :=
  if w.returned then none
  else if w.thread.pc = .wait then w.waitTurn
  else if w.thread.pc = .checkAbortSlot && w.stopRequested then
    some { w with thread := w.thread.goto .checkUpload }
  else w.thread.parserStep.map fun t => { w with thread := t }

/-- Whether the mutex is free. -/
def free : Bool := w.waiter ≠ .armed

/-- A call begins; after `stop` there is none. -/
def loopTurn (op : LoopOp) : Option ParserWorld :=
  if w.duty = .idle && w.handlesOpen && (!op.locks || w.free) then
    some { w with thread := op.change w.thread, duty := op.duty,
                  stopRequested := w.stopRequested || op.stops }
  else none

/-- The call goes on. -/
def dutyTurn : Option ParserWorld :=
  match w.duty with
  | .idle => none
  | .lock => if w.free then some { w with duty := .notify false } else none
  | .notify stopping =>
    some { w with waiter := w.waiter.notified, duty := if stopping then .join else .idle }
  | .join => if w.returned then some { w with duty := .idle, handlesOpen := false } else none

/-- The condition variable may wake the thread for no reason. -/
def spurious : Option ParserWorld :=
  match w.waiter with
  | .blocked => some { w with waiter := .awake }
  | .awake | .armed => none

inductive Act where
  | parser | loop (op : LoopOp) | duty | spurious

def step : Act → Option ParserWorld
  | .parser => w.parserTurn
  | .loop op => w.loopTurn op
  | .duty => w.dutyTurn
  | .spurious => w.spurious

inductive Reach : ParserWorld → Prop
  | start : Reach started
  | step {w w' : ParserWorld} (a : Act) : Reach w → w.step a = some w' → Reach w'

end ParserWorld

end Source

section Invariant

variable [Doubles]

/-- The notifications that the loop thread's call still has to make. -/
def owed : Duty → ℕ
  | .lock | .notify _ => 1
  | .idle | .join => 0

namespace ParserWorld

structure Sync (w : ParserWorld) : Prop where
  owed : Owed (w.ready = true) (owed w.duty) w.waiter
  timely : ∀ stopping, w.duty = .notify stopping → ¬ (w.waiter = .armed ∧ w.ready = true)
  asleep : w.waiter ≠ .awake → w.thread.pc = .wait ∧ w.returned = false
  stops : w.returned = true → w.stopRequested = true
  joins : w.duty = .join ∨ w.duty = .notify true → w.stopRequested = true
  closes : w.handlesOpen = false → w.returned = true ∧ w.duty = .idle

variable {w w' : ParserWorld}

theorem sync_started : started.Sync where
  owed := owed_awake
  timely s h := by cases h
  asleep h := absurd rfl h
  stops h := by cases h
  joins h := by obtain h | h := h <;> cases h
  closes h := by cases h

/-- While the thread is awake its steps disturb nothing. -/
theorem sync_awake (h : w.Sync) (t : ParserThread) (hw : w.waiter = .awake) :
    ({ w with thread := t } : ParserWorld).Sync where
  owed := by
    change Owed _ _ w.waiter
    rw [hw]
    exact owed_awake
  timely s _ ha := by cases hw.symm.trans ha.1
  asleep hn := absurd hw hn
  stops := h.stops
  joins := h.joins
  closes := h.closes

theorem sync_waitTurn (h : w.Sync) (hr : w.returned = false) (hpc : w.thread.pc = .wait)
    (hact : w.waitTurn = some w') : w'.Sync := by
  unfold waitTurn at hact
  split at hact
  · rename_i hw
    split at hact
    · split at hact
      · rename_i hstop
        obtain rfl := Option.some.inj hact
        refine ⟨by rw [hw]; exact owed_awake, fun s _ ha => ?_, fun hn => absurd hw hn,
          fun _ => hstop, h.joins, fun hc => ⟨rfl, (h.closes hc).2⟩⟩
        cases hw.symm.trans ha.1
      · obtain rfl := Option.some.inj hact
        exact sync_awake h _ hw
    · rename_i hnot
      obtain rfl := Option.some.inj hact
      exact ⟨owed_armed hnot, fun s _ ha => hnot ha.2, fun _ => ⟨hpc, hr⟩, h.stops, h.joins,
        h.closes⟩
  · rename_i hw
    obtain rfl := Option.some.inj hact
    have howed := h.owed
    rw [hw] at howed
    exact ⟨owed_blocked howed, fun s _ ha => (by cases ha.1), fun _ => ⟨hpc, hr⟩, h.stops,
      h.joins, h.closes⟩
  · cases hact

theorem sync_thread (h : w.Sync) (hact : w.parserTurn = some w') : w'.Sync := by
  unfold parserTurn at hact
  split at hact
  · cases hact
  · rename_i hr
    split at hact
    · rename_i hpc
      exact sync_waitTurn h (by simpa using hr) hpc hact
    · rename_i hpc
      have hw : w.waiter = .awake := by
        by_contra hn
        exact hpc (h.asleep hn).1
      split at hact
      · obtain rfl := Option.some.inj hact
        exact sync_awake h _ hw
      · obtain ⟨t, -, rfl⟩ := Option.map_eq_some_iff.mp hact
        exact sync_awake h t hw

theorem change_pc (op : LoopOp) (t : ParserThread) : (op.change t).pc = t.pc := by
  cases op <;> rfl

/-- A call without a notification makes no predicate true. -/
theorem change_awake {op : LoopOp} (hop : op.duty = .idle) {t : ParserThread}
    (h : (op.change t).awake = true) : t.awake = true := by
  cases op with
  | beginSession =>
    simp only [LoopOp.change, ParserThread.beginSession, ParserThread.awake, Bool.or_false,
      Bool.or_eq_true] at h ⊢
    exact h.elim (fun h => .inl (.inl h)) .inr
  | commitSlot data => cases hop
  | markUploadComplete id => cases hop
  | abortSession => cases hop
  | stop => cases hop
  | _ => exact h

theorem sync_loop (h : w.Sync) {op : LoopOp} (hact : w.loopTurn op = some w') : w'.Sync := by
  unfold loopTurn at hact
  split at hact
  · rename_i hcan
    obtain rfl := Option.some.inj hact
    simp only [Bool.and_eq_true, decide_eq_true_eq] at hcan
    obtain ⟨⟨hidle, hopen⟩, hlock⟩ := hcan
    refine ⟨?_, fun s hs ha => ?_, fun hn => ?_, fun hr => ?_, fun hj => ?_, fun hc => ?_⟩
    · by_cases hop : op.duty = .idle
      · have howed := h.owed
        rw [hidle] at howed
        refine owed_mono howed (fun hready => ?_) (Nat.zero_le _)
        have hstop : op.stops = false := by cases op <;> first | rfl | cases hop
        simp only [ready, hstop, Bool.or_false, Bool.or_eq_true] at hready ⊢
        exact hready.imp id (change_awake hop)
      · refine owed_change ?_
        cases op <;> first | exact Nat.one_pos | exact absurd rfl hop
    · have hlocks : op.locks = true := by cases op <;> first | rfl | cases hs
      rw [hlocks] at hlock
      simp only [free, Bool.not_true, Bool.false_or, decide_eq_true_eq] at hlock
      exact hlock ha.1
    · rw [change_pc]
      exact h.asleep hn
    · rw [h.stops hr]
      rfl
    · have hstop : op.stops = true := by
        cases op <;> first | rfl | (obtain hj | hj := hj <;> cases hj)
      rw [hstop, Bool.or_true]
    · rw [hopen] at hc
      cases hc
  · cases hact

theorem sync_duty (h : w.Sync) (hact : w.dutyTurn = some w') : w'.Sync := by
  unfold dutyTurn at hact
  split at hact
  · cases hact
  · rename_i hd
    split at hact
    · rename_i hfree
      obtain rfl := Option.some.inj hact
      refine ⟨owed_change Nat.one_pos, fun s _ ha => ?_, h.asleep, h.stops,
        fun hj => (by obtain hj | hj := hj <;> cases hj),
        fun hc => (by cases hd.symm.trans (h.closes hc).2)⟩
      exact of_decide_eq_true hfree ha.1
    · cases hact
  · rename_i stopping hd
    obtain rfl := Option.some.inj hact
    have howed := h.owed
    rw [hd] at howed
    have hnotified := (owed_notified howed).mpr fun hm => h.timely stopping hd ⟨hm.1, hm.2.1⟩
    have hwaiter : w.waiter.notified ≠ .awake → w.waiter ≠ .awake := fun hn hw => by
      rw [hw] at hn
      exact hn rfl
    refine ⟨owed_mono hnotified id (Nat.zero_le _), fun s hs => ?_,
      fun hn => h.asleep (hwaiter hn), h.stops, fun hj => ?_,
      fun hc => (by cases hd.symm.trans (h.closes hc).2)⟩
    · cases stopping <;> cases hs
    · cases stopping with
      | true => exact h.joins (.inr hd)
      | false => obtain hj | hj := hj <;> cases hj
  · rename_i hd
    split at hact
    · rename_i hr
      obtain rfl := Option.some.inj hact
      have howed := h.owed
      rw [hd] at howed
      exact ⟨howed, fun s hs => (by cases hs), h.asleep, h.stops,
        fun hj => (by obtain hj | hj := hj <;> cases hj), fun _ => ⟨hr, rfl⟩⟩
    · cases hact

theorem sync_spurious (h : w.Sync) (hact : w.spurious = some w') : w'.Sync := by
  unfold spurious at hact
  split at hact
  · obtain rfl := Option.some.inj hact
    exact ⟨owed_awake, fun s _ ha => (by cases ha.1), fun hn => absurd rfl hn, h.stops, h.joins,
      h.closes⟩
  · cases hact
  · cases hact

theorem reach_sync (h : w.Reach) : w.Sync := by
  induction h with
  | start => exact sync_started
  | step a _ hact ih =>
    cases a with
    | parser => exact sync_thread ih hact
    | loop op => exact sync_loop ih hact
    | duty => exact sync_duty ih hact
    | spurious => exact sync_spurious ih hact

end ParserWorld

end Invariant

section Progress

variable [Doubles]

open ParserThread

theorem parserStep_some {t : ParserThread} (h : t.pc ≠ .wait) : ∃ t', t.parserStep = some t' := by
  unfold parserStep
  split
  · exact absurd ‹_› h
  all_goals exact ⟨_, rfl⟩

namespace ParserWorld

variable {w w' : ParserWorld}

theorem parserTurn_some (hr : w.returned = false) (hw : w.waiter = .awake) :
    ∃ w', w.parserTurn = some w' := by
  unfold parserTurn waitTurn
  rw [hr, if_neg (by decide), hw]
  split
  · dsimp only
    split <;> exact ⟨_, rfl⟩
  · rename_i hpc
    split
    · exact ⟨_, rfl⟩
    · obtain ⟨t, ht⟩ := parserStep_some hpc
      exact ⟨_, by rw [ht]; rfl⟩

/-- No wake-up is lost: between two calls of the loop thread, and while it joins,
the parser does not sleep on work, an abort or a stop; and it sends through no
handle that is closed. -/
theorem work_awake (h : w.Reach) :
    ((w.duty = .idle ∨ w.duty = .join) → w.ready = true →
      w.waiter = .awake ∧ (w.returned = false → ∃ w', w.parserTurn = some w')) ∧
      (w.handlesOpen = false → w.parserTurn = none) := by
  have hs := reach_sync h
  refine ⟨fun hd hready => ?_, fun hc => ?_⟩
  · have howed := hs.owed
    have hzero : owed w.duty = 0 := by obtain hd | hd := hd <;> rw [hd] <;> rfl
    rw [hzero] at howed
    have hawake : w.waiter = .awake := by
      by_contra hn
      exact absurd (howed hn hready) (Nat.lt_irrefl 0)
    exact ⟨hawake, fun hr => parserTurn_some hr hawake⟩
  · rw [parserTurn, if_pos (hs.closes hc).1]

/-- A slot was committed, and the thread has not looked. -/
def sampleSlot : ParserWorld := { started with thread := ParserThread.initial.commitSlot [] }

theorem sampleSlot_reach : sampleSlot.Reach := by
  have hcommit : Reach { sampleSlot with duty := .lock } :=
    .step (.loop (.commitSlot [])) .start rfl
  have hlock : Reach { sampleSlot with duty := .notify false } := .step .duty hcommit rfl
  exact .step .duty hlock rfl

omit [Doubles] in
theorem work_awake_slot :
    letI := wholeDoubles
    ((sampleSlot.duty = .idle ∨ sampleSlot.duty = .join) → sampleSlot.ready = true →
      sampleSlot.waiter = .awake ∧
        (sampleSlot.returned = false → ∃ w', sampleSlot.parserTurn = some w')) ∧
      (sampleSlot.handlesOpen = false → sampleSlot.parserTurn = none) :=
  letI := wholeDoubles
  work_awake sampleSlot_reach

/-- The steps of the thread until it returns, from each place. -/
def rank (t : ParserThread) : ℕ :=
  match t.pc with
  | .wait => 1
  | .clearUpload | .sendAbortDone => 2
  | .sendCompletion | .clearAbort => 3
  | .wakeResume _ => 4
  | .checkResume _ => 5
  | .resetState _ => 6
  | .drain _ => 7 + t.ring.length
  | .publish => 8 + t.ring.length
  | .writeFiles => 9 + t.ring.length
  | .flush => 10 + t.ring.length
  | .checkEmpty => 11 + t.ring.length
  | .checkUpload => 12 + t.ring.length
  | .checkAbortSlot => 13 + t.ring.length
  | .peek => 14 + t.ring.length
  | .checkAbort | .wakeReader => 15 + t.ring.length
  | .checkReadStopped => 16 + t.ring.length
  | .release => 17 + t.ring.length
  | .feed => 18 + t.ring.length

theorem rank_le (t : ParserThread) : rank t ≤ 18 + t.ring.length := by
  unfold rank
  split <;> omega

theorem rank_pos (t : ParserThread) : 0 < rank t := by
  unfold rank
  split <;> omega

/-- But for the next slot, every step comes nearer to the wait. -/
theorem rank_step {t t' : ParserThread} (h : t.parserStep = some t') (hw : t.pc ≠ .wait)
    (hslot : t.pc ≠ .checkAbortSlot) : rank t' < rank t := by
  cases step_of_parserStep h with
  | move pc he =>
    cases he with
    | wake hpc _ => exact absurd hpc hw
    | leaveSlot hpc _ => exact absurd hpc hslot
    | takeSlot hpc _ => exact absurd hpc hslot
    | noResume b hpc _ => cases b <;> simp [rank, goto, hpc, afterReset]
    | _ => simp only [rank, goto, *]; omega
  | wakeResume b hpc => cases b <;> simp [rank, hpc, afterReset]
  | release hpc => simp only [rank, hpc, List.length_tail]; omega
  | discard b hpc hring =>
    have hlen := List.length_pos_iff.mpr hring
    simp only [rank, hpc, List.length_tail]
    omega
  | enter hpc _ => simp only [rank, enterFinish, hpc]; omega
  | _ => simp only [rank, *]; omega

/-- Steps of the parser thread alone. -/
inductive Turns (w : ParserWorld) : ℕ → ParserWorld → Prop
  | start : Turns w 0 w
  | turn {n : ℕ} {w₁ w₂ : ParserWorld} :
      Turns w n w₁ → w₁.parserTurn = some w₂ → Turns w (n + 1) w₂

/-- The steps that are left of a thread that was told to stop. -/
def toReturn (w : ParserWorld) : ℕ := if w.returned then 0 else rank w.thread

/-- The thread is awake and was told to stop, and the loop thread waits for it. -/
structure Joining (w : ParserWorld) : Prop where
  duty : w.duty = .join
  stop : w.stopRequested = true
  awake : w.waiter = .awake

theorem joining_turn (h : w.Joining) (hact : w.parserTurn = some w') :
    w'.Joining ∧ w'.toReturn < w.toReturn := by
  unfold parserTurn at hact
  split at hact
  · cases hact
  · rename_i hr
    have hleft : w.toReturn = rank w.thread := if_neg hr
    split at hact
    · have hready : w.ready = true := by rw [ready, h.stop]; rfl
      rw [waitTurn, h.awake] at hact
      dsimp only at hact
      rw [if_pos hready, if_pos h.stop] at hact
      obtain rfl := Option.some.inj hact
      exact ⟨⟨h.duty, h.stop, rfl⟩, by rw [hleft]; exact rank_pos _⟩
    · rename_i hpc
      split at hact
      · rename_i hslot
        have hat : w.thread.pc = .checkAbortSlot := by
          simpa using (Bool.and_eq_true_iff.mp hslot).1
        obtain rfl := Option.some.inj hact
        refine ⟨⟨h.duty, h.stop, h.awake⟩, ?_⟩
        rw [hleft, toReturn, if_neg hr]
        simp [rank, goto, hat]
      · rename_i hslot
        obtain ⟨t, ht, rfl⟩ := Option.map_eq_some_iff.mp hact
        refine ⟨⟨h.duty, h.stop, h.awake⟩, ?_⟩
        rw [hleft, toReturn, if_neg hr]
        exact rank_step ht hpc fun hat => hslot (by rw [hat, h.stop]; rfl)

theorem joining_turns {n : ℕ} (h : w.Joining) (ht : w.Turns n w') :
    w'.Joining ∧ n + w'.toReturn ≤ w.toReturn := by
  induction ht with
  | start => exact ⟨h, (Nat.zero_add _).le⟩
  | turn _ hact ih =>
    obtain ⟨hjoin, hle⟩ := ih
    obtain ⟨hjoin', hlt⟩ := joining_turn hjoin hact
    exact ⟨hjoin', by omega⟩

/-- `stop` returns: once the thread was notified it has few steps left, whatever
it was at, and the last of them ends it, so that the handles are closed. -/
theorem join_returns (h : w.Reach) (hd : w.duty = .join) {n : ℕ} (ht : w.Turns n w') :
    n ≤ 18 + w.thread.ring.length ∧
      (w'.parserTurn = none → w'.returned = true ∧
        ∃ w'', w'.dutyTurn = some w'' ∧ w''.handlesOpen = false) := by
  have hs := reach_sync h
  have hstop := hs.joins (.inl hd)
  have hready : w.ready = true := by rw [ready, hstop]; rfl
  have hawake : w.waiter = .awake := by
    by_contra hn
    have howed := hs.owed
    rw [hd] at howed
    exact absurd (howed hn hready) (Nat.lt_irrefl 0)
  obtain ⟨hjoin, hle⟩ := joining_turns ⟨hd, hstop, hawake⟩ ht
  have hrank : w.toReturn ≤ 18 + w.thread.ring.length := by
    unfold toReturn
    split
    · exact Nat.zero_le _
    · exact rank_le _
  refine ⟨by omega, fun hnone => ?_⟩
  have hret : w'.returned = true := by
    by_contra hr
    obtain ⟨w'', hsome⟩ := parserTurn_some (by simpa using hr) hjoin.awake
    cases hnone.symm.trans hsome
  refine ⟨hret, { w' with duty := .idle, handlesOpen := false }, ?_, rfl⟩
  rw [dutyTurn, hjoin.duty]
  exact if_pos hret

/-- Told to stop while there is a slot. -/
def sampleStop : ParserWorld := { sampleSlot with stopRequested := true, duty := .join }

theorem sampleStop_reach : sampleStop.Reach := by
  have hstop : Reach { sampleSlot with stopRequested := true, duty := .notify true } :=
    .step (.loop .stop) sampleSlot_reach rfl
  exact .step .duty hstop rfl

omit [Doubles] in
theorem join_returns_slot :
    letI := wholeDoubles
    1 ≤ 18 + sampleStop.thread.ring.length ∧
      (({ sampleStop with returned := true } : ParserWorld).parserTurn = none →
        ({ sampleStop with returned := true } : ParserWorld).returned = true ∧
          ∃ w'', ({ sampleStop with returned := true } : ParserWorld).dutyTurn = some w'' ∧
            w''.handlesOpen = false) :=
  letI := wholeDoubles
  join_returns sampleStop_reach rfl (.turn .start rfl)

end ParserWorld

end Progress

section Transparency

variable [Doubles]

namespace ParserWorld

/-- The thread as the rest of this development has it, where waiting is looking
again. -/
inductive Plain : ParserThread → Prop
  | start : Plain .initial
  | parser {t t' : ParserThread} : Plain t → t.parserStep = some t' → Plain t'
  | loop {t : ParserThread} (op : LoopOp) : Plain t → op.stops = false → Plain (op.change t)

variable {w w' : ParserWorld} {t : ParserThread}

theorem parserTurn_stop (hact : w.parserTurn = some w') :
    w'.stopRequested = w.stopRequested := by
  unfold parserTurn waitTurn at hact
  split at hact
  · cases hact
  · split at hact
    · split at hact
      · split at hact
        · obtain rfl := Option.some.inj hact
          split <;> rfl
        · obtain rfl := Option.some.inj hact
          rfl
      · obtain rfl := Option.some.inj hact
        rfl
      · cases hact
    · split at hact
      · obtain rfl := Option.some.inj hact
        rfl
      · obtain ⟨t, -, rfl⟩ := Option.map_eq_some_iff.mp hact
        rfl

/-- Until `stop`, the thread does what the plain one does, or nothing. -/
theorem parserTurn_plain (hr : w.stopRequested = false) (hact : w.parserTurn = some w') :
    w'.thread = w.thread ∨ w.thread.parserStep = some w'.thread := by
  unfold parserTurn waitTurn at hact
  split at hact
  · cases hact
  · split at hact
    · rename_i hpc
      split at hact
      · split at hact
        · rename_i hready
          rw [ready, hr, Bool.false_or] at hready
          rw [hr, if_neg (by decide)] at hact
          obtain rfl := Option.some.inj hact
          right
          rw [ParserThread.parserStep, hpc]
          exact if_pos hready
        · obtain rfl := Option.some.inj hact
          exact .inl rfl
      · obtain rfl := Option.some.inj hact
        exact .inl rfl
      · cases hact
    · rw [hr, Bool.and_false, if_neg (by decide)] at hact
      obtain ⟨t, ht, rfl⟩ := Option.map_eq_some_iff.mp hact
      exact .inr ht

theorem dutyTurn_same (hact : w.dutyTurn = some w') :
    w'.thread = w.thread ∧ w'.stopRequested = w.stopRequested := by
  unfold dutyTurn at hact
  split at hact
  · cases hact
  · split at hact
    · obtain rfl := Option.some.inj hact
      exact ⟨rfl, rfl⟩
    · cases hact
  · obtain rfl := Option.some.inj hact
    exact ⟨rfl, rfl⟩
  · split at hact
    · obtain rfl := Option.some.inj hact
      exact ⟨rfl, rfl⟩
    · cases hact

theorem plain_of_reach (h : w.Reach) (hr : w.stopRequested = false) : Plain w.thread := by
  induction h with
  | start => exact .start
  | step a _ hact ih =>
    cases a with
    | parser =>
      have hbefore := (parserTurn_stop hact).symm.trans hr
      obtain hsame | hstep := parserTurn_plain hbefore hact
      · rw [hsame]
        exact ih hbefore
      · exact .parser (ih hbefore) hstep
    | loop op =>
      simp only [step, loopTurn] at hact
      split at hact
      · obtain rfl := Option.some.inj hact
        obtain ⟨hbefore, hstop⟩ := Bool.or_eq_false_iff.mp hr
        exact .loop op (ih hbefore) hstop
      · cases hact
    | duty =>
      obtain ⟨hthread, hstop⟩ := dutyTurn_same hact
      rw [hthread]
      exact ih (hstop.symm.trans hr)
    | spurious =>
      simp only [step, spurious] at hact
      split at hact
      · obtain rfl := Option.some.inj hact
        exact ih hr
      · cases hact
      · cases hact

/-- Between two calls, with the thread awake. -/
def between (t : ParserThread) : ParserWorld := { started with thread := t }

theorem reach_of_plain (h : Plain t) : (between t).Reach := by
  induction h with
  | start => exact .start
  | @parser t t' _ hstep ih =>
    refine .step .parser ih ?_
    by_cases hpc : t.pc = .wait
    · rw [ParserThread.parserStep, hpc] at hstep
      dsimp only at hstep
      split at hstep
      · rename_i hawake
        obtain rfl := Option.some.inj hstep
        simp [step, parserTurn, waitTurn, ready, between, started, hpc, hawake]
      · cases hstep
    · simp [step, parserTurn, between, started, hpc, hstep]
  | @loop t op _ hstop ih =>
    have hbegin : (between t).step (.loop op) =
        some { between (op.change t) with duty := op.duty } := by
      simp [step, loopTurn, between, started, free, hstop]
    have hbegun := Reach.step (.loop op) ih hbegin
    have hnotify : op.duty = .notify false → (between (op.change t)).Reach := fun hd => by
      rw [hd] at hbegun
      exact .step .duty hbegun rfl
    cases op with
    | commitSlot data => exact .step .duty (.step .duty hbegun rfl) rfl
    | markUploadComplete id => exact hnotify rfl
    | abortSession => exact hnotify rfl
    | stop => cases hstop
    | _ => exact hbegun

/-- The states of the thread that the mutex and the condition variable let it
come to before `stop` are those it comes to without them. -/
theorem wait_transparent (t : ParserThread) :
    (∃ w : ParserWorld, w.Reach ∧ w.stopRequested = false ∧ w.thread = t) ↔ Plain t := by
  constructor
  · rintro ⟨w, hreach, hr, rfl⟩
    exact plain_of_reach hreach hr
  · exact fun h => ⟨between t, reach_of_plain h, rfl, rfl⟩

end ParserWorld

end Transparency

end LogTransfer.ParserWait
