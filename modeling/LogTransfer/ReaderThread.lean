import LogTransfer.CondVar
import LogTransfer.FileReader

/-!
# The thread of the file reader

`run` and `readLoop` wait at one condition variable. What they wait for is
changed with the mutex held and without it, so an abort may be missed; `stop`
joins the thread all the same.
-/

set_option autoImplicit false

namespace LogTransfer.ReaderThread
open CondVar Client

section Source

/-- What the owner has left of the call it is in. -/
inductive Duty where
  | idle
  /-- `stop` has given the mutex back. -/
  | storeAbort
  | notify (stopping : Bool)
  | join
  deriving DecidableEq, Repr

/-- `none` is not joinable. -/
inductive Thread where
  | none | running | returned
  deriving DecidableEq, Repr

/-- The calls of the owner, and its hearing of a wake-up. -/
inductive Call where
  | start
  | beginUpload (file : Option Bytes) (size : ℕ)
  | abortUpload
  | notifySpaceAvailable
  | release
  | takeError
  | heard
  | stop

def Call.locks : Call → Bool
  | .beginUpload _ _ | .takeError | .stop => true
  | .start | .abortUpload | .notifySpaceAvailable | .release | .heard => false

structure ReaderWorld where
  reader : FileReader
  quit : Bool
  waiter : Waiter
  thread : Thread
  duty : Duty
  deriving DecidableEq, Repr

def created : ReaderWorld :=
  { reader := .initial, quit := false, waiter := .awake, thread := .none, duty := .idle }

namespace ReaderWorld

variable (w : ReaderWorld)

def move (pc : ReaderPc) : ReaderWorld := { w with reader := w.reader.goto pc }

/-- A step of `run`: `readerStep`, with the quit flag where the code reads it and
with both waits taken apart. -/
def readerTurn : Option ReaderWorld :=
  if w.thread ≠ .running then none
  else match w.waiter with
    | .blocked => none
    | .armed => some { w with waiter := .blocked }
    | .awake =>
      match w.reader.pc with
      | .waitUpload =>
        if w.quit then some { w with thread := .returned }
        else if w.reader.uploading then some (w.move .checkAbort)
        else some { w with waiter := .armed }
      | .waitSpace =>
        if w.quit || w.reader.abort || !w.reader.full then some (w.move .woken)
        else some { w with waiter := .armed }
      | .woken => some (w.move (if w.quit || w.reader.abort then .leave else .checkAbort))
      | _ => w.reader.readerStep.map fun r => { w with reader := r }

/-- Whether the mutex is free. It is held until `woken` is left. -/
def free : Bool := w.waiter ≠ .armed && w.reader.pc ≠ .woken

/-- A call begins. `beginUpload` notifies before it gives the mutex back. -/
def callTurn (c : Call) : Option ReaderWorld :=
  if w.duty = .idle && (!c.locks || w.free) then
    some (match c with
      | .start =>
        if w.thread = .none then { w.move .waitUpload with thread := .running } else w
      | .beginUpload file size =>
        { w with reader := (w.reader.beginUpload file size).2,
                 waiter := if (w.reader.beginUpload file size).1.isNone then w.waiter.notified
                   else w.waiter }
      | .abortUpload => { w with reader := w.reader.abortUpload, duty := .notify false }
      | .notifySpaceAvailable => { w with waiter := w.waiter.notified }
      | .release => { w with reader := w.reader.release }
      | .takeError => { w with reader := w.reader.takeError.2 }
      | .heard => { w with reader := { w.reader with wake := false } }
      | .stop =>
        if w.thread = .none then w
        else { w with quit := true, reader := { w.reader with uploading := false },
                      duty := .storeAbort })
  else none

/-- The call goes on. -/
def dutyTurn : Option ReaderWorld :=
  match w.duty with
  | .idle => none
  | .storeAbort => some { w with reader := w.reader.abortUpload, duty := .notify true }
  | .notify stopping =>
    some { w with waiter := w.waiter.notified, duty := if stopping then .join else .idle }
  | .join => if w.thread = .returned then some { w with thread := .none, duty := .idle } else none

def spurious : Option ReaderWorld :=
  match w.waiter with
  | .blocked => some { w with waiter := .awake }
  | .awake | .armed => none

inductive Act where
  | reader | call (c : Call) | duty | spurious

def step : Act → Option ReaderWorld
  | .reader => w.readerTurn
  | .call c => w.callTurn c
  | .duty => w.dutyTurn
  | .spurious => w.spurious

def Act.begins : Act → Bool
  | .call (.beginUpload _ _) => true
  | _ => false

/-- Where the reader is when it takes a step. -/
def place : Act → List ReaderPc
  | .reader => [w.reader.pc]
  | .call _ | .duty | .spurious => []

inductive Run (w : ReaderWorld) : List Act → List ReaderPc → ReaderWorld → Prop
  | start : Run w [] [] w
  | step {acts : List Act} {places : List ReaderPc} {w₁ w₂ : ReaderWorld} (a : Act) :
      Run w acts places w₁ → w₁.step a = some w₂ → Run w (acts ++ [a]) (places ++ w₁.place a) w₂

/-- Steps of the reader thread alone. -/
inductive Turns (w : ReaderWorld) : ℕ → ReaderWorld → Prop
  | start : Turns w 0 w
  | turn {n : ℕ} {w₁ w₂ : ReaderWorld} :
      Turns w n w₁ → w₁.readerTurn = some w₂ → Turns w (n + 1) w₂

end ReaderWorld

end Source

section Moves

/-- What a step of the reader thread can be. -/
inductive Move (w : ReaderWorld) : ReaderWorld → Prop
  | block (hw : w.waiter = .armed) : Move w { w with waiter := .blocked }
  | arm (hw : w.waiter = .awake) (hq : w.quit = false)
      (hpc : w.reader.pc = .waitUpload ∨ w.reader.pc = .waitSpace) :
      Move w { w with waiter := .armed }
  | leave (hw : w.waiter = .awake) (hq : w.quit = true) (hpc : w.reader.pc = .waitUpload) :
      Move w { w with thread := .returned }
  /-- Out of the wait for room by the quit flag. -/
  | hurry (hw : w.waiter = .awake) (hq : w.quit = true) (pc : ReaderPc)
      (hpc : w.reader.pc = .waitSpace ∧ pc = .woken ∨ w.reader.pc = .woken ∧ pc = .leave) :
      Move w (w.move pc)
  | step (hw : w.waiter = .awake) (hq : w.reader.pc = .waitUpload → w.quit = false)
      (r : FileReader) (hr : w.reader.readerStep = some r) : Move w { w with reader := r }

variable {w w' : ReaderWorld}

theorem move_of_turn (h : w.readerTurn = some w') : w.thread = .running ∧ Move w w' := by
  unfold ReaderWorld.readerTurn at h
  split at h
  · cases h
  · rename_i hrun
    refine ⟨not_not.mp hrun, ?_⟩
    split at h
    · cases h
    · rename_i hw
      obtain rfl := Option.some.inj h
      exact .block hw
    · rename_i hw
      split at h
      · rename_i hpc
        split at h
        · rename_i hq
          obtain rfl := Option.some.inj h
          exact .leave hw hq hpc
        · rename_i hq
          split at h
          · rename_i hu
            obtain rfl := Option.some.inj h
            exact .step hw (fun _ => by simpa using hq) _
              (by rw [FileReader.readerStep, hpc]; exact if_pos hu)
          · obtain rfl := Option.some.inj h
            exact .arm hw (by simpa using hq) (.inl hpc)
      · rename_i hpc
        by_cases hq : w.quit = true
        · rw [hq, Bool.true_or, Bool.true_or, if_pos rfl] at h
          obtain rfl := Option.some.inj h
          exact .hurry hw hq _ (.inl ⟨hpc, rfl⟩)
        · have hq : w.quit = false := by simpa using hq
          rw [hq, Bool.false_or] at h
          split at h
          · rename_i hroom
            obtain rfl := Option.some.inj h
            exact .step hw (fun _ => hq) _
              (by rw [FileReader.readerStep, hpc]; exact if_pos hroom)
          · obtain rfl := Option.some.inj h
            rw [← hq]
            exact .arm hw hq (.inr hpc)
      · rename_i hpc
        obtain rfl := Option.some.inj h
        by_cases hq : w.quit = true
        · rw [hq, Bool.true_or, if_pos rfl]
          exact .hurry hw hq _ (.inr ⟨hpc, rfl⟩)
        · have hq : w.quit = false := by simpa using hq
          rw [hq, Bool.false_or]
          exact .step hw (fun _ => hq) _ (by rw [FileReader.readerStep, hpc])
      · rename_i hne _ _
        obtain ⟨r, hr, rfl⟩ := Option.map_eq_some_iff.mp h
        exact .step hw (fun hpc => absurd hpc hne) r hr

end Moves

end LogTransfer.ReaderThread
