import Mathlib.Order.Basic
import Mathlib.Logic.Basic

/-!
# A waiter at a condition variable

A thread looks at its predicate with the mutex held and, if it is false, arms
and then blocks. A notification wakes it only once it is blocked. `Owed` is
what keeps it from sleeping on: past its look, a predicate that holds is
followed by a notification.
-/

set_option autoImplicit false

namespace LogTransfer.CondVar

/-- `armed`: the predicate was found false and the mutex is still held. -/
inductive Waiter where
  | awake | armed | blocked
  deriving DecidableEq, Repr

namespace Waiter

def notified : Waiter → Waiter
  | .blocked => .awake
  | .awake => .awake
  | .armed => .armed

/-- Where another thread finds the waiter once it holds the mutex. -/
def released : Waiter → Waiter
  | .armed => .blocked
  | .awake => .awake
  | .blocked => .blocked

/-- A notification after the mutex was held for a moment is never missed. -/
theorem notified_released (w : Waiter) : w.released.notified = .awake := by
  cases w <;> rfl

end Waiter

/-- `owed` notifications are certain to come. -/
def Owed (holds : Prop) (owed : ℕ) (w : Waiter) : Prop := w ≠ .awake → holds → 0 < owed

/-- The predicate holds, the waiter is about to block, and no notification but
this one is certain to come. -/
def Misses (holds : Prop) (owed : ℕ) (w : Waiter) : Prop := w = .armed ∧ holds ∧ owed ≤ 1

variable {holds holds' : Prop} {owed owed' : ℕ} {w : Waiter}

theorem owed_awake : Owed holds owed .awake := fun h => absurd rfl h

/-- The waiter arms because its predicate is false. -/
theorem owed_armed (h : ¬ holds) : Owed holds owed .armed := fun _ hh => absurd hh h

theorem owed_blocked (h : Owed holds owed .armed) : Owed holds owed .blocked :=
  fun _ => h (by decide)

/-- Whoever is certain to notify may change what the predicate reads. -/
theorem owed_change (h : 0 < owed) : Owed holds owed w := fun _ _ => h

theorem owed_mono (h : Owed holds owed w) (hh : holds' → holds) (ho : owed ≤ owed') :
    Owed holds' owed' w := fun hw hh' => Nat.lt_of_lt_of_le (h hw (hh hh')) ho

/-- A notification loses the waiter exactly when the waiter misses it. -/
theorem owed_notified (h : Owed holds owed w) :
    Owed holds (owed - 1) w.notified ↔ ¬ Misses holds owed w := by
  cases w with
  | awake => exact iff_of_true owed_awake fun hm => by cases hm.1
  | blocked => exact iff_of_true owed_awake fun hm => by cases hm.1
  | armed =>
    constructor
    · rintro ho ⟨-, hh, hone⟩
      have := ho (by decide) hh
      omega
    · intro hm hw hh
      by_contra hnone
      exact hm ⟨rfl, hh, by omega⟩

end LogTransfer.CondVar
