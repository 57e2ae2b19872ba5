import Mathlib.Data.List.Basic

/-!
# Bounded FIFO queues

A queue takes an element at its end while it has room and gives one from its
front. A machine refines it when each of its steps is a step of the queue
behind an abstraction function. The invariant may count the elements taken so
far, and holds while there are fewer than a limit of them.
-/

set_option autoImplicit false

namespace BoundedFifo

inductive Label (A : Type) where
  | silent
  | push (a : A)
  | pop (a : A)
  deriving DecidableEq, Repr

section Queue

variable {A : Type} {cap : ℕ}

inductive Step (cap : ℕ) : List A → Label A → List A → Prop
  | silent (q : List A) : Step cap q .silent q
  | push (q : List A) (a : A) (h : q.length < cap) : Step cap q (.push a) (q ++ [a])
  | pop (a : A) (q : List A) : Step cap (a :: q) (.pop a) q

inductive Run (cap : ℕ) : List A → List (Label A) → List A → Prop
  | nil (q : List A) : Run cap q [] q
  | cons {q q' q'' : List A} {l : Label A} {ls : List (Label A)} (h : Step cap q l q')
      (hr : Run cap q' ls q'') : Run cap q (l :: ls) q''

def pushed : List (Label A) → List A
  | [] => []
  | .push a :: ls => a :: pushed ls
  | _ :: ls => pushed ls

def popped : List (Label A) → List A
  | [] => []
  | .pop a :: ls => a :: popped ls
  | _ :: ls => popped ls

/-- What was taken has been given, in the same order, or is still queued. -/
theorem Run.order {q q' : List A} {ls : List (Label A)} (h : Run cap q ls q') :
    q ++ pushed ls = popped ls ++ q' := by
  induction h with
  | nil q => simp [pushed, popped]
  | cons hstep _ ih =>
    cases hstep with
    | silent => exact ih
    | push _ a _ =>
      rw [pushed, List.append_cons]
      exact ih
    | pop a q =>
      rw [popped, List.cons_append, List.cons_append]
      exact congrArg (a :: ·) ih

theorem Run.bounded {q q' : List A} {ls : List (Label A)} (h : Run cap q ls q')
    (hq : q.length ≤ cap) : q'.length ≤ cap := by
  induction h with
  | nil q => exact hq
  | cons hstep _ ih =>
    cases hstep with
    | silent => exact ih hq
    | push _ a hlt =>
      apply ih
      rw [List.length_append, List.length_singleton]
      exact hlt
    | pop a q => exact ih (Nat.le_trans (Nat.le_succ _) hq)

end Queue

section Refinement

variable {A S Act Ev : Type} (step : S → Act → Option (S × Ev))

def run : S → List Act → Option (S × List Ev)
  | s, [] => some (s, [])
  | s, a::acts =>
    (step s a).bind fun r => (run r.1 acts).map fun rest => (rest.1, r.2 :: rest.2)

def weight : Label A → ℕ
  | .push _ => 1
  | _ => 0

/-- `inv k` holds after `k` pushes, as long as these stay under the limit. -/
structure Refines (cap limit : ℕ) (label : Ev → Label A) (inv : ℕ → S → Prop)
    (abs : S → List A) : Prop where
  next : ∀ k s a s' e, inv k s → step s a = some (s', e) → k + weight (label e) < limit →
    inv (k + weight (label e)) s' ∧ Step cap (abs s) (label e) (abs s')

variable {step} {cap limit : ℕ} {label : Ev → Label A} {inv : ℕ → S → Prop} {abs : S → List A}

theorem pushed_length (l : Label A) (ls : List (Label A)) :
    (pushed (l :: ls)).length = weight l + (pushed ls).length := by
  cases l with
  | push a => exact Nat.add_comm _ _
  | silent => exact (Nat.zero_add _).symm
  | pop a => exact (Nat.zero_add _).symm

theorem Refines.run_fifo (h : Refines step cap limit label inv abs) (acts : List Act) (k : ℕ)
    (s s' : S) (es : List Ev) (hi : inv k s) (hr : run step s acts = some (s', es))
    (hlim : k + (pushed (es.map label)).length < limit) :
    inv (k + (pushed (es.map label)).length) s' ∧ Run cap (abs s) (es.map label) (abs s') := by
  induction acts generalizing k s es with
  | nil =>
    cases hr
    exact ⟨hi, .nil _⟩
  | cons a acts ih =>
    rw [run] at hr
    obtain ⟨⟨s₁, e⟩, hs, hr⟩ := Option.bind_eq_some_iff.mp hr
    obtain ⟨⟨s₂, es'⟩, hs', heq⟩ := Option.map_eq_some_iff.mp hr
    cases heq
    dsimp only at hlim ⊢
    rw [List.map_cons, pushed_length] at hlim ⊢
    obtain ⟨hi', hstep⟩ := h.next k s a s₁ e hi hs (by omega)
    obtain ⟨hi'', hrun⟩ := ih _ s₁ es' hi' hs' (by omega)
    rw [← Nat.add_assoc]
    exact ⟨hi'', .cons hstep hrun⟩

end Refinement

end BoundedFifo
