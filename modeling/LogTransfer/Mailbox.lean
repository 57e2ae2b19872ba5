import Mathlib.Data.List.Basic

/-!
# A mailbox with a bell

Senders put a letter in and ring afterwards; rings that come before the reader
looks are one. The reader that hears the bell empties the box. Whatever the
order of these steps, no letter is left behind or read twice.
-/

set_option autoImplicit false

namespace LogTransfer

/-- `owing` counts the senders that have put in their letter and not rung. -/
structure Mailbox (A : Type) where
  posted : List A
  taken : List A
  box : List A
  rung : Bool
  owing : ℕ
  reading : Bool

namespace Mailbox

variable {A : Type}

def empty : Mailbox A :=
  { posted := [], taken := [], box := [], rung := false, owing := 0, reading := false }

inductive Step : Mailbox A → Mailbox A → Prop
  | post (m : Mailbox A) (a : A) :
      Step m { m with posted := m.posted ++ [a], box := m.box ++ [a], owing := m.owing + 1 }
  /-- Anyone may ring. -/
  | knock (m : Mailbox A) : Step m { m with rung := true }

/-- What the senders and the reader do once no more letters come. -/
inductive Settle : Mailbox A → Mailbox A → Prop
  | ring (m : Mailbox A) (n : ℕ) (h : m.owing = n + 1) :
      Settle m { m with rung := true, owing := n }
  | hear (m : Mailbox A) (h : m.reading = false) (hr : m.rung = true) :
      Settle m { m with rung := false, reading := true }
  | take (m : Mailbox A) (a : A) (rest : List A) (h : m.reading = true) (hb : m.box = a::rest) :
      Settle m { m with taken := m.taken ++ [a], box := rest }
  | leave (m : Mailbox A) (h : m.reading = true) (hb : m.box = []) :
      Settle m { m with reading := false }

inductive Reach : Mailbox A → Prop
  | start : Reach empty
  | step {m m' : Mailbox A} : Reach m → Step m m' → Reach m'
  | settle {m m' : Mailbox A} : Reach m → Settle m m' → Reach m'

structure Heard (m : Mailbox A) : Prop where
  order : m.taken ++ m.box = m.posted
  bell : m.box ≠ [] → m.rung = true ∨ m.reading = true ∨ 0 < m.owing

section Safety

variable {m m' : Mailbox A}

theorem step_heard (h : m.Heard) (hs : Step m m') : m'.Heard := by
  cases hs with
  | post a =>
    refine ⟨?_, fun _ => .inr (.inr (Nat.succ_pos _))⟩
    change m.taken ++ (m.box ++ [a]) = m.posted ++ [a]
    rw [← List.append_assoc, h.order]
  | knock => exact ⟨h.order, fun _ => .inl rfl⟩

theorem settle_heard (h : m.Heard) (hs : Settle m m') : m'.Heard := by
  cases hs with
  | ring n ho => exact ⟨h.order, fun _ => .inl rfl⟩
  | hear hr hb => exact ⟨h.order, fun _ => .inr (.inl rfl)⟩
  | take a rest hr hb =>
    refine ⟨?_, fun _ => .inr (.inl hr)⟩
    change m.taken ++ [a] ++ rest = m.posted
    rw [← h.order, hb, List.append_assoc]
    rfl
  | leave hr hb => exact ⟨h.order, fun hne => absurd hb hne⟩

theorem reach_heard (h : Reach m) : m.Heard := by
  induction h with
  | start => exact ⟨rfl, fun h => absurd rfl h⟩
  | step _ hs ih => exact step_heard ih hs
  | settle _ hs ih => exact settle_heard ih hs

end Safety

section Progress

variable {m m' : Mailbox A}

/-- How many steps there can be before the reader is done. -/
def rank (m : Mailbox A) : ℕ :=
  3 * m.owing + 2 * m.rung.toNat + m.reading.toNat + m.box.length

theorem settle_rank (h : Settle m m') : rank m' + 1 ≤ rank m := by
  cases h with
  | ring n ho =>
    have hle := Bool.toNat_le m.rung
    simp only [rank, ho, Bool.toNat_true]
    omega
  | hear hr hb =>
    simp only [rank, hr, hb, Bool.toNat_true, Bool.toNat_false]
    omega
  | take a rest hr hb => simp only [rank, hb, List.length_cons]; omega
  | leave hr hb => simp [rank, hr, hb]

/-- While anything is left to read, someone can go on. -/
theorem settle_exists (h : m.Heard) (hb : m.box ≠ []) : ∃ m', Settle m m' := by
  cases hr : m.reading with
  | true =>
    obtain ⟨a, rest, hcons⟩ := List.exists_cons_of_ne_nil hb
    exact ⟨_, .take m a rest hr hcons⟩
  | false =>
    obtain hbell | hreading | howing := h.bell hb
    · exact ⟨_, .hear m hr hbell⟩
    · cases hr.symm.trans hreading
    · obtain ⟨n, hn⟩ := Nat.exists_eq_succ_of_ne_zero (Nat.pos_iff_ne_zero.mp howing)
      exact ⟨_, .ring m n hn⟩

end Progress

end Mailbox

end LogTransfer
