import Mathlib.Data.List.Basic

/-!
# Reflected checksums bit by bit

A register of any width takes one message bit at a time, least significant
first. A step is linear in exclusive or and, when the polynomial has its top
bit, injective. As many bits as the register is wide can be put into it at
once, so a short stretch of the message is determined by what it does.
-/

set_option autoImplicit false

namespace ReflectedCrc

variable {w : ℕ}

def bitStep (p c : BitVec w) (b : Bool) : BitVec w :=
  if (c.getLsbD 0 ^^ b) = true then p ^^^ (c >>> 1) else c >>> 1

def run (p c : BitVec w) (bits : List Bool) : BitVec w := bits.foldl (bitStep p) c

/-- `n` steps on zero bits. -/
def shifts (p : BitVec w) : ℕ → BitVec w → BitVec w
  | 0, c => c
  | n+1, c => shifts p n (bitStep p c false)

/-- The first bits of a message at the low end of a register. -/
def word (w : ℕ) : List Bool → BitVec w
  | [] => 0#w
  | b::bs => (BitVec.ofBool b).setWidth w ^^^ (word w bs <<< 1)

theorem run_append (p c : BitVec w) (a b : List Bool) : run p c (a ++ b) = run p (run p c a) b := by
  simp [run]

section Linear

theorem xor_swap (p a b : BitVec w) : p ^^^ a ^^^ (p ^^^ b) = a ^^^ b := by
  rw [BitVec.xor_comm p a, BitVec.xor_assoc, ← BitVec.xor_assoc p, BitVec.xor_self,
    BitVec.zero_xor]

theorem bitStep_xor (p c d : BitVec w) (a b : Bool) :
    bitStep p (c ^^^ d) (a ^^ b) = bitStep p c a ^^^ bitStep p d b := by
  have hbit : ((c ^^^ d).getLsbD 0 ^^ (a ^^ b)) = ((c.getLsbD 0 ^^ a) ^^ (d.getLsbD 0 ^^ b)) := by
    rw [BitVec.getLsbD_xor]
    cases c.getLsbD 0 <;> cases d.getLsbD 0 <;> cases a <;> cases b <;> rfl
  unfold bitStep
  rw [hbit, BitVec.ushiftRight_xor_distrib]
  cases hc : (c.getLsbD 0 ^^ a) with
  | false =>
    cases hd : (d.getLsbD 0 ^^ b) with
    | false => rfl
    | true =>
      simp only [Bool.false_xor, if_true, Bool.false_eq_true, if_false]
      rw [← BitVec.xor_assoc, BitVec.xor_comm p, BitVec.xor_assoc]
  | true =>
    cases hd : (d.getLsbD 0 ^^ b) with
    | false => exact (BitVec.xor_assoc _ _ _).symm
    | true => exact (xor_swap _ _ _).symm

theorem bitStep_bit (p c : BitVec w) (b : Bool) (hw : 0 < w) :
    bitStep p c b = bitStep p (c ^^^ (BitVec.ofBool b).setWidth w) false := by
  have hb : bitStep p ((BitVec.ofBool b).setWidth w) b = 0#w := by
    have hlow : ((BitVec.ofBool b).setWidth w).getLsbD 0 = b := by simp [hw]
    have hrest : ((BitVec.ofBool b).setWidth w) >>> 1 = 0#w := by
      apply BitVec.eq_of_getLsbD_eq
      intro i hi
      simp
    simp [bitStep, hlow, hrest]
  have h' := bitStep_xor p (c ^^^ (BitVec.ofBool b).setWidth w)
    ((BitVec.ofBool b).setWidth w) false b
  rw [hb, BitVec.xor_zero, Bool.false_xor, BitVec.xor_assoc, BitVec.xor_self,
    BitVec.xor_zero] at h'
  exact h'

theorem shifts_xor (p c d : BitVec w) (n : ℕ) :
    shifts p n (c ^^^ d) = shifts p n c ^^^ shifts p n d := by
  induction n generalizing c d with
  | zero => rfl
  | succ n ih =>
    have h := bitStep_xor p c d false false
    rw [Bool.xor_self] at h
    rw [shifts, h]
    exact ih _ _

end Linear

/-- Clear bits at the low end only move down. -/
theorem shifts_clear (p c : BitVec w) (n : ℕ) (h : ∀ i, i < n → c.getLsbD i = false) :
    shifts p n c = c >>> n := by
  induction n generalizing c with
  | zero => simp [shifts]
  | succ n ih =>
    have hstep : bitStep p c false = c >>> 1 := by
      simp [bitStep, h 0 (Nat.succ_pos n)]
    rw [shifts, hstep, ih, ← BitVec.shiftRight_add, Nat.add_comm]
    intro i hi
    rw [BitVec.getLsbD_ushiftRight]
    exact h _ (by omega)

section Words

theorem word_bit (bits : List Bool) (i : ℕ) (hi : i < w) :
    (word w bits).getLsbD i = bits.getD i false := by
  induction bits generalizing i with
  | nil => simp [word]
  | cons b bs ih =>
    rw [word, BitVec.getLsbD_xor, BitVec.getLsbD_shiftLeft]
    cases i with
    | zero => simp [hi]
    | succ i => simpa [hi] using ih i (by omega)

/-- A message no longer than the register can be put into it at once. -/
theorem run_word (p c : BitVec w) (bits : List Bool) (h : bits.length ≤ w) :
    run p c bits = shifts p bits.length (c ^^^ word w bits) := by
  induction bits generalizing c with
  | nil => simp [run, shifts, word]
  | cons b bs ih =>
    have hlen : bs.length < w := h
    have hlow : (word w bs <<< 1).getLsbD 0 = false := by simp
    have hrest : bitStep p (word w bs <<< 1) false = word w bs := by
      simp only [bitStep, hlow, Bool.xor_self, Bool.false_eq_true, if_false]
      apply BitVec.eq_of_getLsbD_eq
      intro i hi
      rw [BitVec.getLsbD_ushiftRight, BitVec.getLsbD_shiftLeft]
      by_cases hlast : 1 + i < w
      · simp [hlast]
      · rw [word_bit bs i hi]
        simp [hlast, List.getElem?_eq_none (show bs.length ≤ i by omega)]
    have hsplit := bitStep_xor p (c ^^^ (BitVec.ofBool b).setWidth w) (word w bs <<< 1) false false
    rw [Bool.xor_self, hrest, ← bitStep_bit p c b (by omega)] at hsplit
    calc run p c (b::bs) = run p (bitStep p c b) bs := rfl
      _ = shifts p bs.length (bitStep p c b ^^^ word w bs) := ih _ (by omega)
      _ = shifts p (b::bs).length (c ^^^ word w (b::bs)) := by
        rw [← hsplit, List.length_cons, shifts, word, BitVec.xor_assoc]

theorem word_injective (a b : List Bool) (ha : a.length ≤ w) (hl : a.length = b.length)
    (h : word w a = word w b) : a = b := by
  apply List.ext_getElem hl
  intro i hi hj
  have hbit := congrArg (fun v => v.getLsbD i) h
  simp only [word_bit _ _ (show i < w by omega)] at hbit
  simpa [hi, hj] using hbit

end Words

section Injective

variable {p : BitVec w} (hp : p.msb = true)

theorem bitStep_zero (c : BitVec w) (h : bitStep p c false = 0#w) (hp : p.msb = true) :
    c = 0#w := by
  unfold bitStep at h
  split at h
  · have htop := congrArg BitVec.msb h
    rw [BitVec.msb_xor, hp, BitVec.msb_ushiftRight] at htop
    simp at htop
  · rename_i hlow
    apply BitVec.eq_of_getLsbD_eq
    intro i hi
    cases i with
    | zero => simpa using hlow
    | succ i =>
      have hbit := congrArg (fun v => v.getLsbD i) h
      simpa [BitVec.getLsbD_ushiftRight, Nat.add_comm] using hbit

include hp in
theorem bitStep_injective (c d : BitVec w) (b : Bool) (h : bitStep p c b = bitStep p d b) :
    c = d := by
  have hx := bitStep_xor p c d b b
  rw [h, BitVec.xor_self, Bool.xor_self] at hx
  exact BitVec.xor_eq_zero_iff.mp (bitStep_zero _ hx hp)

include hp in
theorem run_injective (bits : List Bool) (c d : BitVec w) (h : run p c bits = run p d bits) :
    c = d := by
  induction bits generalizing c d with
  | nil => exact h
  | cons b bs ih => exact bitStep_injective hp c d b (ih _ _ h)

include hp in
theorem shifts_injective (n : ℕ) (c d : BitVec w) (h : shifts p n c = shifts p n d) : c = d := by
  induction n generalizing c d with
  | zero => exact h
  | succ n ih => exact bitStep_injective hp c d false (ih _ _ h)

include hp in
/-- Two messages which differ only within as many bits as the register is wide
leave different registers. -/
theorem burst_detected (c : BitVec w) (pre x y post : List Bool) (hl : x.length = y.length)
    (hw : x.length ≤ w) (hne : x ≠ y) :
    run p c (pre ++ x ++ post) ≠ run p c (pre ++ y ++ post) := by
  intro h
  simp only [run_append] at h
  have hmid := run_injective hp post _ _ h
  rw [run_word _ _ x hw, run_word _ _ y (hl ▸ hw), ← hl] at hmid
  have hwords := shifts_injective hp _ _ _ hmid
  exact hne (word_injective x y hw hl ((BitVec.xor_right_inj _).mp hwords))

end Injective

end ReflectedCrc
