import Mathlib.Data.List.Basic
import Mathlib.Data.List.Infix
import Mathlib.Order.Basic

/-!
# Occurrences of a pattern in a list

A pattern occurs at a position when it is a prefix of what follows. The first
occurrence from a position on is unique, and a pattern whose first letter does
not come before one of its occurrences occurs there first.
-/

set_option autoImplicit false

namespace Occurrence

variable {α : Type}

structure At (pat xs : List α) (i : ℕ) : Prop where
  inside : i ≤ xs.length
  here : pat <+: xs.drop i

structure First (pat xs : List α) (pos i : ℕ) : Prop where
  after : pos ≤ i
  found : At pat xs i
  fresh : ∀ j, pos ≤ j → j < i → ¬ At pat xs j

variable {pat xs : List α} {pos i j : ℕ} {c : α}

theorem at_iff_split :
    At pat xs i ↔ ∃ pre post, xs = pre ++ (pat ++ post) ∧ pre.length = i := by
  constructor
  · rintro ⟨hi, post, hpost⟩
    refine ⟨xs.take i, post, ?_, List.length_take_of_le hi⟩
    rw [hpost, List.take_append_drop]
  · rintro ⟨pre, post, rfl, rfl⟩
    refine ⟨by simp, ?_⟩
    rw [List.drop_left]
    exact List.prefix_append pat post

theorem at_shift : At pat xs (pos + i) → At pat (xs.drop pos) i := by
  rintro ⟨hi, hpat⟩
  refine ⟨by rw [List.length_drop]; omega, ?_⟩
  rwa [List.drop_drop]

theorem at_back (hpos : pos ≤ xs.length) : At pat (xs.drop pos) i → At pat xs (pos + i) := by
  rintro ⟨hi, hpat⟩
  rw [List.length_drop] at hi
  rw [List.drop_drop] at hpat
  exact ⟨by omega, hpat⟩

theorem at_cons {x : α} : At pat (x :: xs) (i + 1) ↔ At pat xs i := by
  constructor
  · rintro ⟨hi, hpat⟩
    exact ⟨Nat.le_of_succ_le_succ hi, hpat⟩
  · rintro ⟨hi, hpat⟩
    exact ⟨Nat.succ_le_succ hi, hpat⟩

theorem first_unique (h : First pat xs pos i) (h' : First pat xs pos j) : i = j := by
  rcases Nat.lt_trichotomy i j with hlt | heq | hgt
  · exact absurd h.found (h'.fresh i h.after hlt)
  · exact heq
  · exact absurd h'.found (h.fresh j h'.after hgt)

/-- The search of a non-empty list either stops at once or goes on in its tail. -/
theorem first_cons {x : α} (h : ¬ pat <+: x :: xs) :
    First pat (x :: xs) 0 i ↔ ∃ k, i = k + 1 ∧ First pat xs 0 k := by
  constructor
  · rintro ⟨-, hat, hfresh⟩
    cases i with
    | zero => exact absurd hat.here h
    | succ k =>
      refine ⟨k, rfl, Nat.zero_le _, at_cons.mp hat, fun j _ hj hat' => ?_⟩
      exact hfresh (j + 1) (Nat.zero_le _) (by omega) (at_cons.mpr hat')
  · rintro ⟨k, rfl, -, hat, hfresh⟩
    refine ⟨Nat.zero_le _, at_cons.mpr hat, fun j _ hj hat' => ?_⟩
    cases j with
    | zero => exact h hat'.here
    | succ j => exact hfresh j (Nat.zero_le _) (by omega) (at_cons.mp hat')

/-- Positions in a list and positions in what is left of it. -/
theorem first_drop (hpos : pos ≤ xs.length) :
    First pat xs pos (pos + i) ↔ First pat (xs.drop pos) 0 i := by
  constructor
  · rintro ⟨-, hat, hfresh⟩
    refine ⟨Nat.zero_le _, at_shift hat, fun j _ hj hat' => ?_⟩
    exact hfresh (pos + j) (Nat.le_add_right _ _) (by omega) (at_back hpos hat')
  · rintro ⟨-, hat, hfresh⟩
    refine ⟨Nat.le_add_right _ _, at_back hpos hat, fun j hj hlt hat' => ?_⟩
    obtain ⟨k, rfl⟩ := Nat.exists_eq_add_of_le hj
    exact hfresh k (Nat.zero_le _) (by omega) (at_shift hat')

section Heads

variable {pre post : List α}

theorem at_head (h : At (c :: pat) xs i) : xs[i]? = some c := by
  obtain ⟨-, post, hpost⟩ := h
  rw [← Nat.add_zero i, ← List.getElem?_drop, ← hpost]
  rfl

theorem first_of_head (h : xs = pre ++ (c :: pat ++ post)) (hc : c ∉ pre) :
    First (c :: pat) xs 0 pre.length := by
  refine ⟨Nat.zero_le _, at_iff_split.mpr ⟨pre, post, h, rfl⟩, fun j _ hj hat => ?_⟩
  have hj' := at_head hat
  rw [h, List.getElem?_append_left hj] at hj'
  exact hc (List.mem_of_getElem? hj')

theorem first_of_head_drop (h : xs.drop pos = pre ++ (c :: pat ++ post)) (hc : c ∉ pre) :
    First (c :: pat) xs pos (pos + pre.length) := by
  have hpos : pos ≤ xs.length := by
    by_contra hgt
    rw [List.drop_eq_nil_of_le (by omega)] at h
    simp at h
  exact (first_drop hpos).mpr (first_of_head h hc)

/-- What stands before the first occurrence of a letter does not have it. -/
theorem first_letter (hpos : pos ≤ xs.length) :
    First [c] xs pos i ↔
      ∃ mid post, xs.drop pos = mid ++ c :: post ∧ c ∉ mid ∧ i = pos + mid.length := by
  constructor
  · intro h
    obtain ⟨k, rfl⟩ := Nat.exists_eq_add_of_le h.after
    obtain ⟨-, hat, hfresh⟩ := (first_drop hpos).mp h
    obtain ⟨mid, post, hsplit, rfl⟩ := at_iff_split.mp hat
    refine ⟨mid, post, hsplit, fun hc => ?_, rfl⟩
    obtain ⟨a, b, rfl⟩ := List.append_of_mem hc
    have hearly : At [c] (xs.drop pos) a.length := by
      refine at_iff_split.mpr ⟨a, b ++ c :: post, ?_, rfl⟩
      rw [hsplit]
      simp
    exact hfresh a.length (Nat.zero_le _) (by simp) hearly
  · rintro ⟨mid, post, hsplit, hc, rfl⟩
    exact first_of_head_drop hsplit hc

/-- A text has one part before the first occurrence of a letter. -/
theorem before_unique {pre' post' : List α} (h : pre ++ c :: post = pre' ++ c :: post')
    (hc : c ∉ pre) (hc' : c ∉ pre') : pre = pre' ∧ post = post' := by
  have hlen : pre.length = pre'.length :=
    first_unique (first_of_head (show _ = pre ++ ([c] ++ post) from rfl) hc)
      (first_of_head (show _ = pre' ++ ([c] ++ post') from h) hc')
  obtain ⟨hpre, hpost⟩ := List.append_inj h hlen
  exact ⟨hpre, (List.cons.inj hpost).2⟩

end Heads

end Occurrence
