import LogTransfer.Stats
import LogTransfer.Tally

/-!
# The ordered maps count

The maps of the source are tallies of the keys they were bumped with. The
first occurrence of a key inserts it at its place, each later one adds one.
-/

set_option autoImplicit false

namespace LogTransfer

open Tally

variable {K : Type} [DecidableEq K] {m : List (K × ℕ)} {xs : List K} {key : K}

theorem hasKey_iff : hasKey key m = true ↔ key ∈ m.map Prod.fst := by
  rw [hasKey, List.any_eq_true, List.mem_map]
  constructor
  · rintro ⟨e, he, hk⟩
    exact ⟨e, he, by simpa using hk⟩
  · rintro ⟨e, he, hk⟩
    exact ⟨e, he, by simpa using hk⟩

theorem bumpKey_keys : (bumpKey key m).map Prod.fst = m.map Prod.fst := by
  induction m with
  | nil => rfl
  | cons e rest ih =>
    obtain ⟨k, n⟩ := e
    unfold bumpKey
    split
    · rfl
    · simp [ih]

theorem bumpKey_length (key : K) (m : List (K × ℕ)) : (bumpKey key m).length = m.length := by
  have hkeys : ((bumpKey key m).map Prod.fst).length = (m.map Prod.fst).length := by
    rw [bumpKey_keys]
  rwa [List.length_map, List.length_map] at hkeys

theorem mem_bumpKey (hnodup : (m.map Prod.fst).Nodup) (k : K) (c : ℕ) :
    (k, c) ∈ bumpKey key m ↔
      if k = key then ∃ n, (k, n) ∈ m ∧ c = n + 1 else (k, c) ∈ m := by
  induction m with
  | nil => simp [bumpKey]
  | cons e rest ih =>
    obtain ⟨k', n⟩ := e
    rw [List.map_cons, List.nodup_cons] at hnodup
    obtain ⟨hfresh, hrest⟩ := hnodup
    have hout (n' : ℕ) : (k', n') ∉ rest := fun hmem => hfresh (List.mem_map.mpr ⟨_, hmem, rfl⟩)
    unfold bumpKey
    by_cases hk : k' = key
    · rw [if_pos hk, List.mem_cons]
      by_cases hkk : k = key
      · subst hkk hk
        simp [hout]
      · have hne : k ≠ k' := fun he => hkk (he.trans hk)
        simp [hkk, hne]
    · rw [if_neg hk, List.mem_cons, ih hrest]
      by_cases hkk : k = key
      · subst hkk
        simp [Ne.symm hk]
      · simp [hkk]

theorem mem_insertKey (lt : K → K → Bool) (k : K) (c : ℕ) :
    (k, c) ∈ insertKey lt key m ↔ (k, c) = (key, 1) ∨ (k, c) ∈ m := by
  induction m with
  | nil => simp [insertKey]
  | cons e rest ih =>
    obtain ⟨k', n⟩ := e
    unfold insertKey
    split
    · rw [List.mem_cons]
    · rw [List.mem_cons, ih, List.mem_cons]
      tauto

omit [DecidableEq K] in
theorem insertKey_length (lt : K → K → Bool) (key : K) (m : List (K × ℕ)) :
    (insertKey lt key m).length = m.length + 1 := by
  induction m with
  | nil => rfl
  | cons e rest ih =>
    unfold insertKey
    split
    · rfl
    · simp [ih]

theorem insertKey_sorted {r : K → K → Prop} (lt : K → K → Bool)
    (hlt : ∀ a b, lt a b = true ↔ r a b) (htri : ∀ a b, r a b ∨ a = b ∨ r b a)
    (htrans : ∀ a b c, r a b → r b c → r a c) (hfresh : key ∉ m.map Prod.fst)
    (hs : m.Pairwise fun a b => r a.1 b.1) :
    (insertKey lt key m).Pairwise fun a b => r a.1 b.1 := by
  induction m with
  | nil => simp [insertKey]
  | cons e rest ih =>
    obtain ⟨k, n⟩ := e
    rw [List.map_cons, List.mem_cons, not_or] at hfresh
    obtain ⟨hhead, hrest⟩ := List.pairwise_cons.mp hs
    unfold insertKey
    split
    · rename_i hlow
      rw [hlt] at hlow
      refine List.pairwise_cons.mpr ⟨?_, hs⟩
      intro a ha
      rcases List.mem_cons.mp ha with rfl | ha
      · exact hlow
      · exact htrans _ _ _ hlow (hhead a ha)
    · rename_i hhigh
      rw [hlt] at hhigh
      refine List.pairwise_cons.mpr ⟨?_, ih hfresh.2 hrest⟩
      rintro ⟨a, c⟩ ha
      rcases (mem_insertKey lt a c).mp ha with heq | ha
      · cases heq
        rcases htri k key with h | h | h
        · exact h
        · exact absurd h.symm hfresh.1
        · exact absurd h hhigh
      · exact hhead _ ha

theorem bumpKey_sorted {r : K → K → Prop} (hs : m.Pairwise fun a b => r a.1 b.1) :
    (bumpKey key m).Pairwise fun a b => r a.1 b.1 := by
  rw [← List.pairwise_map (f := Prod.fst) (R := r), bumpKey_keys, List.pairwise_map]
  exact hs

theorem occurs_snoc (k key : K) (xs : List K) :
    occurs k (xs ++ [key]) = occurs k xs + if key = k then 1 else 0 := by
  rw [occurs_append, occurs_cons]
  simp [occurs]

theorem isTally_bump {r : K → K → Prop} (hirr : ∀ k, ¬ r k k) (h : IsTally r xs m)
    (hkey : hasKey key m = true) : IsTally r (xs ++ [key]) (bumpKey key m) := by
  refine ⟨bumpKey_sorted h.sorted, ?_⟩
  intro k c
  rw [mem_bumpKey (h.nodup hirr), occurs_snoc]
  by_cases hk : k = key
  · subst hk
    rw [hasKey_iff, h.mem_keys, ← occurs_pos_iff] at hkey
    simp only [if_true, h.counts]
    constructor
    · rintro ⟨n, ⟨-, hn⟩, rfl⟩
      omega
    · rintro ⟨-, hc⟩
      exact ⟨occurs k xs, ⟨hkey, rfl⟩, hc⟩
  · rw [if_neg hk, if_neg (Ne.symm hk), Nat.add_zero]
    exact h.counts k c

theorem isTally_insert {r : K → K → Prop} (lt : K → K → Bool)
    (hlt : ∀ a b, lt a b = true ↔ r a b) (htri : ∀ a b, r a b ∨ a = b ∨ r b a)
    (htrans : ∀ a b c, r a b → r b c → r a c) (h : IsTally r xs m)
    (hkey : ¬ hasKey key m = true) : IsTally r (xs ++ [key]) (insertKey lt key m) := by
  have hfresh : key ∉ m.map Prod.fst := fun hin => hkey (hasKey_iff.mpr hin)
  have hnone : occurs key xs = 0 := by
    rw [h.mem_keys, ← occurs_pos_iff] at hfresh
    omega
  refine ⟨insertKey_sorted lt hlt htri htrans hfresh h.sorted, ?_⟩
  intro k c
  rw [mem_insertKey, occurs_snoc, h.counts]
  by_cases hk : k = key
  · subst hk
    rw [hnone, if_pos rfl]
    simp only [Prod.mk.injEq, true_and]
    omega
  · have hne : ¬ (k, c) = (key, 1) := fun he => hk (congrArg Prod.fst he)
    rw [if_neg (Ne.symm hk), Nat.add_zero]
    simp [hne]

end LogTransfer
