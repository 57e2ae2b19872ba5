import Mathlib.Data.List.Dedup
import Mathlib.Data.List.Perm.Basic
import Mathlib.Algebra.BigOperators.Group.List.Lemmas
import Mathlib.Data.Nat.Cast.Basic

/-!
# Tallies

A tally of a list has one entry for each element that occurs, with the number
of its occurrences, in strictly ascending order of the elements.
-/

set_option autoImplicit false

namespace Tally

section Occurrences

variable {K : Type} [DecidableEq K]

def occurs (k : K) (xs : List K) : ℕ := xs.count k

theorem occurs_cons (k x : K) (xs : List K) :
    occurs k (x :: xs) = occurs k xs + if x = k then 1 else 0 := by
  simp [occurs, List.count_cons]

theorem occurs_append (k : K) (xs ys : List K) :
    occurs k (xs ++ ys) = occurs k xs + occurs k ys := List.count_append

theorem occurs_pos_iff (k : K) (xs : List K) : 0 < occurs k xs ↔ k ∈ xs := List.count_pos_iff

theorem sum_indicator (x : K) (ks : List K) (hnodup : ks.Nodup) (hx : x ∈ ks) :
    (ks.map fun k => if x = k then 1 else 0).sum = 1 := by
  calc (ks.map fun k => if x = k then 1 else 0).sum
      = ks.countP fun k => x = k := by simp [List.sum_map_ite, List.countP_eq_length_filter]
    _ = ks.count x := List.countP_congr fun k _ => by
      rw [decide_eq_true_iff, beq_iff_eq]
      exact eq_comm
    _ = 1 := List.count_eq_one_of_mem hnodup hx

/-- A list is counted by the elements of any list that lists them once. -/
theorem sum_occurs (ks : List K) (hnodup : ks.Nodup) (xs : List K) (hall : ∀ x ∈ xs, x ∈ ks) :
    (ks.map fun k => occurs k xs).sum = xs.length := by
  induction xs with
  | nil => simp [occurs]
  | cons x xs ih =>
    obtain ⟨hx, hxs⟩ := List.forall_mem_cons.mp hall
    simp only [occurs_cons]
    rw [List.sum_map_add, ih hxs, sum_indicator x ks hnodup hx, List.length_cons]

end Occurrences

section Basic

variable {K : Type} [DecidableEq K] {r : K → K → Prop} {xs : List K} {m : List (K × ℕ)}

structure IsTally (r : K → K → Prop) (xs : List K) (m : List (K × ℕ)) : Prop where
  sorted : m.Pairwise fun a b => r a.1 b.1
  counts : ∀ k c, (k, c) ∈ m ↔ 0 < c ∧ c = occurs k xs

theorem isTally_nil : IsTally r ([] : List K) [] := by
  refine ⟨.nil, ?_⟩
  intro k c
  simp only [List.not_mem_nil, occurs, List.count_nil, false_iff, not_and]
  omega

theorem IsTally.count_eq (h : IsTally r xs m) {e : K × ℕ} (he : e ∈ m) : e.2 = occurs e.1 xs :=
  ((h.counts e.1 e.2).mp he).2

theorem IsTally.mem_keys (h : IsTally r xs m) (k : K) : k ∈ m.map Prod.fst ↔ k ∈ xs := by
  rw [List.mem_map]
  constructor
  · rintro ⟨⟨k', c⟩, he, rfl⟩
    obtain ⟨hpos, hc⟩ := (h.counts k' c).mp he
    exact (occurs_pos_iff k' xs).mp (hc ▸ hpos)
  · intro hk
    exact ⟨(k, occurs k xs), (h.counts _ _).mpr ⟨(occurs_pos_iff k xs).mpr hk, rfl⟩, rfl⟩

theorem IsTally.nodup (h : IsTally r xs m) (hirr : ∀ k, ¬ r k k) : (m.map Prod.fst).Nodup := by
  rw [List.nodup_iff_pairwise_ne, List.pairwise_map]
  apply h.sorted.imp
  intro a b hab heq
  exact hirr b.1 (heq ▸ hab)

/-- Every element is counted once. -/
theorem IsTally.total (h : IsTally r xs m) (hirr : ∀ k, ¬ r k k) :
    (m.map Prod.snd).sum = xs.length := by
  have hcounts : m.map Prod.snd = (m.map Prod.fst).map fun k => occurs k xs := by
    rw [List.map_map]
    apply List.map_congr_left
    intro e he
    exact h.count_eq he
  have hperm : (m.map Prod.fst).Perm xs.dedup := by
    rw [List.perm_ext_iff_of_nodup (h.nodup hirr) (List.nodup_dedup xs)]
    intro k
    rw [h.mem_keys, List.mem_dedup]
  rw [hcounts, (hperm.map _).sum_eq]
  exact List.sum_map_count_dedup_eq_length xs

theorem isTally_perm {ys : List K} (h : IsTally r xs m) (hperm : xs.Perm ys) : IsTally r ys m := by
  refine ⟨h.sorted, fun k c => ?_⟩
  have heq : occurs k ys = occurs k xs := hperm.symm.count_eq k
  rw [h.counts, heq]

/-- A list has one tally. -/
theorem isTally_unique {m' : List (K × ℕ)} (hasymm : ∀ a b, r a b → ¬ r b a)
    (h : IsTally r xs m) (h' : IsTally r xs m') : m = m' := by
  have hnodup {l : List (K × ℕ)} (hl : IsTally r xs l) : l.Nodup :=
    List.Nodup.of_map Prod.fst (hl.nodup fun k hk => hasymm k k hk hk)
  have hperm : m.Perm m' := by
    rw [List.perm_ext_iff_of_nodup (hnodup h) (hnodup h')]
    rintro ⟨k, c⟩
    rw [h.counts, h'.counts]
  apply hperm.eq_of_pairwise _ h.sorted h'.sorted
  intro a b _ _ hab hba
  exact absurd hba (hasymm _ _ hab)

end Basic

section Transport

variable {K L : Type} [DecidableEq K] [DecidableEq L] {r : K → K → Prop} {r' : L → L → Prop}
  {xs : List K} {m : List (K × ℕ)}

theorem occurs_map (f : K → L) (xs : List K) (k : K)
    (hinj : ∀ a ∈ xs, f a = f k → a = k) : occurs (f k) (xs.map f) = occurs k xs := by
  induction xs with
  | nil => rfl
  | cons a xs ih =>
    have htail := ih fun b hb => hinj b (List.mem_cons_of_mem a hb)
    rw [List.map_cons, occurs_cons, occurs_cons, htail]
    by_cases ha : a = k
    · simp [ha]
    · have hfa : f a ≠ f k := fun he => ha (hinj a List.mem_cons_self he)
      simp [ha, hfa]

/-- A tally is carried along a map that keeps the order of the elements. -/
theorem IsTally.map (h : IsTally r xs m) (f : K → L)
    (hmono : ∀ a ∈ xs, ∀ b ∈ xs, r a b → r' (f a) (f b))
    (hinj : ∀ a ∈ xs, ∀ b ∈ xs, f a = f b → a = b) :
    IsTally r' (xs.map f) (m.map fun e => (f e.1, e.2)) := by
  have hkey (e : K × ℕ) (he : e ∈ m) : e.1 ∈ xs :=
    (h.mem_keys e.1).mp (List.mem_map_of_mem he)
  refine ⟨?_, ?_⟩
  · rw [List.pairwise_map]
    apply h.sorted.imp_of_mem
    intro a b ha hb hab
    exact hmono _ (hkey a ha) _ (hkey b hb) hab
  · intro k c
    rw [List.mem_map]
    constructor
    · rintro ⟨e, he, heq⟩
      cases heq
      obtain ⟨hpos, hc⟩ := (h.counts e.1 e.2).mp he
      refine ⟨hpos, ?_⟩
      rw [occurs_map f xs e.1 fun a ha => hinj a ha e.1 (hkey e he)]
      exact hc
    · rintro ⟨hpos, hc⟩
      have hk : k ∈ xs.map f := (occurs_pos_iff k _).mp (hc ▸ hpos)
      obtain ⟨a, ha, rfl⟩ := List.mem_map.mp hk
      rw [occurs_map f xs a fun b hb => hinj b hb a ha] at hc
      exact ⟨(a, c), (h.counts a c).mpr ⟨hpos, hc⟩, rfl⟩

end Transport

section Groups

variable {G K : Type} [DecidableEq G] [DecidableEq K] {rg : G → G → Prop} {r : K → K → Prop}

/-- The members of one group. -/
def members (g : G) (xs : List (G × K)) : List K :=
  (xs.filter fun x => x.1 = g).map Prod.snd

theorem occurs_members (g : G) (k : K) (xs : List (G × K)) :
    occurs k (members g xs) = occurs (g, k) xs := by
  induction xs with
  | nil => rfl
  | cons x xs ih =>
    obtain ⟨g', k'⟩ := x
    unfold members at ih ⊢
    by_cases hg : g' = g
    · subst hg
      rw [List.filter_cons_of_pos (by simp), List.map_cons, occurs_cons, ih, occurs_cons]
      simp
    · rw [List.filter_cons_of_neg (by simpa using hg), ih, occurs_cons]
      simp [hg]

omit [DecidableEq K] in
theorem members_snoc (g g' : G) (k : K) (xs : List (G × K)) :
    members g (xs ++ [(g', k)]) = members g xs ++ if g' = g then [k] else [] := by
  unfold members
  by_cases hg : g' = g
  · simp [hg]
  · simp [hg]

omit [DecidableEq K] in
theorem members_length (g : G) (xs : List (G × K)) :
    (members g xs).length = occurs g (xs.map Prod.fst) := by
  rw [members, List.length_map, occurs, List.count_eq_countP, List.countP_map,
    List.countP_eq_length_filter]
  rfl

/-- Ascending first by group, then by member. -/
def lexOrder (rg : G → G → Prop) (r : K → K → Prop) (a b : G × K) : Prop :=
  rg a.1 b.1 ∨ a.1 = b.1 ∧ r a.2 b.2

/-- The tallies of the groups, one after the other, are a tally of the whole. -/
theorem isTally_groups (gs : List G) (hgs : gs.Pairwise rg) (xs : List (G × K))
    (hall : ∀ x ∈ xs, x.1 ∈ gs) (m : G → List (K × ℕ))
    (hm : ∀ g ∈ gs, IsTally r (members g xs) (m g)) :
    IsTally (lexOrder rg r) xs (gs.flatMap fun g => (m g).map fun e => ((g, e.1), e.2)) := by
  refine ⟨?_, ?_⟩
  · rw [List.pairwise_flatMap]
    refine ⟨?_, ?_⟩
    · intro g hg
      rw [List.pairwise_map]
      exact (hm g hg).sorted.imp fun hab => .inr ⟨rfl, hab⟩
    · apply hgs.imp
      intro g g' hgg a ha b hb
      obtain ⟨e, -, rfl⟩ := List.mem_map.mp ha
      obtain ⟨e', -, rfl⟩ := List.mem_map.mp hb
      exact .inl hgg
  · rintro ⟨g, k⟩ c
    rw [List.mem_flatMap]
    constructor
    · rintro ⟨g', hg', hrow⟩
      obtain ⟨e, he, heq⟩ := List.mem_map.mp hrow
      cases heq
      rw [← occurs_members]
      exact ((hm _ hg').counts _ _).mp he
    · rintro ⟨hpos, hc⟩
      have hx : (g, k) ∈ xs := (occurs_pos_iff _ xs).mp (hc ▸ hpos)
      have hg := hall _ hx
      rw [← occurs_members] at hc
      exact ⟨g, hg, List.mem_map.mpr ⟨(k, c), ((hm g hg).counts k c).mpr ⟨hpos, hc⟩, rfl⟩⟩

end Groups

end Tally
