import Mathlib.Logic.Function.Basic
import Mathlib.Data.List.Basic

/-!
# Files in directories

A name stands for a file by its number, so that a file which was opened is the
same one after its name has changed or gone. Two names never stand for one
file, and a name is always in a directory that is there.
-/

set_option autoImplicit false

namespace LogTransfer.FileStore

/-- `entries` lists what is below the roots; its flag tells a directory from
anything else. -/
structure Disk (D N B : Type) where
  entries : List (D × Bool)
  names : D × N → Option ℕ
  content : ℕ → List B
  fresh : ℕ
  below : ∀ p i, names p = some i → i < fresh
  apart : ∀ p q i, names p = some i → names q = some i → p = q
  housed : ∀ p i, names p = some i → (p.1, true) ∈ entries

namespace Disk

variable {D N B : Type}

def empty : Disk D N B where
  entries := []
  names _ := none
  content _ := []
  fresh := 0
  below _ _ h := by cases h
  apart _ _ _ h := by cases h
  housed _ _ h := by cases h

def present (d : Disk D N B) (p : D × N) : Bool := (d.names p).isSome

/-- The bytes under a name, none where there is no such file. -/
def read (d : Disk D N B) (p : D × N) : List B := (d.names p).elim [] d.content

theorem read_of_some {d : Disk D N B} {p : D × N} {i : ℕ} (h : d.names p = some i) :
    d.read p = d.content i := by
  rw [read, h, Option.elim_some]

theorem read_of_none {d : Disk D N B} {p : D × N} (h : d.names p = none) : d.read p = [] := by
  rw [read, h, Option.elim_none]

def append (d : Disk D N B) (i : ℕ) (bytes : List B) : Disk D N B :=
  { d with content := Function.update d.content i (d.content i ++ bytes) }

theorem append_content (d : Disk D N B) (i : ℕ) (bytes : List B) :
    (d.append i bytes).content = Function.update d.content i (d.content i ++ bytes) := rfl

/-- Appending reaches the one file that was opened. -/
theorem read_append {d : Disk D N B} {p : D × N} {i : ℕ} (h : d.names p = some i)
    (bytes : List B) : (d.append i bytes).read p = d.read p ++ bytes := by
  rw [read_of_some h, read_of_some (d := d.append i bytes) h, append_content,
    Function.update_self]

theorem read_append_ne {d : Disk D N B} {p q : D × N} {i : ℕ} (h : d.names p = some i)
    (hq : q ≠ p) (bytes : List B) : (d.append i bytes).read q = d.read q := by
  cases hj : d.names q with
  | none => rw [read_of_none hj, read_of_none (d := d.append i bytes) hj]
  | some j =>
    have hne : j ≠ i := fun he => hq (d.apart q p i (he ▸ hj) h)
    rw [read_of_some hj, read_of_some (d := d.append i bytes) hj, append_content,
      Function.update_of_ne hne]

variable [DecidableEq D]

def makeDir (d : Disk D N B) (dir : D) : Disk D N B :=
  if (dir, true) ∈ d.entries then d
  else { d with entries := d.entries ++ [(dir, true)]
                housed := fun p i h => List.mem_append_left _ (d.housed p i h) }

theorem makeDir_names (d : Disk D N B) (dir : D) : (d.makeDir dir).names = d.names := by
  unfold makeDir
  split <;> rfl

theorem makeDir_content (d : Disk D N B) (dir : D) : (d.makeDir dir).content = d.content := by
  unfold makeDir
  split <;> rfl

theorem makeDir_fresh (d : Disk D N B) (dir : D) : (d.makeDir dir).fresh = d.fresh := by
  unfold makeDir
  split <;> rfl

theorem read_makeDir (d : Disk D N B) (dir : D) (p : D × N) :
    (d.makeDir dir).read p = d.read p := by
  rw [read, read, makeDir_names, makeDir_content]

/-- Removes a directory and all its files. -/
def removeDir (d : Disk D N B) (dir : D) : Disk D N B :=
  { d with
    entries := d.entries.filter (·.1 ≠ dir)
    names := fun p => if p.1 = dir then none else d.names p
    below := fun p i h => by
      split at h
      · cases h
      · exact d.below p i h
    apart := fun p q i hp hq => by
      split at hp
      · cases hp
      · split at hq
        · cases hq
        · exact d.apart p q i hp hq
    housed := fun p i h => by
      split at h
      · cases h
      · rename_i hne
        exact List.mem_filter.mpr ⟨d.housed p i h, by simpa using hne⟩ }

theorem removeDir_names (d : Disk D N B) (dir : D) (q : D × N) :
    (d.removeDir dir).names q = if q.1 = dir then none else d.names q := rfl

variable [DecidableEq N]

/-- Opens a name for appending. Nothing is made outside a directory. -/
def touch (d : Disk D N B) (p : D × N) : Disk D N B :=
  if hnew : d.names p = none ∧ (p.1, true) ∈ d.entries then
    { entries := d.entries
      names := Function.update d.names p (some d.fresh)
      content := Function.update d.content d.fresh []
      fresh := d.fresh + 1
      below := fun q i h => by
        by_cases hq : q = p
        · rw [hq, Function.update_self] at h
          cases h
          exact Nat.lt_succ_self _
        · rw [Function.update_of_ne hq] at h
          exact Nat.lt_succ_of_lt (d.below q i h)
      apart := fun q r i hq hr => by
        have hlast : ∀ s, d.names s ≠ some d.fresh := fun s hs =>
          Nat.lt_irrefl _ (d.below s _ hs)
        by_cases hqp : q = p
        · by_cases hrp : r = p
          · rw [hqp, hrp]
          · rw [hqp, Function.update_self] at hq
            rw [Function.update_of_ne hrp, ← hq] at hr
            exact absurd hr (hlast r)
        · rw [Function.update_of_ne hqp] at hq
          by_cases hrp : r = p
          · rw [hrp, Function.update_self] at hr
            rw [← hr] at hq
            exact absurd hq (hlast q)
          · rw [Function.update_of_ne hrp] at hr
            exact d.apart q r i hq hr
      housed := fun q i h => by
        by_cases hq : q = p
        · rw [hq]
          exact hnew.2
        · rw [Function.update_of_ne hq] at h
          exact d.housed q i h }
  else d

/-- The names after `p` became `q`. -/
def moved (d : Disk D N B) (p q : D × N) : D × N → Option ℕ :=
  Function.update (Function.update d.names p none) q (d.names p)

theorem moved_cases {d : Disk D N B} {p q r : D × N} {i : ℕ} (h : d.moved p q r = some i) :
    r = q ∧ d.names p = some i ∨ r ≠ q ∧ r ≠ p ∧ d.names r = some i := by
  unfold moved at h
  by_cases hrq : r = q
  · rw [hrq, Function.update_self] at h
    exact .inl ⟨hrq, h⟩
  · rw [Function.update_of_ne hrq] at h
    by_cases hrp : r = p
    · rw [hrp, Function.update_self] at h
      cases h
    · rw [Function.update_of_ne hrp] at h
      exact .inr ⟨hrq, hrp, h⟩

/-- Gives a file another name in its directory, over any file that had it. -/
def rename (d : Disk D N B) (dir : D) (old new : N) : Disk D N B :=
  if hold : (d.names (dir, old)).isSome ∧ new ≠ old then
    { d with
      names := d.moved (dir, old) (dir, new)
      below := fun r i h => by
        obtain ⟨-, h⟩ | ⟨-, -, h⟩ := moved_cases h
        · exact d.below _ i h
        · exact d.below r i h
      apart := fun q r i hq hr => by
        obtain ⟨hqn, hq⟩ | ⟨-, hqo, hq⟩ := moved_cases hq
        · obtain ⟨hrn, -⟩ | ⟨-, hro, hr⟩ := moved_cases hr
          · rw [hqn, hrn]
          · exact absurd (d.apart r _ i hr hq) hro
        · obtain ⟨-, hr⟩ | ⟨-, -, hr⟩ := moved_cases hr
          · exact absurd (d.apart q _ i hq hr) hqo
          · exact d.apart q r i hq hr
      housed := fun r i h => by
        obtain ⟨hrn, hold⟩ | ⟨-, -, h⟩ := moved_cases h
        · rw [hrn]
          exact d.housed (dir, old) i hold
        · exact d.housed r i h }
  else d

/-- Removes the files of a directory, all but those in `left`. -/
def clear (d : Disk D N B) (dir : D) (left : List N) : Disk D N B :=
  { d with
    names := fun p => if p.1 = dir ∧ left.all (· ≠ p.2) then none else d.names p
    below := fun p i h => by
      split at h
      · cases h
      · exact d.below p i h
    apart := fun p q i hp hq => by
      split at hp
      · cases hp
      · split at hq
        · cases hq
        · exact d.apart p q i hp hq
    housed := fun p i h => by
      split at h
      · cases h
      · exact d.housed p i h }

section Effects

variable {d : Disk D N B} {p q : D × N} {dir : D}

theorem touch_new (hn : d.names p = none) (hd : (p.1, true) ∈ d.entries) :
    (d.touch p).names = Function.update d.names p (some d.fresh) ∧
      (d.touch p).content = Function.update d.content d.fresh [] := by
  rw [touch, dif_pos ⟨hn, hd⟩]
  exact ⟨rfl, rfl⟩

theorem touch_old {i : ℕ} (h : d.names p = some i) : d.touch p = d := by
  rw [touch, dif_neg]
  rintro ⟨hn, -⟩
  rw [h] at hn
  cases hn

theorem touch_names_ne (d : Disk D N B) (hq : q ≠ p) : (d.touch p).names q = d.names q := by
  unfold touch
  split
  · exact Function.update_of_ne hq _ _
  · rfl

/-- A file that is made is empty, as it was read before. -/
theorem read_touch (d : Disk D N B) (p q : D × N) : (d.touch p).read q = d.read q := by
  by_cases hnew : d.names p = none ∧ (p.1, true) ∈ d.entries
  · obtain ⟨hnames, hcontent⟩ := touch_new hnew.1 hnew.2
    rw [read, read, hnames, hcontent]
    by_cases hq : q = p
    · rw [hq, Function.update_self, hnew.1, Option.elim_some, Function.update_self,
        Option.elim_none]
    · rw [Function.update_of_ne hq]
      cases h : d.names q with
      | none => rfl
      | some i =>
        have hi := d.below q i h
        rw [Option.elim_some, Option.elim_some, Function.update_of_ne (by omega)]
  · rw [touch, dif_neg hnew]

theorem touch_content_old (d : Disk D N B) (p : D × N) {i : ℕ} (h : i < d.fresh) :
    (d.touch p).content i = d.content i := by
  unfold touch
  split
  · exact Function.update_of_ne (Nat.ne_of_lt h) _ _
  · rfl

theorem touch_fresh (d : Disk D N B) (p : D × N) : d.fresh ≤ (d.touch p).fresh := by
  unfold touch
  split
  · exact Nat.le_succ _
  · exact Nat.le_refl _

theorem rename_names {old new : N} (h : d.present (dir, old) = true) (hne : new ≠ old) :
    (d.rename dir old new).names = d.moved (dir, old) (dir, new) := by
  rw [rename, dif_pos ⟨h, hne⟩]

theorem rename_content (d : Disk D N B) (dir : D) (old new : N) :
    (d.rename dir old new).content = d.content := by
  unfold rename
  split <;> rfl

theorem rename_fresh (d : Disk D N B) (dir : D) (old new : N) :
    (d.rename dir old new).fresh = d.fresh := by
  unfold rename
  split <;> rfl

theorem read_rename {old new : N} (h : d.present (dir, old) = true) (hne : new ≠ old)
    (q : D × N) : (d.rename dir old new).read q =
      if q = (dir, new) then d.read (dir, old) else if q = (dir, old) then [] else d.read q := by
  rw [read, read, read, rename_names h hne, rename_content, moved]
  by_cases hqn : q = (dir, new)
  · rw [hqn, Function.update_self, if_pos rfl]
  · rw [Function.update_of_ne hqn, if_neg hqn]
    by_cases hqo : q = (dir, old)
    · rw [hqo, Function.update_self, if_pos rfl]
      rfl
    · rw [Function.update_of_ne hqo, if_neg hqo]

theorem clear_names (d : Disk D N B) (dir : D) (left : List N) (q : D × N) :
    (d.clear dir left).names q =
      if q.1 = dir ∧ left.all (· ≠ q.2) then none else d.names q := rfl

end Effects

end Disk

end LogTransfer.FileStore
