import LogTransfer.LoggerConduct
import LogTransfer.ResultLines
import LogTransfer.ResultSize

/-!
# How long the log is kept

Pruning takes the directories of dates before the first that is kept, but never
the one that is written to.
-/

set_option autoImplicit false

namespace LogTransfer.Logging
open Program FileStore

section Pruning

/-- A date that pruning takes while `date` is written to. -/
def Expired (date cutoff d : Bytes) : Prop :=
  isDateName d = true ∧ d ≠ date ∧ lexLt d cutoff = true

instance (date cutoff d : Bytes) : Decidable (Expired date cutoff d) :=
  inferInstanceAs (Decidable (_ ∧ _ ∧ _))

/-- What pruning takes of what the iterator found. -/
def Taken (l : Logger) (cutoff : Bytes) (found : List (Bytes × Bool)) (dir : LogDir) : Prop :=
  dir.base = l.baseDir ∧ (dir.date, true) ∈ found ∧ Expired l.activeDate cutoff dir.date

/-- The test of the loop. -/
def expires (l : Logger) (cutoff : Bytes) (e : Bytes × Bool) : Bool :=
  e.2 && decide (Expired l.activeDate cutoff e.1)

structure Pruned (l : Logger) (cutoff : Bytes) (found : List (Bytes × Bool)) (s s' : Store)
    (removed : ℕ) : Prop where
  gone : ∀ q, Taken l cutoff found q.1 → s'.disk.names q = none
  kept : ∀ q, ¬ Taken l cutoff found q.1 → s'.disk.names q = s.disk.names q
  content : s'.disk.content = s.disk.content
  entries : ∀ e, e ∈ s'.disk.entries ↔ e ∈ s.disk.entries ∧ ¬ Taken l cutoff found e.1
  count : removed = found.countP (expires l cutoff)

variable {l : Logger} {cutoff name : Bytes} {rest : List (Bytes × Bool)} {s s' : Store} {n : ℕ}

theorem taken_cons {isDirectory : Bool} (h : isDirectory = true)
    (he : Expired l.activeDate cutoff name) (dir : LogDir) :
    Taken l cutoff ((name, isDirectory) :: rest) dir ↔
      dir = ⟨l.baseDir, name⟩ ∨ Taken l cutoff rest dir := by
  subst h
  constructor
  · rintro ⟨hb, hm, hx⟩
    obtain hm | hm := List.mem_cons.mp hm
    · left
      obtain ⟨base, date⟩ := dir
      cases hm
      cases hb
      rfl
    · exact .inr ⟨hb, hm, hx⟩
  · rintro (rfl | ⟨hb, hm, hx⟩)
    · exact ⟨rfl, List.mem_cons_self, he⟩
    · exact ⟨hb, List.mem_cons_of_mem _ hm, hx⟩

theorem taken_skip {isDirectory : Bool}
    (h : ¬ (isDirectory = true ∧ Expired l.activeDate cutoff name)) (dir : LogDir) :
    Taken l cutoff ((name, isDirectory) :: rest) dir ↔ Taken l cutoff rest dir := by
  constructor
  · rintro ⟨hb, hm, hx⟩
    obtain hm | hm := List.mem_cons.mp hm
    · obtain ⟨rfl, rfl⟩ := Prod.mk.inj hm
      exact absurd ⟨rfl, hx⟩ h
    · exact ⟨hb, hm, hx⟩
  · rintro ⟨hb, hm, hx⟩
    exact ⟨hb, List.mem_cons_of_mem _ hm, hx⟩

theorem pruned_cons {isDirectory : Bool} (h : isDirectory = true)
    (he : Expired l.activeDate cutoff name)
    (hp : Pruned l cutoff rest { s with
      disk := s.disk.removeDir ⟨l.baseDir, name⟩, cleared := s.cleared ++ [⟨l.baseDir, name⟩] }
      s' n) :
    Pruned l cutoff ((name, isDirectory) :: rest) s s' (n + 1) where
  gone q hq := by
    obtain hdir | hq := (taken_cons h he _).mp hq
    · by_cases hrest : Taken l cutoff rest q.1
      · exact hp.gone q hrest
      · exact (hp.kept q hrest).trans (if_pos hdir)
    · exact hp.gone q hq
  kept q hq := by
    rw [taken_cons h he, not_or] at hq
    exact (hp.kept q hq.2).trans (if_neg hq.1)
  content := hp.content
  entries e := by
    rw [hp.entries e, taken_cons h he, not_or, ← and_assoc]
    simp [Disk.removeDir]
  count := by
    have hcond : expires l cutoff (name, isDirectory) = true := by
      rw [expires, h, decide_eq_true he]
      rfl
    rw [hp.count, List.countP_cons_of_pos hcond]

theorem pruned_skip {isDirectory : Bool}
    (h : ¬ (isDirectory = true ∧ Expired l.activeDate cutoff name))
    (hp : Pruned l cutoff rest s s' n) :
    Pruned l cutoff ((name, isDirectory) :: rest) s s' n where
  gone q hq := hp.gone q ((taken_skip h _).mp hq)
  kept q hq := hp.kept q fun ht => hq ((taken_skip h _).mpr ht)
  content := hp.content
  entries e := by rw [hp.entries e, taken_skip h]
  count := by
    have hcond : ¬ expires l cutoff (name, isDirectory) = true := by
      simpa [expires] using h
    rw [hp.count, List.countP_cons_of_neg hcond]

theorem pruneLoop_faultless (l : Logger) (cutoff : Bytes) (found : List (Bytes × Bool))
    (s : Store) :
    Keeps Store.next faultless (l.pruneLoop cutoff found) s fun s' n =>
      Pruned l cutoff found s s' n := by
  induction found generalizing s with
  | nil =>
    have hnone : ∀ dir, ¬ Taken l cutoff [] dir := fun dir h => by cases h.2.1
    exact ⟨fun q hq => absurd hq (hnone _), fun _ _ => rfl, rfl,
      fun e => ⟨fun he => ⟨he, hnone _⟩, And.left⟩, rfl⟩
  | cons entry rest ih =>
    obtain ⟨name, isDirectory⟩ := entry
    have hiff : (isDirectory && isDateName name && decide (name ≠ l.activeDate) &&
        lexLt name cutoff) = true ↔ isDirectory = true ∧ Expired l.activeDate cutoff name := by
      simp [Expired, and_assoc]
    rw [Logger.pruneLoop]
    split
    · rename_i hold
      obtain ⟨hdir, hexpired⟩ := hiff.mp hold
      refine ⟨trivial, fun removed hremoved => ?_⟩
      cases removed with
      | some left => exact absurd hremoved.2 (Nat.succ_ne_self _)
      | none =>
        refine keeps_seq _ _ (l.pruneLoop cutoff rest) _ _ (ih _) fun s' n h' => ?_
        exact pruned_cons hdir hexpired h'
    · rename_i hnew
      refine keeps_mono _ _ _ _ (fun s' n h' => ?_) (ih s)
      exact pruned_skip (fun h => hnew (hiff.mpr h)) h'

end Pruning

section Dates

theorem putDigits_read (count value : ℕ) (h : value < 10 ^ count) :
    digitsValue (putDigits count value) = value := by
  induction count generalizing value with
  | zero =>
    rw [pow_zero, Nat.lt_one_iff] at h
    rw [h]
    rfl
  | succ count ih =>
    have hlast : (BitVec.ofNat 8 (0x30 + value % 10)).toNat = 0x30 + value % 10 := by
      rw [BitVec.toNat_ofNat]
      omega
    rw [putDigits, digitsValue_snoc, ih _ (by rw [pow_succ] at h; omega), hlast]
    omega

theorem dateStringOf_ne (t : CivilTime) : dateStringOf t ≠ [] := by
  simp [dateStringOf, putDigits]

/-- Names of dates compare like their days. -/
theorem lexLt_dates {t u : CivilTime} (ht : t.Valid) (hu : u.Valid) :
    lexLt (dateStringOf t) (dateStringOf u) = true ↔
      daysFromCivil t.year t.month t.day < daysFromCivil u.year u.month u.day := by
  have hbound : ∀ c : CivilTime, c.Valid → c.year < 10 ^ 4 ∧ c.month < 10 ^ 2 ∧ c.day < 10 ^ 2 := by
    intro c hc
    have hy := hc.date.year
    have hm := hc.date.month
    have hd := hc.date.day
    have hle := daysInMonth_le c.year c.month
    omega
  obtain ⟨hty, htm, htd⟩ := hbound t ht
  obtain ⟨huy, hum, hud⟩ := hbound u hu
  have hlen : ∀ count m n, (putDigits count m).length = (putDigits count n).length := by
    intro c m n
    rw [putDigits_length, putDigits_length]
  have hdig := putDigits_digits
  unfold dateStringOf
  rw [List.append_assoc, List.append_assoc, lexLt_fields _ _ (hlen 4 _ _),
    lexLt_fields _ _ (hlen 2 _ _), lexLt_digits (hlen 4 _ _) (hdig _ _) (hdig _ _),
    lexLt_digits (hlen 2 _ _) (hdig _ _) (hdig _ _),
    lexLt_digits (hlen 2 _ _) (hdig _ _) (hdig _ _),
    digits_inj (hlen 4 _ _) (hdig _ _) (hdig _ _), digits_inj (hlen 2 _ _) (hdig _ _) (hdig _ _),
    putDigits_read 4 _ hty, putDigits_read 4 _ huy, putDigits_read 2 _ htm,
    putDigits_read 2 _ hum, putDigits_read 2 _ htd, putDigits_read 2 _ hud,
    daysFromCivil_lt ht.date hu.date]
  omega

/-- The number of a day. -/
def dayOf (t : CivilTime) : ℤ := daysFromCivil t.year t.month t.day

theorem dayOf_unique {t : CivilTime} (ht : t.Valid) {n : ℤ} (h : n * 86400 ≤ t.seconds)
    (h' : t.seconds < (n + 1) * 86400) : dayOf t = n := by
  obtain ⟨-, hh, hm, hs⟩ := ht
  unfold CivilTime.seconds at h h'
  unfold dayOf
  omega

end Dates

section Window

variable {zone : Zone} {l : Logger} {s s' : Store} {reference keepDays : ℤ} {today : CivilTime}
  {removed : ℕ}

theorem mem_listing (s : Store) (base date : Bytes) (flag : Bool) :
    (date, flag) ∈ s.listing base ↔ (⟨base, date⟩, flag) ∈ s.disk.entries := by
  simp only [Store.listing, List.mem_map, List.mem_filter, decide_eq_true_eq]
  constructor
  · rintro ⟨⟨⟨b, d⟩, f⟩, ⟨he, rfl⟩, hpair⟩
    cases hpair
    exact he
  · intro he
    exact ⟨_, ⟨he, rfl⟩, rfl⟩

/-- The day's files beside the directories of two older dates. -/
def sampleDays : Store :=
  { (sampleRun []).2.1 with
    disk := ((sampleRun []).2.1.disk.makeDir ⟨bytesOf ".", bytesOf "20260815"⟩).makeDir
      ⟨bytesOf ".", bytesOf "20260816"⟩ }

end Window

end LogTransfer.Logging
