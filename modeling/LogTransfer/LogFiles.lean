import LogTransfer.LoggerConduct
import LogTransfer.ResultLines

/-!
# The files of a date

The lines of a date are cut into consecutive groups, one to a file: the
numbered files first and the active one last. Rotating gives the active file
the first free number and starts an empty one, so the order of the lines is the
order of the numbers.
-/

set_option autoImplicit false

namespace LogTransfer.Logging
open Program FileStore

section Groups

def bytesIn (lines : List Bytes) : ℕ := lines.flatten.length

/-- A file that was filled: a further line would have been too much. A line
longer than a file may be has one to itself. -/
def Full (group rest : List Bytes) : Prop :=
  (bytesIn group ≤ kMaxLogFileBytes ∨ group.length ≤ 1) ∧
    ∀ line ∈ rest.head?, kMaxLogFileBytes < bytesIn group + line.length

def Packed : List (List Bytes) → List Bytes → Prop
  | [], _ => True
  | group::groups, last => Full group (groups.flatten ++ last) ∧ Packed groups last

theorem packed_snoc (groups : List (List Bytes)) (group last : List Bytes) :
    Packed (groups ++ [group]) last ↔ Packed groups (group ++ last) ∧ Full group last := by
  induction groups with
  | nil => simp [Packed]
  | cons g groups ih =>
    rw [List.cons_append, Packed, Packed, ih]
    simp only [List.flatten_append, List.flatten_singleton, List.append_assoc]
    exact and_assoc.symm

/-- Only the line after a full group matters to it. -/
theorem packed_append {groups : List (List Bytes)} {last more : List Bytes} (h : last ≠ []) :
    Packed groups (last ++ more) ↔ Packed groups last := by
  induction groups with
  | nil => exact Iff.rfl
  | cons group groups ih =>
    have hhead : (groups.flatten ++ (last ++ more)).head? = (groups.flatten ++ last).head? := by
      rw [← List.append_assoc, List.head?_append_of_ne_nil]
      intro he
      exact h (List.append_eq_nil_iff.mp he).2
    rw [Packed, Packed, ih, Full, Full, hhead]

theorem bytesIn_snoc (lines : List Bytes) (line : Bytes) :
    bytesIn (lines ++ [line]) = bytesIn lines + line.length := by
  simp [bytesIn]

/-- The files of a date, each holding its group of lines. -/
structure Shelved (d : LogDisk) (dir : LogDir) (name : Bytes) (groups : List (List Bytes))
    (last : List Bytes) : Prop where
  bound : groups.length ≤ kMaxRotationIndex
  filed : ∀ i group, groups[i]? = some group →
    d.present (dir, candidate name (i + 1)) = true ∧
      d.read (dir, candidate name (i + 1)) = group.flatten
  free : ∀ i, groups.length ≤ i → i < kMaxRotationIndex →
    d.present (dir, candidate name (i + 1)) = false
  active : d.read (dir, name) = last.flatten

/-- The lines of a date as its files hold them. -/
structure Filed (d : LogDisk) (dir : LogDir) (name : Bytes) (lines : List Bytes)
    (groups : List (List Bytes)) (last : List Bytes) : Prop where
  shelved : Shelved d dir name groups last
  whole : groups.flatten ++ last = lines
  text : ∀ line ∈ lines, line ≠ []
  packed : Packed groups last
  room : bytesIn last ≤ kMaxLogFileBytes ∨ last.length ≤ 1 ∨ groups.length = kMaxRotationIndex
  started : last = [] → groups = []

theorem rotationSuffix_inj {i j : ℕ} (h : rotationSuffix i = rotationSuffix j) : i = j := by
  have hvalue : ∀ n, digitsValue ((rotationSuffix n).drop 1) = n := by
    intro n
    have hzeros : ∀ k ds, digitsValue (List.replicate k (ch '0') ++ ds) = digitsValue ds := by
      intro k ds
      induction k with
      | zero => rfl
      | succ k ih =>
        rw [List.replicate_succ, List.cons_append]
        exact ih
    exact (hzeros _ _).trans (decimal_value n)
  rw [← hvalue i, h, hvalue j]

theorem candidate_inj {name : Bytes} {i j : ℕ} (h : candidate name i = candidate name j) :
    i = j := by
  unfold candidate at h
  exact rotationSuffix_inj (List.append_cancel_left (List.append_cancel_right h))

theorem shelved_of_reads {d d' : LogDisk} {dir : LogDir} {name : Bytes}
    {groups : List (List Bytes)} {last : List Bytes} (h : Shelved d dir name groups last)
    (hr : ∀ n, d'.read (dir, n) = d.read (dir, n))
    (hp : ∀ i, d'.present (dir, candidate name i) = d.present (dir, candidate name i)) :
    Shelved d' dir name groups last where
  bound := h.bound
  filed i group hg := by
    rw [hp, hr]
    exact h.filed i group hg
  free i hi hlt := by
    rw [hp]
    exact h.free i hi hlt
  active := by
    rw [hr]
    exact h.active

/-- A rotation files the last group under the first free number. -/
theorem shelved_rename {d : LogDisk} {dir : LogDir} {name : Bytes} {groups : List (List Bytes)}
    {last : List Bytes} (h : Shelved d dir name groups last)
    (hp : d.present (dir, name) = true) (hlt : groups.length < kMaxRotationIndex) :
    Shelved (d.rename dir name (candidate name (groups.length + 1))) dir name
      (groups ++ [last]) [] := by
  have hne := candidate_ne name (groups.length + 1)
  have hread := Disk.read_rename hp hne
  have hnames := Disk.rename_names hp hne
  have hother : ∀ i, i ≠ groups.length →
      ((dir, candidate name (i + 1)) : LogDir × Bytes) ≠
        (dir, candidate name (groups.length + 1)) := fun i hi he =>
    hi (Nat.succ.inj (candidate_inj (Prod.mk.inj he).2))
  have hname : ∀ i, ((dir, candidate name i) : LogDir × Bytes) ≠ (dir, name) := fun i he =>
    candidate_ne name i (Prod.mk.inj he).2
  have hpresent : ∀ i, i ≠ groups.length →
      (d.rename dir name (candidate name (groups.length + 1))).present
        (dir, candidate name (i + 1)) = d.present (dir, candidate name (i + 1)) := by
    intro i hi
    rw [Disk.present, hnames, Disk.moved, Function.update_of_ne (hother i hi),
      Function.update_of_ne (hname _)]
    rfl
  refine ⟨?_, ?_, ?_, ?_⟩
  · rw [List.length_append]
    exact hlt
  · intro i group hg
    by_cases hi : i = groups.length
    · subst hi
      rw [List.getElem?_append_right le_rfl, Nat.sub_self] at hg
      obtain rfl : last = group := Option.some.inj hg
      refine ⟨?_, by rw [hread, if_pos rfl]; exact h.active⟩
      rw [Disk.present, hnames, Disk.moved, Function.update_self]
      exact hp
    · have hi' : i < groups.length := by
        have := (List.getElem?_eq_some_iff.mp hg).1
        rw [List.length_append] at this
        exact Nat.lt_of_le_of_ne (Nat.le_of_lt_succ this) hi
      rw [List.getElem?_append_left hi'] at hg
      rw [hpresent i hi, hread, if_neg (hother i hi), if_neg (hname _)]
      exact h.filed i group hg
  · intro i hi hlt'
    rw [List.length_append, List.length_singleton] at hi
    rw [hpresent i (by omega)]
    exact h.free i (by omega) hlt'
  · rw [hread, if_neg (hname _).symm, if_pos rfl]
    rfl

/-- A line is appended to the active file of one directory. -/
theorem shelved_append {d : LogDisk} {dir : LogDir} {name line : Bytes}
    {groups : List (List Bytes)} {last : List Bytes} {file : ℕ}
    (h : Shelved d dir name groups last) (hf : d.names (dir, name) = some file) :
    Shelved (d.append file line) dir name groups (last ++ [line]) where
  bound := h.bound
  filed i group hg := by
    rw [Disk.read_append_ne hf fun he => candidate_ne name _ (Prod.mk.inj he).2]
    exact h.filed i group hg
  free := h.free
  active := by
    rw [Disk.read_append hf, h.active]
    simp

theorem shelved_empty {d : LogDisk} {dir : LogDir} {name : Bytes}
    (h : ∀ n, d.names (dir, n) = none) : Shelved d dir name [] [] where
  bound := Nat.zero_le _
  filed i group hg := by
    rw [List.getElem?_nil] at hg
    cases hg
  free i _ _ := by rw [Disk.present, h, Option.isSome_none]
  active := Disk.read_of_none (h name)

/-- No files, no lines. -/
theorem filed_empty {d : LogDisk} {dir : LogDir} {name : Bytes}
    (h : ∀ n, d.names (dir, n) = none) : Filed d dir name [] [] [] :=
  ⟨shelved_empty h, rfl, fun _ hl => absurd hl (List.not_mem_nil), trivial, .inl (Nat.zero_le _),
    fun _ => rfl⟩

theorem filed_of_reads {d d' : LogDisk} {dir : LogDir} {name : Bytes} {lines : List Bytes}
    {groups : List (List Bytes)} {last : List Bytes} (h : Filed d dir name lines groups last)
    (hr : ∀ n, d'.read (dir, n) = d.read (dir, n))
    (hp : ∀ i, d'.present (dir, candidate name i) = d.present (dir, candidate name i)) :
    Filed d' dir name lines groups last :=
  ⟨shelved_of_reads h.shelved hr hp, h.whole, h.text, h.packed, h.room, h.started⟩

end Groups

section Faultless

variable {s : Store} {α : Type}

/-- A file is open for the date, and every file reads as before. -/
structure Reopened (l : Logger) (date : Bytes) (s s' : Store) (l' : Logger) : Prop where
  opened : ∃ file, l' = l.opened date file (s.disk.read (⟨l.baseDir, date⟩, l.baseName)).length ∧
    s'.disk.names (⟨l.baseDir, date⟩, l.baseName) = some file
  reads : ∀ q, s'.disk.read q = s.disk.read q
  others : ∀ q, q ≠ (⟨l.baseDir, date⟩, l.baseName) → s'.disk.names q = s.disk.names q

theorem openForDateLocked_faultless (l : Logger) (date : Bytes) (s : Store) :
    Keeps Store.next faultless (l.openForDateLocked date) s fun s' r =>
      r.2 = true ∧ Reopened l date s s' r.1 := by
  refine ⟨trivial, fun made hmade => ?_⟩
  cases made with
  | false => exact absurd hmade.2 (Nat.succ_ne_self _)
  | true =>
    refine ⟨trivial, fun opened hopened => ?_⟩
    cases opened with
    | none => exact absurd hopened.2 (Nat.succ_ne_self _)
    | some file =>
      obtain ⟨-, hfile⟩ := hopened.1 file rfl
      refine ⟨trivial, fun existing hexisting => ?_⟩
      cases existing with
      | none => exact absurd hexisting.2 (Nat.succ_ne_self _)
      | some size =>
        have hread : ∀ q, ((s.disk.makeDir ⟨l.baseDir, date⟩).touch
            (⟨l.baseDir, date⟩, l.baseName)).read q = s.disk.read q := fun q =>
          (Disk.read_touch _ _ _).trans (Disk.read_makeDir _ _ _)
        have hsize : size = (s.disk.read (⟨l.baseDir, date⟩, l.baseName)).length :=
          (hexisting.1 size rfl).2.trans (congrArg List.length (hread _))
        refine ⟨rfl, ⟨file, by rw [← hsize]; rfl, hfile⟩, hread, fun q hq => ?_⟩
        exact (Disk.touch_names_ne _ hq).trans (congrFun (Disk.makeDir_names _ _) q)

/-- The active file took the first free number, or there was none. -/
def Renamed (groups : List (List Bytes)) (dir : LogDir) (name : Bytes) (s s' : Store)
    (renamed : Bool) : Prop :=
  groups.length < kMaxRotationIndex ∧ renamed = true ∧
      s' = { s with disk := s.disk.rename dir name (candidate name (groups.length + 1)) } ∨
    groups.length = kMaxRotationIndex ∧ renamed = false ∧ s' = s

/-- From number `k + 1` on, all below it taken. -/
theorem renameLoop_faultless {dir : LogDir} {name : Bytes} {groups : List (List Bytes)}
    {last : List Bytes} (h : Shelved s.disk dir name groups last)
    (n k : ℕ) (hk : k ≤ groups.length)
    (hn : k + n = kMaxRotationIndex) :
    Keeps Store.next faultless (Logger.renameLoop dir name (List.range' (k + 1) n)) s
      fun s' renamed => Renamed groups dir name s s' renamed := by
  induction n generalizing k with
  | zero =>
    have hbound := h.bound
    exact .inr ⟨by omega, rfl, rfl⟩
  | succ n ih =>
    rw [List.range'_succ]
    refine ⟨trivial, fun taken htaken => ?_⟩
    have htaken' : taken = s.disk.present (dir, candidate name (k + 1)) := htaken.1
    by_cases hkg : k = groups.length
    · have hfree := h.free k (by omega) (by omega)
      rw [hfree] at htaken'
      subst htaken'
      refine ⟨trivial, fun done hdone => ?_⟩
      cases done with
      | false => exact absurd hdone.2 (Nat.succ_ne_self _)
      | true => exact .inl ⟨by omega, rfl, by rw [← hkg]; rfl⟩
    · have hlt : k < groups.length := by omega
      have hfull := (h.filed k groups[k] (List.getElem?_eq_getElem hlt)).1
      rw [hfull] at htaken'
      subst htaken'
      exact ih (k + 1) (by omega) (by omega)

theorem rotationIndices_eq : Logger.rotationIndices = List.range' 1 kMaxRotationIndex := by
  rw [Logger.rotationIndices, List.range'_eq_map_range]
  exact List.map_congr_left fun i _ => Nat.add_comm i 1

end Faultless

end LogTransfer.Logging
