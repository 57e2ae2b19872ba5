import LogTransfer.LogFiles
import LogTransfer.LogRetention

/-!
# The journal behind the files

What the logger is for is one list of lines for each date. As long as nothing
fails, every call of the logger is a step of that journal, and the files of
each date hold its lines.
-/

set_option autoImplicit false

namespace LogTransfer.Logging
open Program FileStore

section Journal

/-- The lines of each date, and the date that is written to. -/
structure Journal where
  date : Option Bytes
  days : Bytes → List Bytes

namespace Journal

def write (j : Journal) (date line : Bytes) : Journal :=
  { date := some date, days := Function.update j.days date (j.days date ++ [line]) }

theorem write_same (j : Journal) (date line : Bytes) :
    (j.write date line).days date = j.days date ++ [line] := Function.update_self ..

theorem write_other (j : Journal) {date d : Bytes} (line : Bytes) (h : d ≠ date) :
    (j.write date line).days d = j.days d := Function.update_of_ne h ..

def prune (j : Journal) (date cutoff : Bytes) : Journal :=
  { j with days := fun d => if Expired date cutoff d then [] else j.days d }

/-- What a call does to the journal. -/
def next (zone : Zone) (j : Journal) : Call → Journal
  | .openFile now _ baseName =>
    if baseName = [] then j else now.elim j fun now => { j with date := some (dateStringOf now) }
  | .log now level message =>
    j.date.elim j fun date =>
      j.write (now.elim date dateStringOf) (Logger.lineOf now level message)
  | .pruneOldLogs reference keepDays =>
    j.date.elim j fun date =>
      if keepDays < 1 then j else (cutoffDate zone reference keepDays).elim j (j.prune date)
  | .close => { j with date := none }

end Journal

/-- Every file sink that is asked for is the one of `base` and `name`. -/
def OnSink (base name : Bytes) : Call → Prop
  | .openFile _ baseDir baseName =>
    baseName = [] ∨ (if baseDir = [] then bytesOf "." else baseDir) = base ∧ baseName = name
  | .log _ _ _ | .pruneOldLogs _ _ | .close => True

/-- The counter of the active file; it starts again once the numbers are used up. -/
def Counted (l : Logger) (groups : List (List Bytes)) (last : List Bytes) : Prop :=
  l.bytesWritten ≤ bytesIn last ∧
    (groups.length < kMaxRotationIndex → l.bytesWritten = bytesIn last)

/-- The files of one date hold its lines. -/
def Holds (s : Store) (base name : Bytes) (days : Bytes → List Bytes) (d : Bytes) : Prop :=
  ∃ groups last, Filed s.disk ⟨base, d⟩ name (days d) groups last

/-- The logger writes to the file of a date. -/
structure Writing (base name : Bytes) (l : Logger) (s : Store) (date : Bytes) : Prop where
  linked : Linked l s
  requested : l.fileRequested = true
  toFile : l.toFile = true
  sound : l.broken = false
  baseDir : l.baseDir = base
  baseName : l.baseName = name
  activeDate : l.activeDate = date

/-- The files tell the journal. -/
structure Tells (base name : Bytes) (l : Logger) (s : Store) (j : Journal) : Prop where
  closed : j.date = none → l = Logger.initial
  opened : ∀ date, j.date = some date → Writing base name l s date ∧
    ∃ groups last, Filed s.disk ⟨base, date⟩ name (j.days date) groups last ∧
      Counted l groups last
  holds : ∀ d, Holds s base name j.days d

end Journal

section Steps

variable {base name : Bytes} {l l' : Logger} {s s' : Store} {date : Bytes}
  {days : Bytes → List Bytes}

/-- The files of the active date with the counter of the last of them. -/
def Active (base name : Bytes) (l : Logger) (s : Store) (lines : List Bytes) (date : Bytes) :
    Prop :=
  ∃ groups last, Filed s.disk ⟨base, date⟩ name lines groups last ∧ Counted l groups last

theorem writing_reopened (hr : l.fileRequested = true) (hb : l.baseDir = base)
    (hn : l.baseName = name) (h : Reopened l date s s' l') : Writing base name l' s' date := by
  obtain ⟨⟨file, rfl, hfile⟩, -, -⟩ := h
  exact ⟨opened_linked hr hfile, hr, rfl, rfl, hb, hn, rfl⟩

theorem shelved_reopened {d : Bytes} {last : List Bytes} {groups : List (List Bytes)}
    (hn : l.baseName = name) (h : Reopened l date s s' l')
    (hf : Shelved s.disk ⟨base, d⟩ name groups last) :
    Shelved s'.disk ⟨base, d⟩ name groups last := by
  refine shelved_of_reads hf (fun n => h.reads _) fun i => ?_
  have hne : ((⟨base, d⟩, candidate name i) : LogDir × Bytes) ≠
      (⟨l.baseDir, date⟩, l.baseName) := fun he =>
    candidate_ne name i ((Prod.mk.inj he).2.trans hn)
  rw [Disk.present, Disk.present, h.others _ hne]

theorem filed_reopened {d : Bytes} {lines last : List Bytes} {groups : List (List Bytes)}
    (hn : l.baseName = name) (h : Reopened l date s s' l')
    (hf : Filed s.disk ⟨base, d⟩ name lines groups last) :
    Filed s'.disk ⟨base, d⟩ name lines groups last :=
  ⟨shelved_reopened hn h hf.shelved, hf.whole, hf.text, hf.packed, hf.room, hf.started⟩

/-- The counter starts from the size the file has. -/
theorem counted_reopened {last : List Bytes} {groups : List (List Bytes)}
    (hb : l.baseDir = base) (hn : l.baseName = name) (h : Reopened l date s s' l')
    (hf : Shelved s.disk ⟨base, date⟩ name groups last) : Counted l' groups last := by
  obtain ⟨⟨file, rfl, -⟩, -, -⟩ := h
  have hsize :
      (l.opened date file (s.disk.read (⟨l.baseDir, date⟩, l.baseName)).length).bytesWritten =
        bytesIn last := by
    rw [bytesIn, ← hf.active, ← hb, ← hn]
    rfl
  exact ⟨hsize.le, fun _ => hsize⟩

theorem openIf_faultless (wanted : Bool) (next : Bytes) (hw : Writing base name l s date)
    (ha : Active base name l s (days date) date) (hh : ∀ d, Holds s base name days d) :
    Keeps Store.next faultless (l.openIf wanted next) s fun s' l' =>
      Writing base name l' s' (if wanted then next else date) ∧
        Active base name l' s' (days (if wanted then next else date))
          (if wanted then next else date) ∧ ∀ d, Holds s' base name days d := by
  cases wanted with
  | false => exact ⟨hw, ha, hh⟩
  | true =>
    refine keeps_seq _ _ _ _ _ (openForDateLocked_faultless l next s) fun s' r hr => ?_
    have hreads := hr.2
    have hfiled : ∀ d, Holds s' base name days d := fun d => by
      obtain ⟨groups, last, hf⟩ := hh d
      exact ⟨groups, last, filed_reopened hw.baseName hreads hf⟩
    obtain ⟨groups, last, hf⟩ := hh next
    exact ⟨writing_reopened hw.requested hw.baseDir hw.baseName hreads,
      ⟨groups, last, filed_reopened hw.baseName hreads hf,
        counted_reopened hw.baseDir hw.baseName hreads hf.shelved⟩, hfiled⟩

/-- The active file has room for a line, and full are the others with that line
in view. -/
structure Ready (base name : Bytes) (l : Logger) (s : Store) (lines : List Bytes)
    (date line : Bytes) (groups : List (List Bytes)) (last : List Bytes) : Prop where
  shelved : Shelved s.disk ⟨base, date⟩ name groups last
  whole : groups.flatten ++ last = lines
  packed : Packed groups (last ++ [line])
  room : bytesIn last + line.length ≤ kMaxLogFileBytes ∨ last = [] ∨
    groups.length = kMaxRotationIndex
  counted : Counted l groups last

theorem packed_before {lines last : List Bytes} {groups : List (List Bytes)} {dir : LogDir}
    (hf : Filed s.disk dir name lines groups last) (line : Bytes) :
    Packed groups (last ++ [line]) := by
  by_cases hlast : last = []
  · rw [hf.started hlast]
    trivial
  · exact (packed_append hlast).mpr hf.packed

theorem ready_unrotated {line : Bytes} (ha : Active base name l s (days date) date)
    (hroom : l.bytesWritten + line.length ≤ kMaxLogFileBytes) :
    ∃ groups last, Ready base name l s (days date) date line groups last := by
  obtain ⟨groups, last, hf, hc⟩ := ha
  refine ⟨groups, last, hf.shelved, hf.whole, packed_before hf line, ?_, hc⟩
  by_cases hfull : groups.length < kMaxRotationIndex
  · exact .inl (by rw [← hc.2 hfull]; exact hroom)
  · exact .inr (.inr (Nat.le_antisymm hf.shelved.bound (Nat.le_of_not_lt hfull)))

/-- Renaming a file touches its directory only. -/
theorem holds_rename {old new d : Bytes} (hd : d ≠ date)
    (hp : s.disk.present (⟨base, date⟩, old) = true) (hne : new ≠ old)
    (hh : Holds s base name days d) :
    Holds { s with disk := s.disk.rename ⟨base, date⟩ old new } base name days d := by
  obtain ⟨groups, last, hf⟩ := hh
  have hdir : ∀ n m, ((⟨base, d⟩, n) : LogDir × Bytes) ≠ (⟨base, date⟩, m) := fun n m he =>
    hd (congrArg (·.1.date) he)
  refine ⟨groups, last, filed_of_reads hf (fun n => ?_) fun i => ?_⟩
  · rw [Disk.read_rename hp hne, if_neg (hdir _ _), if_neg (hdir _ _)]
  · rw [Disk.present, Disk.rename_names hp hne, Disk.moved, Function.update_of_ne (hdir _ _),
      Function.update_of_ne (hdir _ _)]
    rfl

/-- The group of a file that is rotated away is full. -/
theorem full_rotated {lines last : List Bytes} {groups : List (List Bytes)} {line : Bytes}
    (hf : Filed s.disk ⟨base, date⟩ name lines groups last) (hc : Counted l groups last)
    (hlt : groups.length < kMaxRotationIndex)
    (hbig : kMaxLogFileBytes < l.bytesWritten + line.length) : Full last [line] := by
  constructor
  · obtain h | h | h := hf.room
    · exact .inl h
    · exact .inr h
    · exact absurd h hlt.ne
  · intro line' hl
    cases hl
    rw [← hc.2 hlt]
    exact hbig

theorem rotateLocked_faultless {line : Bytes} (hw : Writing base name l s date)
    (ha : Active base name l s (days date) date) (hh : ∀ d, Holds s base name days d)
    (hbig : kMaxLogFileBytes < l.bytesWritten + line.length) :
    Keeps Store.next faultless l.rotateLocked s fun s' l' =>
      Writing base name l' s' date ∧
        (∃ groups last, Ready base name l' s' (days date) date line groups last) ∧
        ∀ d, d ≠ date → Holds s' base name days d := by
  obtain ⟨groups, last, hf, hc⟩ := ha
  obtain ⟨st, hst⟩ := Option.isSome_iff_exists.mp (hw.linked.stream.symm.trans hw.toFile)
  have hdirectory : l.directory = ⟨base, date⟩ := by
    rw [Logger.directory, hw.baseDir, hw.activeDate]
  have hpresent : s.disk.present (⟨base, date⟩, name) = true := by
    have hnamed := hw.linked.named st hst
    rw [hdirectory, hw.baseName] at hnamed
    rw [Disk.present, hnamed]
    rfl
  have hrename : Keeps Store.next faultless (Logger.renameActive l.activePath) s
      fun s' renamed => Renamed groups ⟨base, date⟩ name s s' renamed := by
    rw [hw.linked.path hw.requested, hdirectory, hw.baseName, Logger.renameActive,
      rotationIndices_eq]
    generalize hmax : kMaxRotationIndex = n
    exact renameLoop_faultless hf.shelved n 0 (Nat.zero_le _) (by rw [Nat.zero_add, hmax])
  refine keeps_seq _ _ _ _ _ hrename fun s₁ renamed h₁ => ?_
  refine keeps_seq _ _ _ _ _ (openForDateLocked_faultless l.released l.activeDate s₁)
    fun s₂ r h₂ => ?_
  have hreads := h₂.2
  rw [hw.activeDate] at hreads
  have hwriting := writing_reopened (l := l.released) hw.requested hw.baseDir hw.baseName hreads
  obtain ⟨hlt, rfl, rfl⟩ | ⟨hmax, rfl, rfl⟩ := h₁
  · have hshelf := shelved_rename hf.shelved hpresent hlt
    have hagain := shelved_reopened (l := l.released) hw.baseName hreads hshelf
    have hcounted := counted_reopened (l := l.released) hw.baseDir hw.baseName hreads hshelf
    refine ⟨hwriting, ⟨groups ++ [last], [], hagain, ?_, ?_, .inr (.inl rfl), hcounted⟩,
      fun d hd => ?_⟩
    · simpa using hf.whole
    · exact (packed_snoc groups last [line]).mpr
        ⟨packed_before hf line, full_rotated hf hc hlt hbig⟩
    · obtain ⟨groups', last', hf'⟩ := holds_rename hd hpresent (candidate_ne _ _) (hh d)
      exact ⟨groups', last', filed_reopened (l := l.released) hw.baseName hreads hf'⟩
  · have hagain := shelved_reopened (l := l.released) hw.baseName hreads hf.shelved
    refine ⟨⟨⟨hwriting.linked.stream, requested_not_idle hwriting.requested,
      hwriting.linked.path, hwriting.linked.named⟩, hwriting.requested, hwriting.toFile,
      hwriting.sound, hwriting.baseDir, hwriting.baseName, hwriting.activeDate⟩,
      ⟨groups, last, hagain, hf.whole, packed_before hf line, .inr (.inr hmax), Nat.zero_le _,
        fun h => absurd hmax h.ne⟩, fun d _ => ?_⟩
    obtain ⟨groups', last', hf'⟩ := hh d
    exact ⟨groups', last', filed_reopened (l := l.released) hw.baseName hreads hf'⟩

theorem prepare_faultless (today line : Bytes) (hw : Writing base name l s date)
    (ha : Active base name l s (days date) date) (hh : ∀ d, Holds s base name days d) :
    Keeps Store.next faultless (l.prepare today line) s fun s' l' =>
      Writing base name l' s' (if today = [] then date else today) ∧
        (∃ groups last, Ready base name l' s' (days (if today = [] then date else today))
          (if today = [] then date else today) line groups last) ∧
        ∀ d, d ≠ (if today = [] then date else today) → Holds s' base name days d := by
  rw [Logger.prepare, hw.requested]
  refine keeps_seq _ _ _ _ _ (openIf_faultless _ today hw ha hh) fun s₁ l₁ h₁ => ?_
  have hdate : (if (l.toFile && decide (today ≠ []) && decide (today ≠ l.activeDate)) = true
      then today else date) = if today = [] then date else today := by
    rw [hw.toFile, hw.activeDate]
    by_cases htoday : today = []
    · simp [htoday]
    · by_cases hsame : today = date
      · simp [hsame]
      · simp [htoday, hsame]
  rw [hdate] at h₁
  generalize (if today = [] then date else today) = d₁ at h₁ ⊢
  obtain ⟨hw₁, ha₁, hh₁⟩ := h₁
  rw [hw₁.toFile]
  change Keeps _ _ (if l₁.toFile && l₁.bytesWritten + line.length > kMaxLogFileBytes
    then l₁.rotateLocked else pure l₁) _ _
  rw [hw₁.toFile, Bool.true_and]
  split
  · rename_i hbig
    exact rotateLocked_faultless hw₁ ha₁ hh₁ (of_decide_eq_true hbig)
  · rename_i hsmall
    refine ⟨hw₁, ready_unrotated ha₁ ?_, fun d _ => hh₁ d⟩
    have hle : ¬ l₁.bytesWritten + line.length > kMaxLogFileBytes := fun h =>
      hsmall (decide_eq_true h)
    omega

/-- The line is the last of its date. -/
theorem filed_written {lines last : List Bytes} {groups : List (List Bytes)} {line : Bytes}
    {file : ℕ} (hr : Ready base name l s lines date line groups last)
    (hn : s.disk.names (⟨base, date⟩, name) = some file) (ht : ∀ line ∈ lines, line ≠ [])
    (hl : line ≠ []) :
    Filed (s.disk.append file line) ⟨base, date⟩ name (lines ++ [line]) groups
      (last ++ [line]) where
  shelved := shelved_append hr.shelved hn
  whole := by rw [← List.append_assoc, hr.whole]
  text line' h := by
    obtain h | h := List.mem_append.mp h
    · exact ht line' h
    · rw [List.mem_singleton.mp h]
      exact hl
  packed := hr.packed
  room := by
    obtain h | h | h := hr.room
    · exact .inl (by rw [bytesIn_snoc]; exact h)
    · exact .inr (.inl (by rw [h]; exact Nat.le_refl 1))
    · exact .inr (.inr h)
  started h := absurd (List.append_eq_nil_iff.mp h).2 (List.cons_ne_nil _ _)

theorem writeLine_faultless {line : Bytes} (hw : Writing base name l s date)
    (hr : ∃ groups last, Ready base name l s (days date) date line groups last)
    (hh : ∀ d, d ≠ date → Holds s base name days d) (ht : ∀ line ∈ days date, line ≠ [])
    (hl : line ≠ []) :
    Keeps Store.next faultless (l.writeLine line) s fun s' r => r.2 = true ∧
      Writing base name r.1 s' date ∧ Active base name r.1 s' (days date ++ [line]) date ∧
        ∀ d, d ≠ date → Holds s' base name days d := by
  obtain ⟨groups, last, hr⟩ := hr
  obtain ⟨st, hst⟩ := Option.isSome_iff_exists.mp (hw.linked.stream.symm.trans hw.toFile)
  have hnamed := hw.linked.named st hst
  rw [Logger.directory, hw.baseDir, hw.activeDate, hw.baseName] at hnamed
  unfold Logger.writeLine
  split
  · rename_i hnone
    rw [hst] at hnone
    cases hnone
  · rename_i stream hstream
    obtain rfl : st = stream := Option.some.inj (hst.symm.trans hstream)
    have hsound := hw.sound
    rw [Logger.broken, hst, Option.any_some] at hsound
    rw [hsound]
    refine ⟨trivial, fun short hshort => ?_⟩
    cases short with
    | some k => exact absurd hshort.2 (Nat.succ_ne_self _)
    | none =>
      refine ⟨rfl, ⟨⟨hw.linked.stream, requested_not_idle hw.requested, hw.linked.path,
        hw.linked.named⟩, hw.requested, hw.toFile, hw.sound, hw.baseDir, hw.baseName,
        hw.activeDate⟩, ⟨groups, last ++ [line], filed_written hr hnamed ht hl, ?_, ?_⟩,
        fun d hd => ?_⟩
      · rw [bytesIn_snoc]
        exact Nat.add_le_add_right hr.counted.1 _
      · intro hlt
        rw [bytesIn_snoc, ← hr.counted.2 hlt]
      · obtain ⟨groups', last', hf⟩ := hh d hd
        have hdir : ∀ n, ((⟨base, d⟩, n) : LogDir × Bytes) ≠ (⟨base, date⟩, name) := fun n he =>
          hd (congrArg (·.1.date) he)
        exact ⟨groups', last', filed_of_reads hf (fun n => Disk.read_append_ne hnamed (hdir n) _)
          fun i => rfl⟩

theorem lineOf_ne (now : Option CivilTime) (level : LogLevel) (message : Bytes) :
    Logger.lineOf now level message ≠ [] := by
  simp [Logger.lineOf, bytesOf]

theorem today_eq (now : Option CivilTime) (date : Bytes) :
    (if now.elim [] dateStringOf = [] then date else now.elim [] dateStringOf) =
      now.elim date dateStringOf := by
  cases now with
  | none => rfl
  | some now => exact if_neg (dateStringOf_ne now)

theorem log_writes (now : Option CivilTime) (level : LogLevel) (message : Bytes) {d₁ : Bytes}
    (hd : now.elim date dateStringOf = d₁) (hw : Writing base name l s date)
    (ha : Active base name l s (days date) date) (hh : ∀ d, Holds s base name days d) :
    Keeps Store.next faultless (l.log now level message) s fun s' l' =>
      Writing base name l' s' d₁ ∧
        Active base name l' s' (days d₁ ++ [Logger.lineOf now level message]) d₁ ∧
        ∀ d, d ≠ d₁ → Holds s' base name days d := by
  unfold Logger.log
  dsimp only
  refine keeps_seq _ _ _ _ _ (prepare_faultless _ _ hw ha hh) fun s₁ l₁ h₁ => ?_
  rw [today_eq, hd] at h₁
  obtain ⟨hw₁, hr₁, hh₁⟩ := h₁
  rw [hw₁.toFile]
  obtain ⟨groups, last, hf⟩ := hh d₁
  refine keeps_seq _ _ _ _ _
    (writeLine_faultless hw₁ hr₁ hh₁ hf.text (lineOf_ne now level message)) fun s₂ r h₂ => ?_
  obtain ⟨hwritten, h₂⟩ := h₂
  rw [hwritten]
  exact h₂

end Steps

section Refinement

variable {base name : Bytes} {l : Logger} {s : Store} {j : Journal} (zone : Zone)

/-- The logger and the journal have written the same line. -/
theorem tells_written {l' : Logger} {s' : Store} {date line : Bytes}
    (hw : Writing base name l' s' date)
    (ha : Active base name l' s' (j.days date ++ [line]) date)
    (hh : ∀ d, d ≠ date → Holds s' base name j.days d) :
    Tells base name l' s' (j.write date line) where
  closed h := by cases h
  opened d hd := by
    cases hd
    rw [j.write_same]
    exact ⟨hw, ha⟩
  holds d := by
    unfold Holds
    by_cases hd : d = date
    · subst hd
      obtain ⟨groups, last, hf, -⟩ := ha
      rw [j.write_same]
      exact ⟨groups, last, hf⟩
    · rw [j.write_other line hd]
      exact hh d hd

theorem tells_log (now : Option CivilTime) (level : LogLevel) (message : Bytes)
    (h : Tells base name l s j) :
    Keeps Store.next faultless (l.log now level message) s fun s' l' =>
      Tells base name l' s' (j.next zone (.log now level message)) := by
  cases hd : j.date with
  | none =>
    have hl := h.closed hd
    subst hl
    rw [Journal.next, hd, Option.elim_none]
    exact ⟨trivial, fun _ _ => ⟨h.closed, fun d hd' => absurd (hd.symm.trans hd') (by simp),
      h.holds⟩⟩
  | some date =>
    obtain ⟨hw, ha⟩ := h.opened date hd
    refine keeps_mono _ _ _ _ (fun s' l' h' => ?_)
      (log_writes now level message rfl hw ha h.holds)
    rw [Journal.next, hd, Option.elim_some]
    exact tells_written h'.1 h'.2.1 h'.2.2

theorem tells_openFile (now : Option CivilTime) (baseDir baseName : Bytes)
    (hs : OnSink base name (.openFile now baseDir baseName)) (h : Tells base name l s j) :
    Keeps Store.next faultless (l.openFile now baseDir baseName) s fun s' r =>
      Tells base name r.1 s' (j.next zone (.openFile now baseDir baseName)) := by
  unfold Logger.openFile
  rw [Journal.next]
  split
  · exact h
  · rename_i hne
    obtain ⟨hbase, hname⟩ := hs.resolve_left hne
    cases now with
    | none => exact h
    | some now =>
      refine keeps_seq _ _ _ _ _ (openForDateLocked_faultless _ _ s) fun s₁ r h₁ => ?_
      obtain ⟨l₁, opened⟩ := r
      obtain ⟨rfl, hreads⟩ := h₁
      have hholds : ∀ d, Holds s₁ base name j.days d := fun d => by
        obtain ⟨groups, last, hf⟩ := h.holds d
        exact ⟨groups, last, filed_reopened (l := _) hname hreads hf⟩
      obtain ⟨groups, last, hf⟩ := h.holds (dateStringOf now)
      have hcounted := counted_reopened hbase hname hreads hf.shelved
      have hagain := filed_reopened hname hreads hf
      obtain ⟨⟨file, rfl, hfile⟩, -, -⟩ := hreads
      have hw : Writing base name { ({ l with
          baseDir := if baseDir = [] then bytesOf "." else baseDir,
          baseName := baseName } : Logger).opened (dateStringOf now) file
            (s.disk.read (⟨if baseDir = [] then bytesOf "." else baseDir, dateStringOf now⟩,
              baseName)).length with fileRequested := true } s₁ (dateStringOf now) :=
        ⟨opened_linked (l := { l with
            baseDir := if baseDir = [] then bytesOf "." else baseDir, baseName := baseName,
            fileRequested := true }) rfl hfile, rfl, rfl, rfl, hbase, hname, rfl⟩
      refine ⟨fun hd => (by cases hd), fun d hd => ?_, hholds⟩
      cases hd
      exact ⟨hw, groups, last, hagain, hcounted⟩

/-- Pruning a directory empties its list. -/
theorem tells_prune {cutoff date : Bytes} {s' : Store} {n : ℕ} (hd : j.date = some date)
    (h : Tells base name l s j) (hp : Pruned l cutoff (s.listing base) s s' n)
    (hl : Linked l s') : Tells base name l s' (j.prune date cutoff) := by
  obtain ⟨hw, groups, last, hf, hc⟩ := h.opened date hd
  have hkept : ∀ d groups last, ¬ Taken l cutoff (s.listing base) ⟨base, d⟩ →
      Filed s.disk ⟨base, d⟩ name (j.days d) groups last →
      Filed s'.disk ⟨base, d⟩ name (j.days d) groups last := by
    intro d groups last hnot hf
    refine filed_of_reads hf (fun n => ?_) fun i => ?_
    · rw [Disk.read, Disk.read, hp.kept _ hnot, hp.content]
    · rw [Disk.present, Disk.present, hp.kept _ hnot]
  have hactive : ¬ Taken l cutoff (s.listing base) ⟨base, date⟩ := fun ht =>
    ht.2.2.2.1 hw.activeDate.symm
  have hself : (j.prune date cutoff).days date = j.days date :=
    if_neg fun he => he.2.1 rfl
  refine ⟨fun hnone => ?_, fun d hsome => ?_, fun d => ?_⟩
  · rw [Journal.prune, hd] at hnone
    cases hnone
  · obtain rfl : date = d := Option.some.inj (hd.symm.trans hsome)
    rw [hself]
    exact ⟨⟨hl, hw.requested, hw.toFile, hw.sound, hw.baseDir, hw.baseName, hw.activeDate⟩,
      groups, last, hkept date groups last hactive hf, hc⟩
  · by_cases ht : Taken l cutoff (s.listing base) ⟨base, d⟩
    · have hempty : (j.prune date cutoff).days d = [] :=
        if_pos (hw.activeDate ▸ ht.2.2)
      rw [Holds, hempty]
      exact ⟨[], [], filed_empty fun n => hp.gone _ ht⟩
    · obtain ⟨groups', last', hf'⟩ := h.holds d
      have hkeep := hkept d groups' last' ht hf'
      by_cases he : Expired date cutoff d
      · -- Expired and not listed as a directory: there are no files.
        have hnone : ∀ n, s.disk.names (⟨base, d⟩, n) = none := by
          intro n
          cases hn : s.disk.names (⟨base, d⟩, n) with
          | none => rfl
          | some i =>
            exact absurd ⟨hw.baseDir.symm, (mem_listing _ _ _ _).mpr (s.disk.housed _ i hn),
              hw.activeDate.symm ▸ he⟩ ht
        rw [Holds, show (j.prune date cutoff).days d = [] from if_pos he]
        exact ⟨[], [], filed_empty fun n => (hp.kept _ ht).trans (hnone n)⟩
      · rw [Holds, show (j.prune date cutoff).days d = j.days d from if_neg he]
        exact ⟨groups', last', hkeep⟩

theorem tells_pruneOldLogs (reference keepDays : ℤ) (hbase : base ≠ [])
    (h : Tells base name l s j) :
    Keeps Store.next faultless (l.pruneOldLogs zone reference keepDays) s fun s' _ =>
      Linked l s' → Tells base name l s' (j.next zone (.pruneOldLogs reference keepDays)) := by
  unfold Logger.pruneOldLogs
  rw [Journal.next]
  cases hd : j.date with
  | none =>
    rw [h.closed hd]
    exact fun _ => h.closed hd ▸ h
  | some date =>
    obtain ⟨hw, -⟩ := h.opened date hd
    rw [Option.elim_some, hw.requested]
    split
    · rename_i hskip
      intro _
      split
      · exact h
      · rename_i hdays
        simp only [Bool.not_true, Bool.false_or, Bool.or_eq_true, decide_eq_true_eq] at hskip
        obtain hempty | hless := hskip
        · exact absurd (hw.baseDir.symm.trans hempty) hbase
        · exact absurd hless hdays
    · rename_i hrun
      simp only [Bool.not_true, Bool.false_or, Bool.or_eq_true, decide_eq_true_eq, not_or] at hrun
      rw [if_neg hrun.2]
      cases hcut : cutoffDate zone reference keepDays with
      | none => exact fun _ => h
      | some cutoff =>
        refine ⟨trivial, fun found hfound => ?_⟩
        have hfound' : found = s.listing l.baseDir := hfound
        subst hfound'
        refine keeps_mono _ _ _ _ (fun s' n hp hl' => ?_)
          (pruneLoop_faultless l cutoff (s.listing l.baseDir) s)
        rw [hw.baseDir] at hp
        exact tells_prune hd h hp hl'

theorem tells_call (c : Call) (hbase : base ≠ []) (hc : OnSink base name c)
    (h : Tells base name l s j) :
    Keeps Store.next faultless (perform zone l c) s fun s' l' =>
      Linked l' s' → Tells base name l' s' (j.next zone c) := by
  cases c with
  | openFile now baseDir baseName =>
    exact keeps_seq _ _ _ _ _ (tells_openFile zone now baseDir baseName hc h) fun _ _ h' _ => h'
  | log now level message =>
    exact keeps_mono _ _ _ _ (fun _ _ h' _ => h') (tells_log zone now level message h)
  | pruneOldLogs reference keepDays =>
    exact keeps_seq _ _ _ _ _ (tells_pruneOldLogs zone reference keepDays hbase h)
      fun _ _ h' => h'
  | close =>
    intro hl
    have hclosed : l.close = Logger.initial := hl.idle rfl
    exact ⟨fun _ => hclosed, fun _ hd => (by cases hd), h.holds⟩

variable {zone} {calls : List Call} {l' : Logger} {s' : Store}

theorem run_tells (hbase : base ≠ []) (hr : Run zone faultless l s calls l' s')
    (hs : ∀ c ∈ calls, OnSink base name c) (hl : Linked l s) (h : Tells base name l s j) :
    Linked l' s' ∧ Tells base name l' s' (calls.foldl (Journal.next zone) j) := by
  induction hr with
  | start => exact ⟨hl, h⟩
  | call c _ he ih =>
    obtain ⟨hlinked, htells⟩ := ih fun c' hc' => hs c' (List.mem_append_left _ hc')
    have hnext := keeps_ends (perform_linked c hlinked) (ends_faultless he).1
    rw [List.foldl_append, List.foldl_cons, List.foldl_nil]
    exact ⟨hnext, keeps_ends (tells_call zone c hbase (hs c (by simp)) htells) he hnext⟩

/-- The journal of a logger that starts on the files of earlier runs. -/
def journalOf (zone : Zone) (days : Bytes → List Bytes) (calls : List Call) : Journal :=
  calls.foldl (Journal.next zone) { date := none, days := days }

theorem run_holds {days : Bytes → List Bytes} (hbase : base ≠ [])
    (hr : Run zone faultless Logger.initial s calls l' s')
    (hs : ∀ c ∈ calls, OnSink base name c) (h : ∀ d, Holds s base name days d) (d : Bytes) :
    Holds s' base name (journalOf zone days calls).days d :=
  (run_tells hbase hr hs (initial_linked s)
    ⟨fun _ => rfl, fun _ hd => (by cases hd), h⟩).2.holds d

/-- Every line once, whole and in its place: across rotations, midnights,
prunings and restarts the files of each date are the lines of the journal, the
numbered files first. -/
theorem journal_kept {days : Bytes → List Bytes} (hbase : base ≠ [])
    (hr : Run zone faultless Logger.initial s calls l' s')
    (hs : ∀ c ∈ calls, OnSink base name c) (h : ∀ d, Holds s base name days d) (d : Bytes) :
    ∃ groups last, Shelved s'.disk ⟨base, d⟩ name groups last ∧
      groups.flatten ++ last = (journalOf zone days calls).days d := by
  obtain ⟨groups, last, hf⟩ := run_holds hbase hr hs h d
  exact ⟨groups, last, hf.shelved, hf.whole⟩

theorem sample_calm : (sampleRun []).2.1.failures = 0 := by decide

theorem sample_onSink : ∀ c ∈ sampleCalls, OnSink (bytesOf ".") (bytesOf "server.log") c := by
  simp [sampleCalls, OnSink]

theorem blank_holds (base name d : Bytes) : Holds .blank base name (fun _ => []) d :=
  ⟨[], [], filed_empty fun _ => rfl⟩

theorem journal_kept_day :
    ∃ groups last, Shelved (sampleRun []).2.1.disk ⟨bytesOf ".", bytesOf "20260817"⟩
        (bytesOf "server.log") groups last ∧
      groups.flatten ++ last = (journalOf (Zone.utc [] (by simp)) (fun _ => [])
        sampleCalls).days (bytesOf "20260817") :=
  journal_kept (by decide) (run_calm _ _ _ _ sample_calm) sample_onSink
    (blank_holds _ _) _

end Refinement

section Sizes

variable {base name : Bytes} {s s' : Store} {l' : Logger} {zone : Zone} {calls : List Call}

end Sizes

end LogTransfer.Logging
