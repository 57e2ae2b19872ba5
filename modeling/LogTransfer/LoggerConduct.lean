import LogTransfer.Logger

/-!
# What the logger does when operations fail

Every call leaves the files as they were or longer, each under a name in its
directory, whatever the system answers. The file that is written to is the one
of the active date, and a line gets out whole once, or not at all after two
failures.
-/

set_option autoImplicit false

namespace LogTransfer.Logging
open Program FileStore

section Files

/-- Nothing that `s` holds is lost in `s'`, but for what was given up. -/
structure Kept (s s' : Store) : Prop where
  fresh : s.disk.fresh ≤ s'.disk.fresh
  content : ∀ i < s.disk.fresh, s.disk.content i <+: s'.disk.content i
  named : ∀ dir n i, s.disk.names (dir, n) = some i →
    dir ∈ s'.cleared ∨ ∃ n', s'.disk.names (dir, n') = some i
  cleared : s.cleared ⊆ s'.cleared
  dates : ∀ dir ∈ s'.cleared, dir ∈ s.cleared ∨ isDateName dir.date = true

namespace Kept

variable {s s' s'' : Store}

theorem refl (s : Store) : Kept s s :=
  ⟨le_rfl, fun _ _ => List.prefix_rfl, fun _ n _ h => .inr ⟨n, h⟩, fun _ h => h,
    fun _ h => .inl h⟩

theorem trans (h : Kept s s') (h' : Kept s' s'') : Kept s s'' where
  fresh := h.fresh.trans h'.fresh
  content i hi := (h.content i hi).trans (h'.content i (Nat.lt_of_lt_of_le hi h.fresh))
  named dir n i hn := by
    obtain hgone | ⟨n', hn'⟩ := h.named dir n i hn
    · exact .inl (h'.cleared hgone)
    · exact h'.named dir n' i hn'
  cleared := fun _ hd => h'.cleared (h.cleared hd)
  dates dir hd := by
    obtain hd' | hdate := h'.dates dir hd
    · exact h.dates dir hd'
    · exact .inr hdate

/-- The names and the directories given up are those of before. -/
theorem of_names (hn : ∀ q i, s.disk.names q = some i → s'.disk.names q = some i)
    (hf : s.disk.fresh ≤ s'.disk.fresh)
    (hc : ∀ i < s.disk.fresh, s.disk.content i <+: s'.disk.content i)
    (hg : s'.cleared = s.cleared) : Kept s s' where
  fresh := hf
  content := hc
  named dir n i h := .inr ⟨n, hn _ _ h⟩
  cleared := by rw [hg]; exact fun _ h => h
  dates dir hd := .inl (hg ▸ hd)

theorem of_disk (hd : s'.disk = s.disk) (hg : s'.cleared = s.cleared) : Kept s s' :=
  of_names (fun _ _ h => by rw [hd]; exact h) (by rw [hd])
    (fun _ _ => by rw [hd]) hg

end Kept

theorem touch_names {d : LogDisk} {p q : LogDir × Bytes} {i : ℕ} (h : d.names q = some i) :
    (d.touch p).names q = some i := by
  by_cases hq : q = p
  · subst hq
    rw [Disk.touch_old h]
    exact h
  · rw [Disk.touch_names_ne d hq]
    exact h

theorem append_prefix (d : LogDisk) (file : ℕ) (bytes : Bytes) (i : ℕ) :
    d.content i <+: (d.append file bytes).content i := by
  rw [Disk.append_content]
  by_cases hi : i = file
  · rw [hi, Function.update_self]
    exact List.prefix_append _ _
  · rw [Function.update_of_ne hi]

theorem kept_renamed {s : Store} {dir : LogDir} {old new : Bytes}
    (hfree : s.disk.present (dir, new) = false) (hne : new ≠ old)
    (hold : s.disk.present (dir, old) = true) :
    Kept s { s with disk := s.disk.rename dir old new } where
  fresh := by rw [Disk.rename_fresh]
  content i _ := by rw [Disk.rename_content]
  named dir' n i h := by
    right
    have hnew : (dir', n) ≠ (dir, new) := by
      intro he
      rw [he] at h
      rw [Disk.present, h] at hfree
      cases hfree
    rw [Disk.rename_names hold hne, Disk.moved]
    by_cases he : (dir', n) = (dir, old)
    · obtain ⟨rfl, rfl⟩ := Prod.mk.inj he
      exact ⟨new, by rw [Function.update_self, h]⟩
    · exact ⟨n, by rw [Function.update_of_ne hnew, Function.update_of_ne he, h]⟩
  cleared _ h := h
  dates _ h := .inl h

/-- A directory given up takes its own files only. -/
theorem kept_cleared {s : Store} {dir : LogDir} {disk : LogDisk} {failures : ℕ}
    (hdate : isDateName dir.date = true) (hf : disk.fresh = s.disk.fresh)
    (hc : disk.content = s.disk.content)
    (hn : ∀ q, q.1 ≠ dir → disk.names q = s.disk.names q) :
    Kept s { s with disk := disk, failures := failures, cleared := s.cleared ++ [dir] } where
  fresh := hf.ge
  content i _ := by rw [hc]
  named dir' n i h := by
    by_cases he : dir' = dir
    · exact .inl (List.mem_append_right _ (by rw [he]; exact List.mem_singleton_self _))
    · exact .inr ⟨n, by rw [hn _ he]; exact h⟩
  cleared := List.subset_append_left _ _
  dates dir' h := by
    obtain h | h := List.mem_append.mp h
    · exact .inl h
    · rw [List.mem_singleton.mp h]
      exact .inr hdate

/-- One operation of a careful caller loses nothing. -/
theorem kept_next {s : Store} {op : Op} {a : Ans op} (hmay : s.Careful op)
    (ha : s.Possible op a) : Kept s (s.next op a) := by
  cases op with
  | createDirectories dir =>
    cases a with
    | true =>
      exact .of_names (fun _ _ h => (congrFun (Disk.makeDir_names _ _) _).trans h)
        (Disk.makeDir_fresh _ _).ge
        (fun i _ => (congrFun (Disk.makeDir_content s.disk dir) i) ▸ List.prefix_rfl) rfl
    | false => exact .of_disk rfl rfl
  | openAppend dir name =>
    cases a with
    | some file =>
      exact .of_names (fun _ _ h => touch_names h) (Disk.touch_fresh _ _)
        (fun i hi => (Disk.touch_content_old s.disk (dir, name) hi) ▸ List.prefix_rfl) rfl
    | none => exact .of_disk rfl rfl
  | fileSize dir name =>
    cases a with
    | some size => exact .refl s
    | none => exact .of_disk rfl rfl
  | «exists» dir name => exact .refl s
  | rename dir old new =>
    cases a with
    | true => exact kept_renamed hmay.1 hmay.2 (ha rfl)
    | false => exact .of_disk rfl rfl
  | write file bytes =>
    cases a with
    | none => exact .of_names (fun _ _ h => h) le_rfl (fun i _ => append_prefix _ _ _ i) rfl
    | some k => exact .of_names (fun _ _ h => h) le_rfl (fun i _ => append_prefix _ _ _ i) rfl
  | print bytes => exact .of_disk rfl rfl
  | listDir base => exact .refl s
  | removeAll dir =>
    cases a with
    | none => exact kept_cleared hmay rfl rfl fun q hq => by rw [Disk.removeDir_names, if_neg hq]
    | some left =>
      exact kept_cleared hmay rfl rfl fun q hq => by
        rw [Disk.clear_names, if_neg fun h => hq h.1]

theorem kept_ends {α : Type} {p : LP α} {s s' : Store} {a : α} {Q : Store → α → Prop}
    (h : Keeps Store.next anyway p s Q) (he : Ends Store.next anyway p s s' a) : Kept s s' := by
  induction p generalizing s with
  | done b =>
    obtain ⟨rfl, -⟩ := he
    exact .refl _
  | call op k ih =>
    obtain ⟨x, hx, he⟩ := he
    exact (kept_next h.1 hx).trans (ih x (h.2 x hx) he)

end Files

section Candidates

theorem stem_extension (name : Bytes) : stem name ++ extension name = name := by
  have hdrop : ∃ k ≤ name.length, extension name = name.drop k := by
    unfold extension
    dsimp only
    split
    · exact ⟨name.length, le_rfl, List.drop_length.symm⟩
    · exact ⟨_, Nat.sub_le _ _, rfl⟩
  obtain ⟨k, hk, he⟩ := hdrop
  rw [stem, he, List.length_drop, Nat.sub_sub_self hk, List.take_append_drop]

theorem candidate_length (name : Bytes) (index : ℕ) :
    (candidate name index).length = name.length + (rotationSuffix index).length := by
  have h := congrArg List.length (stem_extension name)
  rw [List.length_append] at h
  simp only [candidate, List.length_append]
  omega

theorem candidate_ne (name : Bytes) (index : ℕ) : candidate name index ≠ name := by
  intro h
  have hlength := candidate_length name index
  rw [h] at hlength
  simp [rotationSuffix, bytesOf] at hlength

end Candidates

section Linked

namespace Logger

/-- The directory of the active file. -/
def directory (l : Logger) : LogDir := ⟨l.baseDir, l.activeDate⟩

/-- A write has failed and the stream was kept. -/
def broken (l : Logger) : Bool := l.file.any (·.failed)

/-- The logger once a file is open for a date. -/
def opened (l : Logger) (date : Bytes) (file size : ℕ) : Logger :=
  { l with file := some ⟨file, false⟩, toFile := true, activeDate := date,
           activePath := some (⟨l.baseDir, date⟩, l.baseName), bytesWritten := size }

end Logger

/-- The file written to is the one of the active date; without a file sink the
logger is as it began. -/
structure Linked (l : Logger) (s : Store) : Prop where
  stream : l.toFile = l.file.isSome
  idle : l.fileRequested = false → l = Logger.initial
  path : l.fileRequested = true → l.activePath = some (l.directory, l.baseName)
  named : ∀ st, l.file = some st → s.disk.names (l.directory, l.baseName) = some st.file

theorem initial_linked (s : Store) : Linked Logger.initial s :=
  ⟨rfl, fun _ => rfl, fun h => (by cases h), fun _ h => by cases h⟩

/-- Names are only added, and nothing gets out. -/
structure Quiet (s s' : Store) : Prop where
  names : ∀ q i, s.disk.names q = some i → s'.disk.names q = some i
  whole : s'.whole = s.whole
  failures : s.failures ≤ s'.failures

theorem Quiet.refl (s : Store) : Quiet s s := ⟨fun _ _ h => h, rfl, le_rfl⟩

theorem Quiet.trans {s s' s'' : Store} (h : Quiet s s') (h' : Quiet s' s'') : Quiet s s'' :=
  ⟨fun q i hq => h'.names q i (h.names q i hq), h'.whole.trans h.whole,
    h.failures.trans h'.failures⟩

theorem Linked.quiet {l : Logger} {s s' : Store} (h : Linked l s) (hq : Quiet s s') :
    Linked l s' :=
  ⟨h.stream, h.idle, h.path, fun st hst => hq.names _ _ (h.named st hst)⟩

/-- How `openForDateLocked` ends: the logger untouched after a failure, or the
file of the date open. -/
structure Opened (l : Logger) (date : Bytes) (s s' : Store) (r : Logger × Bool) : Prop where
  quiet : Quiet s s'
  refused : r.2 = false → r.1 = l ∧ s.failures < s'.failures
  success : r.2 = true → ∃ file size, r.1 = l.opened date file size ∧
    s'.disk.names (⟨l.baseDir, date⟩, l.baseName) = some file

theorem openForDateLocked_keeps (l : Logger) (date : Bytes) (s : Store) :
    Keeps Store.next anyway (l.openForDateLocked date) s fun s' r => Opened l date s s' r := by
  refine ⟨trivial, fun made hmade => ?_⟩
  cases made with
  | false =>
    exact ⟨⟨fun _ _ h => h, rfl, Nat.le_succ _⟩, fun _ => ⟨rfl, Nat.lt_succ_self _⟩,
      fun h => by cases h⟩
  | true =>
    refine ⟨trivial, fun opened hopened => ?_⟩
    have hmake : ∀ q i, s.disk.names q = some i →
        (s.disk.makeDir ⟨l.baseDir, date⟩).names q = some i := fun q i h => by
      rw [Disk.makeDir_names]
      exact h
    cases opened with
    | none =>
      exact ⟨⟨hmake, rfl, Nat.le_succ _⟩, fun _ => ⟨rfl, Nat.lt_succ_self _⟩,
        fun h => by cases h⟩
    | some file =>
      obtain ⟨-, hfile⟩ := hopened file rfl
      refine ⟨trivial, fun existing _ => ?_⟩
      have hquiet : Quiet s { s with
          disk := (s.disk.makeDir ⟨l.baseDir, date⟩).touch (⟨l.baseDir, date⟩, l.baseName) } :=
        ⟨fun q i h => touch_names (hmake q i h), rfl, le_rfl⟩
      cases existing with
      | none =>
        exact ⟨hquiet.trans ⟨fun _ _ h => h, rfl, Nat.le_succ _⟩, fun h => (by cases h),
          fun _ => ⟨file, 0, rfl, hfile⟩⟩
      | some size => exact ⟨hquiet, fun h => (by cases h), fun _ => ⟨file, size, rfl, hfile⟩⟩

/-- What the steps before a line is written leave behind. -/
structure Settled (l : Logger) (s s' : Store) (l' : Logger) : Prop where
  linked : Linked l' s'
  requested : l'.fileRequested = true
  whole : s'.whole = s.whole
  failures : s.failures ≤ s'.failures
  broken : l'.broken = true → l.broken = true

theorem Settled.trans {l l' l'' : Logger} {s s' s'' : Store} (h : Settled l s s' l')
    (h' : Settled l' s' s'' l'') : Settled l s s'' l'' :=
  ⟨h'.linked, h'.requested, h'.whole.trans h.whole, h.failures.trans h'.failures,
    fun hb => h.broken (h'.broken hb)⟩

theorem Settled.refl {l : Logger} {s : Store} (h : Linked l s) (hr : l.fileRequested = true) :
    Settled l s s l := ⟨h, hr, rfl, le_rfl, id⟩

theorem requested_not_idle {l : Logger} (hr : l.fileRequested = true)
    (hi : l.fileRequested = false) : l = Logger.initial :=
  absurd (hi.symm.trans hr) (by decide)

theorem opened_linked {l : Logger} {s : Store} {date : Bytes} {file size : ℕ}
    (hr : l.fileRequested = true)
    (hn : s.disk.names (⟨l.baseDir, date⟩, l.baseName) = some file) :
    Linked (l.opened date file size) s where
  stream := rfl
  idle := requested_not_idle hr
  path _ := rfl
  named st hst := by
    cases hst
    exact hn

theorem opened_settled {l : Logger} {s s' : Store} {date : Bytes} {r : Logger × Bool}
    (h : Linked l s) (hr : l.fileRequested = true) (ho : Opened l date s s' r) :
    Settled l s s' r.1 := by
  cases hr2 : r.2 with
  | false =>
    rw [(ho.refused hr2).1]
    exact ⟨h.quiet ho.quiet, hr, ho.quiet.whole, ho.quiet.failures, id⟩
  | true =>
    obtain ⟨file, size, he, hn⟩ := ho.success hr2
    rw [he]
    exact ⟨opened_linked hr hn, hr, ho.quiet.whole, ho.quiet.failures,
      fun hb => (by cases hb)⟩

/-- The stream of the active file is closed. -/
def Logger.released (l : Logger) : Logger := { l with file := none, toFile := false }

theorem released_linked {l : Logger} {s s' : Store} (h : Linked l s)
    (hr : l.fileRequested = true) : Linked l.released s' :=
  ⟨rfl, requested_not_idle hr, h.path, fun _ hst => (by cases hst)⟩

theorem renameLoop_keeps (dir : LogDir) (name : Bytes) (indices : List ℕ) (s : Store) :
    Keeps Store.next anyway (Logger.renameLoop dir name indices) s fun s' _ =>
      s'.whole = s.whole ∧ s.failures ≤ s'.failures := by
  induction indices with
  | nil => exact ⟨rfl, le_rfl⟩
  | cons index rest ih =>
    refine ⟨trivial, fun taken htaken => ?_⟩
    cases taken with
    | true => exact ih
    | false =>
      refine ⟨⟨htaken.symm, candidate_ne name index⟩, fun done _ => ?_⟩
      cases done with
      | true => exact ⟨rfl, le_rfl⟩
      | false => exact ⟨rfl, Nat.le_succ _⟩

theorem rotateLocked_keeps {l : Logger} {s : Store} (h : Linked l s)
    (hr : l.fileRequested = true) :
    Keeps Store.next anyway l.rotateLocked s fun s' l' => Settled l s s' l' := by
  have hrename : Keeps Store.next anyway (Logger.renameActive l.activePath) s fun s' _ =>
      s'.whole = s.whole ∧ s.failures ≤ s'.failures := by
    rw [h.path hr, Logger.renameActive]
    generalize Logger.rotationIndices = indices
    exact renameLoop_keeps _ _ indices s
  refine keeps_seq _ _ _ _ _ hrename fun s₁ renamed h₁ => ?_
  refine keeps_seq _ _ _ _ _ (openForDateLocked_keeps l.released _ s₁) fun s₂ r h₂ => ?_
  have hopen : Settled l.released s₁ s₂ r.1 :=
    opened_settled (released_linked h hr) hr h₂
  have hfirst : Settled l s s₁ l.released :=
    ⟨released_linked h hr, hr, h₁.1, h₁.2, fun hb => (by cases hb)⟩
  have hall := hfirst.trans hopen
  cases renamed with
  | true => exact hall
  | false =>
    exact ⟨⟨hall.linked.stream, requested_not_idle hall.requested,
      hall.linked.path, hall.linked.named⟩, hall.requested, hall.whole, hall.failures,
      hall.broken⟩

theorem openIf_keeps {l : Logger} {s : Store} (wanted : Bool) (date : Bytes) (h : Linked l s)
    (hr : l.fileRequested = true) :
    Keeps Store.next anyway (l.openIf wanted date) s fun s' l' => Settled l s s' l' := by
  cases wanted with
  | true =>
    exact keeps_seq _ _ _ _ _ (openForDateLocked_keeps l date s) fun _ _ ho =>
      opened_settled h hr ho
  | false => exact .refl h hr

theorem prepare_keeps {l : Logger} {s : Store} (today line : Bytes) (h : Linked l s)
    (hr : l.fileRequested = true) :
    Keeps Store.next anyway (l.prepare today line) s fun s' l' => Settled l s s' l' := by
  rw [Logger.prepare, hr]
  refine keeps_seq _ _ _ _ _ (openIf_keeps _ _ h hr) fun s₁ l₁ h₁ => ?_
  refine keeps_seq _ _ _ _ _ (openIf_keeps _ _ h₁.linked h₁.requested) fun s₂ l₂ h₂ => ?_
  split
  · exact keeps_mono _ _ _ _ (fun _ _ h₃ => (h₁.trans h₂).trans h₃)
      (rotateLocked_keeps h₂.linked h₂.requested)
  · exact h₁.trans h₂

end Linked

section Fate

/-- How a write to the open file ends. -/
structure Wrote (l : Logger) (s : Store) (line : Bytes) (s' : Store) (r : Logger × Bool) :
    Prop where
  linked : Linked r.1 s'
  requested : r.1.fileRequested = true
  success : r.2 = true → s'.whole = s.whole ++ [line] ∧ r.1.broken = false
  failure : r.2 = false →
    s'.whole = s.whole ∧ (s.failures < s'.failures ∨ l.broken = true)
  failures : s.failures ≤ s'.failures

theorem writeLine_keeps {l : Logger} {s : Store} (line : Bytes) (h : Linked l s)
    (hr : l.fileRequested = true) (hf : l.toFile = true) :
    Keeps Store.next anyway (l.writeLine line) s fun s' r => Wrote l s line s' r := by
  obtain ⟨st, hst⟩ := Option.isSome_iff_exists.mp (h.stream.symm.trans hf)
  have hnamed := h.named st hst
  unfold Logger.writeLine
  split
  · rename_i hnone
    rw [hst] at hnone
    cases hnone
  · rename_i stream hstream
    obtain rfl : st = stream := Option.some.inj (hst.symm.trans hstream)
    split
    · rename_i hfailed
      have hbroken : l.broken = true := by rw [Logger.broken, hst, Option.any_some, hfailed]
      exact ⟨h, hr, fun hh => (by cases hh), fun _ => ⟨rfl, .inr hbroken⟩, le_rfl⟩
    · rename_i hgood
      have hsound : l.broken = false := by
        rw [Logger.broken, hst, Option.any_some]
        exact Bool.eq_false_iff.mpr hgood
      refine ⟨trivial, fun short _ => ?_⟩
      cases short with
      | none =>
        exact ⟨⟨h.stream, requested_not_idle hr, h.path, h.named⟩, hr, fun _ => ⟨rfl, hsound⟩,
          fun hh => (by cases hh), le_rfl⟩
      | some k =>
        refine ⟨⟨hf, requested_not_idle hr, h.path, fun st' hst' => ?_⟩, hr,
          fun hh => (by cases hh), fun _ => ⟨rfl, .inl (Nat.lt_succ_self _)⟩, Nat.le_succ _⟩
        cases hst'
        exact hnamed

/-- A line got out whole, or two operations failed, the earlier of them maybe in
the call before. -/
structure Logged (l : Logger) (s : Store) (line : Bytes) (s' : Store) (l' : Logger) : Prop where
  linked : Linked l' s'
  failures : s.failures ≤ s'.failures
  fate : s'.whole = s.whole ++ [line] ∧ l'.broken = false ∨
    s'.whole = s.whole ∧ s.failures < s'.failures ∧
      (l.broken = true ∨ s.failures + 1 < s'.failures)

theorem retryLine_keeps {l : Logger} {s : Store} (today line : Bytes) (h : Linked l s)
    (hr : l.fileRequested = true) :
    Keeps Store.next anyway (l.retryLine today line) s fun s' l' =>
      Linked l' s' ∧ (s'.whole = s.whole ++ [line] ∧ l'.broken = false ∧ s.failures ≤ s'.failures ∨
        s'.whole = s.whole ∧ s.failures < s'.failures) := by
  refine keeps_seq _ _ _ _ _ (openForDateLocked_keeps l.released _ s) fun s₁ r h₁ => ?_
  obtain ⟨l₁, opened⟩ := r
  have hset := opened_settled (released_linked h hr) hr h₁
  cases opened with
  | false =>
    obtain ⟨-, hcount⟩ := h₁.refused rfl
    exact ⟨hset.linked, .inr ⟨hset.whole, hcount⟩⟩
  | true =>
    obtain ⟨file, size, rfl, -⟩ := h₁.success rfl
    refine keeps_seq _ _ _ _ _ (writeLine_keeps line hset.linked hset.requested rfl)
      fun s₂ r h₂ => ?_
    refine ⟨h₂.linked, ?_⟩
    cases hw : r.2 with
    | true =>
      obtain ⟨hwhole, hb⟩ := h₂.success hw
      exact .inl ⟨hwhole.trans (by rw [hset.whole]), hb, hset.failures.trans h₂.failures⟩
    | false =>
      obtain ⟨hwhole, hcount | hb⟩ := h₂.failure hw
      · exact .inr ⟨hwhole.trans hset.whole, Nat.lt_of_le_of_lt hset.failures hcount⟩
      · cases hb

theorem log_keeps {l : Logger} {s : Store} (now : Option CivilTime) (level : LogLevel)
    (message : Bytes) (h : Linked l s) :
    Keeps Store.next anyway (l.log now level message) s fun s' l' =>
      Logged l s (Logger.lineOf now level message) s' l' := by
  unfold Logger.log
  dsimp only
  generalize now.elim [] dateStringOf = today
  generalize Logger.lineOf now level message = line
  cases hr : l.fileRequested with
  | false =>
    have hl := h.idle hr
    subst hl
    exact ⟨trivial, fun _ _ => ⟨initial_linked _, le_rfl, .inl ⟨rfl, rfl⟩⟩⟩
  | true =>
    refine keeps_seq _ _ _ _ _ (prepare_keeps today line h hr) fun s₁ l₁ h₁ => ?_
    cases hf : l₁.toFile with
    | false =>
      have hnone : l₁.file = none := by
        rw [← Option.not_isSome_iff_eq_none, ← h₁.linked.stream, hf]
        decide
      have hclosed : l₁.broken = false := by rw [Logger.broken, hnone, Option.any_none]
      exact ⟨trivial, fun _ _ => ⟨⟨h₁.linked.stream, h₁.linked.idle, h₁.linked.path,
        h₁.linked.named⟩, h₁.failures, .inl ⟨congrArg (· ++ [line]) h₁.whole, hclosed⟩⟩⟩
    | true =>
      refine keeps_seq _ _ _ _ _ (writeLine_keeps line h₁.linked h₁.requested hf)
        fun s₂ r h₂ => ?_
      obtain ⟨l₂, written⟩ := r
      cases written with
      | true =>
        obtain ⟨hwhole, hb⟩ := h₂.success rfl
        exact ⟨h₂.linked, h₁.failures.trans h₂.failures, .inl ⟨by rw [hwhole, h₁.whole], hb⟩⟩
      | false =>
        obtain ⟨hwhole, hcount⟩ := h₂.failure rfl
        refine keeps_mono _ _ _ _ (fun s₃ l₃ h₃ => ?_)
          (retryLine_keeps today line h₂.linked h₂.requested)
        have hfirst := h₁.failures
        have hsecond := h₂.failures
        obtain ⟨hlinked, ⟨hgot, hb, hle⟩ | ⟨hlost, hlt⟩⟩ := h₃
        · exact ⟨hlinked, by omega, .inl ⟨by rw [hgot, hwhole, h₁.whole], hb⟩⟩
        · refine ⟨hlinked, by omega, .inr ⟨by rw [hlost, hwhole, h₁.whole], by omega, ?_⟩⟩
          obtain hmore | hbroken := hcount
          · exact .inr (by omega)
          · exact .inl (h₁.broken hbroken)

theorem openFile_keeps {l : Logger} {s : Store} (now : Option CivilTime)
    (baseDir baseName : Bytes) (h : Linked l s) :
    Keeps Store.next anyway (l.openFile now baseDir baseName) s fun s' r =>
      Linked r.1 s' ∧ Quiet s s' ∧ (r.1.broken = true → l.broken = true) ∧
        (r.2 = false → r.1 = l) := by
  unfold Logger.openFile
  split
  · exact ⟨h, .refl s, id, fun _ => rfl⟩
  · cases now with
    | none => exact ⟨h, .refl s, id, fun _ => rfl⟩
    | some now =>
      refine keeps_seq _ _ _ _ _ (openForDateLocked_keeps _ _ s) fun s₁ r h₁ => ?_
      obtain ⟨l₁, opened⟩ := r
      cases opened with
      | false =>
        obtain ⟨rfl, -⟩ := h₁.refused rfl
        exact ⟨h.quiet h₁.quiet, h₁.quiet, id, fun _ => rfl⟩
      | true =>
        obtain ⟨file, size, rfl, hn⟩ := h₁.success rfl
        refine ⟨⟨rfl, fun hi => (by cases hi), fun _ => rfl, fun st hst => ?_⟩, h₁.quiet,
          fun hb => (by cases hb), fun hh => (by cases hh)⟩
        cases hst
        exact hn

theorem pruneLoop_keeps {l : Logger} (cutoff : Bytes) (found : List (Bytes × Bool)) {s : Store}
    (h : Linked l s) :
    Keeps Store.next anyway (l.pruneLoop cutoff found) s fun s' _ =>
      Linked l s' ∧ s'.whole = s.whole ∧ s.failures ≤ s'.failures := by
  induction found generalizing s with
  | nil => exact ⟨h, rfl, le_rfl⟩
  | cons entry rest ih =>
    obtain ⟨name, isDirectory⟩ := entry
    rw [Logger.pruneLoop]
    split
    · rename_i hold
      simp only [Bool.and_eq_true, decide_eq_true_eq] at hold
      have hother : l.directory ≠ ⟨l.baseDir, name⟩ := fun he =>
        hold.1.2 (congrArg LogDir.date he).symm
      refine ⟨hold.1.1.2, fun removed _ => ?_⟩
      have hkept : ∀ st, l.file = some st →
          (s.next (.removeAll ⟨l.baseDir, name⟩) removed).disk.names (l.directory, l.baseName) =
            some st.file := by
        intro st hst
        cases removed with
        | none => exact (if_neg hother).trans (h.named st hst)
        | some left => exact (if_neg fun hc => hother hc.1).trans (h.named st hst)
      have hwhole : (s.next (.removeAll ⟨l.baseDir, name⟩) removed).whole = s.whole := by
        cases removed <;> rfl
      have hcount : s.failures ≤ (s.next (.removeAll ⟨l.baseDir, name⟩) removed).failures := by
        cases removed with
        | none => exact le_rfl
        | some left => exact Nat.le_succ _
      refine keeps_seq _ _ (l.pruneLoop cutoff rest) _ _ (ih ⟨h.stream, h.idle, h.path, hkept⟩)
        fun s' _ h' => ?_
      exact ⟨h'.1, h'.2.1.trans hwhole, hcount.trans h'.2.2⟩
    · exact ih h

theorem pruneOldLogs_keeps {l : Logger} {s : Store} (zone : Zone) (reference keepDays : ℤ)
    (h : Linked l s) :
    Keeps Store.next anyway (l.pruneOldLogs zone reference keepDays) s fun s' _ =>
      Linked l s' ∧ s'.whole = s.whole ∧ s.failures ≤ s'.failures := by
  unfold Logger.pruneOldLogs
  split
  · exact ⟨h, rfl, le_rfl⟩
  · split
    · exact ⟨h, rfl, le_rfl⟩
    · exact ⟨trivial, fun found _ => pruneLoop_keeps _ found h⟩

theorem close_linked {l : Logger} {s : Store} (h : Linked l s) : l.close = Logger.initial := by
  have hfile : (if l.toFile then none else l.file) = none := by
    split
    · rfl
    · rename_i hf
      rw [h.stream] at hf
      simpa using hf
  rw [Logger.close, hfile]
  rfl

/-- Every call keeps the link between the logger and its file. -/
theorem perform_linked {zone : Zone} {l : Logger} {s : Store} (c : Call) (h : Linked l s) :
    Keeps Store.next anyway (perform zone l c) s fun s' l' => Linked l' s' := by
  cases c with
  | openFile now baseDir baseName =>
    exact keeps_seq _ _ _ _ _ (openFile_keeps now baseDir baseName h) fun _ _ h' => h'.1
  | log now level message =>
    exact keeps_mono _ _ _ _ (fun _ _ h' => h'.linked) (log_keeps now level message h)
  | pruneOldLogs reference keepDays =>
    exact keeps_seq _ _ _ _ _ (pruneOldLogs_keeps zone reference keepDays h) fun _ _ h' => h'.1
  | close =>
    change Linked l.close s
    rw [close_linked h]
    exact initial_linked s

/-- A call that logs no line delivers none. -/
structure Silent (l : Logger) (s s' : Store) (l' : Logger) : Prop where
  whole : s'.whole = s.whole
  failures : s.failures ≤ s'.failures
  broken : l'.broken = true → l.broken = true

end Fate

section Runs

variable {zone : Zone} {l l' : Logger} {s s' : Store} {calls : List Call}

theorem run_linked (hr : Run zone anyway l s calls l' s') (h : Linked l s) : Linked l' s' :=
  run_keeps (fun _ _ c hc => perform_linked c hc) hr h

/-- Whatever fails, no call loses or overwrites what the files hold: each file
only grows and keeps a name in its directory, unless pruning took the directory,
and the open file is the one of the active path. -/
theorem files_kept (hr : Run zone anyway l s calls l' s') (h : Linked l s) :
    Kept s s' ∧ Linked l' s' := by
  refine ⟨?_, run_linked hr h⟩
  induction hr with
  | start => exact .refl s
  | call c hr he ih => exact ih.trans (kept_ends (perform_linked c (run_linked hr h)) he)

/-- The first line is torn and written again. -/
theorem files_kept_torn :
    Kept Store.blank (sampleRun [false, false, false, true]).2.1 ∧
      Linked (sampleRun [false, false, false, true]).1
        (sampleRun [false, false, false, true]).2.1 :=
  files_kept (run_scripted _ _ _ sampleCalls _) (initial_linked _)

end Runs

end LogTransfer.Logging
