import LogTransfer.FileStore
import LogTransfer.Program
import LogTransfer.StampOrder

/-!
# The log of the server and the client

The functions of the logger over the files below `<base>/logs/<date>`. Each of
them holds the mutex from its first access on, so the calls of all threads come
one after the other. A call asks the operating system, and any answer but that
of `exists` may be a failure. The failures, the lines that got out whole and
the directories given up are history in `Store`; no function reads them.
-/

set_option autoImplicit false

namespace LogTransfer.Logging
open Program FileStore

def kMaxLogFileBytes : ℕ := 10 * 1024 * 1024
def kLogRetentionDays : ℤ := 7
def kLogPruneHour : ℕ := 3
def kMaxRotationIndex : ℕ := 999
def kDateLength : ℕ := 8

inductive LogLevel where
  | info | warn | error
  deriving DecidableEq, Repr

def levelTag : LogLevel → Bytes
  | .info => bytesOf "Info"
  | .warn => bytesOf "Warn"
  | .error => bytesOf "Error"

section Names

def rotationSuffix (index : ℕ) : Bytes :=
  let number := decimal index
  bytesOf "_" ++ (List.replicate (3 - number.length) (ch '0') ++ number)

/-- The part of a file name from its last dot on, unless that is in front. -/
def extension (name : Bytes) : Bytes :=
  let tail := name.reverse.takeWhile (· ≠ ch '.')
  if name = bytesOf ".." ∨ name.length ≤ tail.length + 1 then []
  else name.drop (name.length - (tail.length + 1))

def stem (name : Bytes) : Bytes := name.take (name.length - (extension name).length)

def candidate (name : Bytes) (index : ℕ) : Bytes :=
  stem name ++ rotationSuffix index ++ extension name

def isDateName (name : Bytes) : Bool := name.length = kDateLength && name.all isDigit

/-- `strftime` with `%Y%m%d`, the year having four digits. -/
def dateStringOf (t : CivilTime) : Bytes :=
  putDigits 4 t.year ++ putDigits 2 t.month ++ putDigits 2 t.day

/-- `strftime` with `[%Y-%m-%d %H:%M:%S]`. -/
def prefixOf (t : CivilTime) : Bytes :=
  bytesOf "[" ++ putDigits 4 t.year ++ bytesOf "-" ++ putDigits 2 t.month ++ bytesOf "-" ++
    putDigits 2 t.day ++ bytesOf " " ++ putDigits 2 t.hour ++ bytesOf ":" ++
    putDigits 2 t.minute ++ bytesOf ":" ++ putDigits 2 t.second ++ bytesOf "]"

end Names

/-- The directory `<base>/logs/<date>`. -/
structure LogDir where
  base : Bytes
  date : Bytes
  deriving DecidableEq, Repr

abbrev LogDisk := Disk LogDir Bytes Byte

section System

inductive Op where
  | createDirectories (dir : LogDir)
  | openAppend (dir : LogDir) (name : Bytes)
  | fileSize (dir : LogDir) (name : Bytes)
  | exists (dir : LogDir) (name : Bytes)
  | rename (dir : LogDir) (old new : Bytes)
  | write (file : ℕ) (bytes : Bytes)
  | print (bytes : Bytes)
  | listDir (base : Bytes)
  | removeAll (dir : LogDir)

-- `write` answers how much of a failed write got out, `removeAll` what is left.
@[reducible] def Ans : Op → Type
  | .createDirectories _ | .exists _ _ | .rename _ _ _ => Bool
  | .openAppend _ _ | .fileSize _ _ | .write _ _ => Option ℕ
  | .print _ => Unit
  | .listDir _ => List (Bytes × Bool)
  | .removeAll _ => Option (List Bytes)

abbrev LP (α : Type) := Prog Op Ans α

def act (op : Op) : LP (Ans op) := ask op

structure Store where
  disk : LogDisk
  console : Bytes
  failures : ℕ
  whole : List Bytes
  cleared : List LogDir

namespace Store

def fail (s : Store) : Store := { s with failures := s.failures + 1 }

def next (s : Store) : (op : Op) → Ans op → Store
  | .createDirectories dir, made => if made then { s with disk := s.disk.makeDir dir } else s.fail
  | .openAppend dir name, file =>
    if file.isSome then { s with disk := s.disk.touch (dir, name) } else s.fail
  | .fileSize _ _, size => if size.isSome then s else s.fail
  | .exists _ _, _ => s
  | .rename dir old new, done =>
    if done then { s with disk := s.disk.rename dir old new } else s.fail
  | .write file bytes, some k => { s with disk := s.disk.append file (bytes.take k) }.fail
  | .write file bytes, none =>
    { s with disk := s.disk.append file bytes, whole := s.whole ++ [bytes] }
  | .print bytes, _ => { s with console := s.console ++ bytes, whole := s.whole ++ [bytes] }
  | .listDir _, _ => s
  | .removeAll dir, none =>
    { s with disk := s.disk.removeDir dir, cleared := s.cleared ++ [dir] }
  | .removeAll dir, some left =>
    { s with disk := s.disk.clear dir left, cleared := s.cleared ++ [dir] }.fail

/-- What is below `<base>/logs`. -/
def listing (s : Store) (base : Bytes) : List (Bytes × Bool) :=
  (s.disk.entries.filter (·.1.base = base)).map fun e => (e.1.date, e.2)

/-- The answers the operating system can give. -/
def Possible (s : Store) : (op : Op) → Ans op → Prop
  | .createDirectories dir, made => made = true → (dir, false) ∉ s.disk.entries
  | .openAppend dir name, file => ∀ i, file = some i →
      (dir, true) ∈ s.disk.entries ∧ (s.disk.touch (dir, name)).names (dir, name) = some i
  | .fileSize dir name, size => ∀ n, size = some n →
      s.disk.present (dir, name) = true ∧ n = (s.disk.read (dir, name)).length
  | .exists dir name, answer => answer = s.disk.present (dir, name)
  | .rename dir old _, done => done = true → s.disk.present (dir, old) = true
  | .listDir base, found => ∀ e ∈ found, e.2 = true → e ∈ s.listing base
  | .write _ _, _ | .print _, _ | .removeAll _, _ => True

/-- The answers of a system in which nothing fails. -/
def Faultless (s : Store) : (op : Op) → Ans op → Prop
  | .listDir base, found => found = s.listing base
  | op, a => s.Possible op a ∧ (s.next op a).failures = s.failures

end Store

/-- What the logger owes the files: a name it gives is free, and a directory it
removes is named by a date. -/
def Store.Careful (s : Store) : Op → Prop
  | .rename dir old new => s.disk.present (dir, new) = false ∧ new ≠ old
  | .removeAll dir => isDateName dir.date = true
  | _ => True

def anyway : Rules Op Ans Store where
  may := Store.Careful
  answers := Store.Possible

def faultless : Rules Op Ans Store where
  may _ _ := True
  answers := Store.Faultless

end System

section Source

structure Stream where
  file : ℕ
  failed : Bool
  deriving DecidableEq, Repr

structure Logger where
  file : Option Stream
  fileRequested : Bool
  toFile : Bool
  baseDir : Bytes
  baseName : Bytes
  activeDate : Bytes
  activePath : Option (LogDir × Bytes)
  bytesWritten : ℕ
  deriving DecidableEq, Repr

namespace Logger

def initial : Logger :=
  { file := none, fileRequested := false, toFile := false, baseDir := [], baseName := [],
    activeDate := [], activePath := none, bytesWritten := 0 }

def openForDateLocked (l : Logger) (date : Bytes) : LP (Logger × Bool) := do
  let directory : LogDir := ⟨l.baseDir, date⟩
  let made ← act (.createDirectories directory)
  if !made then pure (l, false)
  else do
    let opened ← act (.openAppend directory l.baseName)
    match opened with
    | none => pure (l, false)
    | some file => do
      let existing ← act (.fileSize directory l.baseName)
      pure ({ l with file := some ⟨file, false⟩, toFile := true, activeDate := date,
                     activePath := some (directory, l.baseName),
                     bytesWritten := existing.getD 0 }, true)

/-- The loop of `rotateLocked` from an index on. -/
def renameLoop (dir : LogDir) (name : Bytes) : List ℕ → LP Bool
  | [] => pure false
  | index::rest => do
    let taken ← act (.exists dir (candidate name index))
    if taken then renameLoop dir name rest
    else act (.rename dir name (candidate name index))

def rotationIndices : List ℕ := (List.range kMaxRotationIndex).map (· + 1)

def renameActive : Option (LogDir × Bytes) → LP Bool
  | none => pure false
  | some (directory, name) => renameLoop directory name rotationIndices

def rotateLocked (l : Logger) : LP Logger := do
  let l := { l with file := none, toFile := false }
  let renamed ← renameActive l.activePath
  let (l, _) ← l.openForDateLocked l.activeDate
  pure (if renamed then l else { l with bytesWritten := 0 })

def openFile (l : Logger) (now : Option CivilTime) (baseDir baseName : Bytes) :
    LP (Logger × Bool) :=
  if baseName = [] then pure (l, false)
  else match now with
    | none => pure (l, false)
    | some now => do
      let previousDir := l.baseDir
      let previousName := l.baseName
      let l := { l with baseDir := if baseDir = [] then bytesOf "." else baseDir,
                        baseName := baseName }
      let (l, opened) ← l.openForDateLocked (dateStringOf now)
      pure (if !opened then ({ l with baseDir := previousDir, baseName := previousName }, false)
        else ({ l with fileRequested := true }, true))

def close (l : Logger) : Logger :=
  { l with file := if l.toFile then none else l.file, toFile := false, fileRequested := false,
           activeDate := [], activePath := none, baseDir := [], baseName := [],
           bytesWritten := 0 }

def lineOf (now : Option CivilTime) (level : LogLevel) (message : Bytes) : Bytes :=
  now.elim [] prefixOf ++ bytesOf " [" ++ levelTag level ++ bytesOf "] " ++ message ++ bytesOf "\n"

/-- `_file << line` and its flush; nothing is written once the stream has failed. -/
def writeLine (l : Logger) (line : Bytes) : LP (Logger × Bool) :=
  match l.file with
  | none => pure (l, false)
  | some stream =>
    if stream.failed then pure (l, false)
    else do
      let short ← act (.write stream.file line)
      match short with
      | none => pure ({ l with bytesWritten := l.bytesWritten + line.length }, true)
      | some _ => pure ({ l with file := some ⟨stream.file, true⟩ }, false)

def openIf (l : Logger) (wanted : Bool) (date : Bytes) : LP Logger :=
  if wanted then do
    let (l, _) ← l.openForDateLocked date
    pure l
  else pure l

/-- The three steps that make the file of a line ready. -/
def prepare (l : Logger) (today line : Bytes) : LP Logger :=
  if !l.fileRequested then pure l
  else do
    let l ← l.openIf (l.toFile && today ≠ [] && today ≠ l.activeDate) today
    let l ← l.openIf (!l.toFile) (if today = [] then l.activeDate else today)
    if l.toFile && l.bytesWritten + line.length > kMaxLogFileBytes then l.rotateLocked else pure l

/-- The stream is given up and the same line tried once more. -/
def retryLine (l : Logger) (today line : Bytes) : LP Logger := do
  let l := { l with file := none, toFile := false }
  let (l, opened) ← l.openForDateLocked (if today = [] then l.activeDate else today)
  if opened then do
    let (l, _) ← l.writeLine line
    pure l
  else pure l

def log (l : Logger) (now : Option CivilTime) (level : LogLevel) (message : Bytes) : LP Logger := do
  let today := now.elim [] dateStringOf
  let line := lineOf now level message
  let l ← l.prepare today line
  if !l.toFile then do
    act (.print line)
    pure l
  else do
    let (l, written) ← l.writeLine line
    if written then pure l else l.retryLine today line

/-- The loop of `pruneOldLogs` over what the iterator finds. -/
def pruneLoop (l : Logger) (cutoff : Bytes) : List (Bytes × Bool) → LP ℕ
  | [] => pure 0
  | (name, isDirectory)::rest =>
    if isDirectory && isDateName name && name ≠ l.activeDate && lexLt name cutoff then do
      let removed ← act (.removeAll ⟨l.baseDir, name⟩)
      let others ← l.pruneLoop cutoff rest
      pure (if removed.isNone then others + 1 else others)
    else l.pruneLoop cutoff rest

end Logger

/-- The local time of the system. The offsets from the epoch's time that are in
force, and the one `mktime` takes for a wall clock, lie within half a day. -/
structure Zone where
  localTime : ℤ → Option CivilTime
  makeTime : CivilTime → ℤ
  offset : ℤ → ℤ
  low : ℤ
  near : ∀ t, low ≤ offset t ∧ offset t < low + 43200
  reads : ∀ t c, localTime t = some c →
    c.Valid ∧ 1000 ≤ c.year ∧ c.seconds = t + offset t
  makes : ∀ c : CivilTime, c.Valid → makeTime c ≠ -1 →
    ∃ o, low ≤ o ∧ o < low + 43200 ∧ makeTime c = c.seconds - o

/-- Greenwich time, of a clock that knows these moments only. -/
def Zone.utc (known : List CivilTime) (h : ∀ c ∈ known, c.Valid ∧ 1000 ≤ c.year) : Zone where
  localTime t := known.find? fun c => c.seconds = t
  makeTime c := c.seconds
  offset _ := 0
  low := 0
  near _ := by decide
  reads t c hc := by
    have hv := h c (List.mem_of_find?_eq_some hc)
    have ht := List.find?_some hc
    rw [decide_eq_true_eq] at ht
    exact ⟨hv.1, hv.2, by omega⟩
  makes c _ _ := ⟨0, le_rfl, by decide, by omega⟩

variable (zone : Zone)

/-- The first date that is kept. -/
def cutoffDate (reference keepDays : ℤ) : Option Bytes :=
  match zone.localTime reference with
  | none => none
  | some midday =>
    let cutoffTime := zone.makeTime { midday with hour := 12, minute := 0, second := 0 }
    if cutoffTime = -1 then none
    else (zone.localTime (cutoffTime - (keepDays - 1) * 24 * 60 * 60)).map dateStringOf

def Logger.pruneOldLogs (l : Logger) (reference keepDays : ℤ) : LP ℕ :=
  if !l.fileRequested || l.baseDir = [] || keepDays < 1 then pure 0
  else match cutoffDate zone reference keepDays with
    | none => pure 0
    | some cutoff => do
      let found ← act (.listDir l.baseDir)
      l.pruneLoop cutoff found

/-- The calls that change anything. -/
inductive Call where
  | openFile (now : Option CivilTime) (baseDir baseName : Bytes)
  | log (now : Option CivilTime) (level : LogLevel) (message : Bytes)
  | pruneOldLogs (reference keepDays : ℤ)
  | close

def Call.line : Call → Option Bytes
  | .log now level message => some (Logger.lineOf now level message)
  | .openFile _ _ _ | .pruneOldLogs _ _ | .close => none

def perform (l : Logger) : Call → LP Logger
  | .openFile now baseDir baseName => do
    let (l, _) ← l.openFile now baseDir baseName
    pure l
  | .log now level message => l.log now level message
  | .pruneOldLogs reference keepDays => do
    let _ ← l.pruneOldLogs zone reference keepDays
    pure l
  | .close => pure l.close

/-- The calls of all threads, in the order in which they get the mutex. -/
inductive Run (R : Rules Op Ans Store) (l : Logger) (s : Store) :
    List Call → Logger → Store → Prop
  | start : Run R l s [] l s
  | call {calls : List Call} {l₁ l₂ : Logger} {s₁ s₂ : Store} (c : Call) :
      Run R l s calls l₁ s₁ → Ends Store.next R (perform zone l₁ c) s₁ s₂ l₂ →
      Run R l s (calls ++ [c]) l₂ s₂

end Source

section Rules

variable {zone : Zone}

/-- A run in which nothing fails is a run, and counts no failure. -/
theorem ends_faultless {α : Type} {p : LP α} {s s' : Store} {a : α}
    (h : Ends Store.next faultless p s s' a) :
    Ends Store.next anyway p s s' a ∧ s'.failures = s.failures := by
  induction p generalizing s with
  | done b => exact ⟨h, by rw [h.1]⟩
  | call op k ih =>
    obtain ⟨x, hx, he⟩ := h
    obtain ⟨hany, hcount⟩ := ih x he
    have hop : s.Possible op x ∧ (s.next op x).failures = s.failures := by
      cases op with
      | listDir base =>
        refine ⟨fun e he _ => ?_, rfl⟩
        have hx' : x = s.listing base := hx
        rw [← hx']
        exact he
      | _ => exact hx
    exact ⟨⟨x, hop.1, hany⟩, hcount.trans hop.2⟩

/-- What every call keeps, a run keeps. -/
theorem run_keeps {R : Rules Op Ans Store} {Inv : Logger → Store → Prop}
    (hcall : ∀ l s c, Inv l s → Keeps Store.next R (perform zone l c) s fun s' l' => Inv l' s')
    {l l' : Logger} {s s' : Store} {calls : List Call} (hr : Run zone R l s calls l' s')
    (h : Inv l s) : Inv l' s' := by
  induction hr with
  | start => exact h
  | call c _ he ih =>
    have hkept := keeps_ends (hcall _ _ c ih) he
    exact hkept

end Rules

section Scripted

/-! A system that can be run: a script says which operations fail. -/

def Store.answer (s : Store) (fails : Bool) : (op : Op) → Ans op
  | .createDirectories dir => !fails && !s.disk.entries.contains (dir, false)
  | .openAppend dir name =>
    if !fails && s.disk.entries.contains (dir, true) then
      (s.disk.touch (dir, name)).names (dir, name)
    else none
  | .fileSize dir name =>
    if !fails && s.disk.present (dir, name) then some (s.disk.read (dir, name)).length else none
  | .exists dir name => s.disk.present (dir, name)
  | .rename dir old _ => !fails && s.disk.present (dir, old)
  | .write _ bytes => if fails then some (bytes.length / 2) else none
  | .print _ => ()
  | .listDir base => if fails then [] else s.listing base
  | .removeAll _ => if fails then some [] else none

def scripted (op : Op) (s : Store × List Bool) : Ans op × (Store × List Bool) :=
  let a := s.1.answer (s.2.headD false) op
  (a, s.1.next op a, s.2.tail)

theorem answer_possible (s : Store) (fails : Bool) (op : Op) :
    s.Possible op (s.answer fails op) := by
  cases op with
  | createDirectories dir =>
    intro h hm
    have hfree := (Bool.and_eq_true_iff.mp h).2
    rw [List.contains_iff_mem.mpr hm] at hfree
    cases hfree
  | openAppend dir name =>
    intro i h
    simp only [Store.answer] at h
    split at h
    · rename_i hdir
      exact ⟨List.contains_iff_mem.mp (Bool.and_eq_true_iff.mp hdir).2, h⟩
    · cases h
  | fileSize dir name =>
    intro n h
    simp only [Store.answer] at h
    split at h
    · rename_i hp
      exact ⟨(Bool.and_eq_true_iff.mp hp).2, (Option.some.inj h).symm⟩
    · cases h
  | «exists» dir name => rfl
  | rename dir old new => exact fun h => (Bool.and_eq_true_iff.mp h).2
  | write file bytes => trivial
  | print bytes => trivial
  | listDir base =>
    intro e he _
    cases fails with
    | true => cases he
    | false => exact he
  | removeAll dir => trivial

theorem ends_scripted {α : Type} (p : LP α) (s : Store) (script : List Bool) :
    Ends Store.next anyway p s (eval scripted p (s, script)).2.1
      (eval scripted p (s, script)).1 := by
  induction p generalizing s script with
  | done a => exact ⟨rfl, rfl⟩
  | call op k ih => exact ⟨_, answer_possible s _ op, ih _ _ _⟩

theorem failures_next (s : Store) (op : Op) (a : Ans op) :
    s.failures ≤ (s.next op a).failures := by
  cases op with
  | createDirectories dir => cases a <;> first | exact le_rfl | exact Nat.le_succ _
  | openAppend dir name => cases a <;> first | exact le_rfl | exact Nat.le_succ _
  | fileSize dir name => cases a <;> first | exact le_rfl | exact Nat.le_succ _
  | «exists» dir name => exact le_rfl
  | rename dir old new => cases a <;> first | exact le_rfl | exact Nat.le_succ _
  | write file bytes => cases a <;> first | exact le_rfl | exact Nat.le_succ _
  | print bytes => exact le_rfl
  | listDir base => exact le_rfl
  | removeAll dir => cases a <;> first | exact le_rfl | exact Nat.le_succ _

theorem failures_eval {α : Type} (p : LP α) (s : Store) (script : List Bool) :
    s.failures ≤ (eval scripted p (s, script)).2.1.failures := by
  induction p generalizing s script with
  | done a => exact le_rfl
  | call op k ih => exact (failures_next s op _).trans (ih _ _ _)

/-- A run without a script in which nothing was seen to fail. -/
theorem ends_calm {α : Type} (p : LP α) (s : Store)
    (h : (eval scripted p (s, [])).2.1.failures = s.failures) :
    Ends Store.next faultless p s (eval scripted p (s, [])).2.1 (eval scripted p (s, [])).1 := by
  induction p generalizing s with
  | done a => exact ⟨rfl, rfl⟩
  | call op k ih =>
    have hstep := failures_next s op (s.answer false op)
    have hrest := failures_eval (k (s.answer false op)) (s.next op (s.answer false op)) []
    have hall : (eval scripted (k (s.answer false op))
        (s.next op (s.answer false op), [])).2.1.failures = s.failures := h
    refine ⟨s.answer false op, ?_, ih _ _ (by omega)⟩
    have hcalm : s.Possible op (s.answer false op) ∧
        (s.next op (s.answer false op)).failures = s.failures :=
      ⟨answer_possible s false op, by omega⟩
    cases op with
    | listDir base => rfl
    | _ => exact hcalm

/-- The calls one after the other. -/
def performAll (zone : Zone) (l : Logger) : List Call → LP Logger
  | [] => pure l
  | c::calls => do
    let l ← perform zone l c
    performAll zone l calls

theorem run_append {zone : Zone} {R : Rules Op Ans Store} {l l₁ l₂ : Logger} {s s₁ s₂ : Store}
    {calls calls' : List Call} (h : Run zone R l s calls l₁ s₁)
    (h' : Run zone R l₁ s₁ calls' l₂ s₂) : Run zone R l s (calls ++ calls') l₂ s₂ := by
  induction h' with
  | start => rw [List.append_nil]; exact h
  | call c _ he ih =>
    rw [← List.append_assoc]
    exact .call c ih he

theorem run_of_ends {zone : Zone} {R : Rules Op Ans Store} {l l' : Logger} {s s' : Store}
    {calls : List Call} (h : Ends Store.next R (performAll zone l calls) s s' l') :
    Run zone R l s calls l' s' := by
  induction calls generalizing l s with
  | nil =>
    obtain ⟨rfl, rfl⟩ := h
    exact .start
  | cons c calls ih =>
    obtain ⟨s₁, l₁, hfirst, hrest⟩ := ends_bind.mp h
    have hone := Run.call c .start hfirst
    exact run_append hone (ih hrest)

theorem run_scripted (zone : Zone) (l : Logger) (s : Store) (calls : List Call)
    (script : List Bool) :
    Run zone anyway l s calls (eval scripted (performAll zone l calls) (s, script)).1
      (eval scripted (performAll zone l calls) (s, script)).2.1 :=
  run_of_ends (ends_scripted _ _ _)

theorem run_calm (zone : Zone) (l : Logger) (s : Store) (calls : List Call)
    (h : (eval scripted (performAll zone l calls) (s, [])).2.1.failures = s.failures) :
    Run zone faultless l s calls (eval scripted (performAll zone l calls) (s, [])).1
      (eval scripted (performAll zone l calls) (s, [])).2.1 :=
  run_of_ends (ends_calm _ _ h)

def Store.blank : Store :=
  { disk := Disk.empty, console := [], failures := 0, whole := [], cleared := [] }

/-- Two lines of one day, logged by a fresh process. -/
def sampleCalls : List Call :=
  [.openFile (some ⟨2026, 8, 17, 3, 4, 5⟩) [] (bytesOf "server.log"),
    .log (some ⟨2026, 8, 17, 3, 4, 6⟩) .info (bytesOf "up"),
    .log (some ⟨2026, 8, 17, 3, 4, 7⟩) .warn (bytesOf "down")]

/-- What becomes of them under a script. -/
def sampleRun (script : List Bool) : Logger × (Store × List Bool) :=
  eval scripted (performAll (Zone.utc [] (by simp)) .initial sampleCalls) (.blank, script)

end Scripted

end LogTransfer.Logging
