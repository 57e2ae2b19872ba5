import LogTransfer.ClientWorld
import LogTransfer.Logger
import LogTransfer.Mailbox
import Mathlib.Data.List.DropRight

/-!
# The threads of the client

The screen posts commands and takes events; the loop thread takes the commands
and pushes events. Every step between two locks is taken apart. What the loop
thread does with its service in one go is a parameter.
-/

set_option autoImplicit false

namespace LogTransfer.Client

section Screen

def levelTag : LogLevel → Bytes
  | .info => bytesOf "Info"
  | .warn => bytesOf "Warn"
  | .error => bytesOf "Error"

structure LogEntry where
  level : LogLevel
  text : Bytes
  deriving DecidableEq, Repr

def kMaxLogEntries : ℕ := 1000

def formatEntry (now : CivilTime) (level : LogLevel) (message : Bytes) : Bytes :=
  Logging.prefixOf now ++ bytesOf " [" ++ levelTag level ++ bytesOf "] " ++ message

structure Screen where
  ui : UiState
  logEntries : List LogEntry
  logDirty : Bool
  deriving DecidableEq, Repr

namespace Screen

def initial : Screen := { ui := UiState.initial, logEntries := [], logDirty := false }

/-- The loop that takes entries from the front. -/
def trim : List LogEntry → List LogEntry
  | [] => []
  | e::rest => if (e::rest).length > kMaxLogEntries then trim rest else e::rest

def log (v : Screen) (now : CivilTime) (level : LogLevel) (message : Bytes) : Screen :=
  { v with logEntries := trim (v.logEntries ++ [⟨level, formatEntry now level message⟩]),
           logDirty := true }

/-- One event of `pumpWorkerEvents`; one without a message logs nothing. -/
def apply (v : Screen) (now : CivilTime) (event : Event) : Screen :=
  let v := { v with ui := v.ui.apply event }
  match event with
  | .log level message => if message.isEmpty then v else v.log now level message
  | .link _ | .session _ | .claim _ => v

end Screen

end Screen

section Source

/-- What the loop thread does in one go. -/
inductive Job (B : Type) where
  | command (command : Command)
  | pumpUpload
  | callback (b : B)

/-- `sending` counts the calls of `post` between the lock and `uv_async_send`. -/
structure Threads (S : Type) where
  commands : List Command
  wakeup : Bool
  sending : ℕ
  draining : Bool
  service : S
  events : List Event
  screen : Screen

inductive Turn (B : Type) where
  | post (command : Command)
  | send
  /-- The reader thread wakes the loop. -/
  | notify
  /-- The loop calls `onAsyncCb`. -/
  | async
  /-- One turn of `drainCommands`. -/
  | next
  /-- `drainCommands` finds the queue empty. -/
  | pumpUpload
  | callback (b : B)
  /-- `pumpWorkerEvents`, with the readings of the clock. -/
  | frame (now : ℕ → CivilTime)
  /-- The screen's own callbacks. -/
  | touch (f : UiState → UiState)
  | log (now : CivilTime) (level : LogLevel) (message : Bytes)

namespace Threads

variable {S B : Type} (work : Job B → S → S × List Event)

def start (service : S) : Threads S :=
  { commands := [], wakeup := false, sending := 0, draining := false, service := service,
    events := [], screen := Screen.initial }

variable (w : Threads S)

def perform (job : Job B) : Threads S :=
  { w with service := (work job w.service).1, events := w.events ++ (work job w.service).2 }

def pumpWorkerEvents (now : ℕ → CivilTime) : Threads S :=
  { w with screen := w.events.zipIdx.foldl (fun v e => v.apply (now e.2) e.1) w.screen,
           events := [] }

def enabled : Turn B → Bool
  | .post _ | .notify | .frame _ | .touch _ | .log _ _ _ => true
  | .send => decide (0 < w.sending)
  | .async => w.wakeup && !w.draining
  | .next => w.draining && !w.commands.isEmpty
  | .pumpUpload => w.draining && w.commands.isEmpty
  | .callback _ => !w.draining

def act : Turn B → Threads S
  | .post command => { w with commands := w.commands ++ [command], sending := w.sending + 1 }
  | .send => { w with wakeup := true, sending := w.sending - 1 }
  | .notify => { w with wakeup := true }
  | .async => { w with wakeup := false, draining := true }
  | .next =>
    match w.commands with
    | [] => w
    | command::commands => { w with commands := commands }.perform work (.command command)
  | .pumpUpload => { w with draining := false }.perform work .pumpUpload
  | .callback b => w.perform work (.callback b)
  | .frame now => w.pumpWorkerEvents now
  | .touch f => { w with screen := { w.screen with ui := f w.screen.ui } }
  | .log now level message => { w with screen := w.screen.log now level message }

inductive Run (w : Threads S) : List (Turn B) → Threads S → Prop
  | start : Run w [] w
  | step {acts : List (Turn B)} {w₁ : Threads S} (a : Turn B) :
      Run w acts w₁ → w₁.enabled a = true → Run w (acts ++ [a]) (w₁.act work a)

def replay : List (Turn B) → Threads S → Option (Threads S)
  | [], w => some w
  | a::acts, w => if w.enabled a then replay acts (w.act work a) else none

end Threads

namespace Turn

variable {B : Type}

def posted : Turn B → Option Command
  | .post command => some command
  | _ => none

def called : Turn B → Option B
  | .callback b => some b
  | _ => none

/-- What the senders and the loop do with the commands. -/
def settles : Turn B → Bool
  | .send | .async | .next | .pumpUpload => true
  | _ => false

/-- Nothing new for the loop thread to hear of. -/
def quiet : Turn B → Bool
  | .post _ | .notify => false
  | _ => true

end Turn

end Source

section Sequential

/-! The same work by one thread. -/

variable {S B : Type} (work : Job B → S → S × List Event)

namespace Job

def taken : Job B → Option Command
  | .command c => some c
  | .pumpUpload | .callback _ => none

def called : Job B → Option B
  | .callback b => some b
  | .command _ | .pumpUpload => none

end Job

def conduct : List (Job B) → S → S × List Event
  | [], s => (s, [])
  | job::jobs, s =>
    ((conduct jobs (work job s).1).1, (work job s).2 ++ (conduct jobs (work job s).1).2)

/-- What is done to the screen. -/
inductive Deed where
  | shown (event : Event) (now : CivilTime)
  | touch (f : UiState → UiState)
  | log (now : CivilTime) (level : LogLevel) (message : Bytes)

namespace Deed

def event : Deed → Option Event
  | .shown event _ => some event
  | .touch _ | .log _ _ _ => none

/-- What the screen does of its own accord. -/
def own : Deed → Option Deed
  | .shown _ _ => none
  | .touch f => some (.touch f)
  | .log now level message => some (.log now level message)

def ui : Deed → UiState → UiState
  | .shown event _ => fun u => u.apply event
  | .touch f => f
  | .log _ _ _ => id

def entry : Deed → Option LogEntry
  | .shown (.log level message) now =>
    if message.isEmpty then none else some ⟨level, formatEntry now level message⟩
  | .shown (.link _) _ | .shown (.session _) _ | .shown (.claim _) _ | .touch _ => none
  | .log now level message => some ⟨level, formatEntry now level message⟩

end Deed

def Turn.own : Turn B → Option Deed
  | .touch f => some (.touch f)
  | .log now level message => some (.log now level message)
  | _ => none

theorem conduct_snoc (jobs : List (Job B)) (job : Job B) (s : S) :
    conduct work (jobs ++ [job]) s =
      ((work job (conduct work jobs s).1).1,
        (conduct work jobs s).2 ++ (work job (conduct work jobs s).1).2) := by
  induction jobs generalizing s with
  | nil => simp [conduct]
  | cons first jobs ih => simp [conduct, ih]

theorem trim_eq (entries : List LogEntry) :
    Screen.trim entries = entries.rtake kMaxLogEntries := by
  induction entries with
  | nil => rfl
  | cons e rest ih =>
    rw [Screen.trim]
    split
    · rename_i hlong
      rw [ih, List.rtake, List.rtake, List.length_cons, Nat.succ_sub (Nat.lt_succ_iff.mp hlong),
        List.drop_succ_cons]
    · rename_i hshort
      rw [List.rtake, Nat.sub_eq_zero_of_le (not_lt.mp hshort), List.drop_zero]

/-- The pane keeps the last of all the lines. -/
theorem trim_snoc (all : List LogEntry) (e : LogEntry) :
    Screen.trim (all.rtake kMaxLogEntries ++ [e]) = (all ++ [e]).rtake kMaxLogEntries := by
  have htake : ∀ (n : ℕ) (l : List LogEntry), (e :: l.take n).take n = (e :: l).take n := by
    intro n l
    cases n with
    | zero => rfl
    | succ n => rw [List.take_succ_cons, List.take_succ_cons, List.take_take,
        Nat.min_eq_left (Nat.le_succ n)]
  rw [trim_eq]
  simp only [List.rtake_eq_reverse_take_reverse, List.reverse_append, List.reverse_reverse,
    List.reverse_singleton, List.singleton_append, htake]

theorem log_entries (v : Screen) (now : CivilTime) (level : LogLevel) (message : Bytes)
    {all : List LogEntry} (h : v.logEntries = all.rtake kMaxLogEntries) :
    (v.log now level message).logEntries =
      (all ++ [(⟨level, formatEntry now level message⟩ : LogEntry)]).rtake kMaxLogEntries := by
  rw [Screen.log, h, trim_snoc]

end Sequential

section Conduct

open Mailbox

variable {S B : Type} {work : Job B → S → S × List Event}

def showAll (deeds : List Deed) : UiState := deeds.foldl (fun u d => d.ui u) UiState.initial

/-- The state of the threads, and what one thread would have come to. -/
structure Conducted (work : Job B → S → S × List Event) (origin : S) (posted : List Command)
    (called : List B) (own : List Deed) (w : Threads S) (jobs : List (Job B))
    (deeds : List Deed) : Prop where
  mailbox : Reach ⟨posted, jobs.filterMap Job.taken, w.commands, w.wakeup, w.sending, w.draining⟩
  called : jobs.filterMap Job.called = called
  service : w.service = (conduct work jobs origin).1
  events : deeds.filterMap Deed.event ++ w.events = (conduct work jobs origin).2
  own : deeds.filterMap Deed.own = own
  ui : w.screen.ui = showAll deeds
  entries : w.screen.logEntries = (deeds.filterMap Deed.entry).rtake kMaxLogEntries

variable {origin : S} {posted : List Command} {called : List B} {own : List Deed}
  {w : Threads S} {jobs : List (Job B)} {deeds : List Deed} {a : Turn B}

theorem conducted_start (origin : S) :
    Conducted work origin [] [] [] (Threads.start origin) [] [] :=
  ⟨.start, rfl, rfl, rfl, rfl, rfl, rfl⟩

theorem filterMap_snoc {X Y : Type} (f : X → Option Y) (xs : List X) (x : X) :
    (xs ++ [x]).filterMap f = xs.filterMap f ++ (f x).toList := by
  rw [List.filterMap_append]
  cases h : f x with
  | none => rw [List.filterMap_cons_none h]; rfl
  | some y => rw [List.filterMap_cons_some h]; rfl

/-- What the screen sees of one event. -/
theorem showAll_snoc (deeds : List Deed) (d : Deed) :
    showAll (deeds ++ [d]) = d.ui (showAll deeds) := by
  simp [showAll]

theorem apply_shown {v : Screen} (now : CivilTime) (event : Event) (hu : v.ui = showAll deeds)
    (hl : v.logEntries = (deeds.filterMap Deed.entry).rtake kMaxLogEntries) :
    (v.apply now event).ui = showAll (deeds ++ [.shown event now]) ∧
      (v.apply now event).logEntries =
        ((deeds ++ [Deed.shown event now]).filterMap Deed.entry).rtake kMaxLogEntries := by
  rw [showAll_snoc, List.filterMap_append, ← hu]
  cases event with
  | log level message =>
    cases hm : message.isEmpty with
    | true => simp [Screen.apply, Deed.ui, Deed.entry, hm, hl]
    | false =>
      simp only [Screen.apply, Deed.ui, Deed.entry, hm, List.filterMap_cons, List.filterMap_nil,
        Bool.false_eq_true, if_false]
      exact ⟨rfl, log_entries _ now level message hl⟩
  | _ => simp [Screen.apply, Deed.ui, Deed.entry, List.filterMap_cons, hl]

/-- The events from the one numbered `k` on. -/
theorem shows_events (now : ℕ → CivilTime) (events : List Event) (k : ℕ) {v : Screen}
    (hu : v.ui = showAll deeds)
    (hl : v.logEntries = (deeds.filterMap Deed.entry).rtake kMaxLogEntries) :
    ∃ more, more.filterMap Deed.event = events ∧ more.filterMap Deed.own = [] ∧
      ((events.zipIdx k).foldl (fun v e => v.apply (now e.2) e.1) v).ui =
        showAll (deeds ++ more) ∧
      ((events.zipIdx k).foldl (fun v e => v.apply (now e.2) e.1) v).logEntries =
        ((deeds ++ more).filterMap Deed.entry).rtake kMaxLogEntries := by
  induction events generalizing k v deeds with
  | nil => exact ⟨[], rfl, rfl, by simpa using hu, by simpa using hl⟩
  | cons event rest ih =>
    obtain ⟨hu', hl'⟩ := apply_shown (now k) event hu hl
    obtain ⟨more, he, ho, hmu, hml⟩ := ih (k + 1) hu' hl'
    refine ⟨.shown event (now k) :: more, congrArg (event :: ·) he, ho, ?_, ?_⟩
    · rw [List.append_cons, ← hmu]
      rfl
    · rw [List.append_cons, ← hml]
      rfl

theorem conducted_frame (h : Conducted work origin posted called own w jobs deeds)
    (now : ℕ → CivilTime) :
    ∃ deeds', Conducted work origin posted called own (w.pumpWorkerEvents now) jobs deeds' := by
  obtain ⟨more, he, ho, hu, hl⟩ := shows_events now w.events 0 h.ui h.entries
  refine ⟨deeds ++ more, h.mailbox, h.called, h.service, ?_, ?_, hu, hl⟩
  · rw [List.filterMap_append, he, ← h.events]
    exact List.append_nil _
  · rw [List.filterMap_append, ho, h.own, List.append_nil]

/-- The loop thread does one job. -/
theorem conducted_perform (w' : Threads S)
    (h : Conducted work origin posted called own w jobs deeds) (job : Job B)
    (hm : Reach ⟨posted, jobs.filterMap Job.taken ++ job.taken.toList, w'.commands, w'.wakeup,
      w'.sending, w'.draining⟩)
    (hs : w'.service = w.service) (he : w'.events = w.events) (hv : w'.screen = w.screen) :
    Conducted work origin posted (called ++ job.called.toList) own (w'.perform work job)
      (jobs ++ [job]) deeds := by
  refine ⟨?_, ?_, ?_, ?_, h.own, ?_, ?_⟩
  · rw [filterMap_snoc]
    exact hm
  · rw [filterMap_snoc, h.called]
  · rw [conduct_snoc, ← h.service, ← hs]
    rfl
  · rw [conduct_snoc, ← h.service, ← h.events, ← hs, ← he, List.append_assoc]
    rfl
  · rw [← h.ui, ← hv]
    rfl
  · rw [← h.entries, ← hv]
    rfl

/-- The screen does something of its own accord. -/
theorem conducted_own (v : Screen) (d : Deed)
    (h : Conducted work origin posted called own w jobs deeds) (he : d.event = none)
    (hu : v.ui = d.ui w.screen.ui)
    (hl : v.logEntries =
      (deeds.filterMap Deed.entry ++ d.entry.toList).rtake kMaxLogEntries) :
    Conducted work origin posted called (own ++ d.own.toList) { w with screen := v } jobs
      (deeds ++ [d]) := by
  refine ⟨h.mailbox, h.called, h.service, ?_, ?_, ?_, ?_⟩
  · rw [filterMap_snoc, he, ← h.events]
    exact congrArg (· ++ w.events) (List.append_nil _)
  · rw [filterMap_snoc, h.own]
  · rw [showAll_snoc, ← h.ui]
    exact hu
  · rw [filterMap_snoc]
    exact hl

/-- Every step does what one thread could do. -/
theorem conducted_act (h : Conducted work origin posted called own w jobs deeds)
    (he : w.enabled a = true) :
    ∃ jobs' deeds', Conducted work origin (posted ++ a.posted.toList)
      (called ++ a.called.toList) (own ++ a.own.toList) (w.act work a) jobs' deeds' := by
  cases a with
  | post command =>
    simp only [Turn.posted, Turn.called, Turn.own, Option.toList_some, Option.toList_none,
      List.append_nil]
    exact ⟨jobs, deeds, .step h.mailbox (.post _ command), h.called, h.service, h.events, h.own,
      h.ui, h.entries⟩
  | send =>
    simp only [Turn.posted, Turn.called, Turn.own, Option.toList_none, List.append_nil]
    obtain ⟨n, hn⟩ := Nat.exists_eq_succ_of_ne_zero (Nat.pos_iff_ne_zero.mp (of_decide_eq_true he))
    have hring := Reach.settle h.mailbox (.ring _ n hn)
    refine ⟨jobs, deeds, ?_, h.called, h.service, h.events, h.own, h.ui, h.entries⟩
    rw [Threads.act, hn]
    exact hring
  | notify =>
    simp only [Turn.posted, Turn.called, Turn.own, Option.toList_none, List.append_nil]
    exact ⟨jobs, deeds, .step h.mailbox (.knock _), h.called, h.service, h.events, h.own, h.ui,
      h.entries⟩
  | async =>
    simp only [Turn.posted, Turn.called, Turn.own, Option.toList_none, List.append_nil]
    obtain ⟨hr, hd⟩ := Bool.and_eq_true_iff.mp he
    have hhear := Reach.settle h.mailbox (.hear _ (Bool.not_eq_true' _ ▸ hd) hr)
    exact ⟨jobs, deeds, hhear, h.called, h.service, h.events, h.own, h.ui, h.entries⟩
  | next =>
    simp only [Turn.posted, Turn.called, Turn.own, Option.toList_none, List.append_nil]
    obtain ⟨hd, hne⟩ := Bool.and_eq_true_iff.mp he
    cases hc : w.commands with
    | nil =>
      rw [hc] at hne
      cases hne
    | cons command rest =>
      have htake := Reach.settle h.mailbox (.take _ command rest hd hc)
      have hjob := conducted_perform { w with commands := rest } h (.command command) htake rfl rfl
        rfl
      rw [Threads.act, hc]
      exact ⟨_, deeds, List.append_nil called ▸ hjob⟩
  | pumpUpload =>
    simp only [Turn.posted, Turn.called, Turn.own, Option.toList_none, List.append_nil]
    obtain ⟨hd, hnil⟩ := Bool.and_eq_true_iff.mp he
    have hleave := Reach.settle h.mailbox (.leave _ hd (List.isEmpty_iff.mp hnil))
    have hjob := conducted_perform { w with draining := false } h .pumpUpload
      ((List.append_nil (jobs.filterMap Job.taken)).symm ▸ hleave) rfl rfl rfl
    exact ⟨_, deeds, List.append_nil called ▸ hjob⟩
  | callback b =>
    simp only [Turn.posted, Turn.called, Turn.own, Option.toList_none, List.append_nil]
    exact ⟨_, deeds, conducted_perform w h (.callback b)
      ((List.append_nil (jobs.filterMap Job.taken)).symm ▸ h.mailbox) rfl rfl rfl⟩
  | frame now =>
    simp only [Turn.posted, Turn.called, Turn.own, Option.toList_none, List.append_nil]
    obtain ⟨deeds', hd⟩ := conducted_frame h now
    exact ⟨jobs, deeds', hd⟩
  | touch f =>
    simp only [Turn.posted, Turn.called, Turn.own, Option.toList_none, List.append_nil]
    exact ⟨jobs, _, conducted_own _ (.touch f) h rfl rfl
      ((List.append_nil (deeds.filterMap Deed.entry)).symm ▸ h.entries)⟩
  | log now level message =>
    simp only [Turn.posted, Turn.called, Turn.own, Option.toList_none, List.append_nil]
    exact ⟨jobs, _, conducted_own _ (.log now level message) h rfl rfl
      (log_entries w.screen now level message h.entries)⟩

theorem run_conducted {acts : List (Turn B)}
    (hr : Threads.Run work (Threads.start origin) acts w) :
    ∃ jobs deeds, Conducted work origin (acts.filterMap Turn.posted) (acts.filterMap Turn.called)
      (acts.filterMap Turn.own) w jobs deeds := by
  induction hr with
  | start => exact ⟨[], [], conducted_start origin⟩
  | step a _ he ih =>
    obtain ⟨jobs, deeds, h⟩ := ih
    rw [filterMap_snoc, filterMap_snoc, filterMap_snoc]
    exact conducted_act h he

theorem run_replay {w₀ w w' : Threads S} {before acts : List (Turn B)}
    (hr : Threads.Run work w₀ before w) (h : Threads.replay work acts w = some w') :
    Threads.Run work w₀ (before ++ acts) w' := by
  induction acts generalizing w before with
  | nil =>
    obtain rfl := Option.some.inj h
    rwa [List.append_nil]
  | cons a acts ih =>
    rw [Threads.replay, Option.ite_none_right_eq_some] at h
    rw [List.append_cons]
    exact ih (.step a hr h.1) h.2

/-- A service that keeps its commands and says that it had them. -/
def tally (job : Job Unit) (done : List Command) : List Command × List Event :=
  match job with
  | .command c => (done ++ [c], [.log .info (bytesOf "done")])
  | .pumpUpload | .callback _ => (done, [])

/-- Two commands under one wake-up, another wake-up and a frame between them. -/
def sampleActs : List (Turn Unit) :=
  [.post .disconnect, .post .requestResult, .send, .async, .next, .send,
    .frame fun _ => ⟨2026, 8, 17, 3, 0, 0⟩, .next]

end Conduct

section Settling

open Mailbox

variable {S B : Type} {work : Job B → S → S × List Event} {origin : S} {w w' : Threads S}
  {acts more : List (Turn B)}

def Threads.rank (w : Threads S) : ℕ :=
  3 * w.sending + 2 * w.wakeup.toNat + w.draining.toNat + w.commands.length

theorem settles_rank (work : Job B → S → S × List Event) {a : Turn B} (ha : a.settles = true)
    (he : w.enabled a = true) :
    (w.act work a).rank + 1 ≤ w.rank := by
  have hview : ∀ {m m' : Mailbox Command}, Settle m m' → Mailbox.rank m = w.rank →
      Mailbox.rank m' = (w.act work a).rank → (w.act work a).rank + 1 ≤ w.rank := by
    intro m m' hs hm hm'
    rw [← hm, ← hm']
    exact settle_rank hs
  cases a with
  | send =>
    obtain ⟨n, hn⟩ := Nat.exists_eq_succ_of_ne_zero (Nat.pos_iff_ne_zero.mp (of_decide_eq_true he))
    refine hview (.ring ⟨[], [], w.commands, w.wakeup, w.sending, w.draining⟩ n hn) rfl ?_
    rw [Threads.act, hn]
    rfl
  | async =>
    obtain ⟨hr, hd⟩ := Bool.and_eq_true_iff.mp he
    exact hview (.hear ⟨[], [], w.commands, w.wakeup, w.sending, w.draining⟩
      (Bool.not_eq_true' _ ▸ hd) hr) rfl rfl
  | next =>
    obtain ⟨hd, hne⟩ := Bool.and_eq_true_iff.mp he
    cases hc : w.commands with
    | nil =>
      rw [hc] at hne
      cases hne
    | cons command rest =>
      refine hview (.take ⟨[], [], w.commands, w.wakeup, w.sending, w.draining⟩ command rest hd hc)
        rfl ?_
      rw [Threads.act, hc]
      rfl
  | pumpUpload =>
    obtain ⟨hd, hnil⟩ := Bool.and_eq_true_iff.mp he
    exact hview (.leave ⟨[], [], w.commands, w.wakeup, w.sending, w.draining⟩ hd
      (List.isEmpty_iff.mp hnil)) rfl rfl
  | _ => cases ha

theorem quiet_rank (work : Job B → S → S × List Event) (w : Threads S) {a : Turn B}
    (hq : a.quiet = true) (ha : a.settles = false) :
    (w.act work a).rank = w.rank := by
  cases a with
  | callback b => rfl
  | frame now => rfl
  | touch f => rfl
  | log now level message => rfl
  | post command => cases hq
  | notify => cases hq
  | _ => cases ha

/-- As long as a command waits, a sender or the loop has something to do. -/
theorem waiting_enabled {m : Mailbox Command} (h : Reach m) (hb : m.box = w.commands)
    (hr : m.rung = w.wakeup) (ho : m.owing = w.sending) (hd : m.reading = w.draining)
    (hw : w.commands ≠ []) : ∃ a : Turn B, a.settles = true ∧ w.enabled a = true := by
  obtain ⟨m', hs⟩ := settle_exists (reach_heard h) (hb ▸ hw)
  cases hs with
  | ring n hn => exact ⟨.send, rfl, by simp [Threads.enabled, ← ho, hn]⟩
  | hear hread hrung => exact ⟨.async, rfl, by simp [Threads.enabled, ← hr, ← hd, hread, hrung]⟩
  | take c rest hread hc =>
    exact ⟨.next, rfl, by simp [Threads.enabled, ← hd, hread, hw]⟩
  | leave hread hnil => exact absurd (hb ▸ hnil) hw

theorem run_rank (hmore : Threads.Run work w more w') (hq : ∀ a ∈ more, a.quiet = true) :
    more.countP Turn.settles + w'.rank ≤ w.rank := by
  induction hmore with
  | start => simp
  | @step acts w₁ a _ he ih =>
    have hle := ih fun b hb => hq b (List.mem_append_left _ hb)
    rw [List.countP_append, List.countP_singleton]
    cases ha : a.settles with
    | true =>
      have hstep := settles_rank work ha he
      simp only [if_true]
      omega
    | false =>
      have hstep := quiet_rank work w₁ (hq a (by simp)) ha
      simp only [Bool.false_eq_true, if_false]
      omega

theorem run_trans {w₀ : Threads S} (hr : Threads.Run work w₀ acts w)
    (hmore : Threads.Run work w more w') : Threads.Run work w₀ (acts ++ more) w' := by
  induction hmore with
  | start => rwa [List.append_nil]
  | step a _ he ih =>
    rw [← List.append_assoc]
    exact .step a ih he

/-- However the wake-ups run together, the loop comes to rest after boundedly many steps of its
own, and has then done every command in the order of posting. -/
theorem commands_reached (hr : Threads.Run work (Threads.start origin) acts w)
    (hmore : Threads.Run work w more w') (hq : ∀ a ∈ more, a.quiet = true) :
    more.countP Turn.settles ≤ w.rank ∧
      ((∀ a : Turn B, a.settles = true → w'.enabled a = false) →
        ∃ jobs, jobs.filterMap Job.taken = acts.filterMap Turn.posted ∧
          w'.service = (conduct work jobs origin).1) := by
  refine ⟨(Nat.le_add_right _ _).trans (run_rank hmore hq), fun hrest => ?_⟩
  obtain ⟨jobs, deeds, h⟩ := run_conducted (run_trans hr hmore)
  have hnone : w'.commands = [] := by
    by_contra hne
    obtain ⟨a, ha, he⟩ := waiting_enabled (B := B) h.mailbox rfl rfl rfl rfl hne
    cases (hrest a ha).symm.trans he
  have hposted : more.filterMap Turn.posted = [] := by
    refine List.filterMap_eq_nil_iff.mpr fun a ha => ?_
    have hquiet := hq a ha
    cases a with
    | post command => cases hquiet
    | _ => rfl
  have horder := (reach_heard h.mailbox).order
  rw [hnone, List.append_nil, List.filterMap_append, hposted, List.append_nil] at horder
  exact ⟨jobs, horder, h.service⟩

theorem commands_reached_tally :
    ∃ w w', Threads.replay tally sampleActs (Threads.start []) = some w ∧
      Threads.replay tally [.pumpUpload, .async, .pumpUpload] w = some w' ∧
      3 ≤ w.rank ∧
      ((∀ a : Turn Unit, a.settles = true → w'.enabled a = false) →
        ∃ jobs, jobs.filterMap Job.taken = sampleActs.filterMap Turn.posted ∧
          w'.service = (conduct tally jobs []).1) := by
  obtain ⟨w', hw'⟩ := Option.isSome_iff_exists.mp
    (show ((Threads.replay tally sampleActs (Threads.start [])).bind
      (Threads.replay tally [.pumpUpload, .async, .pumpUpload])).isSome = true by decide)
  obtain ⟨w, hw, hmore⟩ := Option.bind_eq_some_iff.mp hw'
  exact ⟨w, w', hw, hmore,
    commands_reached (run_replay .start hw) (run_replay .start hmore) (by decide)⟩

end Settling

end LogTransfer.Client
