import LogTransfer.ReaderWait
import LogTransfer.UploadExact

/-!
# Lost wake-ups of the reader

The loop thread changes what the reader's predicate reads, and notifies, without
the mutex. A notification between the reader's look and its block is lost; the
reader sleeps on if the callback owes no other one.
-/

set_option autoImplicit false

namespace LogTransfer.Client
open Program Interleave CondVar

section Owing

variable {α : Type}

def debt : Voice → ℕ
  | .drain => 1
  | .plain | .chunk => 0

def owedRules : Rules CvOp CvAns ℕ where
  may _ _ := True
  answers _ _ _ := True

theorem keeps_notifyIf (b : Bool) (p : CvP α) (g : ℕ) (Q : ℕ → α → Prop) :
    Keeps owedNext owedRules (notifyIf b p) g Q ↔
      Keeps owedNext owedRules p (if b then g - 1 else g) Q := by
  cases b with
  | false => exact Iff.rfl
  | true => exact ⟨fun h => h.2 () trivial, fun h => ⟨trivial, fun _ _ => h⟩⟩

/-- An operation with the notifications around it settles what was owed before
it and leaves the debt of the next voice. -/
theorem debt_turn (v : Voice) (op : Op) (a : Ans op) :
    (if v.speaks op then
      owedNext (if v.ends op then debt v - 1 else debt v) (.shared op) a - 1
    else owedNext (if v.ends op then debt v - 1 else debt v) (.shared op) a) =
      debt (v.turn op) := by
  cases op with
  | send m => cases m <;> cases v <;> rfl
  | _ => cases v <;> rfl

/-- Whatever the callback does, it ends with nothing owed. -/
theorem owing_voiced (v : Voice) (p : P α) :
    Keeps owedNext owedRules (voiced v p) (debt v) fun g _ => g = 0 := by
  induction p generalizing v with
  | done a => cases v <;> exact (keeps_notifyIf _ _ _ _).mpr rfl
  | call op k ih =>
    refine (keeps_notifyIf _ _ _ _).mpr ⟨trivial, fun a _ => (keeps_notifyIf _ _ _ _).mpr ?_⟩
    rw [debt_turn]
    exact ih a _

/-- What is owed is met. -/
theorem owing_meets {p : CvP α} {g : ℕ}
    (h : Keeps owedNext owedRules p g fun g _ => g = 0) (hg : 0 < g) :
    Meets (· = .notifyAll) p := by
  refine keeps_meets (0 < ·) (fun _ _ _ => trivial) ?_ (fun g _ hq => by omega) h hg
  intro g op a hpos hop
  cases op with
  | notifyAll => exact absurd rfl hop
  | shared op => cases op <;> simp [owedNext, hpos]

end Owing

section Watch

/-- A reader past its look is owed a notification for a predicate that holds. -/
structure Watched (g : ℕ) (w : WaitWorld) : Prop where
  owed : Owed (w.world.reader.room = true) g w.waiter
  waits : w.waiter ≠ .awake → w.world.reader.pc = .waitSpace

/-- The notification is not missed by a reader whose predicate has come true, or
another one is owed. -/
def inTime : Limits CvOp WaitWorld Service Signal Peer ℕ :=
  onOps fun g w op => op = .notifyAll → ¬ Misses (w.world.reader.room = true) g w.waiter

variable {files : Bytes → Option Bytes} {g : ℕ} {w : WaitWorld}

theorem watched_awake (g : ℕ) (w : World) : Watched g ⟨w, .awake⟩ :=
  ⟨owed_awake, fun hw => absurd rfl hw⟩

theorem exec_pc (op : Op) (b : Bool) (w : World) :
    (World.exec files op b w).2.reader.pc = w.reader.pc := by
  cases op with
  | takeCommand => simp only [World.exec]; split <;> rfl
  | connect => cases b <;> rfl
  | beginUpload path size =>
    simp only [World.exec, FileReader.beginUpload]
    split
    · rfl
    · cases files path <;> rfl
  | _ => rfl

/-- Only an abort and a release bring room. -/
theorem exec_room {op : Op} (b : Bool) {w : World} (ha : op ≠ .abortUpload)
    (hr : op ≠ .release) (h : (World.exec files op b w).2.reader.room = true) :
    w.reader.room = true := by
  cases op with
  | abortUpload => exact absurd rfl ha
  | release => exact absurd rfl hr
  | takeCommand =>
    simp only [World.exec] at h
    split at h <;> exact h
  | connect => cases b <;> exact h
  | beginUpload path size =>
    simp only [World.exec, FileReader.beginUpload] at h
    split at h
    · exact h
    · cases hf : files path with
      | none => simpa only [hf] using h
      | some content =>
        simp only [hf] at h
        exact Bool.or_eq_true_iff.mpr (.inr h)
  | _ => exact h

theorem owed_released {holds : Prop} {u : Waiter} (h : Owed holds g u) :
    Owed holds g u.released := by
  cases u with
  | armed => exact owed_blocked h
  | awake | blocked => exact h

theorem owed_hear {holds : Prop} (op : Op) (a : Ans op) {u : Waiter} (h : Owed holds g u) :
    Owed holds g (WaitWorld.hear op a u) := by
  cases op with
  | beginUpload path size =>
    simp only [WaitWorld.hear]
    split
    · rw [Waiter.notified_released]
      exact owed_awake
    · exact owed_released h
  | takeError => exact owed_released h
  | _ => exact h

theorem hear_awake (op : Op) (a : Ans op) : WaitWorld.hear op a .awake = .awake := by
  cases op with
  | beginUpload path size =>
    simp only [WaitWorld.hear]
    split <;> rfl
  | _ => rfl

theorem watched_shared (op : Op) (b : Bool) (h : Watched g w) :
    Watched (owedNext g (.shared op) (w.exec files (.shared op) b).1)
      (w.exec files (.shared op) b).2 := by
  constructor
  · by_cases ha : op = .abortUpload
    · subst ha
      exact owed_change Nat.two_pos
    by_cases hr : op = .release
    · subst hr
      exact owed_change Nat.one_pos
    have hg : owedNext g (.shared op) (w.exec files (.shared op) b).1 = g := by
      cases op with
      | abortUpload => exact absurd rfl ha
      | release => exact absurd rfl hr
      | _ => rfl
    rw [hg]
    exact owed_hear op _ (owed_mono h.owed (exec_room b ha hr) le_rfl)
  · intro hw
    rw [← h.waits fun hu => hw (by rw [WaitWorld.exec, hu, hear_awake])]
    exact exec_pc op b w.world

theorem watched_notifyAll (files : Bytes → Option Bytes) (b : Bool) (h : Watched g w)
    (hlim : ¬ Misses (w.world.reader.room = true) g w.waiter) :
    Watched (owedNext g .notifyAll ()) (w.exec files .notifyAll b).2 := by
  refine ⟨(owed_notified h.owed).mpr hlim, fun hw => h.waits ?_⟩
  rintro hu
  exact hw (by rw [WaitWorld.exec, hu]; rfl)

theorem watched_reader {w' : WaitWorld} (h : Watched g w) (hs : w.readerStep = some w') :
    Watched g w' := by
  unfold WaitWorld.readerStep at hs
  cases hu : w.waiter with
  | blocked =>
    rw [hu] at hs
    cases hs
  | armed =>
    rw [hu] at hs
    cases hs
    exact ⟨owed_blocked (hu ▸ h.owed), fun _ => h.waits (by simp [hu])⟩
  | awake =>
    simp only [hu] at hs
    split at hs
    · rename_i hfull
      cases hs
      rw [Bool.and_eq_true, decide_eq_true_eq, Bool.not_eq_true'] at hfull
      exact ⟨owed_armed (by simp [hfull.2]), fun _ => hfull.1⟩
    · obtain ⟨r, -, rfl⟩ := Option.map_eq_some_iff.mp hs
      exact watched_awake g _

/-- The steps of the others touch no more of the reader than its wake-up of the
loop. -/
theorem peer_wake {w w' : World} {d : Peer} (hd : d ≠ .reader) (h : peer w d = some w') :
    ∃ wake, w'.reader = { w.reader with wake := wake } := by
  cases d with
  | reader => exact absurd rfl hd
  | arrive bytes =>
    cases h
    exact ⟨_, rfl⟩
  | post command =>
    cases h
    exact ⟨_, rfl⟩
  | frame =>
    cases h
    exact ⟨_, rfl⟩
  | click action =>
    simp only [peer] at h
    split at h
    · cases h
      cases action with
      | connect =>
        simp only [World.click]
        split
        · exact ⟨_, rfl⟩
        · split <;> exact ⟨_, rfl⟩
      | send confirmed =>
        simp only [World.click]
        split <;> exact ⟨_, rfl⟩
      | edit | disconnect | browse | cancel | requestResult => exact ⟨_, rfl⟩
    · cases h

theorem watched_wake {world : World} (h : Watched g w)
    (hr : ∃ wake, world.reader = { w.world.reader with wake := wake }) :
    Watched g { w with world := world } := by
  obtain ⟨wake, hr⟩ := hr
  constructor
  · change Owed (world.reader.room = true) g w.waiter
    rw [hr]
    exact h.owed
  · intro hw
    change world.reader.pc = .waitSpace
    rw [hr]
    exact h.waits hw

theorem watched_peer {w' : WaitWorld} (d : Peer) (h : Watched g w) (hs : w.peer d = some w') :
    Watched g w' := by
  by_cases hd : d = .reader
  · subst hd
    exact watched_reader h hs
  · obtain ⟨world, hp, rfl⟩ : ∃ world, peer w.world d = some world ∧
        { w with world := world } = w' := by
      cases d with
      | reader => exact absurd rfl hd
      | _ => exact Option.map_eq_some_iff.mp hs
    exact watched_wake h (peer_wake hd hp)

theorem watch_discipline (files : Bytes → Option Bytes) :
    Discipline (waitMachine files) owedRules inTime Watched (fun g _ => g = 0) where
  start := by
    intro g w s e p w' hg hj _ hs
    simp only [waitMachine] at hs
    split at hs
    · cases hs
      refine ⟨?_, watched_wake hj ?_⟩
      · change Keeps owedNext owedRules (voiced .plain (callback s e)) g fun g _ => g = 0
        rw [hg]
        exact owing_voiced .plain _
      · cases e <;> exact ⟨_, rfl⟩
    · cases hs
  op := by
    intro g w op b hj _ hlim
    refine ⟨trivial, ?_⟩
    cases op with
    | shared op => exact watched_shared op b hj
    | notifyAll => exact watched_notifyAll files b hj (hlim rfl)
  peer := fun _ _ d _ hj _ hs => watched_peer d hj hs

theorem watched_reach {c : WaitState} (h : Reach (waitMachine files) inTime waitInitial c) :
    Held (waitMachine files) owedRules Watched (fun g _ => g = 0) c :=
  have h₀ : Held (waitMachine files) owedRules Watched (fun g _ => g = 0) waitInitial :=
    ⟨rfl, watched_awake 0 _⟩
  reach_held _ (watch_discipline files) h₀ h

end Watch

section Schedules

variable (files : Bytes → Option Bytes) {s : Service} {w : World} {u : Waiter}

theorem allowed_quiet {c : WaitState} (h : c.pending ≠ some .notifyAll)
    (a : Act Signal Peer) : Allowed inTime c a := by
  refine allowed_onOps (fun op hop hn => ?_) a
  subst hn
  exact absurd hop h

theorem allowed_awake {c : WaitState} (h : c.shared.waiter = .awake) (a : Act Signal Peer) :
    Allowed inTime c a :=
  allowed_onOps (fun _ _ _ hm => by cases h.symm.trans hm.1) a

def withReader (c : WaitState) (r : FileReader) (u : Waiter) : WaitState :=
  { c with shared := { world := { c.shared.world with reader := r }, waiter := u } }

theorem reach_working (c : WaitState) {r : FileReader} (r' : FileReader) (hpc : r.pc ≠ .waitSpace)
    (hs : r.readerStep = some r') :
    Reach (waitMachine files) inTime (withReader c r .awake) (withReader c r' .awake) := by
  refine .step (.peer .reader) .init trivial ?_
  simp [step, waitMachine, WaitWorld.peer, WaitWorld.readerStep, withReader, hpc, hs]

theorem reach_block (lim : Limits CvOp WaitWorld Service Signal Peer ℕ) {g : ℕ}
    (h : lim.peer g ⟨w, .armed⟩ .reader) :
    Reach (waitMachine files) lim ⟨⟨w, .armed⟩, g, .done s⟩ ⟨⟨w, .blocked⟩, g, .done s⟩ :=
  .step (.peer .reader) .init h rfl

/-- The reader in front of a slot to fill, `k` slots filled. -/
structure Filling (k : ℕ) (r : FileReader) : Prop where
  pc : r.pc = .checkAbort
  abort : r.abort = false
  ring : r.ring.length = k
  file : (kDefaultSlotCount - k) * kDefaultSlotSize ≤ r.file.length
  remaining : r.remaining = r.file.length

theorem reach_filled (c : WaitState) {k : ℕ} {r : FileReader} (h : Filling k r)
    (hk : k < kDefaultSlotCount) :
    ∃ r', Filling (k + 1) r' ∧
      Reach (waitMachine files) inTime (withReader c r .awake) (withReader c r' .awake) := by
  have hslots : 1 ≤ kDefaultSlotCount - k := by omega
  have hroom : kDefaultSlotSize ≤ r.file.length :=
    (Nat.le_mul_of_pos_left _ hslots).trans h.file
  have hsize : 0 < kDefaultSlotSize := by decide
  have hread : ({ r with pc := .read } : FileReader).readChunk =
      { r with file := r.file.drop kDefaultSlotSize,
               remaining := r.remaining - (r.file.take kDefaultSlotSize).length,
               pc := .commit (r.file.take kDefaultSlotSize) } := by
    have hmin : min kDefaultSlotSize r.remaining = kDefaultSlotSize := by
      rw [h.remaining, Nat.min_eq_left hroom]
    have hfile : r.file.isEmpty = false := by
      rw [List.isEmpty_eq_false_iff, ← List.length_pos_iff]
      omega
    simp only [FileReader.readChunk, hmin, hsize.ne', hfile, if_false, Bool.false_eq_true]
  refine ⟨{ r with
    ring := r.ring ++ [r.file.take kDefaultSlotSize], file := r.file.drop kDefaultSlotSize,
    remaining := r.remaining - (r.file.take kDefaultSlotSize).length, wake := true,
    pc := .checkAbort }, ?_, ?_⟩
  · refine ⟨rfl, h.abort, by simp [h.ring], ?_, ?_⟩
    · have := h.file
      rw [List.length_drop, Nat.sub_add_eq, Nat.sub_mul]
      omega
    · simp only [h.remaining, List.length_take, List.length_drop]
      omega
  · refine reach_trans _ (reach_working files c { r with pc := .acquire } ?_ ?_) ?_
    · simp [h.pc]
    · simp [FileReader.readerStep, h.pc, h.abort, FileReader.goto]
    refine reach_trans _ (reach_working files c { r with pc := .read } (by simp) ?_) ?_
    · have hfull : FileReader.full { r with pc := .acquire } = false := by
        simp [FileReader.full, h.ring, Nat.ne_of_lt hk]
      simp [FileReader.readerStep, FileReader.goto, hfull]
    refine reach_trans _ (reach_working files c _ (by simp) (congrArg some hread)) ?_
    refine reach_trans _ (reach_working files c _ (by simp) rfl) ?_
    exact reach_working files c _ (by simp) rfl

/-- The reader fills the ring and finds its predicate false. -/
theorem reach_armed (c : WaitState) {r : FileReader} (h : Filling 0 r) :
    ∃ r', r'.pc = .waitSpace ∧ r'.ring.length = kDefaultSlotCount ∧
      Reach (waitMachine files) inTime (withReader c r .awake) (withReader c r' .armed) := by
  have hfill : ∀ k ≤ kDefaultSlotCount, ∃ r', Filling k r' ∧
      Reach (waitMachine files) inTime (withReader c r .awake) (withReader c r' .awake) := by
    intro k
    induction k with
    | zero => exact fun _ => ⟨r, h, .init⟩
    | succ k ih =>
      intro hk
      obtain ⟨r', hr', hreach⟩ := ih (Nat.le_of_succ_le hk)
      obtain ⟨r'', hr'', hstep⟩ := reach_filled files c hr' hk
      exact ⟨r'', hr'', reach_trans _ hreach hstep⟩
  obtain ⟨r', hr', hreach⟩ := hfill kDefaultSlotCount le_rfl
  refine ⟨{ r' with pc := .waitSpace }, rfl, hr'.ring, reach_trans _ hreach ?_⟩
  have hfull : FileReader.full { r' with pc := .acquire } = true := decide_eq_true hr'.ring
  refine reach_trans _ (reach_working files c { r' with pc := .acquire } ?_ ?_) ?_
  · simp [hr'.pc]
  · simp [FileReader.readerStep, hr'.pc, hr'.abort, FileReader.goto]
  refine reach_trans _ (reach_working files c { r' with pc := .waitSpace } (by simp) ?_) ?_
  · simp [FileReader.readerStep, FileReader.goto, hfull]
  refine .step (.peer .reader) .init trivial ?_
  have hroom : FileReader.room { r' with pc := .waitSpace } = false := by
    rw [FileReader.room, hr'.abort]
    exact congrArg (!·) hfull
  simp [step, waitMachine, WaitWorld.peer, WaitWorld.readerStep, withReader, hroom]

/-- The cancelled upload as the service leaves it. -/
def cancelled (s : Service) : Service := Service.closeSocket { s with uploading := false }

/-- `abortUpload` past its drain, for a cancel that came alone. -/
def afterCancel (s : Service) : CvP Service := do
  shared (.emit (.log .warn (bytesOf "Upload cancelled by user.")))
  shared (.emit (.session .idle))
  voiced .plain (Service.drainCommands 1 (cancelled s) >>= Service.pumpUpload)

def aborting (w : World) : World :=
  { w with commands := [], reader := { w.reader with abort := true, wake := false } }

/-- A cancel up to the notification of the abort. -/
theorem reach_aborting (hc : w.commands = []) (hu : s.uploading = true) (g : ℕ) :
    Reach (waitMachine files) inTime ⟨⟨w, u⟩, g, .done s⟩
      ⟨⟨aborting w, u⟩, 2, notifySpaceAvailable >>= fun _ => cvDrainRing >>= fun _ =>
        afterCancel s⟩ := by
  have hthread : voiced .plain ((Service.handle s .cancelUpload >>= Service.drainCommands 1) >>=
      Service.pumpUpload) = Prog.call (.shared .abortUpload) fun _ =>
        notifySpaceAvailable >>= fun _ => cvDrainRing >>= fun _ => afterCancel s := by
    have hcancel : Service.handle s .cancelUpload =
        s.abortUpload (bytesOf "Upload cancelled by user.") .warn := by
      simp [Service.handle, Service.handleCancelUpload, hu]
    rw [hcancel, bind_assoc, voiced_abortUpload, cvAbortUpload, readerAbort, bind_assoc,
      bind_assoc, bind_assoc]
    rfl
  have hquiet {op : Op} {P : Prop} : CvOp.shared op = .notifyAll → P := fun h => by cases h
  have htake : Reach (waitMachine files) inTime ⟨⟨w, u⟩, g, .done s⟩
      ⟨⟨{ w with commands := [], reader := { w.reader with wake := false } }, u⟩, g,
        voiced .plain ((Service.handle s .cancelUpload >>= Service.drainCommands 1) >>=
          Service.pumpUpload)⟩ := by
    obtain ⟨reader, commands, events, ui, inbox, resultCsv⟩ := w
    cases hc
    exact .step (.loop true) (.step (.start (.async 1)) (.step (.peer (.post .cancelUpload)) .init
      trivial rfl) trivial rfl) hquiet rfl
  rw [hthread] at htake
  exact .step (.loop true) htake hquiet rfl

theorem step_peek_nil (n : ℕ) (k : CvP Service) (g : ℕ) (hr : w.reader.ring = []) :
    step (waitMachine files) ⟨⟨w, u⟩, g, cvDrainLoop (n + 1) >>= fun _ => k⟩ (.loop true) =
      some ⟨⟨w, u⟩, g, k⟩ := by
  obtain ⟨reader, commands, events, ui, inbox, resultCsv⟩ := w
  cases reader
  cases hr
  rfl

theorem step_peek_cons (n : ℕ) (k : CvP Service) (g : ℕ) {chunk : Bytes} {ring : List Bytes}
    (hr : w.reader.ring = chunk :: ring) :
    step (waitMachine files) ⟨⟨w, u⟩, g, cvDrainLoop (n + 1) >>= fun _ => k⟩ (.loop true) =
      some ⟨⟨w, u⟩, g, shared .release >>= fun _ => cvDrainLoop n >>= fun _ => k⟩ := by
  obtain ⟨reader, commands, events, ui, inbox, resultCsv⟩ := w
  cases reader
  cases hr
  rfl

/-- Draining the ring touches nothing else that the wait depends on. -/
theorem reach_drained (n : ℕ) (k : CvP Service) (g : ℕ) (hn : w.reader.ring.length < n) :
    ∃ g' ring, Reach (waitMachine files) Always ⟨⟨w, u⟩, g, cvDrainLoop n >>= fun _ => k⟩
      ⟨⟨{ w with reader := { w.reader with ring := ring } }, u⟩, g', k⟩ := by
  induction n generalizing w g with
  | zero => omega
  | succ n ih =>
    cases hr : w.reader.ring with
    | nil =>
      exact ⟨g, w.reader.ring, .step (.loop true) .init trivial (step_peek_nil files n k g hr)⟩
    | cons chunk ring =>
      have hlater : w.reader.release.ring.length < n := by
        have htail : w.reader.release.ring = ring := congrArg List.tail hr
        rw [hr, List.length_cons] at hn
        rw [htail]
        omega
      obtain ⟨g', ring', hreach⟩ := ih (w := { w with reader := w.reader.release }) 1 hlater
      exact ⟨g', ring', reach_trans _ (.step (.loop true) (.step (.loop true) .init
        (allowed_always _ _) (step_peek_cons files n k g hr)) (allowed_always _ _) rfl) hreach⟩

/-- A reader that is about to block through a whole cancel of its upload. -/
theorem cancel_missed (hc : w.commands = []) (hu : s.uploading = true)
    (hr : w.reader.ring.length ≤ kDefaultSlotCount) (g : ℕ) :
    ∃ g' w', Reach (waitMachine files) Always ⟨⟨w, .armed⟩, g, .done s⟩
      ⟨⟨w', .armed⟩, g', .done (cancelled s)⟩ ∧
      w'.reader.pc = w.reader.pc ∧ w'.reader.abort = true := by
  have hstart := reach_always _ (reach_aborting files (u := .armed) hc hu g)
  have hnotify : Reach (waitMachine files) Always ⟨⟨aborting w, .armed⟩, 2,
      notifySpaceAvailable >>= fun _ => cvDrainRing >>= fun _ => afterCancel s⟩
      ⟨⟨aborting w, .armed⟩, 1, cvDrainLoop (kDefaultSlotCount + 2) >>= fun _ =>
        notifySpaceAvailable >>= fun _ => afterCancel s⟩ :=
    .step (.loop true) .init (allowed_always _ _)
      (congrArg (fun p => some (⟨⟨aborting w, .armed⟩, 1, p⟩ : WaitState)) (bind_assoc _ _ _))
  obtain ⟨g', ring, hdrain⟩ := reach_drained files (w := aborting w) (u := .armed)
    (kDefaultSlotCount + 2) (notifySpaceAvailable >>= fun _ => afterCancel s) 1
    (Nat.lt_of_le_of_lt hr (by decide))
  -- The drain's own notification, two events, and the queue found empty.
  obtain ⟨w', hrun, hpc, habort⟩ : ∃ w' : World, run (waitMachine files) (fun _ _ => true)
      ⟨⟨{ aborting w with reader := { (aborting w).reader with ring := ring } }, .armed⟩, g',
        notifySpaceAvailable >>= fun _ => afterCancel s⟩ (List.replicate 4 (.loop true)) =
        some ⟨⟨w', .armed⟩, g' - 1, .done (cancelled s)⟩ ∧
      w'.reader.pc = w.reader.pc ∧ w'.reader.abort = true := ⟨_, rfl, rfl, rfl⟩
  exact ⟨g' - 1, w', reach_trans _ hstart (reach_trans _ hnotify (reach_trans _ hdrain
    (run_always _ hrun))), hpc, habort⟩

def oneFile (content : Bytes) (_ : Bytes) : Option Bytes := some content

/-- As many zeros as the ring holds. -/
def ringOfZeros : Bytes := List.replicate (kDefaultSlotCount * kDefaultSlotSize) 0#8

/-- A connection and an upload over it, up to the completion of its header. -/
def uploadOf (size : ℕ) : List (Act Signal Peer) :=
  connecting ++ posted (.startUpload [] [] size) ++ signal (.async 1) 18 ++
    signal (.writeDone true []) 3

/-- Whether an upload is on and how many writes are in flight, between two callbacks. -/
def atRest (c : WaitState) : Option (Bool × Option ℕ) :=
  match c.thread with
  | .done s => some (s.uploading, s.socket.map (·.pendingWrites))
  | .call _ _ => none

theorem reach_uploading (content : Bytes) :
    ∃ c, Reach (waitMachine (oneFile content)) inTime waitInitial c ∧
      c.shared.waiter = .awake ∧ c.shared.world.commands = [] ∧
      c.shared.world.reader = { FileReader.initial with
        uploading := true, file := content, remaining := content.length } ∧
      atRest c = some (true, some 0) := by
  have hrun : (run (waitMachine (oneFile content)) (fun c _ => c.shared.waiter = .awake)
      waitInitial (uploadOf content.length)).map (fun c => (c.shared.waiter,
        c.shared.world.commands, c.shared.world.reader, atRest c)) =
      some (.awake, [], { FileReader.initial with
        uploading := true, file := content, remaining := content.length },
        some (true, some 0)) := rfl
  obtain ⟨c, hc, hs⟩ := Option.map_eq_some_iff.mp hrun
  simp only [Prod.mk.injEq] at hs
  exact ⟨c, run_reach _ (fun c a ha => allowed_awake (of_decide_eq_true ha) a) _ _ _ hc, hs⟩

/-- A file that fills the ring, and the reader about to block on it. -/
theorem reach_full :
    ∃ w s g, Reach (waitMachine (oneFile ringOfZeros)) inTime waitInitial
      ⟨⟨w, .armed⟩, g, .done s⟩ ∧ w.commands = [] ∧ w.reader.pc = .waitSpace ∧
      w.reader.ring.length = kDefaultSlotCount ∧ s.uploading = true ∧
      s.socket.map (·.pendingWrites) = some 0 := by
  obtain ⟨c, hc, hw, hcom, hr, hrest⟩ := reach_uploading ringOfZeros
  unfold atRest at hrest
  split at hrest
  · rename_i s ht
    simp only [Option.some.injEq, Prod.mk.injEq] at hrest
    have hfill : Filling 0 { c.shared.world.reader with pc := .checkAbort } := by
      rw [hr]
      exact ⟨rfl, rfl, rfl, by rw [ringOfZeros, List.length_replicate, Nat.sub_zero], rfl⟩
    obtain ⟨r, hpc, hring, harm⟩ := reach_armed (oneFile ringOfZeros) c hfill
    have hbegin : Reach (waitMachine (oneFile ringOfZeros)) inTime c
        (withReader c { c.shared.world.reader with pc := .checkAbort } .awake) := by
      refine .step (.peer .reader) .init trivial ?_
      simp [step, waitMachine, WaitWorld.peer, WaitWorld.readerStep, withReader, hw, hr,
        FileReader.readerStep, FileReader.initial, FileReader.goto]
    refine ⟨{ c.shared.world with reader := r }, s, c.ghost, ?_, hcom, hpc, hring, hrest⟩
    have hall := reach_trans _ hc (reach_trans _ hbegin harm)
    rw [withReader, ht] at hall
    exact hall
  · cases hrest

end Schedules

section Misses

variable {files : Bytes → Option Bytes} {c c' : WaitState} {a : Act Signal Peer}

/-- Only a notification in the window is out of time. -/
theorem missed_of_late (hs : step (waitMachine files) c a = some c')
    (ha : ¬ Allowed inTime c a) :
    Misses (c.shared.world.reader.room = true) c.ghost c.shared.waiter ∧
      ∃ k, c' = ⟨c.shared, c.ghost - 1, k⟩ := by
  obtain ⟨e, s, p, w, ht, rfl, -, -⟩ | ⟨op, k, b, ht, rfl, rfl⟩ | ⟨d, w, rfl, -, -⟩ :=
    step_inversion _ hs
  · exact absurd (allowed_quiet (by simp [Config.pending, ht]) _) ha
  · simp only [Allowed, ht] at ha
    cases op with
    | shared op => exact (ha fun h => by cases h).elim
    | notifyAll =>
      have hmiss : Misses (c.shared.world.reader.room = true) c.ghost c.shared.waiter := by
        by_contra hno
        exact ha fun _ => hno
      refine ⟨hmiss, k (), ?_⟩
      have hnotified : c.shared.waiter.notified = c.shared.waiter := by
        rw [hmiss.1]
        rfl
      simp [waitMachine, WaitWorld.exec, owedNext, hnotified]
  · exact absurd trivial ha

end Misses

/-- A reader that is blocked although its predicate holds is woken by the
callback under way, in a run in which no last notification falls into the
window. One that does leaves the reader to block with nothing owed to it. -/
theorem reader_woken (files : Bytes → Option Bytes) (c : WaitState)
    (h : Reach (waitMachine files) inTime waitInitial c) :
    (c.shared.waiter = .blocked → c.shared.world.reader.room = true →
      Meets (· = .notifyAll) c.thread) ∧
    ∀ a c', step (waitMachine files) c a = some c' → ¬ Allowed inTime c a →
      ∃ c'', step (waitMachine files) c' (.peer .reader) = some c'' ∧
        c''.shared.waiter = .blocked ∧ c''.shared.world.reader.pc = .waitSpace ∧
        c''.shared.world.reader.room = true ∧ c''.ghost = 0 := by
  obtain ⟨howing, hwatched⟩ := watched_reach h
  constructor
  · intro hb hroom
    exact owing_meets howing (hwatched.owed (by simp [hb]) hroom)
  · intro a c' hs ha
    obtain ⟨⟨harmed, hroom, howed⟩, k, rfl⟩ := missed_of_late hs ha
    refine ⟨⟨{ c.shared with waiter := .blocked }, c.ghost - 1, k⟩, ?_, rfl,
      hwatched.waits (by simp [harmed]), hroom, Nat.sub_eq_zero_of_le howed⟩
    simp [step, waitMachine, WaitWorld.peer, WaitWorld.readerStep, harmed]

/-- A cancel that finds the reader blocked, at the notification of its abort. -/
theorem reader_woken_cancel : ∃ c : WaitState, c.shared.waiter = .blocked ∧
    c.shared.world.reader.room = true ∧
    ((c.shared.waiter = .blocked → c.shared.world.reader.room = true →
      Meets (· = .notifyAll) c.thread) ∧
    ∀ a c', step (waitMachine (oneFile ringOfZeros)) c a = some c' → ¬ Allowed inTime c a →
      ∃ c'', step (waitMachine (oneFile ringOfZeros)) c' (.peer .reader) = some c'' ∧
        c''.shared.waiter = .blocked ∧ c''.shared.world.reader.pc = .waitSpace ∧
        c''.shared.world.reader.room = true ∧ c''.ghost = 0) := by
  obtain ⟨w, s, g, hreach, hcom, -, -, hup, -⟩ := reach_full
  have hblock := reach_trans _ hreach (reach_block _ inTime trivial)
  exact ⟨_, rfl, rfl, reader_woken _ _ (reach_trans _ hblock (reach_aborting _ hcom hup g))⟩

/-- The reader has put 4 MiB into the ring and not blocked yet when the user
cancels. It blocks then, with nothing in flight and no callback under way. -/
theorem reader_sleeps_on : ∃ c : WaitState,
    Reach (waitMachine (oneFile ringOfZeros)) Always waitInitial c ∧
    c.shared.waiter = .blocked ∧ c.shared.world.reader.pc = .waitSpace ∧
    c.shared.world.reader.abort = true ∧
    ∃ s, c.thread = .done s ∧ s.socket.map (·.pendingWrites) = some 0 := by
  obtain ⟨w, s, g, hreach, hcom, hpc, hring, hup, hnone⟩ := reach_full
  obtain ⟨g', w', hcancel, hpc', habort⟩ :=
    cancel_missed (oneFile ringOfZeros) hcom hup hring.le g
  have hmissed := reach_trans _ (reach_always _ hreach) hcancel
  refine ⟨_, reach_trans _ hmissed (reach_block _ _ trivial), rfl, hpc'.trans hpc, habort,
    cancelled s, rfl, ?_⟩
  rw [← hnone]
  simp [cancelled, Service.closeSocket, Function.comp_def]

end LogTransfer.Client
