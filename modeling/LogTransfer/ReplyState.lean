import LogTransfer.UploadConduct

/-!
# The service between two reads

A service that awaits a message has an unfinished framer, and one that receives
a result has room for more of it. The bytes of a read keep this or leave a
session that is over, and so do all other callbacks: it is an invariant of
every run.
-/

set_option autoImplicit false

namespace LogTransfer.Client
open Program Interleave

/-- The reply that is expected is not complete. -/
def Ripe (s : Service) : Prop :=
  (s.expecting = .csvPayload → s.csv.length < s.csvSize ∧ s.csvSize ≤ kMaxCsvSize) ∧
  (s.expecting ≠ .nothing → s.expecting ≠ .csvPayload → s.framer.Open)

/-- The session is over and its socket given up. To fail again changes nothing. -/
def Spent (s : Service) : Prop :=
  s.isOpen = false ∧ s.expecting = .nothing ∧
    (s.hasClaim = true → s.claim.received = s.csv.length) ∧ (s.hasClaim = false → s.csv = [])

/-- Where a handler of received bytes may leave the service. -/
def Goes (s s' : Service) : Prop := Spent s' ∨ Ripe s' ∧ s'.isOpen = s.isOpen

section Ends

variable {s : Service}

theorem ripe_nothing (h : s.expecting = .nothing) : Ripe s :=
  ⟨fun he => by simp [h] at he, fun he => absurd h he⟩

theorem spent_ripe (h : Spent s) : Ripe s := ripe_nothing h.2.1

theorem goes_ripe {s' : Service} (h : Goes s s') : Ripe s' := h.elim spent_ripe fun h => h.1

theorem open_reset (e a : MessageType) : (Framer.reset e a).Open := ⟨rfl, 8, rfl⟩

theorem spent_failed (s : Service) : Spent s.failed.closeSocket := by
  refine ⟨isOpen_close _, ?_⟩
  change s.failed.expecting = .nothing ∧
    (s.failed.hasClaim = true → s.failed.claim.received = s.failed.csv.length) ∧
    (s.failed.hasClaim = false → s.failed.csv = [])
  unfold Service.failed
  split
  · rename_i h
    exact ⟨rfl, fun _ => rfl, fun hn => by simp [h] at hn⟩
  · rename_i h
    exact ⟨rfl, fun hc => absurd hc h, fun _ => rfl⟩

theorem failSession_spent (s : Service) (reason : Bytes) (level : LogLevel) :
    Yields Spent (s.failSession reason level) :=
  yields_seq _ fun _ => yields_seq _ fun _ => yields_seq _ fun _ => spent_failed s

theorem abortUpload_ripe (reason : Bytes) (level : LogLevel) (h : Ripe s) :
    Yields Ripe (s.abortUpload reason level) :=
  yields_seq _ fun _ => yields_seq _ fun _ => yields_seq _ fun _ => yields_seq _ fun _ => h

theorem send_yields (s : Service) (m : Message) :
    Yields (fun r => r.1 = s ∨ r.1 = s.queued) (s.send m) := by
  unfold Service.send
  split
  · exact .inl rfl
  · refine yields_seq _ fun ok => ?_
    cases ok with
    | true => exact .inr rfl
    | false => exact .inl rfl

theorem send_ripe (m : Message) (h : Ripe s) : Yields (fun r => Ripe r.1) (s.send m) := by
  refine yields_mono ?_ (send_yields s m)
  rintro r (hr | hr)
  · rw [hr]
    exact h
  · rw [hr]
    exact h

end Ends

section Replies

variable {s : Service}

theorem finishDownload_goes (s : Service) : Yields (Goes s) s.finishDownload := by
  unfold Service.finishDownload
  dsimp only
  split
  · exact yields_mono (fun _ h => .inl h) (failSession_spent _ _ _)
  · refine yields_seq _ fun _ => ?_
    refine yields_bind (Q := fun s' => s'.expecting = .nothing ∧ s'.isOpen = s.isOpen)
      (yields_seq _ fun _ => ⟨rfl, rfl⟩) ?_
    rintro s₁ ⟨he, ho⟩
    refine yields_bind (send_yields s₁ _) ?_
    rintro ⟨s₂, ok⟩ hs₂
    cases ok with
    | false => exact yields_mono (fun _ h => .inl h) (failSession_spent _ _ _)
    | true =>
      refine yields_seq _ fun _ => yields_seq _ fun _ => yields_seq _ fun _ => .inr ?_
      have hs₂ : s₂ = s₁ ∨ s₂ = s₁.queued := hs₂
      rcases hs₂ with rfl | rfl
      · exact ⟨ripe_nothing he, ho⟩
      · exact ⟨ripe_nothing he, (isOpen_queued s₁).trans ho⟩

theorem completed_goes (hc : s.expecting = .csvPayload) (hl : s.csv.length ≤ s.csvSize)
    (hm : s.csvSize ≤ kMaxCsvSize) : Yields (Goes s) s.completed := by
  unfold Service.completed
  split
  · exact finishDownload_goes s
  · rename_i hn
    refine .inr ⟨⟨fun _ => ⟨by omega, hm⟩, fun _ he => absurd hc he⟩, rfl⟩

/-- The bytes a handler reports: none only when it gave the session up. -/
def Counts (s : Service) (r : Service × ℕ) : Prop := Spent r.1 ∨ Goes s r.1 ∧ 0 < r.2

theorem failBytes_counts (s₀ s : Service) (reason : String) :
    Yields (Counts s₀) (s.failBytes reason) :=
  yields_bind (failSession_spent s _ _) fun _ h => .inl h

theorem beginCsvReceive_goes (header : ResultHeader) (resuming : Bool) :
    Yields (fun r => Goes s r.1 ∧ (r.2 = false → Spent r.1))
      (s.beginCsvReceive header resuming) := by
  refine yields_seq _ fun _ => ?_
  split
  · exact yields_bind (failSession_spent s _ _) fun _ h => ⟨.inl h, fun _ => h⟩
  · rename_i hmax
    split
    · exact yields_bind (failSession_spent s _ _) fun _ h => ⟨.inl h, fun _ => h⟩
    · rename_i hless
      refine yields_bind (Q := Goes s) ?_ fun _ h => ⟨h, fun hn => by cases hn⟩
      refine yields_seq _ fun _ => yields_seq _ fun _ => ?_
      refine completed_goes (s := s.receiving header resuming) rfl ?_ (by
        simpa [Service.receiving] using hmax)
      cases resuming with
      | true => simpa [Service.receiving] using hless
      | false => simp [Service.receiving]

theorem ackFramed_counts (n : ℕ) (hn : 0 < n) : Yields (Counts s) (s.ackFramed n) := by
  unfold Service.ackFramed
  split
  · exact failBytes_counts s s _
  · split
    · exact yields_bind (failSession_spent s _ _) fun _ h => .inl h
    · refine yields_bind (Q := Goes s) ?_ fun _ h => .inr ⟨h, hn⟩
      refine yields_seq _ fun _ => yields_seq _ fun _ => yields_seq _ fun _ => ?_
      exact .inr ⟨⟨fun h => (by cases h), fun _ _ => open_reset _ _⟩, rfl⟩

theorem headerFramed_counts (resuming : Bool) (n : ℕ) (hn : 0 < n) :
    Yields (Counts s) (s.headerFramed resuming n) := by
  unfold Service.headerFramed
  split
  · exact failBytes_counts s s _
  · refine yields_bind (beginCsvReceive_goes _ _) ?_
    rintro ⟨s', begun⟩ ⟨hg, hs⟩
    cases begun with
    | true => exact .inr ⟨hg, hn⟩
    | false => exact .inl (hs rfl)

theorem resumeFramed_counts (n : ℕ) (hn : 0 < n) : Yields (Counts s) (s.resumeFramed n) := by
  unfold Service.resumeFramed
  split
  · refine yields_seq _ fun _ => ?_
    exact yields_bind (failSession_spent _ _ _) fun _ h => .inl h
  · exact headerFramed_counts true n hn

theorem framed_counts (data : Bytes) (malformed : String)
    (whole : Service → ℕ → P (Service × ℕ)) (hd : data ≠ []) (ho : s.framer.Open)
    (he : s.expecting ≠ .csvPayload)
    (hw : ∀ s n, 0 < n → Yields (Counts s) (whole s n)) :
    Yields (Counts s) (s.framed data malformed whole) := by
  have hfeed := Framer.feed_eq_absorb s.framer data (.inr ho)
  have hpos := Framer.absorb_pos s.framer data ho.1 hd
  have hset := Framer.settled_absorb s.framer data (.inr ho)
  unfold Service.framed
  rw [hfeed]
  dsimp only
  split
  · rename_i hst
    refine .inr ⟨.inr ⟨⟨fun h => absurd h he, fun _ _ => ?_⟩, rfl⟩, hpos⟩
    exact hset.resolve_left fun hn => hn hst
  · exact hw { s with framer := (Framer.absorb s.framer data).1 } _ hpos
  · exact failBytes_counts _ _ _

theorem consume_counts (data : Bytes) (h : Ripe s) (hd : data ≠ []) :
    Yields (Counts s) (s.consume data) := by
  unfold Service.consume
  cases he : s.expecting with
  | ack =>
    exact framed_counts _ _ _ hd (h.2 (by simp [he]) (by simp [he])) (by simp [he])
      fun _ n => ackFramed_counts n
  | resultHeader =>
    exact framed_counts _ _ _ hd (h.2 (by simp [he]) (by simp [he])) (by simp [he])
      fun _ n => headerFramed_counts false n
  | csvPayload =>
    obtain ⟨hl, hm⟩ := h.1 he
    have hpos : 0 < data.length := List.length_pos_iff.mpr hd
    refine yields_seq _ fun _ => ?_
    rw [remaining_eq hl hm]
    refine yields_bind (Q := Goes s) (completed_goes (s := s.appended _) he ?_ hm) ?_
    · simp [Service.appended]
      omega
    · intro s' hg
      exact .inr ⟨hg, by omega⟩
  | resumeReply =>
    exact framed_counts _ _ _ hd (h.2 (by simp [he]) (by simp [he])) (by simp [he])
      fun _ n => resumeFramed_counts n
  | nothing =>
    refine yields_seq _ fun _ => ?_
    exact yields_bind (failSession_spent s _ _) fun _ h => .inl h

theorem counts_goes {r : Service × ℕ} (h : Counts s r) : Goes s r.1 := h.elim .inl fun h => h.1

theorem onBytes_spent (n : ℕ) (data : Bytes) (h : Spent s) :
    Yields Spent (Service.onBytes n s data) := by
  cases n with
  | zero => exact h
  | succ n =>
    unfold Service.onBytes
    split
    · exact h
    · refine yields_bind (Q := fun r => Spent r.1 ∧ r.2 = 0) ?_ ?_
      · unfold Service.consume
        rw [h.2.1]
        refine yields_seq _ fun _ => ?_
        exact yields_bind (failSession_spent s _ _) fun _ h => ⟨h, rfl⟩
      · rintro ⟨s', consumed⟩ ⟨hs, hc⟩
        have hc : consumed = 0 := hc
        subst hc
        exact hs

theorem onBytes_goes (n : ℕ) (data : Bytes) (h : Ripe s) :
    Yields (Goes s) (Service.onBytes n s data) := by
  induction n generalizing s data with
  | zero => exact .inr ⟨h, rfl⟩
  | succ n ih =>
    unfold Service.onBytes
    split
    · exact .inr ⟨h, rfl⟩
    · rename_i hd
      refine yields_bind (consume_counts data h (by simpa using hd)) ?_
      rintro ⟨s', consumed⟩ hc
      change Yields _ (if consumed = 0 then _ else _)
      split
      · exact counts_goes hc
      · rcases counts_goes hc with hs | ⟨hr, ho⟩
        · exact yields_mono (fun _ h => .inl h) (onBytes_spent n _ hs)
        · refine yields_mono ?_ (ih _ hr)
          rintro s'' (hs | ⟨hr', ho'⟩)
          · exact .inl hs
          · exact .inr ⟨hr', ho'.trans ho⟩

end Replies

section Callbacks

variable {s : Service}

theorem finishUpload_ripe (h : Ripe s) : Yields Ripe s.finishUpload := by
  refine yields_bind (send_ripe (s := { s with trailerSent := true }) _ h) ?_
  rintro ⟨s', ok⟩ h'
  cases ok with
  | false => exact abortUpload_ripe _ _ h'
  | true =>
    refine yields_seq _ fun _ => yields_seq _ fun _ => ?_
    exact ⟨fun he => (by cases he), fun _ _ => open_reset _ _⟩

theorem pumpLoop_ripe (n : ℕ) (h : Ripe s) :
    Yields (fun r => Ripe r.1) (Service.pumpLoop n s) := by
  induction n generalizing s with
  | zero => exact h
  | succ n ih =>
    unfold Service.pumpLoop
    split
    swap
    · exact h
    refine yields_seq _ fun view => ?_
    cases view with
    | none => exact h
    | some chunk =>
      refine yields_bind (send_ripe (s := { s with uploadCrc := crc32 s.uploadCrc chunk }) _ h) ?_
      rintro ⟨s', ok⟩ h'
      refine yields_seq _ fun _ => ?_
      cases ok with
      | false => exact yields_bind (abortUpload_ripe _ _ h') fun _ h => h
      | true => exact ih h'

theorem pumpUpload_ripe (h : Ripe s) : Yields Ripe s.pumpUpload := by
  unfold Service.pumpUpload
  split
  · exact h
  · refine yields_seq _ fun failed => ?_
    split
    · exact yields_seq _ fun error => abortUpload_ripe _ _ h
    · refine yields_bind (pumpLoop_ripe _ h) ?_
      rintro ⟨s', going⟩ h'
      cases going with
      | false => exact h'
      | true =>
        change Yields Ripe s'.pumpEnd
        unfold Service.pumpEnd
        split
        · exact h'
        · refine yields_seq _ fun complete => ?_
          split
          · exact h'
          · refine yields_seq _ fun empty => ?_
            split
            · exact finishUpload_ripe h'
            · exact h'

theorem handle_ripe (command : Command) (h : Ripe s) : Yields Ripe (s.handle command) := by
  cases command with
  | connect ip port =>
    change Yields Ripe (s.handleConnect ip port)
    unfold Service.handleConnect
    split
    · exact yields_seq _ fun _ => h
    · refine yields_seq _ fun _ => yields_seq _ fun ok => ?_
      split
      · exact yields_seq _ fun _ => yields_seq _ fun _ => h
      · exact yields_seq _ fun _ => h
  | disconnect =>
    change Yields Ripe s.handleDisconnect
    unfold Service.handleDisconnect
    dsimp only
    split
    · exact yields_seq _ fun _ => h
    · refine yields_seq _ fun _ => ?_
      split
      · exact abortUpload_ripe _ _ h
      · split
        · exact yields_mono (fun _ => spent_ripe) (failSession_spent _ _ _)
        · exact h
  | startUpload path filename size =>
    change Yields Ripe (s.handleStartUpload path filename size)
    unfold Service.handleStartUpload
    split
    · exact yields_seq _ fun _ => h
    · split
      · exact yields_seq _ fun _ => h
      · refine yields_seq _ fun _ => yields_seq _ fun error => ?_
        cases error with
        | some error => exact yields_seq _ fun _ => h
        | none =>
          refine yields_seq _ fun _ => yields_seq _ fun _ => yields_seq _ fun _ => ?_
          refine yields_seq _ fun _ => ?_
          refine yields_bind (send_ripe _ (ripe_nothing rfl)) ?_
          rintro ⟨s', ok⟩ h'
          cases ok with
          | false => exact abortUpload_ripe _ _ h'
          | true => exact yields_seq _ fun _ => yields_seq _ fun _ => pumpUpload_ripe h'
  | cancelUpload =>
    change Yields Ripe s.handleCancelUpload
    unfold Service.handleCancelUpload
    split
    · exact h
    · exact abortUpload_ripe _ _ h
  | requestResult =>
    change Yields Ripe s.handleRequestResult
    unfold Service.handleRequestResult
    split
    · exact yields_seq _ fun _ => h
    · split
      · exact yields_seq _ fun _ => h
      · refine yields_seq _ fun _ => yields_seq _ ?_
        rintro ⟨s', ok⟩
        cases ok with
        | false => exact yields_mono (fun _ => spent_ripe) (failSession_spent _ _ _)
        | true =>
          refine yields_seq _ fun _ => yields_seq _ fun _ => ?_
          exact ⟨fun he => (by cases he), fun _ _ => open_reset _ _⟩

theorem drainCommands_ripe (n : ℕ) (h : Ripe s) : Yields Ripe (Service.drainCommands n s) := by
  induction n generalizing s with
  | zero => exact h
  | succ n ih =>
    refine yields_seq _ fun command => ?_
    cases command with
    | none => exact h
    | some command => exact yields_bind (handle_ripe command h) fun _ => ih

theorem onError_ripe (what : Option Bytes) (h : Ripe s) : Yields Ripe (s.onError what) := by
  refine yields_seq _ fun _ => yields_bind (Q := Ripe) ?_ fun s' h' => yields_seq _ fun _ => h'
  unfold Service.giveUp
  split
  · exact abortUpload_ripe _ _ h
  · split
    · exact yields_mono (fun _ => spent_ripe) (failSession_spent _ _ _)
    · exact h

theorem onConnect_ripe (ok : Bool) (text : Bytes) (h : Ripe s) :
    Yields Ripe (s.onConnect ok text) := by
  unfold Service.onConnect
  cases ok with
  | false => exact yields_seq _ fun _ => yields_seq _ fun _ => h
  | true =>
    refine yields_seq _ fun _ => yields_seq _ fun _ => ?_
    by_cases ho : (s.answered true).isOpen = true
    · rw [Service.startRead, if_pos ho]
      exact h
    · rw [Service.startRead, if_neg ho]
      exact yields_seq _ fun _ => h

theorem callback_ripe (e : Signal) (h : Ripe s) : Yields Ripe (callback s e) := by
  cases e with
  | async passes => exact yields_bind (drainCommands_ripe _ h) fun _ => pumpUpload_ripe
  | connectDone ok text => exact onConnect_ripe ok text h
  | readable count =>
    refine yields_seq _ fun data => ?_
    exact yields_mono (fun _ => goes_ripe) (onBytes_goes _ data h)
  | readError error => exact onError_ripe _ h
  | writeDone ok text =>
    cases ok with
    | true => exact yields_bind (pumpUpload_ripe (s := { s.written with
        inFlightWrites := s.inFlightWrites - 1 }) h) fun _ h => h
    | false =>
      refine yields_bind (Q := Ripe) ?_ fun _ h' => onError_ripe _ h'
      change Yields Ripe (if s.uploading then _ else _)
      split
      · exact abortUpload_ripe _ _ h
      · exact h
  | connectTimeout =>
    change Yields Ripe s.onConnectTimeout
    unfold Service.onConnectTimeout
    dsimp only
    split
    · exact yields_seq _ fun _ => yields_seq _ fun _ => yields_seq _ fun _ => h
    · exact h
  | closed => exact yields_seq _ fun _ => h

end Callbacks

section Runs

variable {G : Type}

def freeRules : Rules Op Ans G where
  may _ _ := True
  answers _ _ _ := True

theorem ripe_discipline (files : Bytes → Option Bytes) (next : G → (op : Op) → Ans op → G) :
    Discipline (machine files next) freeRules Always (fun _ _ => True) (fun _ => Ripe) where
  start := by
    intro g w s e p w' hi _ _ hs
    simp only [machine] at hs
    split at hs
    · cases hs
      exact ⟨yields_keeps (fun _ _ => trivial) (callback_ripe e hi) _, trivial⟩
    · cases hs
  op := fun _ _ _ _ _ _ _ => ⟨trivial, trivial⟩
  peer := fun _ _ _ _ _ _ _ => trivial

theorem reach_ripe {files : Bytes → Option Bytes} {next : G → (op : Op) → Ans op → G} {g : G}
    {c : ClientState G} {s : Service}
    (h : Reach (machine files next) Always (clientInitial g) c) (ht : c.thread = .done s) :
    Ripe s := by
  have hinit : Held (machine files next) freeRules (fun _ _ => True) (fun _ => Ripe)
      (clientInitial g) := ⟨ripe_nothing (s := Service.initial) rfl, trivial⟩
  have hk := (reach_held _ (ripe_discipline files next) hinit h).1
  rw [ht] at hk
  exact hk

end Runs

end LogTransfer.Client
