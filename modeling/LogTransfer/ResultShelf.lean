import LogTransfer.UploadExact

/-!
# The stored result and the session on the screen

`Shelf` follows the stored result from `finishDownload` to the next upload
that the reader takes. In an undisturbed run a service with a stored result
has nothing under way, and none of its callbacks writes the screen's session.
-/

set_option autoImplicit false

namespace LogTransfer.Client
open Program Interleave

/-- `storing` lasts from the store to the event that announces it. -/
inductive Shelf where
  | empty | storing | saved
  deriving DecidableEq, Repr

def Shelf.next (g : Shelf) : (op : Op) → Ans op → Shelf
  | .setResult _, _ => .storing
  | .clearResult, _ => .empty
  | .emit (.session .done), _ => if g = .storing then .saved else g
  | _, _ => g

def shelfRules : Rules Op Ans Shelf where
  may g op :=
    match op with
    | .emit (.session session) => g = .saved → session = .done
    | _ => True
  answers g op a :=
    match op, a with
    | .send .downloadDone, ok => ok = true
    | .note (.unexpected _), _ => g ≠ .saved
    | _, _ => True

def isSession : Event → Bool
  | .session _ => true
  | _ => false

/-- Nothing takes the screen's session away from a stored result. -/
def Undisturbed : Limits Op World Service Signal Peer Shelf where
  op g _ op answer :=
    match op with
    | .send .downloadDone => answer = true
    | .note (.unexpected _) => g ≠ .saved
    | _ => True
  start g _ s e :=
    match e with
    | .connectTimeout => g = .saved → s.isOpen = false
    | _ => True
  peer g w d :=
    match d with
    | .click .disconnect => g = .saved → w.events.any isSession = true
    | _ => True

section Screen

variable {g : Shelf} {w w' : World}

def Shows (g : Shelf) (w : World) : Prop := g = .saved → w.drained.session = .done

theorem foldl_session_congr (events : List Event) {u v : UiState} (h : u.session = v.session) :
    (events.foldl UiState.apply u).session = (events.foldl UiState.apply v).session := by
  induction events generalizing u v with
  | nil => exact h
  | cons e events ih =>
    refine ih ?_
    cases e with
    | session session => rfl
    | _ => exact h

/-- A queued session event hides the session it is applied to. -/
theorem foldl_session (events : List Event) (u v : UiState)
    (h : events.any isSession = true) :
    (events.foldl UiState.apply u).session = (events.foldl UiState.apply v).session := by
  induction events generalizing u v with
  | nil => simp at h
  | cons e events ih =>
    cases e with
    | session session => exact foldl_session_congr events rfl
    | _ => exact ih _ _ h

theorem foldl_noSession (events : List Event) (u : UiState) (h : ¬ events.any isSession = true) :
    (events.foldl UiState.apply u).session = u.session := by
  induction events generalizing u with
  | nil => rfl
  | cons e events ih =>
    cases e with
    | session session => simp [isSession] at h
    | _ => exact ih _ h

theorem drained_emit (w : World) (event : Event) :
    World.drained { w with events := w.events ++ [event] } = w.drained.apply event := by
  simp [World.drained]

theorem shows_exec (files : Bytes → Option Bytes) (op : Op) (b : Bool) (h : Shows g w)
    (hm : shelfRules.may g op) (hl : Undisturbed.op g w op b) :
    shelfRules.answers g op (World.exec files op b w).1 ∧
      Shows (g.next op (World.exec files op b w).1) (World.exec files op b w).2 := by
  cases op with
  | emit event =>
    refine ⟨trivial, ?_⟩
    intro hg
    change (World.drained { w with events := w.events ++ [event] }).session = .done
    rw [drained_emit]
    cases event with
    | session session =>
      cases session with
      | done => rfl
      | _ => exact absurd (hm hg) (by simp)
    | link link => exact h hg
    | claim available => exact h hg
    | log level message => exact h hg
  | takeCommand =>
    refine ⟨trivial, ?_⟩
    simp only [World.exec]
    split <;> exact h
  | connect ip port =>
    refine ⟨trivial, ?_⟩
    cases b <;> exact h
  | send m =>
    refine ⟨?_, h⟩
    cases m with
    | downloadDone => exact hl
    | _ => trivial
  | setResult csv => exact ⟨trivial, fun hg => by cases hg⟩
  | clearResult => exact ⟨trivial, fun hg => by cases hg⟩
  | note n =>
    refine ⟨?_, h⟩
    cases n with
    | unexpected count => exact hl
    | _ => trivial
  | _ => exact ⟨trivial, h⟩

theorem shows_peer (d : Peer) (h : Shows g w) (hl : Undisturbed.peer g w d)
    (hs : peer w d = some w') : Shows g w' := by
  cases d with
  | reader =>
    obtain ⟨r, -, rfl⟩ := Option.map_eq_some_iff.mp hs
    exact h
  | arrive bytes =>
    cases hs
    exact h
  | post command =>
    cases hs
    exact h
  | frame =>
    cases hs
    exact h
  | click action =>
    simp only [peer] at hs
    split at hs
    · cases hs
      intro hg
      cases action with
      | edit ip port =>
        rw [← h hg]
        exact foldl_session_congr _ rfl
      | connect =>
        simp only [World.click]
        split
        · exact h hg
        · split
          · exact h hg
          · exact h hg
      | disconnect =>
        rw [← h hg]
        exact foldl_session _ _ _ (hl hg)
      | browse path name size =>
        rw [← h hg]
        exact foldl_session_congr _ rfl
      | send confirmed =>
        simp only [World.click]
        split <;> exact h hg
      | cancel => exact h hg
      | requestResult => exact h hg
    · cases hs

end Screen

abbrev Saves {α : Type} (p : P α) (g : Shelf) (Q : Shelf → α → Prop) : Prop :=
  Keeps Shelf.next shelfRules p g Q

/-- A socket that reads is not given up. -/
def Reads (s : Service) : Prop := ∀ k, s.socket = some k → k.reading = true → k.closing = false

/-- An upload waits for no reply and leaves no claim. -/
def Silent (s : Service) : Prop :=
  s.uploading = true → s.expecting = .nothing ∧ s.hasClaim = false

def Sane (s : Service) : Prop := Reads s ∧ Silent s

/-- The service has nothing under way and nothing to claim. -/
structure Parked (s : Service) : Prop where
  upload : s.uploading = false
  reply : s.expecting = .nothing
  claim : s.hasClaim = false

def Kept (g : Shelf) (s : Service) : Prop :=
  Sane s ∧ (g = .empty ∨ g = .saved ∧ Parked s)

/-- No result is stored. -/
def Bare (g : Shelf) (s : Service) : Prop := Sane s ∧ g = .empty

section Ends

variable {g : Shelf} {s : Service} {α : Type}

theorem kept_of_bare (h : Bare g s) : Kept g s := ⟨h.1, .inl h.2⟩

theorem saves_act (op : Op) (f : Ans op → P α) {Q : Shelf → α → Prop}
    (hm : shelfRules.may g op) (h : ∀ a, Saves (f a) (g.next op a) Q) :
    Saves (act op >>= f) g Q := ⟨hm, fun a _ => h a⟩

/-- While nothing is stored, every event may be pushed and changes nothing. -/
theorem bare_emit (event : Event) (f : Unit → P α) {Q : Shelf → α → Prop} (hg : g = .empty)
    (h : Saves (f ()) g Q) : Saves (act (.emit event) >>= f) g Q := by
  subst hg
  refine ⟨?_, fun _ _ => ?_⟩
  · cases event with
    | session session => exact nofun
    | _ => trivial
  · have : Shelf.next .empty (.emit event) () = .empty := by
      cases event with
      | session session => cases session <;> rfl
      | _ => rfl
    rw [this]
    exact h

theorem reads_close (s : Service) : Reads s.closeSocket := by
  intro k hk hr
  obtain ⟨k', -, rfl⟩ := Option.map_eq_some_iff.mp hk
  cases hr

theorem reads_map (f : Socket → Socket)
    (hf : ∀ k, (f k).reading = k.reading ∧ (f k).closing = k.closing) (h : Reads s) :
    Reads { s with socket := s.socket.map f } := by
  intro k hk hr
  obtain ⟨k', hk', rfl⟩ := Option.map_eq_some_iff.mp hk
  rw [(hf k').2]
  exact h k' hk' ((hf k').1 ▸ hr)

theorem reads_queued (h : Reads s) : Reads s.queued := reads_map _ (fun _ => ⟨rfl, rfl⟩) h

theorem drainLoop_saves (n : ℕ) : Saves (Service.drainLoop n) g (fun g' _ => g' = g) := by
  induction n with
  | zero => exact rfl
  | succ n ih =>
    refine saves_act _ _ trivial fun view => ?_
    cases view with
    | none => exact rfl
    | some chunk => exact saves_act _ _ trivial fun _ => ih

theorem abortUpload_bare (reason : Bytes) (level : LogLevel) (hg : g = .empty) :
    Saves (s.abortUpload reason level) g Bare := by
  refine saves_act _ _ trivial fun _ => ?_
  refine keeps_seq _ _ _ _ _ (drainLoop_saves _) ?_
  rintro g' _ rfl
  refine bare_emit _ _ hg (bare_emit _ _ hg ?_)
  exact ⟨⟨reads_close _, nofun⟩, hg⟩

theorem expecting_failed (s : Service) : s.failed.expecting = .nothing := by
  unfold Service.failed
  split <;> rfl

theorem uploading_closed (s : Service) : s.failed.closeSocket.uploading = false :=
  uploading_failed s

theorem failSession_bare (reason : Bytes) (level : LogLevel) (hg : g = .empty) :
    Saves (s.failSession reason level) g (fun g s => Bare g s ∧ s.expecting = .nothing) := by
  refine keeps_seq _ _ _ _ _ (Q := fun g' _ => g' = g) ?_ ?_
  · unfold Service.stopReader
    split
    · exact saves_act _ _ trivial fun _ => drainLoop_saves _
    · exact rfl
  · rintro g' _ rfl
    refine bare_emit _ _ hg (bare_emit _ _ hg ?_)
    refine ⟨⟨⟨reads_close _, fun hu => ?_⟩, hg⟩, expecting_failed s⟩
    simp [uploading_closed] at hu

theorem saves_send (m : Message) (hg : ∀ ok, g.next (.send m) ok = g)
    {Q : Shelf → Service × Bool → Prop}
    (hok : Q g (s.queued, true)) (hno : Q g (s, false)) : Saves (s.send m) g Q := by
  unfold Service.send
  split
  · exact hno
  · refine saves_act _ _ trivial fun ok => ?_
    rw [hg ok]
    cases ok with
    | true => exact hok
    | false => exact hno

end Ends

section Upload

variable {g : Shelf} {s : Service}

theorem bare_send (m : Message) (h : Bare g s) :
    Saves (s.send m) g (fun g r => Bare g r.1) :=
  saves_send m (fun _ => rfl) ⟨⟨reads_queued h.1.1, h.1.2⟩, h.2⟩ h

theorem finishUpload_bare (h : Bare g s) : Saves s.finishUpload g Bare := by
  refine keeps_seq _ _ _ _ _ (bare_send (s := { s with trailerSent := true }) _ h) ?_
  rintro g' ⟨s', ok⟩ h'
  cases ok with
  | false => exact abortUpload_bare _ _ h'.2
  | true => exact bare_emit _ _ h'.2 (bare_emit _ _ h'.2 ⟨⟨h'.1.1, nofun⟩, h'.2⟩)

theorem pumpLoop_bare (n : ℕ) (h : Bare g s) :
    Saves (Service.pumpLoop n s) g (fun g r => Bare g r.1) := by
  induction n generalizing g s with
  | zero => exact h
  | succ n ih =>
    unfold Service.pumpLoop
    split
    swap
    · exact h
    refine saves_act _ _ trivial fun view => ?_
    cases view with
    | none => exact h
    | some chunk =>
      refine keeps_seq _ _ _ _ _
        (bare_send (s := { s with uploadCrc := crc32 s.uploadCrc chunk }) _ h) ?_
      rintro g' ⟨s', ok⟩ h'
      refine saves_act _ _ trivial fun _ => ?_
      cases ok with
      | false => exact keeps_seq _ _ _ _ _ (abortUpload_bare _ _ h'.2) fun _ _ h => h
      | true => exact ih h'

theorem pumpUpload_bare (h : Bare g s) : Saves s.pumpUpload g Bare := by
  unfold Service.pumpUpload
  split
  · exact h
  · refine saves_act _ _ trivial fun failed => ?_
    split
    · exact saves_act _ _ trivial fun error => abortUpload_bare _ _ h.2
    · refine keeps_seq _ _ _ _ _ (pumpLoop_bare _ h) ?_
      rintro g' ⟨s', going⟩ h'
      cases going with
      | false => exact h'
      | true =>
        change Saves s'.pumpEnd g' Bare
        unfold Service.pumpEnd
        split
        · exact h'
        · refine saves_act _ _ trivial fun complete => ?_
          split
          · exact h'
          · refine saves_act _ _ trivial fun empty => ?_
            split
            · exact finishUpload_bare h'
            · exact h'

theorem pumpUpload_kept (h : Kept g s) : Saves s.pumpUpload g Kept := by
  rcases h.2 with hg | ⟨hg, hp⟩
  · exact keeps_mono _ _ _ _ (fun _ _ => kept_of_bare) (pumpUpload_bare ⟨h.1, hg⟩)
  · unfold Service.pumpUpload
    rw [if_pos (by simp [hp.upload])]
    exact h

end Upload

section Download

variable {g : Shelf} {s : Service}

/-- Between two passes over the bytes of a read. -/
def Fed (g : Shelf) (s : Service) : Prop :=
  Kept g s ∧ (s.expecting ≠ .nothing → s.isOpen = true)

/-- A reply is awaited on an open socket. -/
structure Awaiting (g : Shelf) (s : Service) : Prop where
  bare : Bare g s
  isOpen : s.isOpen = true
  upload : s.uploading = false

theorem fed_failed (h : Bare g s ∧ s.expecting = .nothing) : Fed g s :=
  ⟨kept_of_bare h.1, fun hn => absurd h.2 hn⟩

theorem fed_awaiting (h : Awaiting g s) : Fed g s := ⟨kept_of_bare h.bare, fun _ => h.isOpen⟩

theorem awaiting_fail (reason : Bytes) (level : LogLevel) (h : Awaiting g s) :
    Saves (s.failSession reason level) g Fed :=
  keeps_mono _ _ _ _ (fun _ _ => fed_failed) (failSession_bare reason level h.bare.2)

theorem awaiting_failBytes (reason : String) (h : Awaiting g s) :
    Saves (s.failBytes reason) g (fun g r => Fed g r.1) :=
  keeps_seq _ _ _ _ _ (awaiting_fail _ _ h) fun _ _ h => h

theorem send_downloadDone (ho : s.isOpen = true) :
    Saves (s.send .downloadDone) g (fun g' r => g' = g ∧ r = (s.queued, true)) := by
  unfold Service.send
  rw [if_neg (by simp [ho])]
  refine ⟨trivial, fun ok hok => ?_⟩
  have hok : ok = true := hok
  subst hok
  exact ⟨rfl, rfl⟩

theorem finishDownload_fed (h : Awaiting g s) : Saves s.finishDownload g Fed := by
  unfold Service.finishDownload
  dsimp only
  split
  · exact awaiting_fail _ _ ⟨h.bare, h.isOpen, h.upload⟩
  · refine saves_act _ _ trivial fun _ => saves_act _ _ trivial fun _ => ?_
    refine keeps_seq _ _ _ _ _ (send_downloadDone (s := { s with
      csv := [], expecting := .nothing, hasClaim := false, claim := ResultClaim.none }) h.isOpen) ?_
    rintro g' _ ⟨rfl, rfl⟩
    refine saves_act _ _ trivial fun _ => ?_
    refine keeps_seq _ _ _ _ _ (Q := fun g' _ => g' = .storing) ?_ ?_
    · unfold Service.warnSkipped
      split
      · exact rfl
      · exact ⟨trivial, fun _ _ => rfl⟩
    · rintro g' _ rfl
      refine saves_act _ _ nofun fun _ => ?_
      have hq : Reads (Service.queued s) := reads_queued h.bare.1.1
      exact ⟨⟨⟨hq, fun _ => ⟨rfl, rfl⟩⟩, .inr ⟨rfl, h.upload, rfl, rfl⟩⟩, fun hn => absurd rfl hn⟩

theorem completed_fed (h : Awaiting g s) : Saves s.completed g Fed := by
  unfold Service.completed
  split
  · exact finishDownload_fed h
  · exact fed_awaiting h

theorem silent_idle (hu : s.uploading = false) : Silent s := fun h => by simp [hu] at h

theorem beginCsvReceive_fed (header : ResultHeader) (resuming : Bool) (h : Awaiting g s) :
    Saves (s.beginCsvReceive header resuming) g (fun g r => Fed g r.1) := by
  refine saves_act _ _ trivial fun _ => ?_
  split
  · exact keeps_seq _ _ _ _ _ (awaiting_fail _ _ h) fun _ _ h => h
  · split
    · exact keeps_seq _ _ _ _ _ (awaiting_fail _ _ h) fun _ _ h => h
    · refine keeps_seq _ _ _ _ _ ?_ fun _ _ h => h
      refine bare_emit _ _ h.bare.2 (bare_emit _ _ h.bare.2 ?_)
      exact completed_fed ⟨⟨⟨h.bare.1.1, silent_idle h.upload⟩, h.bare.2⟩, h.isOpen, h.upload⟩

theorem framed_fed (data : Bytes) (malformed : String) (whole : Service → ℕ → P (Service × ℕ))
    (h : Awaiting g s)
    (hw : ∀ s n, Awaiting g s → Saves (whole s n) g (fun g r => Fed g r.1)) :
    Saves (s.framed data malformed whole) g (fun g r => Fed g r.1) := by
  have h' : Awaiting g { s with framer := (s.framer.feed data).1 } := ⟨h.bare, h.isOpen, h.upload⟩
  unfold Service.framed
  dsimp only
  split
  · exact fed_awaiting h'
  · exact hw _ _ h'
  · exact awaiting_failBytes _ h'

theorem ackFramed_fed (n : ℕ) (h : Awaiting g s) :
    Saves (s.ackFramed n) g (fun g r => Fed g r.1) := by
  unfold Service.ackFramed
  split
  · exact awaiting_failBytes _ h
  · split
    · exact keeps_seq _ _ _ _ _ (awaiting_fail _ _ h) fun _ _ h => h
    · refine keeps_seq _ _ _ _ _ (Q := Fed) ?_ fun _ _ h => h
      refine bare_emit _ _ h.bare.2 (bare_emit _ _ h.bare.2 (bare_emit _ _ h.bare.2 ?_))
      exact fed_awaiting ⟨⟨⟨h.bare.1.1, silent_idle h.upload⟩, h.bare.2⟩, h.isOpen, h.upload⟩

theorem headerFramed_fed (resuming : Bool) (n : ℕ) (h : Awaiting g s) :
    Saves (s.headerFramed resuming n) g (fun g r => Fed g r.1) := by
  unfold Service.headerFramed
  split
  · exact awaiting_failBytes _ h
  · exact keeps_seq _ _ _ _ _ (beginCsvReceive_fed _ _ h) fun _ _ h => h

theorem resumeFramed_fed (n : ℕ) (h : Awaiting g s) :
    Saves (s.resumeFramed n) g (fun g r => Fed g r.1) := by
  unfold Service.resumeFramed
  split
  · refine bare_emit _ _ h.bare.2 ?_
    refine keeps_seq _ _ _ _ _ (Q := Fed) ?_ fun _ _ h => h
    exact keeps_mono _ _ _ _ (fun _ _ => fed_failed) (failSession_bare _ _ h.bare.2)
  · exact headerFramed_fed _ _ h

theorem fed_awaits (h : Fed g s) (he : s.expecting ≠ .nothing) : Awaiting g s := by
  obtain ⟨⟨hs, hg⟩, ho⟩ := h
  have hempty : g = .empty := hg.resolve_right fun hp => he hp.2.reply
  refine ⟨⟨hs, hempty⟩, ho he, ?_⟩
  by_contra hu
  exact he (hs.2 (by simpa using hu)).1

theorem consume_fed (data : Bytes) (h : Fed g s) :
    Saves (s.consume data) g (fun g r => Fed g r.1) := by
  unfold Service.consume
  cases he : s.expecting with
  | ack => exact framed_fed _ _ _ (fed_awaits h (by simp [he])) fun _ n => ackFramed_fed n
  | resultHeader =>
    exact framed_fed _ _ _ (fed_awaits h (by simp [he])) fun _ n => headerFramed_fed _ n
  | csvPayload =>
    have ha := fed_awaits h (by simp [he])
    refine saves_act _ _ trivial fun _ => ?_
    exact keeps_seq _ _ _ _ _ (completed_fed (s := s.appended _) ⟨ha.bare, ha.isOpen, ha.upload⟩)
      fun _ _ h => h
  | resumeReply =>
    exact framed_fed _ _ _ (fed_awaits h (by simp [he])) fun _ n => resumeFramed_fed n
  | nothing =>
    -- the branch is not taken while a result is stored
    refine (keeps_ask_bind _ _ _ _ _ _).mpr ⟨trivial, fun _ hn => ?_⟩
    have hg : g = .empty := h.1.2.resolve_right fun hp => hn hp.1
    exact keeps_seq _ _ _ _ _ (failSession_bare _ _ hg) fun _ _ h => fed_failed h

theorem onBytes_fed (n : ℕ) (data : Bytes) (h : Fed g s) :
    Saves (Service.onBytes n s data) g Fed := by
  apply Service.keeps_rounds _ n data h
  intro data g s h
  exact consume_fed data h

end Download

section Commands

variable {g : Shelf} {s : Service}

theorem kept_bare (h : Kept g s) (hn : ¬ Parked s) : Bare g s :=
  ⟨h.1, h.2.resolve_right fun hp => hn hp.2⟩

theorem kept_of_same {s' : Service} (h : Kept g s) (hr : Reads s')
    (hu : s'.uploading = s.uploading) (he : s'.expecting = s.expecting)
    (hc : s'.hasClaim = s.hasClaim) : Kept g s' := by
  obtain ⟨hs, hg⟩ := h
  refine ⟨⟨hr, fun hup => ?_⟩, hg.imp_right fun hp => ⟨hp.1, ?_⟩⟩
  · rw [he, hc]
    exact hs.2 (hu ▸ hup)
  · exact ⟨hu.trans hp.2.upload, he.trans hp.2.reply, hc.trans hp.2.claim⟩

theorem kept_closed (h : Kept g s) : Kept g s.closeSocket :=
  kept_of_same h (reads_close s) rfl rfl rfl

theorem handleConnect_kept (ip : Bytes) (port : ℕ) (h : Kept g s) :
    Saves (s.handleConnect ip port) g Kept := by
  unfold Service.handleConnect
  split
  · exact saves_act _ _ trivial fun _ => h
  · refine saves_act _ _ trivial fun _ => saves_act _ _ trivial fun ok => ?_
    cases ok with
    | false =>
      refine saves_act _ _ trivial fun _ => saves_act _ _ trivial fun _ => ?_
      exact kept_of_same h h.1.1 rfl rfl rfl
    | true =>
      refine saves_act _ _ trivial fun _ => kept_of_same h ?_ rfl rfl rfl
      rintro _ ⟨⟩ _
      rfl

theorem handleDisconnect_kept (h : Kept g s) : Saves s.handleDisconnect g Kept := by
  unfold Service.handleDisconnect
  dsimp only
  split
  · exact saves_act _ _ trivial fun _ => kept_of_same h h.1.1 rfl rfl rfl
  · refine saves_act _ _ trivial fun _ => ?_
    split
    · rename_i hu
      have hb := kept_bare h fun hp => by simp [hp.upload] at hu
      exact keeps_mono _ _ _ _ (fun _ _ => kept_of_bare) (abortUpload_bare _ _ hb.2)
    · split
      · rename_i he
        have hb := kept_bare h fun hp => he hp.reply
        exact keeps_mono _ _ _ _ (fun _ _ h => kept_of_bare h.1) (failSession_bare _ _ hb.2)
      · exact kept_of_same h (reads_close _) rfl rfl rfl

theorem uploadAccepted_kept (filename : Bytes) (size : ℕ) (h : Kept g s) :
    Saves (s.uploadAccepted filename size) g Kept := by
  refine saves_act _ _ trivial fun _ => saves_act _ _ trivial fun _ => ?_
  refine bare_emit _ _ rfl ?_
  refine keeps_seq _ _ _ _ _ (bare_send _ ⟨⟨h.1.1, fun _ => ⟨rfl, rfl⟩⟩, rfl⟩) ?_
  rintro g' ⟨s', ok⟩ h'
  refine keeps_mono _ _ _ _ (fun _ _ => kept_of_bare) ?_
  cases ok with
  | false => exact abortUpload_bare _ _ h'.2
  | true => exact bare_emit _ _ h'.2 (bare_emit _ _ h'.2 (pumpUpload_bare h'))

theorem handleStartUpload_kept (path filename : Bytes) (size : ℕ) (h : Kept g s) :
    Saves (s.handleStartUpload path filename size) g Kept := by
  unfold Service.handleStartUpload
  split
  · exact saves_act _ _ trivial fun _ => h
  · split
    · exact saves_act _ _ trivial fun _ => h
    · refine keeps_seq _ _ _ _ _ (drainLoop_saves _) ?_
      rintro g' _ rfl
      refine saves_act _ _ trivial fun error => ?_
      cases error with
      | some error => exact saves_act _ _ trivial fun _ => h
      | none => exact saves_act _ _ trivial fun _ => uploadAccepted_kept filename size h

theorem handleRequestResult_kept (h : Kept g s) : Saves s.handleRequestResult g Kept := by
  unfold Service.handleRequestResult
  split
  · exact saves_act _ _ trivial fun _ => h
  · rename_i hc
    split
    · exact saves_act _ _ trivial fun _ => h
    · have hclaim : s.hasClaim = true := by simpa using hc
      have hu : s.uploading = false := by
        by_contra hn
        simp [(h.1.2 (by simpa using hn)).2] at hclaim
      have hb := kept_bare h fun hp => by simp [hp.claim] at hclaim
      refine saves_act _ _ trivial fun _ => ?_
      refine keeps_mono _ _ _ _ (fun _ _ => kept_of_bare) ?_
      refine keeps_seq _ _ _ _ _ (Q := fun g r => Bare g r.1 ∧ r.1.uploading = false) ?_ ?_
      · exact saves_send _ (fun _ => rfl) ⟨⟨⟨reads_queued hb.1.1, hb.1.2⟩, hb.2⟩, hu⟩ ⟨hb, hu⟩
      rintro g' ⟨s', ok⟩ ⟨hb', hu'⟩
      cases ok with
      | false => exact keeps_mono _ _ _ _ (fun _ _ h => h.1) (failSession_bare _ _ hb'.2)
      | true =>
        refine bare_emit _ _ hb'.2 (bare_emit _ _ hb'.2 ?_)
        exact ⟨⟨hb'.1.1, silent_idle hu'⟩, hb'.2⟩

theorem handle_kept (command : Command) (h : Kept g s) : Saves (s.handle command) g Kept := by
  cases command with
  | connect ip port => exact handleConnect_kept ip port h
  | disconnect => exact handleDisconnect_kept h
  | startUpload path filename size => exact handleStartUpload_kept path filename size h
  | requestResult => exact handleRequestResult_kept h
  | cancelUpload =>
    change Saves s.handleCancelUpload g Kept
    unfold Service.handleCancelUpload
    split
    · exact h
    · rename_i hu
      have hb := kept_bare h fun hp => by simp [hp.upload] at hu
      exact keeps_mono _ _ _ _ (fun _ _ => kept_of_bare) (abortUpload_bare _ _ hb.2)

theorem drainCommands_kept (n : ℕ) (h : Kept g s) :
    Saves (Service.drainCommands n s) g Kept := by
  apply Service.keeps_drainCommands (fun _ => trivial) (fun _ _ h => h) _ n h
  intro g s command h _
  exact handle_kept command h

end Commands

section Callbacks

variable {g : Shelf} {s : Service} {w : World}

theorem onConnectTimeout_kept (h : Kept g s) (hl : g = .saved → s.isOpen = false) :
    Saves s.onConnectTimeout g Kept := by
  unfold Service.onConnectTimeout
  dsimp only
  split
  · rename_i ho
    have hg : g = .empty := h.2.resolve_right fun hp => by
      have : s.isOpen = true := ho
      simp [hl hp.1] at this
    refine bare_emit _ _ hg (bare_emit _ _ hg (bare_emit _ _ hg ?_))
    exact kept_of_same h (reads_close _) rfl rfl rfl
  · exact kept_of_same h h.1.1 rfl rfl rfl

theorem onConnect_kept (ok : Bool) (text : Bytes) (h : Kept g s) :
    Saves (s.onConnect ok text) g Kept := by
  have hreads : Reads (s.answered ok) := reads_map _ (fun _ => ⟨rfl, rfl⟩) h.1.1
  unfold Service.onConnect
  cases ok with
  | false =>
    refine saves_act _ _ trivial fun _ => saves_act _ _ trivial fun _ => ?_
    exact kept_of_same h (reads_close _) rfl rfl rfl
  | true =>
    refine saves_act _ _ trivial fun _ => saves_act _ _ trivial fun _ => ?_
    by_cases ho : (s.answered true).isOpen = true
    · rw [Service.startRead, if_pos ho]
      refine kept_of_same h ?_ rfl rfl rfl
      intro k hk _
      obtain ⟨k₀, hk₀, hopen⟩ := isOpen_some ho
      have hk : (s.answered true).socket.map _ = some k := hk
      rw [hk₀] at hk
      cases hk
      exact hopen
    · rw [Service.startRead, if_neg ho]
      refine saves_act _ _ trivial fun _ => ?_
      exact kept_of_same h (reads_close _) rfl rfl rfl

theorem sayError_kept (what : Option Bytes) :
    Saves (s.sayError what) g (fun g' _ => g' = g) := by
  cases what with
  | some text => exact ⟨trivial, fun _ _ => rfl⟩
  | none =>
    change Saves s.sayClosed g _
    unfold Service.sayClosed
    split
    · exact ⟨trivial, fun _ _ => rfl⟩
    · split
      · exact rfl
      · exact ⟨trivial, fun _ _ => rfl⟩

theorem giveUp_kept (h : Kept g s) : Saves s.giveUp g Kept := by
  unfold Service.giveUp
  split
  · rename_i hu
    have hb := kept_bare h fun hp => by simp [hp.upload] at hu
    exact keeps_mono _ _ _ _ (fun _ _ => kept_of_bare) (abortUpload_bare _ _ hb.2)
  · split
    · rename_i he
      have hb := kept_bare h fun hp => he hp.reply
      exact keeps_mono _ _ _ _ (fun _ _ h => kept_of_bare h.1) (failSession_bare _ _ hb.2)
    · exact h

theorem onError_kept (what : Option Bytes) (h : Kept g s) : Saves (s.onError what) g Kept := by
  refine keeps_seq _ _ _ _ _ (sayError_kept what) ?_
  rintro _ _ rfl
  refine keeps_seq _ _ _ _ _ (giveUp_kept h) fun g' s' h' => ?_
  exact saves_act _ _ trivial fun _ => kept_closed h'

theorem onWrite_kept (ok : Bool) (text : Bytes) (h : Kept g s) :
    Saves (s.onWrite ok text) g Kept := by
  have hw : Kept g { s.written with inFlightWrites := s.inFlightWrites - 1 } :=
    kept_of_same h (reads_map _ (fun _ => ⟨rfl, rfl⟩) h.1.1) rfl rfl rfl
  cases ok with
  | true => exact keeps_seq _ _ _ _ _ (Q := Kept) (pumpUpload_kept hw) fun _ _ h => h
  | false =>
    refine keeps_seq _ _ _ _ _ (Q := Kept) ?_ fun _ _ h' => onError_kept _ h'
    change Saves (if s.uploading then _ else _) g Kept
    split
    · rename_i hu
      have hb := kept_bare h fun hp => by simp [hp.upload] at hu
      exact keeps_mono _ _ _ _ (fun _ _ => kept_of_bare) (abortUpload_bare _ _ hb.2)
    · exact hw

theorem callback_kept (e : Signal) (h : Kept g s) (hready : ready s w e = true)
    (hl : Undisturbed.start g w s e) : Saves (callback s e) g Kept := by
  cases e with
  | async passes =>
    exact keeps_seq _ _ _ _ _ (drainCommands_kept _ h) fun _ _ => pumpUpload_kept
  | connectDone ok text => exact onConnect_kept ok text h
  | readable count =>
    obtain ⟨k, hk, hr⟩ := Option.any_eq_true _ _ |>.mp hready
    have ho : s.isOpen = true := by simp [Service.isOpen, hk, h.1.1 k hk hr]
    refine saves_act _ _ trivial fun data => ?_
    exact keeps_mono _ _ _ _ (fun _ _ h => h.1) (onBytes_fed _ data ⟨h, fun _ => ho⟩)
  | readError error => exact onError_kept _ h
  | writeDone ok text => exact onWrite_kept ok text h
  | connectTimeout => exact onConnectTimeout_kept h hl
  | closed =>
    refine saves_act _ _ trivial fun _ => kept_of_same h ?_ rfl rfl rfl
    rintro _ ⟨⟩

end Callbacks

end LogTransfer.Client
