import LogTransfer.UploadHistory

/-!
# The service hands over whole uploads

`Resting` and `Uploading` are the two situations of the service between two
callbacks. A socket that was given up while an upload runs is one that never
connected, and a write is still outstanding on it, so the upload is aborted
before the socket is gone.
-/

set_option autoImplicit false

namespace LogTransfer.Client
open Program Interleave

abbrev Hands {α : Type} (p : P α) (g : Wire) (Q : Wire → α → Prop) : Prop :=
  Keeps Wire.next wireRules p g Q

/-- The connect timer and the connect request are over once connected. -/
structure Dialing (timer : Bool) (socket : Option Socket) : Prop where
  timer : timer = true → ∀ k, socket = some k → k.connected = false
  request : ∀ k, socket = some k → k.connecting = true → k.connected = false

def Links (s : Service) : Prop := Dialing s.connectTimer s.socket

def Resting (g : Wire) (s : Service) : Prop :=
  Links s ∧ s.uploading = false ∧ (g.stage = .settled ∨ g.stage = .broken ∧ s.isOpen = false)

/-- How far the upload is: what was sent of it and its checksum. -/
def Sending (g : Wire) (s : Service) : Prop :=
  ∃ path h data, g.stage = .streaming path h data ∧ g.slot ≠ .spent ∧
    s.uploadTotal = h.fileSize ∧ s.uploadSent = data.length ∧ s.uploadCrc = crc32 0#32 data

/-- The socket of an upload. -/
def Carrier (k : Socket) : Prop :=
  (k.connected = false → 0 < k.pendingWrites) ∧ (k.closing = true → k.connected = false)

structure Uploading (g : Wire) (s : Service) : Prop where
  links : Links s
  uploading : s.uploading = true
  silent : s.expecting = .nothing ∧ s.hasClaim = false
  carrier : ∃ k, s.socket = some k ∧ Carrier k
  sending : Sending g s

def Between (g : Wire) (s : Service) : Prop := Resting g s ∨ Uploading g s

section Sockets

variable {s : Service}

theorem isOpen_some (h : s.isOpen = true) : ∃ k, s.socket = some k ∧ k.closing = false := by
  unfold Service.isOpen at h
  cases hk : s.socket with
  | none => simp [hk] at h
  | some k => exact ⟨k, rfl, by simpa [hk] using h⟩

theorem isOpen_close (s : Service) : s.closeSocket.isOpen = false := by
  cases hk : s.socket <;> simp [Service.isOpen, Service.closeSocket, hk]

theorem links_map (f : Socket → Socket) (hf : ∀ k, (f k).connected = k.connected ∧
    (f k).connecting = k.connecting) (h : Links s) :
    Links { s with socket := s.socket.map f } := by
  refine ⟨fun ht k hk => ?_, fun k hk hd => ?_⟩
  · obtain ⟨k', hk', rfl⟩ := Option.map_eq_some_iff.mp hk
    rw [(hf k').1]
    exact h.timer ht k' hk'
  · obtain ⟨k', hk', rfl⟩ := Option.map_eq_some_iff.mp hk
    rw [(hf k').1]
    exact h.request k' hk' ((hf k').2 ▸ hd)

theorem links_close (h : Links s) : Links s.closeSocket := links_map _ (fun _ => ⟨rfl, rfl⟩) h

theorem links_queued (h : Links s) : Links s.queued := links_map _ (fun _ => ⟨rfl, rfl⟩) h

theorem links_failed (h : Links s) : Links s.failed := by
  unfold Service.failed
  split <;> exact h

theorem isOpen_queued (s : Service) : s.queued.isOpen = s.isOpen := by
  cases hk : s.socket <;> simp [Service.isOpen, Service.queued, hk]

theorem carrier_queued {k : Socket} (hk : s.socket = some k) (ho : k.closing = false) :
    ∃ k, s.queued.socket = some k ∧ Carrier k := by
  refine ⟨{ k with pendingWrites := k.pendingWrites + 1 }, by simp [Service.queued, hk], ?_⟩
  exact ⟨fun _ => Nat.succ_pos _, fun hc => by simp [ho] at hc⟩

end Sockets

section Ends

variable {g : Wire} {s : Service} {α : Type}

theorem hands_act (op : Op) (f : Ans op → P α) {Q : Wire → α → Prop}
    (hm : wireRules.may g op) (h : ∀ a, Hands (f a) (Wire.next g op a) Q) :
    Hands (act op >>= f) g Q := ⟨hm, fun a _ => h a⟩

/-- A socket that refuses leaves the connection broken. -/
theorem hands_send (m : Message) {Q : Wire → Service × Bool → Prop}
    (hm : s.isOpen = true → mayHand g m)
    (hok : s.isOpen = true → Q (Wire.next g (.send m) true) (s.queued, true))
    (hno : s.isOpen = true → Q (Wire.next g (.send m) false) (s, false))
    (hshut : s.isOpen = false → Q g (s, false)) : Hands (s.send m) g Q := by
  unfold Service.send
  split
  · rename_i hs
    exact hshut (by simpa using hs)
  · rename_i hs
    have ho : s.isOpen = true := by simpa using hs
    refine hands_act _ _ (hm ho) fun ok => ?_
    cases ok with
    | true => exact hok ho
    | false => exact hno ho

theorem drainLoop_hands (n : ℕ) (hst : AtRest g.stage) :
    Hands (Service.drainLoop n) g (fun g' _ => g'.stage = g.stage) := by
  induction n generalizing g with
  | zero => exact rfl
  | succ n ih =>
    refine hands_act _ _ (.inl hst) fun view => ?_
    cases view with
    | none => exact rfl
    | some chunk => exact hands_act _ _ (.inl hst) fun _ => ih hst

theorem abortUpload_resting (reason : Bytes) (level : LogLevel) (hl : Links s) :
    Hands (s.abortUpload reason level) g Resting := by
  refine hands_act _ _ trivial fun _ => ?_
  refine keeps_seq _ _ _ _ _ (drainLoop_hands _ (.inr rfl)) fun g' _ hg => ?_
  refine hands_act _ _ trivial fun _ => hands_act _ _ trivial fun _ => ?_
  exact ⟨links_close hl, rfl, .inr ⟨hg, isOpen_close _⟩⟩

theorem uploading_failed (s : Service) : s.failed.uploading = false := by
  unfold Service.failed
  split <;> rfl

theorem failSession_resting (reason : Bytes) (level : LogLevel) (hl : Links s)
    (h : s.uploading = false → AtRest g.stage) :
    Hands (s.failSession reason level) g Resting := by
  have hclosed : Links s.failed.closeSocket := links_close (links_failed hl)
  unfold Service.failSession Service.stopReader
  refine keeps_seq _ _ _ _ _ (Q := fun g' _ => AtRest g'.stage) ?_ fun g' _ hg => ?_
  · split
    · refine hands_act _ _ trivial fun _ => ?_
      exact keeps_mono _ _ _ _ (fun _ _ hg => .inr hg) (drainLoop_hands _ (.inr rfl))
    · rename_i hu
      exact h (by simpa using hu)
  · refine hands_act _ _ trivial fun _ => hands_act _ _ trivial fun _ => ?_
    exact ⟨hclosed, uploading_failed s, hg.imp_right fun hb => ⟨hb, isOpen_close _⟩⟩

end Ends

section Upload

variable {g : Wire} {s : Service}

/-- The upload runs and its socket takes bytes. -/
def Pumping (g : Wire) (s : Service) : Prop := Uploading g s ∧ s.isOpen = true

theorem finishUpload_resting (h : Pumping g s) (hsize : s.uploadTotal ≤ s.uploadSent) :
    Hands s.finishUpload g Resting := by
  obtain ⟨hu, ho⟩ := h
  obtain ⟨path, header, data, hst, hslot, htotal, hsent, hcrc⟩ := hu.sending
  refine keeps_seq _ _ _ _ _
    (Q := fun g' r => Links r.1 ∧ (r.2 = true → g'.stage = .settled)) ?_ ?_
  · refine hands_send _ (fun _ => ⟨path, header, data, hst, by omega, hcrc, hslot⟩) ?_ ?_ ?_
    · intro _
      exact ⟨links_queued hu.links, fun _ => by simp [Wire.next, hst, Wire.sent]⟩
    · exact fun _ => ⟨hu.links, fun hn => by cases hn⟩
    · intro hn
      exact absurd (show s.isOpen = false from hn) (by simp [ho])
  · rintro g' ⟨s', ok⟩ ⟨hl, hset⟩
    cases ok with
    | false => exact abortUpload_resting _ _ hl
    | true =>
      refine hands_act _ _ trivial fun _ => hands_act _ _ trivial fun _ => ?_
      exact ⟨hl, rfl, .inl (hset rfl)⟩

theorem pumpLoop_hands (n : ℕ) (h : Pumping g s) :
    Hands (Service.pumpLoop n s) g (fun g r =>
      if r.2 then Pumping g r.1 else Resting g r.1) := by
  induction n generalizing g s with
  | zero => exact h
  | succ n ih =>
    obtain ⟨hu, ho⟩ := h
    obtain ⟨path, header, data, hst, hslot, htotal, hsent, hcrc⟩ := hu.sending
    obtain ⟨k, hk, hopen⟩ := isOpen_some ho
    unfold Service.pumpLoop
    split
    swap
    · exact ⟨hu, ho⟩
    refine hands_act _ _ (.inr ⟨⟨path, header, data, hst⟩, hslot⟩) fun view => ?_
    cases view with
    | none =>
      exact ⟨⟨hu.links, hu.uploading, hu.silent, hu.carrier, path, header, data, hst,
        by simp [Wire.next], htotal, hsent, hcrc⟩, ho⟩
    | some chunk =>
      refine keeps_seq _ _ _ _ _ (Q := fun g' r => Links r.1 ∧ (if r.2 then
          g'.stage = .streaming path header (data ++ chunk) ∧ g'.slot = .spent ∧
            r.1 = Service.queued { s with uploadCrc := crc32 s.uploadCrc chunk }
        else g'.stage = .broken)) ?_ ?_
      · refine hands_send _ (fun _ => ⟨⟨path, header, data, hst⟩, rfl⟩) ?_ ?_ ?_
        · intro _
          refine ⟨links_queued hu.links, ?_, rfl, rfl⟩
          simp [Wire.next, hst, Wire.sent]
        · exact fun _ => ⟨hu.links, rfl⟩
        · intro hn
          exact absurd (show s.isOpen = false from hn) (by simp [ho])
      · rintro g' ⟨s', ok⟩ ⟨hl, hg⟩
        cases ok with
        | false =>
          refine hands_act _ _ (.inl (.inr hg)) fun _ => ?_
          refine keeps_seq _ _ _ _ _ (abortUpload_resting _ _ hl) ?_
          exact fun _ _ h => h
        | true =>
          obtain ⟨hst', hslot', rfl⟩ := hg
          refine hands_act _ _ (.inr ⟨⟨path, header, _, hst'⟩, hslot'⟩) fun _ => ?_
          refine ih ⟨⟨hl, hu.uploading, hu.silent, ?_, ?_⟩, ?_⟩
          · exact carrier_queued (s := s) hk hopen
          · refine ⟨path, header, _, hst', by simp [Wire.next], htotal, ?_, ?_⟩
            · change s.uploadSent + chunk.length = _
              rw [hsent, List.length_append]
            · change crc32 s.uploadCrc chunk = _
              rw [hcrc, crc32_append]
          · exact (isOpen_queued s).trans ho

theorem pumpUpload_between (h : Between g s) : Hands s.pumpUpload g Between := by
  unfold Service.pumpUpload
  split
  · exact h
  · rename_i hn
    simp only [Bool.or_eq_true, Bool.not_eq_true', not_or, Bool.not_eq_false] at hn
    obtain ⟨hup, ho⟩ := hn
    have hu : Uploading g s := by
      rcases h with hr | hu
      · simp [hr.2.1] at hup
      · exact hu
    refine hands_act _ _ trivial fun failed => ?_
    split
    · refine hands_act _ _ trivial fun error => ?_
      exact keeps_mono _ _ _ _ (fun _ _ => .inl) (abortUpload_resting _ _ hu.links)
    · refine keeps_seq _ _ _ _ _ (pumpLoop_hands _ ⟨hu, ho⟩) ?_
      rintro g' ⟨s', going⟩ hg
      cases going with
      | false => exact .inl hg
      | true =>
        change Hands s'.pumpEnd g' Between
        have hp : Pumping g' s' := hg
        unfold Service.pumpEnd
        split
        · exact .inr hp.1
        · refine hands_act _ _ trivial fun complete => ?_
          split
          · exact .inr hp.1
          · refine hands_act _ _ trivial fun empty => ?_
            split
            · rename_i hend
              simp only [Bool.and_eq_true, decide_eq_true_eq] at hend
              exact keeps_mono _ _ _ _ (fun _ _ => .inl) (finishUpload_resting hp hend.2)
            · exact .inr hp.1

end Upload

section Download

variable {g : Wire} {s : Service}

theorem resting_atRest (h : Resting g s) : AtRest g.stage := h.2.2.imp_right (·.1)

theorem resting_settled (h : Resting g s) (ho : s.isOpen = true) : g.stage = .settled := by
  rcases h.2.2 with hs | ⟨-, hn⟩
  · exact hs
  · simp [ho] at hn

theorem resting_fail (reason : Bytes) (level : LogLevel) (h : Resting g s) :
    Hands (s.failSession reason level) g Resting :=
  failSession_resting reason level h.1 fun _ => resting_atRest h

/-- A message outside of any upload. -/
theorem resting_send (m : Message) (h : Resting g s)
    (hm : ∀ g : Wire, g.stage = .settled → mayHand g m)
    (hs : ∀ g : Wire, g.stage = .settled → Wire.sent m g.stage = .settled) :
    Hands (s.send m) g (fun g r => Links r.1 ∧ r.1.uploading = false ∧ AtRest g.stage ∧
      (r.2 = true → Resting g r.1)) := by
  refine hands_send _ (fun ho => hm g (resting_settled h ho)) (fun ho => ?_) (fun _ => ?_)
    (fun _ => ?_)
  · have hst : (Wire.next g (.send m) true).stage = .settled := hs g (resting_settled h ho)
    exact ⟨links_queued h.1, h.2.1, .inl hst, fun _ => ⟨links_queued h.1, h.2.1, .inl hst⟩⟩
  · exact ⟨h.1, h.2.1, .inr rfl, nofun⟩
  · exact ⟨h.1, h.2.1, resting_atRest h, nofun⟩

theorem finishDownload_resting (h : Resting g s) : Hands s.finishDownload g Resting := by
  unfold Service.finishDownload
  dsimp only
  split
  · exact resting_fail _ _ h
  · refine hands_act _ _ trivial fun _ => hands_act _ _ trivial fun _ => ?_
    refine keeps_seq _ _ _ _ _ (resting_send .downloadDone h (fun _ h => h) ?_) ?_
    · intro g hg
      rw [hg]
      rfl
    rintro g' ⟨s', ok⟩ ⟨hl, hu, hst, hr⟩
    cases ok with
    | false => exact failSession_resting _ _ hl fun _ => hst
    | true =>
      refine hands_act _ _ trivial fun _ => ?_
      refine keeps_seq _ _ _ _ _ (Q := fun g'' _ => g'' = g') ?_ ?_
      · unfold Service.warnSkipped
        split
        · exact rfl
        · exact ⟨trivial, fun _ _ => rfl⟩
      · rintro _ _ rfl
        exact hands_act _ _ trivial fun _ => hr rfl

theorem completed_resting (h : Resting g s) : Hands s.completed g Resting := by
  unfold Service.completed
  split
  · exact finishDownload_resting h
  · exact h

theorem beginCsvReceive_resting (header : ResultHeader) (resuming : Bool) (h : Resting g s) :
    Hands (s.beginCsvReceive header resuming) g (fun g r => Resting g r.1) := by
  refine hands_act _ _ trivial fun _ => ?_
  split
  · exact keeps_seq _ _ _ _ _ (resting_fail _ _ h) fun _ _ h => h
  · split
    · exact keeps_seq _ _ _ _ _ (resting_fail _ _ h) fun _ _ h => h
    · refine keeps_seq _ _ _ _ _ ?_ fun _ _ h => h
      refine hands_act _ _ trivial fun _ => hands_act _ _ trivial fun _ => ?_
      exact completed_resting (s := s.receiving header resuming) h

theorem handleCsvBytes_resting (data : Bytes) (h : Resting g s) :
    Hands (s.handleCsvBytes data) g (fun g r => Resting g r.1) := by
  refine hands_act _ _ trivial fun _ => ?_
  exact keeps_seq _ _ _ _ _ (completed_resting (s := s.appended _) h) fun _ _ h => h

theorem failBytes_resting (reason : String) (h : Resting g s) :
    Hands (s.failBytes reason) g (fun g r => Resting g r.1) :=
  keeps_seq _ _ _ _ _ (resting_fail _ _ h) fun _ _ h => h

theorem framed_resting (data : Bytes) (malformed : String)
    (whole : Service → ℕ → P (Service × ℕ)) (h : Resting g s)
    (hw : ∀ s n, Resting g s → Hands (whole s n) g (fun g r => Resting g r.1)) :
    Hands (s.framed data malformed whole) g (fun g r => Resting g r.1) := by
  unfold Service.framed
  dsimp only
  split
  · exact h
  · exact hw _ _ h
  · exact failBytes_resting _ h

theorem ackFramed_resting (n : ℕ) (h : Resting g s) :
    Hands (s.ackFramed n) g (fun g r => Resting g r.1) := by
  unfold Service.ackFramed
  split
  · exact failBytes_resting _ h
  · split
    · exact keeps_seq _ _ _ _ _ (resting_fail _ _ h) fun _ _ h => h
    · refine keeps_seq _ _ _ _ _ (Q := Resting) ?_ fun _ _ h => h
      refine hands_act _ _ trivial fun _ => hands_act _ _ trivial fun _ => ?_
      exact hands_act _ _ trivial fun _ => h

theorem headerFramed_resting (resuming : Bool) (n : ℕ) (h : Resting g s) :
    Hands (s.headerFramed resuming n) g (fun g r => Resting g r.1) := by
  unfold Service.headerFramed
  split
  · exact failBytes_resting _ h
  · exact keeps_seq _ _ _ _ _ (beginCsvReceive_resting _ _ h) fun _ _ h => h

theorem resumeFramed_resting (n : ℕ) (h : Resting g s) :
    Hands (s.resumeFramed n) g (fun g r => Resting g r.1) := by
  unfold Service.resumeFramed
  split
  · refine hands_act _ _ trivial fun _ => ?_
    exact keeps_seq _ _ _ _ _ (resting_fail _ _ h) fun _ _ h => h
  · exact headerFramed_resting _ _ h

theorem consume_resting (data : Bytes) (h : Between g s) :
    Hands (s.consume data) g (fun g r => Resting g r.1) := by
  have hrest (he : s.expecting ≠ .nothing) : Resting g s :=
    h.resolve_right fun hu => he hu.silent.1
  unfold Service.consume
  cases he : s.expecting with
  | ack => exact framed_resting _ _ _ (hrest (by simp [he])) fun _ n => ackFramed_resting n
  | resultHeader =>
    exact framed_resting _ _ _ (hrest (by simp [he])) fun _ n => headerFramed_resting _ n
  | csvPayload => exact handleCsvBytes_resting _ (hrest (by simp [he]))
  | resumeReply =>
    exact framed_resting _ _ _ (hrest (by simp [he])) fun _ n => resumeFramed_resting n
  | nothing =>
    refine hands_act _ _ trivial fun _ => keeps_seq _ _ _ _ _ ?_ fun _ _ h => h
    rcases h with hr | hu
    · exact resting_fail _ _ hr
    · exact failSession_resting _ _ hu.links fun hn => by simp [hu.uploading] at hn

theorem onBytes_between (n : ℕ) (data : Bytes) (h : Between g s) :
    Hands (Service.onBytes n s data) g Between := by
  apply Service.keeps_rounds _ n data h
  intro data g s h
  exact keeps_mono _ _ _ _ (fun _ _ => .inl) (consume_resting data h)

end Download

section Commands

variable {g : Wire} {s : Service}

theorem resting_close (h : Resting g s) : Resting g s.closeSocket :=
  ⟨links_close h.1, h.2.1, h.2.2.imp_right fun hb => ⟨hb.1, isOpen_close _⟩⟩

theorem between_links (h : Between g s) : Links s := h.elim (·.1) (·.links)

theorem between_noSocket (h : Between g s) (hk : s.socket = none) : Resting g s := by
  refine h.resolve_right fun hu => ?_
  obtain ⟨k, hs, -⟩ := hu.carrier
  simp [hk] at hs

theorem between_resting (h : Between g s) (hu : s.uploading = false) : Resting g s :=
  h.resolve_right fun hb => by simp [hb.uploading] at hu

theorem links_stopped (h : Links s) : Links { s with connectTimer := false } :=
  ⟨nofun, h.request⟩

theorem handleConnect_between (ip : Bytes) (port : ℕ) (h : Between g s) :
    Hands (s.handleConnect ip port) g Between := by
  unfold Service.handleConnect
  split
  · exact hands_act _ _ trivial fun _ => h
  · rename_i hs
    have hk : s.socket = none := by simpa using hs
    have hr := between_noSocket h hk
    refine hands_act _ _ trivial fun _ => hands_act _ _ trivial fun ok => ?_
    cases ok with
    | false =>
      refine hands_act _ _ trivial fun _ => hands_act _ _ trivial fun _ => ?_
      exact .inl hr
    | true =>
      refine hands_act _ _ trivial fun _ => .inl ⟨⟨?_, ?_⟩, hr.2.1, .inl rfl⟩
      · rintro _ _ ⟨⟩
        rfl
      · rintro _ ⟨⟩ _
        rfl

theorem handleDisconnect_between (h : Between g s) : Hands s.handleDisconnect g Between := by
  have hl := links_stopped (between_links h)
  unfold Service.handleDisconnect
  dsimp only
  split
  · rename_i hs
    have hr := between_noSocket h (by simpa using hs)
    exact hands_act _ _ trivial fun _ => .inl ⟨hl, hr.2⟩
  · refine hands_act _ _ trivial fun _ => ?_
    split
    · exact keeps_mono _ _ _ _ (fun _ _ => .inl) (abortUpload_resting _ _ hl)
    · rename_i hu
      have hr := between_resting h (by simpa using hu)
      split
      · exact keeps_mono _ _ _ _ (fun _ _ => .inl)
          (failSession_resting _ _ hl fun _ => resting_atRest hr)
      · exact .inl (resting_close ⟨hl, hr.2⟩)

theorem uploadAccepted_between (path filename : Bytes) (size : ℕ) (hl : Links s)
    (ho : s.isOpen = true) (hst : g.stage = .accepted path size) (hslot : g.slot = .free) :
    Hands (s.uploadAccepted filename size) g Between := by
  obtain ⟨k, hk, hopen⟩ := isOpen_some ho
  refine hands_act _ _ trivial fun _ => hands_act _ _ trivial fun _ => ?_
  refine hands_act _ _ trivial fun _ => ?_
  refine keeps_seq _ _ _ _ _ (Q := fun g' r => Links r.1 ∧ (r.2 = true → Uploading g' r.1)) ?_ ?_
  · refine hands_send _ (fun _ => ⟨path, hst⟩) (fun _ => ?_) (fun _ => ⟨hl, nofun⟩)
      (fun _ => ⟨hl, nofun⟩)
    refine ⟨links_queued hl, fun _ => ⟨links_queued hl, rfl, ⟨rfl, rfl⟩, ?_, ?_⟩⟩
    · exact carrier_queued (s := s) hk hopen
    · refine ⟨path, { fileSize := size, filename := filename }, [], ?_, ?_, rfl, rfl, ?_⟩
      · simp [Wire.next, hst, Wire.sent]
      · simp [Wire.next, Wire.spend, hslot]
      · exact (crc32_nil _).symm
  · rintro g' ⟨s', ok⟩ ⟨hl', hu⟩
    cases ok with
    | false => exact keeps_mono _ _ _ _ (fun _ _ => .inl) (abortUpload_resting _ _ hl')
    | true =>
      refine hands_act _ _ trivial fun _ => hands_act _ _ trivial fun _ => ?_
      exact pumpUpload_between (.inr (hu rfl))

theorem handleStartUpload_between (path filename : Bytes) (size : ℕ) (h : Between g s) :
    Hands (s.handleStartUpload path filename size) g Between := by
  unfold Service.handleStartUpload
  split
  · exact hands_act _ _ trivial fun _ => h
  · rename_i hu
    have hr := between_resting h (by simpa using hu)
    split
    · exact hands_act _ _ trivial fun _ => h
    · rename_i hn
      have ho : s.isOpen = true := by simpa using hn
      have hst := resting_settled hr ho
      refine keeps_seq _ _ _ _ _ (drainLoop_hands _ (.inl hst)) fun g' _ hg => ?_
      have hst' : g'.stage = .settled := hg.trans hst
      refine hands_act _ _ hst' fun error => ?_
      cases error with
      | some error => exact hands_act _ _ trivial fun _ => .inl ⟨hr.1, hr.2.1, .inl hst'⟩
      | none =>
        refine hands_act _ _ trivial fun _ => ?_
        exact uploadAccepted_between path filename size hr.1 ho rfl rfl

theorem handleRequestResult_between (h : Between g s) : Hands s.handleRequestResult g Between := by
  unfold Service.handleRequestResult
  split
  · exact hands_act _ _ trivial fun _ => h
  · rename_i hc
    split
    · exact hands_act _ _ trivial fun _ => h
    · have hr : Resting g s := h.resolve_right fun hu => by simp [hu.silent.2] at hc
      refine hands_act _ _ trivial fun _ => ?_
      refine keeps_seq _ _ _ _ _ (resting_send (.request _) hr (fun _ h => h) ?_) ?_
      · intro g hg
        rw [hg]
        rfl
      rintro g' ⟨s', ok⟩ ⟨hl, hu, hst, hr'⟩
      cases ok with
      | false =>
        exact keeps_mono _ _ _ _ (fun _ _ => .inl) (failSession_resting _ _ hl fun _ => hst)
      | true =>
        refine hands_act _ _ trivial fun _ => hands_act _ _ trivial fun _ => ?_
        exact .inl (hr' rfl)

theorem handle_between (command : Command) (h : Between g s) :
    Hands (s.handle command) g Between := by
  cases command with
  | connect ip port => exact handleConnect_between ip port h
  | disconnect => exact handleDisconnect_between h
  | startUpload path filename size => exact handleStartUpload_between path filename size h
  | requestResult => exact handleRequestResult_between h
  | cancelUpload =>
    change Hands s.handleCancelUpload g Between
    unfold Service.handleCancelUpload
    split
    · exact h
    · exact keeps_mono _ _ _ _ (fun _ _ => .inl) (abortUpload_resting _ _ (between_links h))

theorem drainCommands_between (n : ℕ) (h : Between g s) :
    Hands (Service.drainCommands n s) g Between := by
  apply Service.keeps_drainCommands (fun _ => trivial) (fun _ _ h => h) _ n h
  intro g s command h _
  exact handle_between command h

end Commands

section Callbacks

variable {g : Wire} {s : Service} {w : World}

theorem onConnectTimeout_between (h : Between g s) (ht : s.connectTimer = true) :
    Hands s.onConnectTimeout g Between := by
  have hl := links_stopped (between_links h)
  unfold Service.onConnectTimeout
  dsimp only
  split
  · refine hands_act _ _ trivial fun _ => hands_act _ _ trivial fun _ => ?_
    refine hands_act _ _ trivial fun _ => ?_
    rcases h with hr | hu
    · exact .inl (resting_close ⟨hl, hr.2⟩)
    · obtain ⟨k, hk, hc⟩ := hu.carrier
      refine .inr ⟨links_close hl, hu.uploading, hu.silent, ?_, hu.sending⟩
      exact ⟨_, congrArg (Option.map _) hk, hc.1, fun _ => hu.links.timer ht k hk⟩
  · rcases h with hr | hu
    · exact .inl ⟨hl, hr.2⟩
    · exact .inr ⟨hl, hu.uploading, hu.silent, hu.carrier, hu.sending⟩

theorem links_answered (s : Service) (ok : Bool) : Links (s.answered ok) := by
  refine ⟨nofun, fun k hk hd => ?_⟩
  obtain ⟨k', -, rfl⟩ := Option.map_eq_some_iff.mp hk
  cases hd

theorem onConnect_between (ok : Bool) (text : Bytes) (h : Between g s)
    (hready : ready s w (.connectDone ok text) = true) : Hands (s.onConnect ok text) g Between := by
  obtain ⟨k, hk, hcond⟩ := Option.any_eq_true _ _ |>.mp hready
  simp only [Bool.and_eq_true, Bool.or_eq_true, Bool.not_eq_true'] at hcond
  have hl := links_answered s ok
  unfold Service.onConnect
  cases ok with
  | false =>
    refine hands_act _ _ trivial fun _ => hands_act _ _ trivial fun _ => ?_
    rcases h with hr | hu
    · exact .inl ⟨links_close hl, hr.2.1, hr.2.2.imp_right fun hb => ⟨hb.1, isOpen_close _⟩⟩
    · obtain ⟨k', hk', hc⟩ := hu.carrier
      obtain rfl : k = k' := by simpa [hk] using hk'
      refine .inr ⟨links_close hl, hu.uploading, hu.silent, ?_, hu.sending⟩
      refine ⟨_, congrArg (Option.map _ ∘ Option.map _) hk, fun _ => ?_, fun _ => rfl⟩
      exact hc.1 (hu.links.request k hk hcond.1)
  | true =>
    have hopen : k.closing = false := by simpa using hcond.2
    have hstart : (s.answered true).startRead = ({ s.answered true with
        socket := (s.answered true).socket.map fun k => { k with reading := true } }, true) := by
      simp [Service.startRead, Service.answered, Service.isOpen, hk, hopen]
    refine hands_act _ _ trivial fun _ => hands_act _ _ trivial fun _ => ?_
    rw [hstart]
    have hl' := links_map (fun k => { k with reading := true }) (fun _ => ⟨rfl, rfl⟩) hl
    rcases h with hr | hu
    · refine .inl ⟨hl', hr.2.1, .inl (resting_settled hr ?_)⟩
      simp [Service.isOpen, hk, hopen]
    · refine .inr ⟨hl', hu.uploading, hu.silent, ?_, hu.sending⟩
      refine ⟨_, congrArg (Option.map _ ∘ Option.map _) hk, nofun, fun hc => ?_⟩
      exact absurd (show k.closing = true from hc) (by simp [hopen])

theorem sayError_same (what : Option Bytes) :
    Hands (s.sayError what) g (fun g' _ => g' = g) := by
  cases what with
  | some text => exact ⟨trivial, fun _ _ => rfl⟩
  | none =>
    change Hands s.sayClosed g _
    unfold Service.sayClosed
    split
    · exact ⟨trivial, fun _ _ => rfl⟩
    · split
      · exact rfl
      · exact ⟨trivial, fun _ _ => rfl⟩

theorem giveUp_resting (h : Between g s) : Hands s.giveUp g Resting := by
  unfold Service.giveUp
  split
  · exact abortUpload_resting _ _ (between_links h)
  · rename_i hu
    have hr := between_resting h (by simpa using hu)
    split
    · exact resting_fail _ _ hr
    · exact hr

theorem onError_between (what : Option Bytes) (h : Between g s) :
    Hands (s.onError what) g Between := by
  refine keeps_seq _ _ _ _ _ (sayError_same what) ?_
  rintro _ _ rfl
  refine keeps_seq _ _ _ _ _ (giveUp_resting h) fun g' s' hr => ?_
  exact hands_act _ _ trivial fun _ => .inl (resting_close hr)

theorem resting_written (h : Resting g s) : Resting g s.written := by
  refine ⟨links_map _ (fun _ => ⟨rfl, rfl⟩) h.1, h.2.1, h.2.2.imp_right fun hb => ⟨hb.1, ?_⟩⟩
  cases hk : s.socket with
  | none => simp [Service.isOpen, Service.written, hk]
  | some k => simpa [Service.isOpen, Service.written, hk] using hb.2

theorem onWrite_between (ok : Bool) (text : Bytes) (h : Between g s)
    (hready : ready s w (.writeDone ok text) = true) : Hands (s.onWrite ok text) g Between := by
  obtain ⟨k, hk, hcond⟩ := Option.any_eq_true _ _ |>.mp hready
  simp only [Bool.and_eq_true, Bool.or_eq_true, Bool.not_eq_true'] at hcond
  have hl : Links s.written := links_map _ (fun _ => ⟨rfl, rfl⟩) (between_links h)
  cases ok with
  | true =>
    have hconn : k.connected = true := by simpa using hcond.2
    refine keeps_seq _ _ _ _ _ (Q := Between) (pumpUpload_between ?_) fun _ _ h => h
    rcases h with hr | hu
    · exact .inl (resting_written hr)
    · obtain ⟨k', hk', hc⟩ := hu.carrier
      obtain rfl : k = k' := by simpa [hk] using hk'
      refine .inr ⟨hl, hu.uploading, hu.silent, ?_, hu.sending⟩
      refine ⟨_, congrArg (Option.map _) hk, fun hn => ?_, hc.2⟩
      exact absurd (show k.connected = false from hn) (by simp [hconn])
  | false =>
    refine keeps_seq _ _ _ _ _ (Q := Resting) ?_ fun _ _ hr => ?_
    · change Hands (if s.uploading then _ else _) g Resting
      split
      · exact abortUpload_resting _ _ hl
      · rename_i hu
        exact resting_written (between_resting h (by simpa using hu))
    · exact onError_between _ (.inl hr)

theorem onClosed_between (h : Between g s) (hready : ready s w .closed = true) :
    Hands s.onClosed g Between := by
  obtain ⟨k, hk, hcond⟩ := Option.any_eq_true _ _ |>.mp hready
  simp only [Bool.and_eq_true, decide_eq_true_eq] at hcond
  have hr : Resting g s := by
    refine h.resolve_right fun hu => ?_
    obtain ⟨k', hk', hc⟩ := hu.carrier
    obtain rfl : k = k' := by simpa [hk] using hk'
    have := hc.1 (hc.2 hcond.1.1)
    omega
  refine hands_act _ _ trivial fun _ => .inl ⟨⟨fun _ _ hn => ?_, fun _ hn => ?_⟩, hr.2.1, ?_⟩
  · cases hn
  · cases hn
  · exact hr.2.2.imp_right fun hb => ⟨hb.1, rfl⟩

theorem callback_between (e : Signal) (h : Between g s) (hready : ready s w e = true) :
    Hands (callback s e) g Between := by
  cases e with
  | async passes =>
    exact keeps_seq _ _ _ _ _ (drainCommands_between _ h) fun _ _ => pumpUpload_between
  | connectDone ok text => exact onConnect_between ok text h hready
  | readable count => exact hands_act _ _ trivial fun data => onBytes_between _ data h
  | readError error => exact onError_between _ h
  | writeDone ok text => exact onWrite_between ok text h hready
  | connectTimeout => exact onConnectTimeout_between h hready
  | closed => exact onClosed_between h hready

end Callbacks

end LogTransfer.Client
