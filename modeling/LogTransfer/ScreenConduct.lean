import LogTransfer.ScreenHistory

/-!
# Conduct toward the screen

Each program of the service keeps `screenRules` and leaves a screen that fits
the service. A log line or a claim event changes neither the link nor the
session shown, so the specifications speak of these two only.
-/

set_option autoImplicit false

namespace LogTransfer.Client
open Program Interleave

abbrev Screens {α : Type} (strict gated : Prop) (p : P α) (said : List Event)
    (Q : List Event → α → Prop) : Prop := Keeps heard (screenRules strict gated) p said Q

section Events

variable {strict gated : Prop} {said : List Event} {s : Service} {α : Type}
  {Q : List Event → α → Prop}

/-- Two histories that show the same link and the same session. -/
def Alike (said said' : List Event) : Prop :=
  (shown said').link = (shown said).link ∧ (shown said').session = (shown said).session

theorem told_alike {said' : List Event} (h : Told strict said s) (ha : Alike said said') :
    Told strict said' s := by
  unfold Told
  rw [ha.1, ha.2]
  exact h

theorem unlocked_alike {said' : List Event} (h : strict → Unlocked (shown said))
    (ha : Alike said said') : strict → Unlocked (shown said') := by
  unfold Unlocked
  rw [ha.1, ha.2]
  exact h

theorem screens_act (op : Op) (f : Ans op → P α) (hm : (screenRules strict gated).may said op)
    (h : ∀ a, Screens strict gated (f a) (heard said op a) Q) :
    Screens strict gated (act op >>= f) said Q := ⟨hm, fun a _ => h a⟩

theorem screens_log (level : LogLevel) (message : Bytes) (f : Unit → P α)
    (hu : strict → Unlocked (shown said))
    (h : ∀ said', Alike said said' → Screens strict gated (f ()) said' Q) :
    Screens strict gated (Service.pushLog level message >>= f) said Q := by
  refine screens_act _ _ hu fun _ => h _ ?_
  rw [Alike, heard, shown_append]
  exact ⟨rfl, rfl⟩

theorem screens_claim (available : Bool) (f : Unit → P α)
    (hu : strict → Unlocked (shown said))
    (h : ∀ said', Alike said said' → Screens strict gated (f ()) said' Q) :
    Screens strict gated (act (.emit (.claim available)) >>= f) said Q := by
  refine screens_act _ _ hu fun _ => h _ ?_
  rw [Alike, heard, shown_append]
  exact ⟨rfl, rfl⟩

theorem screens_session (session : SessionState) (f : Unit → P α)
    (hu : strict → (shown said).link = .disconnected → UiState.isBusy session = false)
    (h : ∀ said', (shown said').link = (shown said).link → (shown said').session = session →
      Screens strict gated (f ()) said' Q) :
    Screens strict gated (Service.pushSession session >>= f) said Q := by
  refine screens_act _ _ hu fun _ => h _ ?_ ?_
  · rw [heard, shown_append]
    rfl
  · rw [heard, shown_append]
    rfl

theorem screens_link (link : LinkState) (f : Unit → P α)
    (hu : strict → link = .disconnected → UiState.isBusy (shown said).session = false)
    (h : ∀ said', (shown said').link = link → (shown said').session = (shown said).session →
      Screens strict gated (f ()) said' Q) :
    Screens strict gated (Service.pushLink link >>= f) said Q := by
  refine screens_act _ _ hu fun _ => h _ ?_ ?_
  · rw [heard, shown_append]
    rfl
  · rw [heard, shown_append]
    rfl

end Events

section Ends

variable {strict gated : Prop} {said : List Event} {s : Service}

theorem drainLoop_screens (n : ℕ) :
    Screens strict gated (Service.drainLoop n) said (fun said' _ => said' = said) := by
  induction n with
  | zero => exact rfl
  | succ n ih =>
    refine screens_act _ _ trivial fun view => ?_
    cases view with
    | none => exact rfl
    | some chunk => exact screens_act _ _ trivial fun _ => ih

theorem fits_ended {said' : List Event} (hp : Plugged s) (hf : ¬ InFlight s)
    (hx : (shown said').session = .idle) : Fits strict said' s.closeSocket := by
  refine ⟨linked_closed (linked_still hp hf) fun _ _ _ => hf, told_closed fun _ => ?_⟩
  rw [hx]
  rfl

theorem abortUpload_fits (reason : Bytes) (level : LogLevel) (hp : Plugged s)
    (he : s.expecting = .nothing) (hu : strict → Unlocked (shown said)) :
    Screens strict gated (s.abortUpload reason level) said
      (fun said s => Fits strict said s ∧ ¬ InFlight s) := by
  refine screens_act _ _ trivial fun _ => ?_
  refine keeps_seq _ _ _ _ _ (drainLoop_screens _) ?_
  rintro _ _ rfl
  refine screens_log _ _ _ hu fun said₁ _ => ?_
  refine screens_session _ _ (fun _ _ => rfl) fun said₂ _ hx => ?_
  have hf : ¬ InFlight { s with uploading := false } := not_inFlight rfl he
  exact ⟨fits_ended (s := { s with uploading := false }) hp hf hx, hf⟩

theorem plugged_failed (hp : Plugged s) : Plugged s.failed := by
  unfold Service.failed
  split <;> exact hp

theorem failSession_fits (reason : Bytes) (level : LogLevel) (hp : Plugged s)
    (hu : strict → Unlocked (shown said)) :
    Screens strict gated (s.failSession reason level) said
      (fun said s => Fits strict said s ∧ ¬ InFlight s) := by
  refine keeps_seq _ _ _ _ _ (Q := fun said' _ => said' = said) ?_ ?_
  · unfold Service.stopReader
    split
    · exact screens_act _ _ trivial fun _ => drainLoop_screens _
    · exact rfl
  · rintro _ _ rfl
    refine screens_log _ _ _ hu fun said₁ _ => ?_
    refine screens_session _ _ (fun _ _ => rfl) fun said₂ _ hx => ?_
    have hf : ¬ InFlight s.failed := not_inFlight (uploading_failed s) (expecting_failed s)
    exact ⟨fits_ended (plugged_failed hp) hf hx, hf⟩

theorem screens_send (m : Message) {Q : List Event → Service × Bool → Prop}
    (hok : s.isOpen = true → Q said (s.queued, true)) (hno : Q said (s, false)) :
    Screens strict gated (s.send m) said Q := by
  unfold Service.send
  split
  · exact hno
  · rename_i hn
    refine screens_act _ _ trivial fun ok => ?_
    cases ok with
    | true => exact hok (by simpa using hn)
    | false => exact hno

theorem plugged_queued (hp : Plugged s) : Plugged s.queued :=
  plugged_map _ (fun _ => ⟨rfl, rfl, rfl, rfl⟩) hp

end Ends

section Upload

variable {strict gated : Prop} {said : List Event} {s : Service}

/-- The upload under way can go on. -/
structure Streams (strict : Prop) (said : List Event) (s : Service) : Prop where
  plugged : Plugged s
  bears : Bears s
  upload : s.uploading = true
  silent : s.expecting = .nothing ∧ s.hasClaim = false
  link : strict → (shown said).link ≠ .disconnected

theorem streams_unlocked (h : Streams strict said s) : strict → Unlocked (shown said) :=
  fun hs hl => absurd hl (h.link hs)

theorem streams_fits (h : Streams strict said s) : Fits strict said s := by
  refine ⟨linked_bears h.plugged h.bears (fun _ => h.silent) (by simp [h.silent.1]), ?_⟩
  refine ⟨fun _ he => absurd h.silent.1 he, fun hs => ⟨fun _ => .inl h.upload, fun _ => h.link hs,
    fun ho => ?_⟩⟩
  simp [bears_isOpen h.bears] at ho

theorem fits_streams (h : Fits strict said s) (hu : s.uploading = true) (ho : s.isOpen = true) :
    Streams strict said s := by
  obtain ⟨⟨hp, hsil, -, hk⟩, ht⟩ := h
  refine ⟨hp, ?_, hu, hsil hu, fun hs => (ht.2 hs).2.1 ho⟩
  obtain ⟨k, hsk, hc⟩ := isOpen_some ho
  refine ⟨k, hsk, hc, ?_⟩
  cases hn : k.connected with
  | true => exact .inr rfl
  | false => exact .inl ((hk k hsk).1 hn (.inl hu))

theorem streams_abort (reason : Bytes) (level : LogLevel) (h : Streams strict said s) :
    Screens strict gated (s.abortUpload reason level) said (Fits strict) :=
  keeps_mono _ _ _ _ (fun _ _ h => h.1)
    (abortUpload_fits reason level h.plugged h.silent.1 (streams_unlocked h))

theorem streams_send (m : Message) (h : Streams strict said s) :
    Screens strict gated (s.send m) said (fun said r => Streams strict said r.1) := by
  refine screens_send m (fun ho => ?_) h
  exact ⟨plugged_queued h.plugged, bears_queued ho, h.upload, h.silent, h.link⟩

theorem finishUpload_fits (h : Streams strict said s) :
    Screens strict gated s.finishUpload said (Fits strict) := by
  have h' : Streams strict said { s with trailerSent := true } :=
    ⟨h.plugged, h.bears, h.upload, h.silent, h.link⟩
  refine keeps_seq _ _ _ _ _ (streams_send _ h') ?_
  rintro said₁ ⟨s₁, ok⟩ h₁
  cases ok with
  | false => exact streams_abort _ _ h₁
  | true =>
    refine screens_log _ _ _ (streams_unlocked h₁) fun said₂ ha => ?_
    have hl : strict → (shown said₂).link ≠ .disconnected := fun hs => by
      rw [ha.1]
      exact h₁.link hs
    refine screens_session _ _ (fun hs hd => absurd hd (hl hs)) fun said₃ hl₃ hx => ?_
    refine ⟨linked_bears h₁.plugged h₁.bears (silent_idle rfl) (by simp), ?_, fun hs => ?_⟩
    · intro _ _
      rw [hx]
      rfl
    · refine ⟨fun _ => .inr (by simp), fun _ => hl₃ ▸ hl hs, fun ho => ?_⟩
      have hopen : s₁.isOpen = false := ho
      simp [bears_isOpen h₁.bears] at hopen

theorem pumpLoop_fits (n : ℕ) (h : Streams strict said s) :
    Screens strict gated (Service.pumpLoop n s) said
      (fun said r => Fits strict said r.1 ∧ (r.2 = true → Streams strict said r.1)) := by
  induction n generalizing said s with
  | zero => exact ⟨streams_fits h, fun _ => h⟩
  | succ n ih =>
    unfold Service.pumpLoop
    split
    swap
    · exact ⟨streams_fits h, fun _ => h⟩
    refine screens_act _ _ trivial fun view => ?_
    cases view with
    | none => exact ⟨streams_fits h, fun _ => h⟩
    | some chunk =>
      have h' : Streams strict said { s with uploadCrc := crc32 s.uploadCrc chunk } :=
        ⟨h.plugged, h.bears, h.upload, h.silent, h.link⟩
      refine keeps_seq _ _ _ _ _ (streams_send _ h') ?_
      rintro said₁ ⟨s₁, ok⟩ h₁
      have h₂ : Streams strict said₁ { s₁ with inFlightWrites := s₁.inFlightWrites + 1 } :=
        ⟨h₁.plugged, h₁.bears, h₁.upload, h₁.silent, h₁.link⟩
      refine screens_act _ _ trivial fun _ => ?_
      cases ok with
      | false =>
        exact keeps_seq _ _ _ _ _ (streams_abort _ _ h₂) fun _ _ hf => ⟨hf, fun hn => by cases hn⟩
      | true => exact ih ⟨h₂.plugged, h₂.bears, h₂.upload, h₂.silent, h₂.link⟩

theorem pumpEnd_fits (h : Streams strict said s) :
    Screens strict gated s.pumpEnd said (Fits strict) := by
  unfold Service.pumpEnd
  split
  · exact streams_fits h
  · refine screens_act _ _ trivial fun complete => ?_
    split
    · exact streams_fits h
    · refine screens_act _ _ trivial fun empty => ?_
      split
      · exact finishUpload_fits h
      · exact streams_fits h

theorem pumpUpload_fits (h : Fits strict said s) :
    Screens strict gated s.pumpUpload said (Fits strict) := by
  unfold Service.pumpUpload
  split
  · exact h
  · rename_i hn
    have hst : Streams strict said s := by
      simp only [Bool.or_eq_true, Bool.not_eq_true', not_or, Bool.not_eq_false] at hn
      exact fits_streams h hn.1 hn.2
    refine screens_act _ _ trivial fun failed => ?_
    split
    · exact screens_act _ _ trivial fun error => streams_abort _ _ hst
    · refine keeps_seq _ _ _ _ _ (pumpLoop_fits _ hst) ?_
      rintro said₁ ⟨s₁, going⟩ ⟨hf, hs⟩
      cases going with
      | false => exact hf
      | true => exact pumpEnd_fits (hs rfl)

end Upload

section Download

variable {strict gated : Prop} {said : List Event} {s : Service}

/-- Between two passes over the bytes of a read. -/
def Passes (strict : Prop) (said : List Event) (s : Service) : Prop :=
  Fits strict said s ∧ (s.expecting ≠ .nothing → Hears s)

/-- A reply is awaited on a connected socket. -/
structure Waits (strict : Prop) (said : List Event) (s : Service) : Prop where
  plugged : Plugged s
  hears : Hears s
  upload : s.uploading = false
  awaits : awaits (shown said).session = true
  busy : strict → UiState.isBusy (shown said).session = true → InUpload s
  link : strict → (shown said).link ≠ .disconnected

theorem waits_unlocked (h : Waits strict said s) : strict → Unlocked (shown said) :=
  fun hs hl => absurd hl (h.link hs)

theorem waits_passes (h : Waits strict said s) : Passes strict said s := by
  refine ⟨⟨linked_bears h.plugged (hears_bears h.hears) (silent_idle h.upload) fun _ => h.hears,
    fun _ _ => h.awaits, fun hs => ⟨h.busy hs, fun _ => h.link hs, fun ho => ?_⟩⟩, fun _ => h.hears⟩
  simp [hears_isOpen h.hears] at ho

theorem passes_waits (h : Passes strict said s) (he : s.expecting ≠ .nothing) :
    Waits strict said s := by
  obtain ⟨⟨⟨hp, hsil, -, -⟩, ht⟩, hh⟩ := h
  have ho := hears_isOpen (hh he)
  refine ⟨hp, hh he, ?_, ht.1 ho he, fun hs => (ht.2 hs).1, fun hs => (ht.2 hs).2.1 ho⟩
  by_contra hu
  exact he (hsil (by simpa using hu)).1

theorem passes_ended (h : Fits strict said s ∧ ¬ InFlight s) : Passes strict said s :=
  ⟨h.1, fun he => absurd (.inr he) h.2⟩

theorem waits_fail (reason : Bytes) (level : LogLevel) (h : Waits strict said s) :
    Screens strict gated (s.failSession reason level) said (Passes strict) :=
  keeps_mono _ _ _ _ (fun _ _ => passes_ended)
    (failSession_fits reason level h.plugged (waits_unlocked h))

theorem waits_failBytes (reason : String) (h : Waits strict said s) :
    Screens strict gated (s.failBytes reason) said (fun said r => Passes strict said r.1) :=
  keeps_seq _ _ _ _ _ (waits_fail _ _ h) fun _ _ h => h

theorem warnSkipped_screens (skipWarning : Bytes) (hu : strict → Unlocked (shown said)) :
    Screens strict gated (Service.warnSkipped skipWarning) said
      (fun said' _ => Alike said said') := by
  unfold Service.warnSkipped
  split
  · exact ⟨rfl, rfl⟩
  · exact screens_log _ _ .done hu fun _ ha => ha

theorem finishDownload_passes (h : Waits strict said s) :
    Screens strict gated s.finishDownload said (Passes strict) := by
  unfold Service.finishDownload
  dsimp only
  split
  · exact waits_fail _ _ ⟨h.plugged, h.hears, h.upload, h.awaits, h.busy, h.link⟩
  · refine screens_act _ _ trivial fun _ => ?_
    refine screens_claim _ _ (waits_unlocked h) fun said₁ ha₁ => ?_
    have hu₁ := unlocked_alike (waits_unlocked h) ha₁
    refine keeps_seq _ _ _ _ _ (Q := fun said' r => said' = said₁ ∧ Plugged r.1 ∧
      r.1.uploading = false ∧ r.1.expecting = .nothing ∧ (r.2 = true → r.1.isOpen = true)) ?_ ?_
    · refine screens_send _ (fun ho => ⟨rfl, plugged_queued h.plugged, h.upload, rfl, fun _ => ?_⟩)
        ⟨rfl, h.plugged, h.upload, rfl, fun hn => by cases hn⟩
      exact (isOpen_queued _).trans ho
    rintro _ ⟨s₂, ok⟩ ⟨rfl, hp, hup, he, ho⟩
    cases ok with
    | false => exact keeps_mono _ _ _ _ (fun _ _ => passes_ended) (failSession_fits _ _ hp hu₁)
    | true =>
      refine screens_log _ _ _ hu₁ fun said₂ ha₂ => ?_
      have hu₂ := unlocked_alike hu₁ ha₂
      refine keeps_seq _ _ _ _ _ (warnSkipped_screens _ hu₂) fun said₃ _ ha₃ => ?_
      refine screens_session _ _ (fun _ _ => rfl) fun said₄ hl hx => ?_
      have hf : ¬ InFlight s₂ := not_inFlight hup he
      refine ⟨⟨linked_still hp hf, fun _ hn => absurd he hn, fun hs => ?_⟩, fun hn => absurd he hn⟩
      refine ⟨fun hb => by simp [hx, UiState.isBusy] at hb, fun _ => ?_, fun hc => ?_⟩
      · rw [hl, ha₃.1, ha₂.1, ha₁.1]
        exact h.link hs
      · rw [hx]
        rfl

theorem completed_passes (h : Waits strict said s) :
    Screens strict gated s.completed said (Passes strict) := by
  unfold Service.completed
  split
  · exact finishDownload_passes h
  · exact waits_passes h

theorem beginCsvReceive_passes (header : ResultHeader) (resuming : Bool)
    (h : Waits strict said s) :
    Screens strict gated (s.beginCsvReceive header resuming) said
      (fun said r => Passes strict said r.1) := by
  refine screens_act _ _ trivial fun _ => ?_
  split
  · exact keeps_seq _ _ _ _ _ (waits_fail _ _ h) fun _ _ h => h
  · split
    · exact keeps_seq _ _ _ _ _ (waits_fail _ _ h) fun _ _ h => h
    · refine keeps_seq _ _ _ _ _ ?_ fun _ _ h => h
      refine screens_log _ _ _ (waits_unlocked h) fun said₁ ha => ?_
      have hl : strict → (shown said₁).link ≠ .disconnected := fun hs => by
        rw [ha.1]
        exact h.link hs
      refine screens_session _ _ (fun hs hd => absurd hd (hl hs)) fun said₂ hl₂ hx => ?_
      refine completed_passes ⟨h.plugged, h.hears, h.upload, by rw [hx]; rfl, fun _ _ => ?_,
        fun hs => hl₂ ▸ hl hs⟩
      exact .inr ⟨by simp [Service.receiving], by simp [Service.receiving]⟩

theorem framed_passes (data : Bytes) (malformed : String)
    (whole : Service → ℕ → P (Service × ℕ)) (h : Waits strict said s)
    (hw : ∀ s n, Waits strict said s →
      Screens strict gated (whole s n) said (fun said r => Passes strict said r.1)) :
    Screens strict gated (s.framed data malformed whole) said
      (fun said r => Passes strict said r.1) := by
  have h' : Waits strict said { s with framer := (s.framer.feed data).1 } :=
    ⟨h.plugged, h.hears, h.upload, h.awaits, h.busy, h.link⟩
  unfold Service.framed
  dsimp only
  split
  · exact waits_passes h'
  · exact hw _ _ h'
  · exact waits_failBytes _ h'

theorem ackFramed_passes (n : ℕ) (h : Waits strict said s) :
    Screens strict gated (s.ackFramed n) said (fun said r => Passes strict said r.1) := by
  unfold Service.ackFramed
  split
  · exact waits_failBytes _ h
  · split
    · exact keeps_seq _ _ _ _ _ (waits_fail _ _ h) fun _ _ h => h
    · refine keeps_seq _ _ _ _ _ (Q := Passes strict) ?_ fun _ _ h => h
      refine screens_claim _ _ (waits_unlocked h) fun said₁ ha₁ => ?_
      refine screens_log _ _ _ (unlocked_alike (waits_unlocked h) ha₁) fun said₂ ha₂ => ?_
      have hl : strict → (shown said₂).link ≠ .disconnected := fun hs => by
        rw [ha₂.1, ha₁.1]
        exact h.link hs
      refine screens_session _ _ (fun hs hd => absurd hd (hl hs)) fun said₃ hl₃ hx => ?_
      refine waits_passes ⟨h.plugged, h.hears, h.upload, by rw [hx]; rfl, fun _ _ => ?_,
        fun hs => hl₃ ▸ hl hs⟩
      exact .inr ⟨by simp, by simp⟩

theorem headerFramed_passes (resuming : Bool) (n : ℕ) (h : Waits strict said s) :
    Screens strict gated (s.headerFramed resuming n) said
      (fun said r => Passes strict said r.1) := by
  unfold Service.headerFramed
  split
  · exact waits_failBytes _ h
  · exact keeps_seq _ _ _ _ _ (beginCsvReceive_passes _ _ h) fun _ _ h => h

theorem resumeFramed_passes (n : ℕ) (h : Waits strict said s) :
    Screens strict gated (s.resumeFramed n) said (fun said r => Passes strict said r.1) := by
  unfold Service.resumeFramed
  split
  · refine screens_claim _ _ (waits_unlocked h) fun said₁ ha => ?_
    refine keeps_seq _ _ _ _ _ (Q := Passes strict) ?_ fun _ _ h => h
    refine keeps_mono _ _ _ _ (fun _ _ => passes_ended) ?_
    exact failSession_fits _ _ h.plugged (unlocked_alike (waits_unlocked h) ha)
  · exact headerFramed_passes _ _ h

theorem consume_passes (data : Bytes) (h : Passes strict said s) :
    Screens strict gated (s.consume data) said (fun said r => Passes strict said r.1) := by
  unfold Service.consume
  cases he : s.expecting with
  | ack => exact framed_passes _ _ _ (passes_waits h (by simp [he])) fun _ n => ackFramed_passes n
  | resultHeader =>
    exact framed_passes _ _ _ (passes_waits h (by simp [he])) fun _ n => headerFramed_passes _ n
  | csvPayload =>
    have hw := passes_waits h (by simp [he])
    refine screens_act _ _ trivial fun _ => ?_
    refine keeps_seq _ _ _ _ _ (completed_passes (s := s.appended _) ?_) fun _ _ h => h
    exact ⟨hw.plugged, hw.hears, hw.upload, hw.awaits, hw.busy, hw.link⟩
  | resumeReply =>
    exact framed_passes _ _ _ (passes_waits h (by simp [he])) fun _ n => resumeFramed_passes n
  | nothing =>
    refine screens_act _ _ trivial fun _ => ?_
    refine keeps_seq _ _ _ _ _ (Q := Passes strict) ?_ fun _ _ h => h
    exact keeps_mono _ _ _ _ (fun _ _ => passes_ended)
      (failSession_fits _ _ h.1.1.1 (told_unlocked h.1.2))

theorem onBytes_passes (n : ℕ) (data : Bytes) (h : Passes strict said s) :
    Screens strict gated (Service.onBytes n s data) said (Passes strict) := by
  apply Service.keeps_rounds _ n data h
  intro data said s h
  exact consume_passes data h

end Download

end LogTransfer.Client
