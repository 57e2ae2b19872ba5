import LogTransfer.ScreenConduct

/-!
# The client toward its screen

The commands and the callbacks, and from them the invariant of whole runs.
-/

set_option autoImplicit false

namespace LogTransfer.Client
open Program Interleave

section Commands

variable {strict gated : Prop} {said : List Event} {s : Service}

theorem fits_alike {said' : List Event} (h : Fits strict said s) (ha : Alike said said') :
    Fits strict said' s := ⟨h.1, told_alike h.2 ha⟩

theorem fits_log (level : LogLevel) (message : Bytes) (h : Fits strict said s) :
    Screens strict gated (Service.pushLog level message >>= fun _ => pure s) said (Fits strict) :=
  screens_log _ _ _ (told_unlocked h.2) fun _ ha => fits_alike h ha

/-- The socket does not exist, so nothing is in flight and nothing busy is shown. -/
theorem fits_none (h : Fits strict said s) (hn : s.socket = none) :
    ¬ InFlight s ∧ (strict → UiState.isBusy (shown said).session = false) := by
  have hf := h.1.2.2.1 hn
  exact ⟨hf, told_still h.2 hf⟩

theorem handleConnect_fits (ip : Bytes) (port : ℕ) (h : Fits strict said s) :
    Screens strict gated (s.handleConnect ip port) said (Fits strict) := by
  unfold Service.handleConnect
  split
  · exact fits_log _ _ h
  · rename_i hsome
    have hn : s.socket = none := by simpa using hsome
    obtain ⟨hf, hb⟩ := fits_none h hn
    refine screens_link _ _ (fun _ hd => by cases hd) fun said₁ hl₁ hx₁ => ?_
    have hu₁ : strict → Unlocked (shown said₁) := fun _ hd => by simp [hl₁] at hd
    refine screens_act _ _ trivial fun ok => ?_
    cases ok with
    | false =>
      refine screens_log _ _ _ hu₁ fun said₂ (ha : Alike said₁ said₂) => ?_
      have hb₂ : strict → UiState.isBusy (shown said₂).session = false := fun hs => by
        rw [ha.2, hx₁]
        exact hb hs
      refine screens_link _ _ (fun hs _ => hb₂ hs) fun said₃ hl₃ hx₃ => ?_
      have ho : s.isOpen = false := by simp [Service.isOpen, hn]
      refine ⟨h.1, fun hopen => ?_, fun hs => ?_⟩
      · have hopen : s.isOpen = true := hopen
        simp [ho] at hopen
      · rw [hx₃]
        refine ⟨fun hbusy => by simp [hb₂ hs] at hbusy, fun hopen => ?_, fun _ => hb₂ hs⟩
        have hopen : s.isOpen = true := hopen
        simp [ho] at hopen
    | true =>
      refine screens_log _ _ _ hu₁ fun said₂ (ha : Alike said₁ said₂) => ?_
      have hb₂ : strict → UiState.isBusy (shown said₂).session = false := fun hs => by
        rw [ha.2, hx₁]
        exact hb hs
      refine ⟨linked_still ?_ hf, fun _ he => absurd (.inr he) hf, fun hs => ?_⟩
      · rintro k ⟨⟩
        exact ⟨fun hr => (by cases hr), fun _ => rfl, fun _ => rfl⟩
      · refine ⟨fun hbusy => by simp [hb₂ hs] at hbusy, fun _ => ?_, fun _ => hb₂ hs⟩
        rw [ha.1, hl₁]
        exact fun hd => by cases hd

theorem linked_noTimer (h : Linked s) : Linked { s with connectTimer := false } := by
  obtain ⟨hp, hrest⟩ := h
  exact ⟨fun k hk => ⟨(hp k hk).1, (hp k hk).2.1, fun ht => by cases ht⟩, hrest⟩

theorem handleDisconnect_fits (h : Fits strict said s) :
    Screens strict gated s.handleDisconnect said (Fits strict) := by
  have h' : Fits strict said { s with connectTimer := false } := ⟨linked_noTimer h.1, h.2⟩
  have hp := h'.1.1
  unfold Service.handleDisconnect
  dsimp only
  split
  · rename_i hnone
    have hn : s.socket = none := by simpa using hnone
    have hb := (fits_none h hn).2
    refine screens_link _ _ (fun hs _ => hb hs) fun said₁ hl hx => ?_
    have ho : s.isOpen = false := by simp [Service.isOpen, hn]
    refine ⟨h'.1, fun hopen => ?_, fun hs => ?_⟩
    · have hopen : s.isOpen = true := hopen
      simp [ho] at hopen
    · rw [hx]
      refine ⟨fun hbusy => by simp [hb hs] at hbusy, fun hopen => ?_, fun _ => hb hs⟩
      have hopen : s.isOpen = true := hopen
      simp [ho] at hopen
  · refine screens_log _ _ _ (told_unlocked h.2) fun said₁ ha => ?_
    have hu := unlocked_alike (told_unlocked h.2) ha
    split
    · rename_i hup
      exact keeps_mono _ _ _ _ (fun _ _ h => h.1) (abortUpload_fits _ _ hp (h.1.2.1 hup).1 hu)
    · rename_i hup
      split
      · exact keeps_mono _ _ _ _ (fun _ _ h => h.1) (failSession_fits _ _ hp hu)
      · rename_i he
        have hf : ¬ InFlight { s with connectTimer := false } :=
          not_inFlight (by simpa using hup) (by simpa using he)
        refine ⟨linked_closed h'.1 fun _ _ _ => hf, told_closed fun hs => ?_⟩
        rw [ha.2]
        exact told_still h'.2 hf hs

theorem uploadAccepted_fits (filename : Bytes) (size : ℕ) (h : Fits strict said s)
    (ho : s.isOpen = true) :
    Screens strict gated (s.uploadAccepted filename size) said (Fits strict) := by
  refine screens_claim _ _ (told_unlocked h.2) fun said₁ ha => ?_
  refine screens_act _ _ trivial fun _ => ?_
  have hl : strict → (shown said₁).link ≠ .disconnected := fun hs => by
    rw [ha.1]
    exact (h.2.2 hs).2.1 ho
  refine screens_session _ _ (fun hs hd => absurd hd (hl hs)) fun said₂ hl₂ hx => ?_
  have hlink : strict → (shown said₂).link ≠ .disconnected := fun hs => hl₂ ▸ hl hs
  have hu : strict → Unlocked (shown said₂) := fun hs hd => absurd hd (hlink hs)
  refine keeps_seq _ _ _ _ _ (Q := fun said' r => said' = said₂ ∧ Plugged r.1 ∧
    r.1.uploading = true ∧ (r.1.expecting = .nothing ∧ r.1.hasClaim = false) ∧
    (r.2 = true → Bears r.1)) ?_ ?_
  · refine screens_send _ (fun hopen => ?_) ⟨rfl, h.1.1, rfl, ⟨rfl, rfl⟩, fun hn => by cases hn⟩
    exact ⟨rfl, plugged_queued h.1.1, rfl, ⟨rfl, rfl⟩, fun _ => bears_queued hopen⟩
  rintro _ ⟨s₁, ok⟩ ⟨rfl, hp, hup, hsil, hb⟩
  cases ok with
  | false =>
    exact keeps_mono _ _ _ _ (fun _ _ h => h.1) (abortUpload_fits _ _ hp hsil.1 hu)
  | true =>
    refine screens_log _ _ _ hu fun said₃ ha₃ => ?_
    have hl₃ : strict → (shown said₃).link ≠ .disconnected := fun hs => by
      rw [ha₃.1]
      exact hlink hs
    refine screens_session _ _ (fun hs hd => absurd hd (hl₃ hs)) fun said₄ hl₄ _ => ?_
    exact pumpUpload_fits (streams_fits ⟨hp, hb rfl, hup, hsil, fun hs => hl₄ ▸ hl₃ hs⟩)

theorem handleStartUpload_fits (path filename : Bytes) (size : ℕ) (h : Fits strict said s)
    (hq : gated → awaits (shown said).session = false) :
    Screens strict gated (s.handleStartUpload path filename size) said (Fits strict) := by
  unfold Service.handleStartUpload
  split
  · exact fits_log _ _ h
  · rename_i hup
    split
    · exact fits_log _ _ h
    · rename_i hn
      have ho : s.isOpen = true := by simpa using hn
      refine keeps_seq _ _ _ _ _ (drainLoop_screens _) ?_
      rintro _ _ rfl
      refine screens_act _ _ trivial fun error => ?_
      cases error with
      | some error => exact fits_log _ _ h
      | none =>
        refine screens_act _ _ (fun hg => ?_) fun _ => uploadAccepted_fits filename size h ho
        refine not_inFlight (by simpa using hup) ?_
        by_contra he
        simp [h.2.1 ho he] at hq
        exact hq hg

theorem handleRequestResult_fits (h : Fits strict said s)
    (hq : gated → awaits (shown said).session = false) :
    Screens strict gated s.handleRequestResult said (Fits strict) := by
  unfold Service.handleRequestResult
  split
  · exact fits_log _ _ h
  · rename_i hc
    have hup : s.uploading = false := by
      by_contra hu
      simp [(h.1.2.1 (by simpa using hu)).2] at hc
    split
    · exact fits_log _ _ h
    · refine screens_act _ _ (fun hg ho => ?_) fun _ => ?_
      · refine not_inFlight hup ?_
        by_contra he
        simp [h.2.1 ho he] at hq
        exact hq hg
      refine keeps_seq _ _ _ _ _ (Q := fun said' r => said' = said ∧ Plugged r.1 ∧
        r.1.uploading = false ∧ (r.2 = true → Bears r.1 ∧ s.isOpen = true)) ?_ ?_
      · exact screens_send _
          (fun ho => ⟨rfl, plugged_queued h.1.1, hup, fun _ => ⟨bears_queued ho, ho⟩⟩)
          ⟨rfl, h.1.1, hup, fun hn => by cases hn⟩
      rintro _ ⟨s₁, ok⟩ ⟨rfl, hp, hup₁, hb⟩
      cases ok with
      | false =>
        exact keeps_mono _ _ _ _ (fun _ _ h => h.1)
          (failSession_fits _ _ hp (told_unlocked h.2))
      | true =>
        obtain ⟨hbears, ho⟩ := hb rfl
        refine screens_log _ _ _ (told_unlocked h.2) fun said₁ ha => ?_
        refine screens_session _ _ (fun _ _ => rfl) fun said₂ hl hx => ?_
        refine ⟨linked_bears hp hbears (silent_idle hup₁) (by simp), fun _ _ => ?_, fun hs => ?_⟩
        · rw [hx]
          rfl
        · refine ⟨fun hbusy => by simp [hx, UiState.isBusy] at hbusy, fun _ => ?_, fun _ => ?_⟩
          · rw [hl, ha.1]
            exact (h.2.2 hs).2.1 ho
          · rw [hx]
            rfl

theorem handle_fits (command : Command) (h : Fits strict said s)
    (hq : gated → asks command = true → awaits (shown said).session = false) :
    Screens strict gated (s.handle command) said (Fits strict) := by
  cases command with
  | connect ip port => exact handleConnect_fits ip port h
  | disconnect => exact handleDisconnect_fits h
  | startUpload path filename size =>
    exact handleStartUpload_fits path filename size h fun hg => hq hg rfl
  | requestResult => exact handleRequestResult_fits h fun hg => hq hg rfl
  | cancelUpload =>
    change Screens strict gated s.handleCancelUpload said (Fits strict)
    unfold Service.handleCancelUpload
    split
    · exact h
    · rename_i hu
      exact keeps_mono _ _ _ _ (fun _ _ h => h.1)
        (abortUpload_fits _ _ h.1.1 (h.1.2.1 (by simpa using hu)).1 (told_unlocked h.2))

theorem drainCommands_fits (n : ℕ) (h : Fits strict said s) :
    Screens strict gated (Service.drainCommands n s) said (Fits strict) := by
  apply Service.keeps_drainCommands (fun _ => trivial) (fun _ _ h => h) _ n h
  intro said s command h hq
  exact handle_fits command h hq

end Commands

section Callbacks

variable {strict gated : Prop} {said : List Event} {s : Service} {w : World}

theorem onConnectTimeout_fits (h : Fits strict said s) (ht : s.connectTimer = true)
    (hl : strict → ¬ InUpload s) :
    Screens strict gated s.onConnectTimeout said (Fits strict) := by
  have h' : Fits strict said { s with connectTimer := false } := ⟨linked_noTimer h.1, h.2⟩
  unfold Service.onConnectTimeout
  dsimp only
  split
  · refine screens_log _ _ _ (told_unlocked h.2) fun said₁ ha => ?_
    refine screens_link _ _ (fun hs _ => ?_) fun said₂ _ _ => ?_
    · rw [ha.2]
      by_contra hb
      exact hl hs ((h.2.2 hs).1 (by simpa using hb))
    · refine screens_session _ _ (fun _ _ => rfl) fun said₃ _ hx => ?_
      refine ⟨linked_closed h'.1 fun k hk hn => ?_, told_closed fun _ => by rw [hx]; rfl⟩
      simp [(h.1.1 k hk).2.2 ht] at hn
  · exact h'

theorem linked_answered (ok : Bool) (h : Linked s)
    (hopen : ok = true → s.isOpen = true)
    (hc : s.socket.any (fun k => k.connecting) = true) : Linked (s.answered ok) := by
  obtain ⟨k, hk, hcon⟩ := (Option.any_eq_true _ _).mp hc
  have hk' : (s.answered ok).socket = some { k with connecting := false, connected := ok } := by
    simp [Service.answered, hk]
  obtain ⟨hp, hs, -, hb⟩ := h
  have hn : k.connected = false := (hp k hk).2.1 hcon
  have hr : k.reading = false := by
    by_contra hr
    simp [((hp k hk).1 (by simpa using hr)).1] at hn
  refine ⟨?_, hs, fun hnone => by simp [hk'] at hnone, ?_⟩
  · intro k₁ hk₁
    obtain rfl := Option.some.inj (hk'.symm.trans hk₁)
    exact ⟨fun h => (by simp [hr] at h), fun h => (by cases h), fun h => (by cases h)⟩
  · intro k₁ hk₁
    obtain rfl := Option.some.inj (hk'.symm.trans hk₁)
    refine ⟨fun _ => (hb k hk).1 hn, fun hcl hok => ?_, fun _ => (hb k hk).2.2 hn⟩
    obtain ⟨k₂, hk₂, hc₂⟩ := isOpen_some (hopen hok)
    obtain rfl := Option.some.inj (hk.symm.trans hk₂)
    simp [hc₂] at hcl

theorem onConnect_fits (ok : Bool) (text : Bytes) (h : Fits strict said s)
    (hready : ready s w (.connectDone ok text) = true)
    (hl : ok = false → strict → ¬ InUpload s) :
    Screens strict gated (s.onConnect ok text) said (Fits strict) := by
  obtain ⟨k, hk, hc⟩ := (Option.any_eq_true _ _).mp hready
  simp only [Bool.and_eq_true, Bool.or_eq_true, Bool.not_eq_true'] at hc
  have hany : s.socket.any (fun k => k.connecting) = true := by simp [hk, hc.1]
  have hsock : (s.answered ok).socket = some { k with connecting := false, connected := ok } := by
    simp [Service.answered, hk]
  unfold Service.onConnect
  cases ok with
  | false =>
    refine screens_log _ _ _ (told_unlocked h.2) fun said₁ ha => ?_
    have hb : strict → UiState.isBusy (shown said₁).session = false := fun hs => by
      rw [ha.2]
      by_contra hb
      exact hl rfl hs ((h.2.2 hs).1 (by simpa using hb))
    refine screens_link _ _ (fun hs _ => hb hs) fun said₂ _ hx => ?_
    refine ⟨linked_closed (linked_answered false h.1 (fun hn => by cases hn) hany) ?_, ?_⟩
    · intro k₁ hk₁ hn
      obtain rfl := Option.some.inj (hsock.symm.trans hk₁)
      cases hn
    · refine told_closed fun hs => ?_
      rw [hx]
      exact hb hs
  | true =>
    have hclosing : k.closing = false := by simpa using hc.2
    have ho : s.isOpen = true := isOpen_of_socket hk hclosing
    have hopen : (s.answered true).isOpen = true := isOpen_of_socket hsock hclosing
    refine screens_log _ _ _ (told_unlocked h.2) fun said₁ ha => ?_
    refine screens_link _ _ (fun _ hd => by cases hd) fun said₂ hl₂ hx => ?_
    rw [Service.startRead, if_pos hopen]
    obtain ⟨hp, hsil, -, hb⟩ := linked_answered true h.1 (fun _ => ho) hany
    have hborne := hb _ hsock
    refine ⟨⟨?_, hsil, fun hn => by simp [hsock] at hn, ?_⟩, fun _ he => ?_, fun hs => ?_⟩
    · intro k₁ hk₁
      obtain ⟨k₀, hk₀, rfl⟩ := Option.map_eq_some_iff.mp hk₁
      obtain rfl := Option.some.inj (hsock.symm.trans hk₀)
      exact ⟨fun _ => ⟨rfl, hclosing⟩, fun hn => (by cases hn), fun hn => (by cases hn)⟩
    · intro k₁ hk₁
      obtain ⟨k₀, hk₀, rfl⟩ := Option.map_eq_some_iff.mp hk₁
      obtain rfl := Option.some.inj (hsock.symm.trans hk₀)
      exact hborne
    · rw [hx, ha.2]
      exact h.2.1 ho he
    · rw [hx, ha.2, hl₂]
      refine ⟨(h.2.2 hs).1, fun _ hd => (by cases hd), fun hc => ?_⟩
      simp [Service.isOpen, hsock, hclosing] at hc

theorem sayError_screens (what : Option Bytes) (hu : strict → Unlocked (shown said)) :
    Screens strict gated (s.sayError what) said (fun said' _ => Alike said said') := by
  cases what with
  | some text => exact screens_log _ _ .done hu fun _ ha => ha
  | none =>
    change Screens strict gated s.sayClosed said _
    unfold Service.sayClosed
    split
    · exact screens_log _ _ .done hu fun _ ha => ha
    · split
      · exact ⟨rfl, rfl⟩
      · exact screens_log _ _ .done hu fun _ ha => ha

theorem giveUp_fits (hp : Plugged s) (hsil : Silent s) (ht : Told strict said s) :
    Screens strict gated s.giveUp said (fun said s => Fits strict said s ∧ ¬ InFlight s) := by
  unfold Service.giveUp
  split
  · rename_i hu
    exact abortUpload_fits _ _ hp (hsil hu).1 (told_unlocked ht)
  · rename_i hu
    split
    · exact failSession_fits _ _ hp (told_unlocked ht)
    · rename_i he
      have hf : ¬ InFlight s := not_inFlight (by simpa using hu) (by simpa using he)
      exact ⟨⟨linked_still hp hf, ht⟩, hf⟩

theorem onError_fits (what : Option Bytes) (hp : Plugged s) (hsil : Silent s)
    (ht : Told strict said s) :
    Screens strict gated (s.onError what) said (Fits strict) := by
  refine keeps_seq _ _ _ _ _ (sayError_screens what (told_unlocked ht)) fun said₁ _ ha => ?_
  refine keeps_seq _ _ _ _ _ (giveUp_fits hp hsil (told_alike ht ha)) ?_
  rintro said₂ s₂ ⟨h₂, hf⟩
  have hb := told_still h₂.2 hf
  refine screens_link _ _ (fun hs _ => hb hs) fun said₃ _ hx => ?_
  refine ⟨linked_closed h₂.1 fun _ _ _ => hf, told_closed fun hs => ?_⟩
  rw [hx]
  exact hb hs

theorem isOpen_written (s : Service) : s.written.isOpen = s.isOpen := by
  cases hk : s.socket with
  | none => simp [Service.isOpen, Service.written, hk]
  | some k => simp [Service.isOpen, Service.written, hk]

theorem told_written (h : Told strict said s) : Told strict said s.written := by
  unfold Told
  rw [isOpen_written]
  exact h

theorem onWrite_fits (ok : Bool) (text : Bytes) (h : Fits strict said s)
    (hready : ready s w (.writeDone ok text) = true) :
    Screens strict gated (s.onWrite ok text) said (Fits strict) := by
  have hp : Plugged s.written := plugged_map _ (fun _ => ⟨rfl, rfl, rfl, rfl⟩) h.1.1
  have ht : Told strict said s.written := told_written h.2
  cases ok with
  | true =>
    obtain ⟨k, hk, hc⟩ := (Option.any_eq_true _ _).mp hready
    have hn : k.connected = true := by simpa using (Bool.and_eq_true _ _ ▸ hc).2
    refine keeps_seq _ _ _ _ _ (Q := Fits strict) ?_ fun _ _ h => h
    refine pumpUpload_fits ⟨⟨hp, h.1.2.1, fun hnone => ?_, fun k₁ hk₁ => ?_⟩, ht⟩
    · have hnone : s.socket.map _ = none := hnone
      simp [hk] at hnone
    · obtain ⟨k₀, hk₀, rfl⟩ := Option.map_eq_some_iff.mp hk₁
      obtain rfl := Option.some.inj (hk.symm.trans hk₀)
      have hdeaf : ¬ k.connected = false := by simp [hn]
      exact ⟨fun hd => absurd hd hdeaf, (h.1.2.2.2 k hk).2.1, fun hd => absurd hd hdeaf⟩
  | false =>
    refine keeps_seq _ _ _ _ _
      (Q := fun said s => Plugged s ∧ Silent s ∧ Told strict said s) ?_ ?_
    · change Screens strict gated (if s.uploading then _ else _) said _
      split
      · rename_i hu
        exact keeps_mono _ _ _ _ (fun _ _ h => ⟨h.1.1.1, h.1.1.2.1, h.1.2⟩)
          (abortUpload_fits _ _ hp (h.1.2.1 hu).1 (told_unlocked h.2))
      · exact ⟨hp, h.1.2.1, ht⟩
    · rintro said₁ s₁ ⟨hp₁, hsil₁, ht₁⟩
      exact onError_fits _ hp₁ hsil₁ ht₁

theorem onClosed_fits (h : Fits strict said s) (hready : ready s w .closed = true) :
    Screens strict gated s.onClosed said (Fits strict) := by
  obtain ⟨k, hk, hc⟩ := (Option.any_eq_true _ _).mp hready
  simp only [Bool.and_eq_true, decide_eq_true_eq] at hc
  have hf : ¬ InFlight s := by
    intro hin
    cases hn : k.connected with
    | true => exact (h.1.2.2.2 k hk).2.1 hc.1.1 hn hin
    | false =>
      have hpos := (h.1.2.2.2 k hk).1 hn hin
      omega
  have hb := told_still h.2 hf
  refine screens_link _ _ (fun hs _ => hb hs) fun said₁ _ hx => ?_
  refine ⟨linked_still (fun k hk => by cases hk) hf, fun ho => (by cases ho), fun hs => ?_⟩
  rw [hx]
  exact ⟨fun hbusy => (by simp [hb hs] at hbusy), fun ho => (by cases ho), fun _ => hb hs⟩

theorem callback_fits (e : Signal) (h : Fits strict said s) (hready : ready s w e = true)
    (hl : (screenLimits strict gated).start said w s e) :
    Screens strict gated (callback s e) said (Fits strict) := by
  cases e with
  | async passes =>
    exact keeps_seq _ _ _ _ _ (drainCommands_fits _ h) fun _ _ => pumpUpload_fits
  | connectDone ok text =>
    refine onConnect_fits ok text h hready fun hok => ?_
    subst hok
    exact hl
  | readable count =>
    obtain ⟨k, hk, hr⟩ := (Option.any_eq_true _ _).mp hready
    have hh : Hears s := ⟨k, hk, ((h.1.1 k hk).1 hr).2, ((h.1.1 k hk).1 hr).1⟩
    refine screens_act _ _ trivial fun data => ?_
    exact keeps_mono _ _ _ _ (fun _ _ h => h.1) (onBytes_passes _ data ⟨h, fun _ => hh⟩)
  | readError error => exact onError_fits _ h.1.1 h.1.2.1 h.2
  | writeDone ok text => exact onWrite_fits ok text h hready
  | connectTimeout => exact onConnectTimeout_fits h hready hl
  | closed => exact onClosed_fits h hready

end Callbacks

theorem screen_discipline (strict gated : Prop) (files : Bytes → Option Bytes) :
    Discipline (machine files heard) (screenRules strict gated) (screenLimits strict gated)
      (Screened strict) (Fits strict) where
  start := by
    intro said w s e p w' hi hj hl hs
    simp only [machine] at hs
    split at hs
    · rename_i hready
      cases hs
      refine ⟨callback_fits e hi hready hl, ?_⟩
      cases e <;> exact hj
    · cases hs
  op := by
    intro said w op b hj hm hl
    exact screened_exec files op b hj hm hl
  peer := by
    intro said w d w' hj _ hs
    exact screened_peer d hj hs

theorem screen_held {strict gated : Prop} {files : Bytes → Option Bytes}
    {c : ClientState (List Event)}
    (h : Reach (machine files heard) (screenLimits strict gated) (clientInitial []) c) :
    Held (machine files heard) (screenRules strict gated) (Screened strict) (Fits strict) c := by
  refine reach_held _ (screen_discipline strict gated files) ⟨?_, ?_⟩ h
  · refine ⟨linked_still (fun k hk => by cases hk) (not_inFlight rfl rfl), ?_⟩
    exact ⟨fun ho => (by cases ho), fun _ => ⟨fun hb => (by cases hb), fun ho => (by cases ho),
      fun _ => rfl⟩⟩
  · refine ⟨fun _ first hf => ?_, [], rfl, rfl, .inl rfl⟩
    obtain rfl := List.prefix_nil.mp hf
    exact fun _ => rfl

end LogTransfer.Client
