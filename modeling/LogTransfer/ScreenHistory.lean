import LogTransfer.ResultShelf

/-!
# The events the screen was told

The history is every event the service emitted, and `shown` is the screen that
has drained them all. `Linked` ties the socket to what is in flight, `Told`
ties the screen to both. The discipline has two parts that are used one at a time:
`strict` keeps the screen from locking its user out, `gated` keeps a request
from overtaking another.
-/

set_option autoImplicit false

namespace LogTransfer.Client
open Program Interleave

def heard (said : List Event) : (op : Op) → Ans op → List Event
  | .emit event, _ => said ++ [event]
  | _, _ => said

def shown (said : List Event) : UiState := said.foldl UiState.apply UiState.initial

/-- A screen without a link still offers Connect. -/
def Unlocked (u : UiState) : Prop := u.link = .disconnected → UiState.isBusy u.session = false

/-- The session values of a service that waits for its server. -/
def awaits : SessionState → Bool
  | .waitAck | .waitResult | .receivingResult | .requestingResult => true
  | .idle | .connecting | .sendingHeader | .streaming | .done => false

/-- The commands that start a session. -/
def asks : Command → Bool
  | .startUpload _ _ _ | .requestResult => true
  | .connect _ _ | .disconnect | .cancelUpload => false

/-- `_uploading` is set or `_expecting` is not Nothing. -/
def InFlight (s : Service) : Prop := s.uploading = true ∨ s.expecting ≠ .nothing

/-- An upload, or the result that follows it, is under way. -/
def InUpload (s : Service) : Prop :=
  s.uploading = true ∨ s.expecting ≠ .nothing ∧ s.expecting ≠ .resumeReply

def screenRules (strict gated : Prop) : Rules Op Ans (List Event) where
  may said op :=
    match op with
    | .emit event => strict → Unlocked ((shown said).apply event)
    | .note (.accept s) => gated → ¬ InFlight s
    | .note (.request s _) => gated → s.isOpen = true → ¬ InFlight s
    | _ => True
  answers said op a :=
    match op, a with
    | .takeCommand, some command =>
      gated → asks command = true → awaits (shown said).session = false
    | _, _ => True

/-- `strict`: no attempt to connect ends in vain under an upload. `gated`: a
command that starts a session is taken only while the server owes nothing. -/
def screenLimits (strict gated : Prop) : Limits Op World Service Signal Peer (List Event) where
  op said w op _ :=
    match op with
    | .takeCommand => gated → ∀ command, w.commands.head? = some command →
        asks command = true → awaits (shown said).session = false
    | _ => True
  start _ _ s e :=
    match e with
    | .connectDone false _ | .connectTimeout => strict → ¬ InUpload s
    | _ => True
  peer _ _ _ := True

theorem shown_append (said : List Event) (event : Event) :
    shown (said ++ [event]) = (shown said).apply event := by
  simp [shown]

section World

variable {strict gated : Prop} {said : List Event} {w w' : World}

/-- The screen has drained a first part of the events and the rest is queued. A
click on Disconnect may have reset its session. -/
def Behind (said : List Event) (w : World) : Prop :=
  ∃ seen, said = seen ++ w.events ∧ w.ui.link = (shown seen).link ∧
    (w.ui.session = (shown seen).session ∨ w.ui.session = .idle)

def Screened (strict : Prop) (said : List Event) (w : World) : Prop :=
  (strict → ∀ first, first <+: said → Unlocked (shown first)) ∧ Behind said w

theorem foldl_link_congr (events : List Event) {u v : UiState} (h : u.link = v.link) :
    (events.foldl UiState.apply u).link = (events.foldl UiState.apply v).link := by
  induction events generalizing u v with
  | nil => exact h
  | cons e events ih =>
    apply ih
    cases e with
    | link link => rfl
    | _ => exact h

theorem behind_drained (h : Behind said w) :
    w.drained.link = (shown said).link ∧
      (w.drained.session = (shown said).session ∨ w.drained.session = .idle) := by
  obtain ⟨seen, rfl, hl, hs⟩ := h
  have hfold : shown (seen ++ w.events) = w.events.foldl UiState.apply (shown seen) := by
    simp [shown]
  rw [hfold]
  constructor
  · exact foldl_link_congr w.events hl
  · by_cases hany : w.events.any isSession = true
    · left
      exact foldl_session w.events _ _ hany
    · simp only [World.drained, foldl_noSession _ _ hany]
      exact hs

theorem unlocked_prefixes {event : Event} (h : ∀ first, first <+: said → Unlocked (shown first))
    (he : Unlocked ((shown said).apply event)) :
    ∀ first, first <+: said ++ [event] → Unlocked (shown first) := by
  intro first hf
  rcases List.prefix_concat_iff.mp hf with rfl | hf
  · rw [shown_append]
    exact he
  · exact h first hf

theorem screened_exec (files : Bytes → Option Bytes) (op : Op) (b : Bool)
    (h : Screened strict said w) (hm : (screenRules strict gated).may said op)
    (hl : (screenLimits strict gated).op said w op b) :
    (screenRules strict gated).answers said op (World.exec files op b w).1 ∧
      Screened strict (heard said op (World.exec files op b w).1) (World.exec files op b w).2 := by
  cases op with
  | emit event =>
    obtain ⟨hp, seen, rfl, hb⟩ := h
    refine ⟨trivial, fun hs => unlocked_prefixes (hp hs) (hm hs), seen, ?_, hb⟩
    simp [heard, World.exec]
  | takeCommand =>
    simp only [World.exec]
    cases hc : w.commands with
    | nil => exact ⟨trivial, h⟩
    | cons command commands => exact ⟨fun hg => hl hg command (by simp [hc]), h⟩
  | connect ip port =>
    refine ⟨trivial, ?_⟩
    cases b <;> exact h
  | _ => exact ⟨trivial, h⟩

theorem screened_peer (d : Peer) (h : Screened strict said w) (hs : peer w d = some w') :
    Screened strict said w' := by
  cases d with
  | reader =>
    obtain ⟨r, -, rfl⟩ := Option.map_eq_some_iff.mp hs
    exact h
  | arrive bytes =>
    cases hs
    exact h
  | post command =>
    cases hs
    exact h
  | frame =>
    cases hs
    exact ⟨h.1, said, by simp [World.pumpWorkerEvents], behind_drained h.2⟩
  | click action =>
    simp only [peer] at hs
    split at hs
    · cases hs
      cases action with
      | edit ip port => exact h
      | connect =>
        simp only [World.click]
        split
        · exact h
        · split <;> exact h
      | disconnect =>
        obtain ⟨hp, seen, hsaid, hl, -⟩ := h
        exact ⟨hp, seen, hsaid, hl, .inr rfl⟩
      | browse path name size => exact h
      | send confirmed =>
        simp only [World.click]
        split <;> exact h
      | cancel => exact h
      | requestResult => exact h
    · cases hs

end World

section Service

variable {s s' : Service} {strict : Prop}

/-- The socket is read only while it is connected and not given up, and the
connect timer runs only before. -/
def Plugged (s : Service) : Prop :=
  ∀ k, s.socket = some k →
    (k.reading = true → k.connected = true ∧ k.closing = false) ∧
    (k.connecting = true → k.connected = false) ∧
    (s.connectTimer = true → k.connected = false)

/-- What is in flight on a socket. Before the connection came about it is owed a
write, whose failure will end it. -/
def Borne (s : Service) (k : Socket) : Prop :=
  (k.connected = false → InFlight s → 0 < k.pendingWrites) ∧
  (k.closing = true → k.connected = true → ¬ InFlight s) ∧
  (k.connected = false → s.expecting ≠ .resultHeader ∧ s.expecting ≠ .csvPayload)

def Linked (s : Service) : Prop :=
  Plugged s ∧ Silent s ∧ (s.socket = none → ¬ InFlight s) ∧
    ∀ k, s.socket = some k → Borne s k

/-- What the screen shows of the service. -/
def Told (strict : Prop) (said : List Event) (s : Service) : Prop :=
  (s.isOpen = true → s.expecting ≠ .nothing → awaits (shown said).session = true) ∧
  (strict → (UiState.isBusy (shown said).session = true → InUpload s) ∧
    (s.isOpen = true → (shown said).link ≠ .disconnected) ∧
    (s.isOpen = false → UiState.isBusy (shown said).session = false))

def Fits (strict : Prop) (said : List Event) (s : Service) : Prop :=
  Linked s ∧ Told strict said s

/-- A socket that can carry a session: it is connected, or owed a write. -/
def Bears (s : Service) : Prop :=
  ∃ k, s.socket = some k ∧ k.closing = false ∧ (0 < k.pendingWrites ∨ k.connected = true)

/-- The socket of a read. -/
def Hears (s : Service) : Prop :=
  ∃ k, s.socket = some k ∧ k.closing = false ∧ k.connected = true

theorem inUpload_inFlight (h : InUpload s) : InFlight s := by
  rcases h with hu | ⟨he, -⟩
  · exact .inl hu
  · exact .inr he

theorem not_inFlight (hu : s.uploading = false) (he : s.expecting = .nothing) : ¬ InFlight s := by
  rintro (h | h)
  · simp [hu] at h
  · exact h he

theorem isOpen_of_socket {k : Socket} (hk : s.socket = some k) (hc : k.closing = false) :
    s.isOpen = true := by
  simp [Service.isOpen, hk, hc]

theorem hears_isOpen (h : Hears s) : s.isOpen = true := by
  obtain ⟨k, hk, hc, -⟩ := h
  exact isOpen_of_socket hk hc

theorem hears_bears (h : Hears s) : Bears s := by
  obtain ⟨k, hk, hc, hn⟩ := h
  exact ⟨k, hk, hc, .inr hn⟩

theorem bears_queued (h : s.isOpen = true) : Bears s.queued := by
  obtain ⟨k, hk, hc⟩ := isOpen_some h
  exact ⟨{ k with pendingWrites := k.pendingWrites + 1 }, by simp [Service.queued, hk], hc,
    .inl (Nat.succ_pos _)⟩

theorem bears_isOpen (h : Bears s) : s.isOpen = true := by
  obtain ⟨k, hk, hc, -⟩ := h
  exact isOpen_of_socket hk hc

/-- A change of the socket that turns neither of the three flags. -/
theorem plugged_map (f : Socket → Socket)
    (hf : ∀ k, (f k).reading = k.reading ∧ (f k).connected = k.connected ∧
      (f k).closing = k.closing ∧ (f k).connecting = k.connecting) (h : Plugged s) :
    Plugged { s with socket := s.socket.map f } := by
  intro k hk
  obtain ⟨k₀, hk₀, rfl⟩ := Option.map_eq_some_iff.mp hk
  obtain ⟨hr, hn, hc, hg⟩ := hf k₀
  rw [hr, hn, hc, hg]
  exact h k₀ hk₀

theorem plugged_closed (h : Plugged s) : Plugged s.closeSocket := by
  intro k hk
  obtain ⟨k₀, hk₀, rfl⟩ := Option.map_eq_some_iff.mp hk
  exact ⟨fun hr => (by cases hr), (h k₀ hk₀).2⟩

/-- Nothing is in flight, so only the socket itself matters. -/
theorem linked_still (h : Plugged s) (hf : ¬ InFlight s) : Linked s := by
  have he : s.expecting = .nothing := by
    by_contra hn
    exact hf (.inr hn)
  refine ⟨h, fun hu => absurd (.inl hu) hf, fun _ => hf, fun k _ => ?_⟩
  exact ⟨fun _ hi => absurd hi hf, fun _ _ => hf, fun _ => by simp [he]⟩

theorem linked_bears (hp : Plugged s) (hb : Bears s) (hs : Silent s)
    (he : s.expecting = .resultHeader ∨ s.expecting = .csvPayload → Hears s) : Linked s := by
  obtain ⟨k, hk, hc, hw⟩ := hb
  refine ⟨hp, hs, fun hn => by simp [hk] at hn, fun k' hk' => ?_⟩
  obtain rfl : k = k' := by simpa [hk] using hk'
  refine ⟨fun hn _ => hw.resolve_right (by simp [hn]), fun hcl => by simp [hc] at hcl, ?_⟩
  intro hn
  have hdeaf : ¬ Hears s := by
    rintro ⟨k', hk', -, hn'⟩
    obtain rfl : k = k' := by simpa [hk] using hk'
    simp [hn] at hn'
  exact ⟨fun h => hdeaf (he (.inl h)), fun h => hdeaf (he (.inr h))⟩

theorem linked_closed (h : Linked s)
    (hf : ∀ k, s.socket = some k → k.connected = true → ¬ InFlight s) :
    Linked s.closeSocket := by
  obtain ⟨hp, hs, hn, hk⟩ := h
  refine ⟨plugged_closed hp, hs, fun hnone => hn (by simpa [Service.closeSocket] using hnone), ?_⟩
  intro k hck
  obtain ⟨k₀, hk₀, rfl⟩ := Option.map_eq_some_iff.mp hck
  exact ⟨(hk k₀ hk₀).1, fun _ => hf k₀ hk₀, (hk k₀ hk₀).2.2⟩

theorem told_closed {said : List Event}
    (hb : strict → UiState.isBusy (shown said).session = false) :
    Told strict said s.closeSocket := by
  refine ⟨fun ho => by simp [isOpen_close] at ho, fun hs => ?_⟩
  refine ⟨fun h => by simp [hb hs] at h, fun ho => by simp [isOpen_close] at ho, fun _ => hb hs⟩

theorem told_unlocked {said : List Event} (h : Told strict said s) (hs : strict) :
    Unlocked (shown said) := by
  intro hl
  cases ho : s.isOpen with
  | true => exact absurd hl ((h.2 hs).2.1 ho)
  | false => exact (h.2 hs).2.2 ho

theorem told_still {said : List Event} (h : Told strict said s) (hf : ¬ InFlight s) (hs : strict) :
    UiState.isBusy (shown said).session = false := by
  by_contra hb
  exact hf (inUpload_inFlight ((h.2 hs).1 (by simpa using hb)))

end Service

end LogTransfer.Client
