import LogTransfer.ScreenCallbacks
import LogTransfer.Reassembly

/-!
# The screen never shuts its user out, and one request at a time

Both hold of every run whose limits name the two gaps: a connection attempt
that ends in vain under an upload leaves the session on the screen, and the
screen's own gate lets a command through while a result is asked for.
-/

set_option autoImplicit false

namespace LogTransfer.Client
open Program Interleave

section LockOut

/-- No attempt to connect fails or times out while an upload is under way. -/
def connectLimits : Limits Op World Service Signal Peer (List Event) where
  op _ _ _ _ := True
  start _ _ s e :=
    match e with
    | .connectDone false _ | .connectTimeout => ¬ InUpload s
    | _ => True
  peer _ _ _ := True

/-- Every screen the events ever showed, and the screen that has drained them. -/
def LetsOut (c : ClientState (List Event)) : Prop :=
  (∀ first, first <+: c.ghost → (shown first).link = .disconnected →
    UiState.isBusy (shown first).session = false ∧ (shown first).canConnect = true) ∧
  (c.shared.drained.canConnect = true ∨ c.shared.drained.canDisconnect = true)

theorem connect_allowed (c : ClientState (List Event)) (a : Act Signal Peer)
    (h : Allowed connectLimits c a) : Allowed (screenLimits True False) c a := by
  cases a with
  | start e =>
    simp only [Allowed] at h ⊢
    split
    · rename_i s ht
      rw [ht] at h
      dsimp only at h
      cases e with
      | connectDone ok text =>
        cases ok with
        | true => trivial
        | false => exact fun _ => h
      | connectTimeout => exact fun _ => h
      | _ => trivial
    · trivial
  | loop b =>
    simp only [Allowed]
    split
    · trivial
    · rename_i op k ht
      cases op with
      | takeCommand => exact fun hg => hg.elim
      | _ => trivial
  | peer d => trivial

theorem canConnect_of_unlocked {u : UiState} (h : Unlocked u) (hl : u.link = .disconnected) :
    u.canConnect = true := by
  simp [UiState.canConnect, hl, h hl]

theorem never_locked_out (files : Bytes → Option Bytes) (c : ClientState (List Event))
    (h : Reach (machine files heard) connectLimits (clientInitial []) c) : LetsOut c := by
  have hheld := screen_held (reach_mono _ connect_allowed h)
  obtain ⟨hfirst, hbehind⟩ := hheld.2
  constructor
  · intro first hf hl
    have hu := hfirst trivial first hf
    exact ⟨hu hl, canConnect_of_unlocked hu hl⟩
  · obtain ⟨hl, hs⟩ := behind_drained hbehind
    by_cases hd : c.shared.drained.link = .disconnected
    · left
      refine canConnect_of_unlocked (fun _ => ?_) hd
      rcases hs with hs | hs
      · rw [hs]
        exact hfirst trivial c.ghost List.prefix_rfl (hl ▸ hd)
      · rw [hs]
        rfl
    · right
      simp [UiState.canDisconnect, hd]

section Schedules

def dialing : List (Act Signal Peer) := posted (.connect (bytesOf "h") 1) ++ signal (.async 1) 5

def starting : List (Act Signal Peer) :=
  posted (.startUpload (bytesOf "b") (bytesOf "b") 1) ++ signal (.async 1) 17

def attended (c : ClientState (List Event)) : Act Signal Peer → Bool
  | .start (.connectDone false _) | .start .connectTimeout =>
    match c.thread with
    | .done s => !s.uploading && (s.expecting = .nothing || s.expecting = .resumeReply)
    | .call _ _ => true
  | _ => true

theorem attended_allowed (c : ClientState (List Event)) (a : Act Signal Peer)
    (h : attended c a = true) : Allowed connectLimits c a := by
  cases a with
  | start e =>
    simp only [Allowed]
    split
    · rename_i s ht
      have hno : (!s.uploading && (s.expecting = .nothing || s.expecting = .resumeReply)) = true →
          ¬ InUpload s := by
        simp only [Bool.and_eq_true, Bool.not_eq_true', Bool.or_eq_true, decide_eq_true_eq]
        rintro ⟨hu, he⟩ (hu' | ⟨hn, hr⟩)
        · simp [hu] at hu'
        · exact he.elim hn hr
      cases e with
      | connectDone ok text =>
        cases ok with
        | true => trivial
        | false => exact hno (by simpa [attended, ht] using h)
      | connectTimeout => exact hno (by simpa [attended, ht] using h)
      | _ => trivial
    · trivial
  | loop b =>
    simp only [Allowed]
    split <;> trivial
  | peer d => trivial

def linkLost (c : ClientState (List Event)) : Bool := (shown c.ghost).link = .disconnected

end Schedules

/-- A connection is lost under an upload. -/
theorem lost_upload_lets_out : ∃ c : ClientState (List Event), linkLost c = true ∧ LetsOut c := by
  have hrun : ((run (machine twoFiles heard) attended (clientInitial [])
      (connecting ++ starting ++ signal (.readError none) 5)).map linkLost) = some true := by
    decide
  obtain ⟨c, hc, hl⟩ := Option.map_eq_some_iff.mp hrun
  exact ⟨c, hl, never_locked_out twoFiles c (run_reach _ attended_allowed _ _ _ hc)⟩

/-- The upload is accepted while the connection is still being made, and the
connection is refused: the link is gone and the session shown is Streaming. -/
theorem refused_upload_locks_out :
    ¬ ∀ (files : Bytes → Option Bytes) (c : ClientState (List Event)),
      Reach (machine files heard) Always (clientInitial []) c → LetsOut c := by
  intro h
  have hrun : ((run (machine twoFiles heard) (fun _ _ => true) (clientInitial [])
      (dialing ++ starting ++ signal (.connectDone false []) 2)).map fun c =>
        ((shown c.ghost).link, UiState.isBusy (shown c.ghost).session)) =
      some (.disconnected, true) := by
    decide
  obtain ⟨c, hc, hl⟩ := Option.map_eq_some_iff.mp hrun
  obtain ⟨hlink, hbusy⟩ := Prod.mk.inj hl
  have hreach : Reach (machine twoFiles heard) Always (clientInitial []) c :=
    run_always _ hc
  have hout := (h twoFiles c hreach).1 c.ghost List.prefix_rfl hlink
  simp [hbusy] at hout

end LockOut

section Requests

/-- A command that starts a session is taken only while the session shown is
none in which the server owes an answer. -/
def Unasked (said : List Event) (w : World) : Op → Prop
  | .takeCommand => ∀ command, w.commands.head? = some command → asks command = true →
      awaits (shown said).session = false
  | _ => True

/-- Neither an upload is accepted nor a result asked for while a session is in
flight. -/
def OneAtATime (c : ClientState (List Event)) : Prop :=
  (∀ s, c.pending = some (.note (.accept s)) → ¬ InFlight s) ∧
  ∀ s q, c.pending = some (.note (.request s q)) → s.isOpen = true → ¬ InFlight s

theorem unasked_allowed (c : ClientState (List Event)) (a : Act Signal Peer)
    (h : Allowed (onOps Unasked) c a) : Allowed (screenLimits False True) c a := by
  cases a with
  | start e =>
    simp only [Allowed]
    split
    · cases e with
      | connectDone ok text =>
        cases ok with
        | true => trivial
        | false => exact fun hs => hs.elim
      | connectTimeout => exact fun hs => hs.elim
      | _ => trivial
    · trivial
  | loop b =>
    simp only [Allowed] at h ⊢
    split
    · trivial
    · rename_i op k ht
      rw [ht] at h
      cases op with
      | takeCommand => exact fun _ => h
      | _ => trivial
  | peer d => trivial

theorem no_second_request (files : Bytes → Option Bytes) (c : ClientState (List Event))
    (h : Reach (machine files heard) (onOps Unasked) (clientInitial []) c) : OneAtATime c := by
  have hheld := screen_held (reach_mono _ unasked_allowed h)
  constructor
  · intro s hp
    exact held_pending _ hheld hp trivial
  · intro s q hp ho
    exact held_pending _ hheld hp trivial ho

section Schedules

def unasked (c : ClientState (List Event)) (_ : Act Signal Peer) : Bool :=
  match c.pending with
  | some .takeCommand =>
    !(c.shared.commands.head?.any asks && awaits (shown c.ghost).session)
  | _ => true

theorem unasked_ops (c : ClientState (List Event)) (a : Act Signal Peer)
    (h : unasked c a = true) : Allowed (onOps Unasked) c a := by
  refine allowed_onOps (fun op hop => ?_) a
  cases op with
  | takeCommand =>
    intro command hc ha
    simpa [unasked, hop, hc, ha] using h
  | _ => trivial

/-- The posts of a screen that has drained every event. -/
def screenGates : Limits Op World Service Signal Peer (List Event) where
  op _ _ _ _ := True
  start _ _ _ _ := True
  peer said w d :=
    match d with
    | .post (.startUpload _ _ _) | .click (.send _) =>
      (said.foldl UiState.apply w.ui).canSend = true
    | .post .requestResult | .click .requestResult =>
      (said.foldl UiState.apply w.ui).canRequestResult = true
    | _ => True

def gatedPosts (c : ClientState (List Event)) : Act Signal Peer → Bool
  | .peer (.post (.startUpload _ _ _)) | .peer (.click (.send _)) =>
    (c.ghost.foldl UiState.apply c.shared.ui).canSend
  | .peer (.post .requestResult) | .peer (.click .requestResult) =>
    (c.ghost.foldl UiState.apply c.shared.ui).canRequestResult
  | _ => true

theorem gatedPosts_allowed (c : ClientState (List Event)) (a : Act Signal Peer)
    (h : gatedPosts c a = true) : Allowed screenGates c a := by
  cases a with
  | start e =>
    simp only [Allowed]
    split <;> trivial
  | loop b =>
    simp only [Allowed]
    split <;> trivial
  | peer d =>
    cases d with
    | post command =>
      cases command with
      | startUpload path filename size => exact h
      | requestResult => exact h
      | _ => trivial
    | click action =>
      cases action with
      | send confirmed => exact h
      | requestResult => exact h
      | _ => trivial
    | _ => trivial

/-- The upload is acknowledged, the connection lost and made again. -/
def reconnected : List (Act Signal Peer) :=
  [.peer (.click (.browse (bytesOf "b") (bytesOf "b") 1))] ++ uploadedB ++
    [.peer (.arrive (ackOf recordB))] ++ signal (.readable 65536) 4 ++
    signal (.readError none) 3 ++ signal (.writeDone true []) 0 ++
    signal (.writeDone true []) 0 ++ signal (.writeDone true []) 0 ++ signal .closed 1 ++
    connecting

def requestDue (c : ClientState (List Event)) : Bool :=
  match c.pending with
  | some (.note (.request s _)) => s.isOpen
  | _ => false

/-- An upload is accepted although the reply to a request is expected. -/
def acceptedOverRequest (c : ClientState (List Event)) : Bool :=
  match c.pending with
  | some (.note (.accept s)) => s.expecting = .resumeReply
  | _ => false

end Schedules

theorem first_request_alone : ∃ c : ClientState (List Event),
    requestDue c = true ∧ OneAtATime c := by
  have hrun : ((run (machine twoFiles heard) unasked (clientInitial [])
      (reconnected ++ posted .requestResult ++ signal (.async 1) 1)).map requestDue) =
      some true := by
    decide +kernel
  obtain ⟨c, hc, hd⟩ := Option.map_eq_some_iff.mp hrun
  exact ⟨c, hd, no_second_request twoFiles c (run_reach _ unasked_ops _ _ _ hc)⟩

theorem upload_overtakes_request :
    ¬ ∀ (files : Bytes → Option Bytes) (c : ClientState (List Event)),
      Reach (machine files heard) screenGates (clientInitial []) c → OneAtATime c := by
  intro h
  have hrun : ((run (machine twoFiles heard) gatedPosts (clientInitial [])
      (reconnected ++ posted .requestResult ++ signal (.async 1) 6 ++ readerSteps 1 ++
        posted (.startUpload (bytesOf "b") (bytesOf "b") 1) ++ signal (.async 0) 3)).map
          acceptedOverRequest) = some true := by
    decide
  obtain ⟨c, hc, hd⟩ := Option.map_eq_some_iff.mp hrun
  have hone := (h twoFiles c (run_reach _ gatedPosts_allowed _ _ _ hc)).1
  unfold acceptedOverRequest at hd
  split at hd
  · rename_i s hp
    refine hone s hp (.inr ?_)
    simp at hd
    simp [hd]
  · cases hd

end Requests

end LogTransfer.Client
