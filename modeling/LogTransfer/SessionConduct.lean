import LogTransfer.SessionHistory

/-!
# The callbacks keep the discipline

`Stable` is what holds of the session between two stages of a callback. Every
stage keeps it, whatever the socket and the parser answer, and every operation
on the way is one that `rules` admits.
-/

set_option autoImplicit false

namespace LogTransfer
open Program

variable (A : Bytes → AnalysisResult → Prop)

abbrev Safe {α : Type} (p : P α) (g : Ghost) (Q : Ghost → α → Prop) : Prop :=
  Keeps Ghost.next (rules A) p g Q

namespace Session

def TimerOk (cfg : ServerConfig) (s : Session) : Prop :=
  cfg.idleMs ≠ 0 → cfg.responseMs ≠ 0 → s.timer.active = true

/-- The session is at work: what the phase is, and that a waiting state has its
timer. -/
def Working (cfg : ServerConfig) (g : Ghost) (s : Session) : Prop :=
  match s.state with
  | .waitHeader => g.phase = .receiving [] ∧ s.payload = [] ∧ s.fileSize = 0 ∧ TimerOk cfg s
  | .receiving => g.phase = .receiving s.payload ∧ TimerOk cfg s ∧ s.Ticketed
  | .analyzing => g.phase = .analyzing s.payload ∧ Pledged g s
  | .sendingResult | .waitDone =>
    (g.phase = .answered s.payload ∨ g.phase = .receiving [] ∧ s.payload = []) ∧ TimerOk cfg s
  | .verifying | .cleanup => False

/-- A failure Ack is being flushed. -/
def Failing (phase : Phase) (s : Session) : Prop :=
  phase = .receiving s.payload ∧ 0 < s.socket.pendingWrites ∧ s.fileSize ≤ s.receivedBytes ∧
    s.state ≠ .analyzing

def Closed (phase : Phase) (s : Session) : Prop :=
  (phase = .aborted ∨ phase = .vacant) ∧ s.state = .cleanup ∧ s.socket.closing = true ∧
    s.socket.reading = false

def Open (s : Session) : Prop := s.cleanupStarted = false ∧ s.socket.closing = false

def Standing (cfg : ServerConfig) (g : Ghost) (s : Session) : Prop :=
  (s.cleanupStarted = true ∧ Closed g.phase s) ∨
  (s.Open ∧ s.closeAfterSend = true ∧ Failing g.phase s) ∨
  (s.Open ∧ s.closeAfterSend = false ∧ Working cfg g s)

/-- What no callback of the session undoes: the history's turn, and that
cleanup has started once it has. -/
structure Turn where
  taking : Taking
  latest : ℕ
  closed : Bool

def Sound (T : Turn) (g : Ghost) (s : Session) : Prop :=
  s.id = g.latest ∧ s.receivedBytes = s.payload.length ∧ s.payloadCrc = crc32 0#32 s.payload ∧
    g.kept = g.guards.head?.map (fun e => recordOf e.1 e.2) ∧
    g.taking = T.taking ∧ g.latest = T.latest ∧ (T.closed = true → s.cleanupStarted = true)

def Stable (cfg : ServerConfig) (T : Turn) (g : Ghost) (s : Session) : Prop :=
  Sound T g s ∧ Standing cfg g s

section Socket

theorem safe_startRead (s : Session) (g : Ghost) (Q : Ghost → Session × Bool → Prop)
    (hc : s.socket.closing = false) (h : ∀ b, Q g (setReading s b, b)) :
    Safe A (startRead s) g Q := by
  unfold startRead
  rw [if_neg (by simp [hc])]
  split
  · rename_i hr
    have ht : Q g (s, s.socket.reading) := h s.socket.reading
    rw [hr] at ht
    exact ht
  · exact ⟨trivial, fun b _ => h b⟩

theorem safe_resumeReading (s : Session) (g : Ghost) (Q : Ghost → Session → Prop)
    (h : ∀ b, Q g (setReading s b)) : Safe A (resumeReading s) g Q := by
  have hsame : Q g s := h s.socket.reading
  unfold resumeReading
  split
  · exact hsame
  · refine keeps_seq _ _ _ _ _ (Q := fun g' _ => g' = g) ?_ ?_
    · unfold ringBlocks
      split
      · exact ⟨trivial, fun _ _ => rfl⟩
      · rfl
    · rintro g' blocked rfl
      split
      · exact hsame
      · refine (keeps_ask_bind _ _ _ _ _ _).mpr ⟨trivial, fun _ _ => ?_⟩
        refine keeps_seq _ _ _ _ _ (Q := fun g r => Q g r.1) ?_ ?_
        swap
        · exact fun _ _ hq => hq
        by_cases hc : s.socket.closing = true
        · unfold startRead
          rw [if_pos hc]
          exact hsame
        · exact safe_startRead A s g' _ (by simpa using hc) h

theorem safe_transition (e : Env) (s : Session) (st : SessionState) (g : Ghost)
    (Q : Ghost → Session → Prop) (hne : s.state ≠ st)
    (h : ∀ b, Q g (setReading (armTimer e { s with state := st }) b)) :
    Safe A (transition e s st) g Q := by
  unfold transition
  rw [if_neg hne]
  dsimp only
  split
  · exact safe_resumeReading A _ g Q h
  · exact h (armTimer e { s with state := st }).socket.reading

theorem safe_send (s : Session) (bytes : Bytes) (g : Ghost)
    (Q : Ghost → Session × Bool → Prop) (hc : s.socket.closing = false)
    (hid : s.id = g.latest) (hown : SendsOwn g bytes)
    (hok : Q { g with sent := g.sent ++ [bytes] } (queued s, true)) (hno : Q g (s, false)) :
    Safe A (send s bytes) g Q := by
  unfold send
  rw [if_neg (by simp [hc])]
  refine ⟨⟨hid, hown⟩, fun ok _ => ?_⟩
  cases ok with
  | true => exact hok
  | false => exact hno

theorem safe_applyBackpressure (s : Session) (g : Ghost) (Q : Ghost → Session → Prop)
    (h : ∀ b, Q g (setReading s b)) : Safe A (applyBackpressure s) g Q := by
  have hsame : Q g s := h s.socket.reading
  refine (keeps_ask_bind _ _ _ _ _ _).mpr ⟨trivial, fun full _ => ?_⟩
  split
  · refine (keeps_ask_bind _ _ _ _ _ _).mpr ⟨trivial, fun _ _ => ?_⟩
    refine (keeps_ask_bind _ _ _ _ _ _).mpr ⟨trivial, fun again _ => ?_⟩
    split
    · exact safe_resumeReading A _ _ Q h
    · exact h false
  · exact hsame

end Socket

section Ends

variable {A} {cfg : ServerConfig} {T : Turn} {g : Ghost} {s : Session}

theorem sound_cleaned (reason : String) (hs : Sound T g s) :
    Sound T { g with phase := .aborted } (cleaned s reason) := by
  obtain ⟨hid, hc, hcrc, hk, ht, hl, -⟩ := hs
  exact ⟨hid, hc, hcrc, hk, ht, hl, fun _ => rfl⟩

theorem cleanup_closed (reason : String) (hs : Sound T g s) (ho : s.cleanupStarted = false)
    (hl : g.phase.Live) :
    Safe A (cleanup s reason) g (fun g s => Stable cfg T g s ∧ s.state = .cleanup) := by
  unfold cleanup
  rw [if_neg (by simp [ho])]
  exact ⟨⟨hs.1, hl⟩, fun _ _ =>
    ⟨⟨sound_cleaned reason hs, .inl ⟨rfl, .inl rfl, rfl, rfl, rfl⟩⟩, rfl⟩⟩

theorem cleanup_stable (reason : String) (hs : Sound T g s) (ho : s.cleanupStarted = false)
    (hl : g.phase.Live) : Safe A (cleanup s reason) g (Stable cfg T) :=
  keeps_mono _ _ _ _ (fun _ _ h => h.1) (cleanup_closed reason hs ho hl)

theorem sendsOwn_receiving {p : Bytes} (bytes : Bytes) (h : g.phase = .receiving p) :
    SendsOwn g bytes := by
  intro p hp
  simp [h] at hp

theorem live_receiving {p : Bytes} (h : g.phase = .receiving p) : g.phase.Live := by
  simp [Phase.Live, h]

theorem failWithAck_stable (status : AckStatus) (reason : String) (hs : Sound T g s)
    (ho : s.Open) (hp : g.phase = .receiving s.payload) (hf : s.fileSize ≤ s.receivedBytes)
    (hst : s.state ≠ .analyzing) :
    Safe A (failWithAck s status reason) g (Stable cfg T) := by
  refine keeps_seq _ _ _ _ _
    (Q := fun g' r => g'.phase = g.phase ∧ Sound T g' s ∧
      (r = (queued s, true) ∨ r = (s, false))) ?_ ?_
  · exact safe_send A s _ g _ ho.2 hs.1 (sendsOwn_receiving _ hp) ⟨rfl, hs, .inl rfl⟩
      ⟨rfl, hs, .inr rfl⟩
  · rintro g' r ⟨hg, hs', rfl | rfl⟩
    · exact ⟨hs', .inr (.inl ⟨ho, rfl, hg.trans hp, Nat.succ_pos _, hf, hst⟩)⟩
    · exact cleanup_stable reason hs' ho.1 (live_receiving (hg.trans hp))

end Ends

section Timers

variable {e : Env} {s : Session}

theorem active_restart (t : Timer) (now : ℕ) : (t.restart now).active = t.active := by
  unfold Timer.restart Timer.active
  split <;> simp_all

theorem timerOk_armTimer (h : s.state = .waitHeader ∨ s.state = .receiving ∨
    s.state = .sendingResult ∨ s.state = .waitDone) :
    TimerOk e.toServerConfig (armTimer e s) := by
  intro hi hr
  have ht : timeoutForState e s.state ≠ 0 := by
    rcases h with h | h | h | h <;> rw [h] <;> assumption
  simp [armTimer, ht, Timer.active, Timer.start]

theorem timerOk_restart {cfg : ServerConfig} (now : ℕ) (h : TimerOk cfg s) :
    TimerOk cfg { s with timer := s.timer.restart now } := by
  intro hi hr
  rw [← h hi hr]
  exact active_restart s.timer now

end Timers

section Stages

variable {A} {e : Env} {T : Turn} {g : Ghost} {s : Session}

theorem start_stable (hid : s.id = g.latest) (hn : s = construct s.id) (hp : g.phase = .fresh)
    (ht : T = { taking := g.taking, latest := g.latest, closed := false })
    (hk : g.kept = g.guards.head?.map (fun e => recordOf e.1 e.2)) :
    Safe A (start e s) g (fun g r => g.latest = s.id ∧
      if r.2 then Stable e.toServerConfig T g r.1
      else g.phase = .aborted ∧ g.kept = g.guards.head?.map (fun e => recordOf e.1 e.2)) := by
  have hc : s.socket.closing = false := by rw [hn]; rfl
  refine keeps_seq _ _ _ _ _ (Q := fun g' r => g' = g ∧ r.1 = setReading s r.2)
    (safe_startRead A s g _ hc fun b => ⟨rfl, rfl⟩) ?_
  rintro g' ⟨s', ok⟩ ⟨hg, hs'⟩
  simp only at hs'
  rw [hg, hs']
  cases ok with
  | false =>
    refine keeps_seq _ _ _ _ _ (Q := fun g' _ => g' = { g with phase := .aborted }) ?_ ?_
    · unfold cleanup
      have ho : (setReading s false).cleanupStarted = false := by rw [hn]; rfl
      rw [if_neg (by simp [ho])]
      exact ⟨⟨hid, by simp [Phase.Live, hp]⟩, fun _ _ => rfl⟩
    · rintro _ s' rfl
      exact ⟨hid.symm, rfl, hk⟩
  | true =>
    refine (keeps_ask_bind _ _ _ _ _ _).mpr ⟨hp, fun _ _ => ?_⟩
    obtain ⟨t, hat⟩ := armTimer_eq (e := e) (setReading s true)
    have hto : TimerOk e.toServerConfig (armTimer e (setReading s true)) :=
      timerOk_armTimer (.inl (by rw [hn]; rfl))
    rw [hat] at hto ⊢
    rw [hn] at hto ⊢
    rw [ht]
    exact ⟨hid.symm, ⟨hid, rfl, (crc32_nil _).symm, hk, rfl, rfl, by simp⟩,
      .inr (.inr ⟨⟨rfl, rfl⟩, rfl, rfl, rfl, rfl, hto⟩)⟩

theorem working_live {cfg : ServerConfig} (h : Working cfg g s) : g.phase.Live := by
  unfold Working at h
  split at h
  · simp [Phase.Live, h.1]
  · simp [Phase.Live, h.1]
  · simp [Phase.Live, h]
  · rcases h.1 with h | h
    · simp [Phase.Live, h]
    · simp [Phase.Live, h.1]
  · rcases h.1 with h | h
    · simp [Phase.Live, h]
    · simp [Phase.Live, h.1]
  · exact h.elim
  · exact h.elim

def Sending (cfg : ServerConfig) (T : Turn) (g : Ghost) (s : Session) : Prop :=
  Sound T g s ∧ s.Open ∧ s.closeAfterSend = false ∧ s.state = .sendingResult ∧
    Working cfg g s

/-- After the result was handed to the socket, or the session given up. -/
def Answered (cfg : ServerConfig) (T : Turn) (g : Ghost) (s : Session) : Prop :=
  Stable cfg T g s ∧ s.state ≠ .analyzing

theorem sending_answered {cfg : ServerConfig} (h : Sending cfg T g s) : Answered cfg T g s :=
  ⟨⟨h.1, .inr (.inr ⟨h.2.1, h.2.2.1, h.2.2.2.2⟩)⟩, by simp [h.2.2.2.1]⟩

theorem sending_cleanup {cfg : ServerConfig} (reason : String) (h : Sending cfg T g s) :
    Safe A (cleanup s reason) g (Answered cfg T) :=
  keeps_mono _ _ _ _ (fun _ _ h => ⟨h.1, by simp [h.2]⟩)
    (cleanup_closed reason h.1 h.2.1.1 (working_live h.2.2.2.2))

theorem sending_send {cfg : ServerConfig} (bytes body : Bytes) (h : Sending cfg T g s)
    (hb : SendsOwn g bytes) (hbody : SendsOwn g body) :
    Safe A (send s bytes) g (fun g r => Sending cfg T g r.1 ∧ SendsOwn g body) :=
  safe_send A s bytes g _ h.2.1.2 h.1.1 hb ⟨h, hbody⟩ ⟨h, hbody⟩

theorem sendResult_answered (crc : Crc) (body : Bytes) (skipEmpty : Bool) (hs : Sound T g s)
    (ho : s.Open) (hf : s.closeAfterSend = false) (hne : s.state ≠ .sendingResult)
    (hp : g.phase = .answered s.payload ∨ g.phase = .receiving [] ∧ s.payload = [])
    (hhead : SendsOwn g (encodeResultHeader { csvSize := s.csv.length, crc32 := crc }))
    (hbody : SendsOwn g body) :
    Safe A (sendResult e s crc body skipEmpty) g (Answered e.toServerConfig T) := by
  refine keeps_seq _ _ _ _ _
    (Q := fun g' s' => Sending e.toServerConfig T g' s' ∧ g' = g) ?_ ?_
  · refine safe_transition A e s _ g _ hne fun b => ?_
    have ht : TimerOk e.toServerConfig (armTimer e { s with state := .sendingResult }) :=
      timerOk_armTimer (.inr (.inr (.inl rfl)))
    obtain ⟨t, hat⟩ := armTimer_eq (e := e) { s with state := .sendingResult }
    rw [hat] at ht ⊢
    exact ⟨⟨hs, ho, hf, rfl, hp, ht⟩, rfl⟩
  rintro g₁ s₁ ⟨h₁, hg⟩
  rw [hg] at h₁ ⊢
  refine keeps_seq _ _ _ _ _ (sending_send _ body h₁ hhead hbody) ?_
  rintro g₂ ⟨s₂, ok⟩ ⟨h₂, hbody₂⟩
  cases ok with
  | false => exact sending_cleanup _ h₂
  | true =>
    change Safe A (sendResultBody s₂ body skipEmpty) g₂ _
    unfold sendResultBody
    split
    · exact sending_answered h₂
    · refine keeps_seq _ _ _ _ _ (sending_send _ body h₂ hbody₂ hbody₂) ?_
      rintro g₃ ⟨s₃, ok⟩ ⟨h₃, -⟩
      cases ok with
      | false => exact sending_cleanup _ h₃
      | true => exact sending_answered h₃

/-- The session waits for the first message. -/
def Waiting (T : Turn) (g : Ghost) (s : Session) : Prop :=
  Sound T g s ∧ s.Open ∧ s.closeAfterSend = false ∧ s.state = .waitHeader ∧
    g.phase = .receiving [] ∧ s.payload = [] ∧ s.fileSize = 0

theorem waiting_fail {cfg : ServerConfig} (status : AckStatus) (reason : String)
    (h : Waiting T g s) : Safe A (failWithAck s status reason) g (Stable cfg T) := by
  obtain ⟨hs, ho, -, hst, hp, hn, hz⟩ := h
  exact failWithAck_stable status reason hs ho (hp.trans (by rw [hn])) (by rw [hz]; omega)
    (by simp [hst])

theorem waiting_cleanup {cfg : ServerConfig} (reason : String) (h : Waiting T g s) :
    Safe A (cleanup s reason) g (Stable cfg T) :=
  cleanup_stable reason h.1 h.2.1.1 (live_receiving h.2.2.2.2.1)

theorem handleResultRequest_stable (h : Waiting T g s) :
    Safe A (handleResultRequest e s) g (Stable e.toServerConfig T) := by
  unfold handleResultRequest
  split
  · exact waiting_fail _ _ h
  · exact waiting_cleanup _ h
  · refine (keeps_ask_bind _ _ _ _ _ _).mpr ⟨trivial, fun kept _ => ?_⟩
    cases kept with
    | none => exact waiting_fail _ _ h
    | some kept =>
      dsimp only
      split
      · exact waiting_fail _ _ h
      · obtain ⟨hs, ho, hf, hst, hp, hn, hz⟩ := h
        exact keeps_mono _ _ _ _ (fun _ _ h => h.1)
          (sendResult_answered _ _ _ hs ho hf (by simp [hst]) (.inr ⟨hp, hn⟩)
            (sendsOwn_receiving _ hp) (sendsOwn_receiving _ hp))

theorem then_count {n : ℕ} {p : P Session} {Q : Ghost → Session → Prop} (h : Safe A p g Q) :
    Safe A (p >>= fun s => pure (s, n)) g (fun g r => Q g r.1) :=
  keeps_seq _ _ _ _ _ h fun _ _ hq => hq

theorem acceptHeader_stable (n : ℕ) (h : Waiting T g s) :
    Safe A (acceptHeader e s n) g (fun g r => Stable e.toServerConfig T g r.1) := by
  unfold acceptHeader
  split
  · exact then_count (waiting_fail _ _ h)
  · exact then_count (waiting_cleanup _ h)
  · rename_i header hd
    obtain ⟨hs, ho, hf, hst, hp, hn, hz⟩ := h
    obtain ⟨-, -, hname, hsize⟩ := decodeUploadHeader_ok _ _ hd
    refine then_count (safe_transition A e _ _ g _ (by simp [hst]) fun b => ?_)
    have ht := timerOk_armTimer (e := e)
      (s := { s with fileSize := header.fileSize, filename := header.filename,
                     framer := Framer.reset .uploadTrailer .uploadTrailer, state := .receiving })
      (.inr (.inl rfl))
    obtain ⟨t, hat⟩ := armTimer_eq (e := e)
      { s with fileSize := header.fileSize, filename := header.filename,
               framer := Framer.reset .uploadTrailer .uploadTrailer, state := .receiving }
    rw [hat] at ht ⊢
    refine ⟨hs, .inr (.inr ⟨ho, hf, ?_, ht, hsize, hname⟩)⟩
    exact hp.trans (congrArg Phase.receiving hn.symm)

theorem consumeHeader_stable (data : Bytes) (h : Waiting T g s)
    (ht : TimerOk e.toServerConfig s) :
    Safe A (consumeHeader e s data) g (fun g r => Stable e.toServerConfig T g r.1) := by
  have h' : Waiting T g { s with framer := (s.framer.feed data).1 } := h
  unfold consumeHeader headerFramed
  dsimp only
  split
  · obtain ⟨hs, ho, hf, hst, hp, hn, hz⟩ := h
    refine ⟨hs, .inr (.inr ⟨ho, hf, ?_⟩)⟩
    unfold Working
    rw [hst]
    exact ⟨hp, hn, hz, ht⟩
  · split
    · exact then_count (handleResultRequest_stable h')
    · exact acceptHeader_stable _ h'
  all_goals first
    | exact then_count (waiting_cleanup _ h')
    | exact then_count (waiting_fail _ _ h')

theorem sound_countPayload (payload : Bytes) (h : Sound T g s) :
    Sound T g (countPayload s payload) := by
  obtain ⟨hid, hc, hcrc, hk, ht⟩ := h
  refine ⟨hid, ?_, ?_, hk, ht⟩
  · simp [countPayload, hc]
  · simp [countPayload, hcrc, crc32_append]

theorem copySlots_stable (fuel : ℕ) (rest p : Bytes) (hf : rest.length < fuel)
    (hs : Sound T g s) (ho : s.cleanupStarted = false) (hp : g.phase = .receiving p) :
    Safe A (copySlots e s fuel rest) g (fun g r =>
      if r.2 then r.1 = s ∧ Sound T g s ∧ g.phase = .receiving (p ++ rest)
      else Stable e.toServerConfig T g r.1) := by
  induction fuel generalizing g rest p with
  | zero => omega
  | succ fuel ih =>
    unfold copySlots
    split
    · rename_i he
      have hn : rest = [] := by simpa using he
      refine ⟨rfl, hs, ?_⟩
      rw [hn, List.append_nil]
      exact hp
    · rename_i he
      have hlen : 0 < rest.length := by
        rw [List.length_pos_iff]
        simpa using he
      refine (keeps_ask_bind _ _ _ _ _ _).mpr ⟨trivial, fun acquired _ => ?_⟩
      cases acquired with
      | false =>
        refine keeps_seq _ _ _ _ _ (Q := Stable e.toServerConfig T)
          (cleanup_stable _ hs ho (live_receiving hp)) ?_
        exact fun _ _ hq => hq
      | true =>
        refine (keeps_ask_bind _ _ _ _ _ _).mpr ⟨⟨hs.1, p, hp⟩, fun _ _ => ?_⟩
        have hpos := e.chunk_pos
        have hrec := ih (g := g.next (.commitSlot s.id (rest.take e.chunkSize)) ())
          (rest.drop e.chunkSize) (p ++ rest.take e.chunkSize) (by simp; omega) hs
          (by simp [Ghost.next, hp, Ghost.commit])
        rw [List.append_assoc, List.take_append_drop] at hrec
        exact hrec

/-- The session takes payload. -/
def Receiving (cfg : ServerConfig) (T : Turn) (g : Ghost) (s : Session) : Prop :=
  Sound T g s ∧ s.Open ∧ s.closeAfterSend = false ∧ s.state = .receiving ∧
    g.phase = .receiving s.payload ∧ TimerOk cfg s ∧ s.Ticketed

theorem receiving_stable {cfg : ServerConfig} (h : Receiving cfg T g s) : Stable cfg T g s := by
  obtain ⟨hs, ho, hf, hst, hp, ht⟩ := h
  refine ⟨hs, .inr (.inr ⟨ho, hf, ?_⟩)⟩
  unfold Working
  rw [hst]
  exact ⟨hp, ht⟩

theorem consumePayload_stable (data : Bytes) (h : Receiving e.toServerConfig T g s) :
    Safe A (consumePayload e s data) g (fun g r => Stable e.toServerConfig T g r.1) := by
  obtain ⟨hs, ho, hf, hst, hp, ht⟩ := h
  unfold consumePayload
  dsimp only
  generalize hn : min (s.fileSize - s.receivedBytes) data.length = n
  refine keeps_seq _ _ _ _ _
    (copySlots_stable (n + 1) (data.take n) s.payload (by simp)
      (sound_countPayload (data.take n) hs) ho.1 hp) ?_
  rintro g₁ ⟨s₁, copied⟩ h₁
  cases copied with
  | false => exact h₁
  | true =>
    obtain ⟨rfl, hs₁, hp₁⟩ := h₁
    refine then_count (safe_applyBackpressure A _ g₁ _ fun b => ?_)
    exact receiving_stable ⟨hs₁, ho, hf, hst, hp₁, ht⟩

theorem analyzeAndSendResult_stable (hs : Sound T g s) (ho : s.Open)
    (hf : s.closeAfterSend = false) (hst : s.state = .verifying)
    (hp : g.phase = .receiving s.payload) (ha : Acknowledged g s) :
    Safe A (analyzeAndSendResult e s) g (Stable e.toServerConfig T) := by
  refine keeps_seq _ _ _ _ _
    (Q := fun g' s' => g' = g ∧ Sound T g s' ∧ s'.Open ∧ s'.closeAfterSend = false ∧
      s'.state = .analyzing ∧ s'.payload = s.payload ∧ Acknowledged g s') ?_ ?_
  · refine safe_transition A e s _ g _ (by simp [hst]) fun b => ?_
    obtain ⟨t, hat⟩ := armTimer_eq (e := e) { s with state := .analyzing }
    rw [hat]
    exact ⟨rfl, hs, ho, hf, rfl, rfl, ha⟩
  · rintro g' s' ⟨hg, hs', ho', hf', hst', hpay, ha'⟩
    rw [hg]
    refine (keeps_ask_bind _ _ _ _ _ _).mpr ⟨⟨hs'.1, ⟨s.payload, hp⟩, ha'⟩, fun _ _ => ?_⟩
    refine ⟨hs', .inr (.inr ⟨ho', hf', ?_⟩)⟩
    unfold Working
    rw [hst']
    exact ⟨by simp [Ghost.next, hp, Ghost.mark, hpay], s', rfl, rfl, rfl, rfl, rfl⟩

theorem verifyAndAck_stable (h : Receiving e.toServerConfig T g s)
    (hz : s.fileSize ≤ s.receivedBytes) :
    Safe A (verifyAndAck e s) g (Stable e.toServerConfig T) := by
  obtain ⟨hs, ho, hf, hst, hp, -, htk⟩ := h
  refine keeps_seq _ _ _ _ _
    (Q := fun g' s' => Sound T g' s' ∧ s'.Open ∧ s'.closeAfterSend = false ∧
      s'.state = .verifying ∧ g'.phase = .receiving s'.payload ∧
      s'.fileSize ≤ s'.receivedBytes ∧ s'.Ticketed) ?_ ?_
  · refine safe_transition A e s _ g _ (by simp [hst]) fun b => ?_
    obtain ⟨t, hat⟩ := armTimer_eq (e := e) { s with state := .verifying }
    rw [hat]
    exact ⟨hs, ho, hf, rfl, hp, hz, htk⟩
  rintro g₁ s₁ ⟨hs₁, ho₁, hf₁, hst₁, hp₁, hz₁, htk₁⟩
  split
  · exact cleanup_stable _ hs₁ ho₁.1 (live_receiving hp₁)
  · split
    · exact failWithAck_stable _ _ hs₁ ho₁ hp₁ hz₁ (by simp [hst₁])
    · refine keeps_seq _ _ _ _ _
        (Q := fun g' r => Sound T g' r.1 ∧ r.1.Open ∧ r.1.closeAfterSend = false ∧
          r.1.state = .verifying ∧ g'.phase = .receiving r.1.payload ∧
          (r.2 = true → Acknowledged g' r.1)) ?_ ?_
      · exact safe_send A s₁ _ g₁ _ ho₁.2 hs₁.1 (sendsOwn_receiving _ hp₁)
          ⟨hs₁, ho₁, hf₁, hst₁, hp₁, fun _ => ⟨htk₁, List.getLast?_concat⟩⟩
          ⟨hs₁, ho₁, hf₁, hst₁, hp₁, fun h => by simp at h⟩
      · rintro g₂ ⟨s₂, ok⟩ ⟨hs₂, ho₂, hf₂, hst₂, hp₂, ha₂⟩
        cases ok with
        | false => exact cleanup_stable _ hs₂ ho₂.1 (live_receiving hp₂)
        | true => exact analyzeAndSendResult_stable hs₂ ho₂ hf₂ hst₂ hp₂ (ha₂ rfl)

theorem consumeTrailer_stable (data : Bytes) (h : Receiving e.toServerConfig T g s)
    (hz : s.fileSize ≤ s.receivedBytes) :
    Safe A (consumeTrailer e s data) g (fun g r => Stable e.toServerConfig T g r.1) := by
  have h' : Receiving e.toServerConfig T g { s with framer := (s.framer.feed data).1 } := h
  have hl : g.phase.Live := live_receiving h.2.2.2.2.1
  unfold consumeTrailer trailerFramed
  dsimp only
  split
  · exact receiving_stable h'
  · exact then_count (verifyAndAck_stable h' hz)
  · exact then_count (failWithAck_stable _ _ h'.1 h'.2.1 h'.2.2.2.2.1 hz (by simp [h.2.2.2.1]))
  · exact then_count (cleanup_stable _ h'.1 h'.2.1.1 hl)

theorem consumeDone_stable (data : Bytes) (h : Stable e.toServerConfig T g s) (ho : s.Open)
    (hf : s.closeAfterSend = false) (hst : s.state = .waitDone) :
    Safe A (consumeDone s data) g (fun g r => Stable e.toServerConfig T g r.1) := by
  have hw : Working e.toServerConfig g s := by
    rcases h.2 with hc | hc | hc
    · simp [ho.1] at hc
    · simp [hf] at hc
    · exact hc.2.2
  unfold consumeDone
  dsimp only
  split
  · refine ⟨h.1, .inr (.inr ⟨ho, hf, ?_⟩)⟩
    unfold Working at hw ⊢
    rw [hst] at hw
    simp only [hst]
    exact hw
  · exact then_count (cleanup_stable _ h.1 ho.1 (working_live hw))
  · exact then_count (cleanup_stable _ h.1 ho.1 (working_live hw))

end Stages

section Callbacks

variable {A} {e : Env} {T : Turn} {g : Ghost} {s : Session}

theorem stable_working {cfg : ServerConfig} (h : Stable cfg T g s)
    (hc : s.cleanupStarted = false) (hf : s.closeAfterSend = false) :
    s.Open ∧ Working cfg g s := by
  rcases h.2 with h | h | h
  · simp [hc] at h
  · simp [hf] at h
  · exact ⟨h.1, h.2.2⟩

theorem working_waiting {cfg : ServerConfig} (h : Stable cfg T g s)
    (hc : s.cleanupStarted = false) (hf : s.closeAfterSend = false)
    (hst : s.state = .waitHeader) : Waiting T g s ∧ TimerOk cfg s := by
  obtain ⟨ho, hw⟩ := stable_working h hc hf
  unfold Working at hw
  rw [hst] at hw
  exact ⟨⟨h.1, ho, hf, hst, hw.1, hw.2.1, hw.2.2.1⟩, hw.2.2.2⟩

theorem working_receiving {cfg : ServerConfig} (h : Stable cfg T g s)
    (hc : s.cleanupStarted = false) (hf : s.closeAfterSend = false)
    (hst : s.state = .receiving) : Receiving cfg T g s := by
  obtain ⟨ho, hw⟩ := stable_working h hc hf
  unfold Working at hw
  rw [hst] at hw
  exact ⟨h.1, ho, hf, hst, hw.1, hw.2⟩

theorem consumeStage_stable (data : Bytes) (h : Stable e.toServerConfig T g s)
    (hc : s.cleanupStarted = false) (hf : s.closeAfterSend = false) :
    Safe A (consumeStage e s data) g (fun g r => Stable e.toServerConfig T g r.1) := by
  obtain ⟨ho, hw⟩ := stable_working h hc hf
  unfold consumeStage
  split
  · rename_i hst
    obtain ⟨hwait, ht⟩ := working_waiting h hc hf hst
    exact consumeHeader_stable data hwait ht
  · rename_i hst
    have hr := working_receiving h hc hf hst
    split
    · exact consumePayload_stable data hr
    · rename_i hz
      exact consumeTrailer_stable data hr (by omega)
  · rename_i hst
    exact consumeDone_stable data h ho hf hst
  · exact then_count (cleanup_stable _ h.1 hc (working_live hw))

theorem readLoop_stable (fuel : ℕ) (data : Bytes) (h : Stable e.toServerConfig T g s) :
    Safe A (readLoop e fuel s data) g (Stable e.toServerConfig T) := by
  refine keeps_readLoop (I := fun _ => Stable e.toServerConfig T) (fun _ _ _ h _ => h) ?_
    fuel data (.inr fun _ _ _ h => h) h
  intro data g s h _ hc hf
  refine keeps_mono _ _ _ _ ?_ (consumeStage_stable data h hc hf)
  exact fun _ _ h => ⟨fun _ => h, fun _ => h⟩

theorem readSlot_stable (data : Bytes) (h : Receiving e.toServerConfig T g s)
    (hlt : s.receivedBytes < s.fileSize) :
    Safe A (readSlot e s data) g (Stable e.toServerConfig T) := by
  obtain ⟨hs, ho, hf, hst, hp, ht⟩ := h
  unfold readSlot
  dsimp only
  generalize hn : min (s.fileSize - s.receivedBytes) data.length = n
  refine (keeps_ask_bind _ _ _ _ _ _).mpr ⟨⟨hs.1, s.payload, hp⟩, fun _ _ => ?_⟩
  have hc : Receiving e.toServerConfig T
      (g.next (.commitSlot s.id (data.take n)) ()) (countPayload s (data.take n)) := by
    refine ⟨sound_countPayload _ hs, ho, hf, hst, ?_, ht⟩
    simp [Ghost.next, hp, Ghost.commit, countPayload]
  refine keeps_seq _ _ _ _ _
    (Q := fun g' s' => Receiving e.toServerConfig T g' s' ∧
      s'.fileSize = s.fileSize ∧ s'.receivedBytes = s.receivedBytes + (data.take n).length) ?_ ?_
  · exact safe_applyBackpressure A _ _ _ fun b => ⟨hc, rfl, rfl⟩
  · rintro g₁ s₁ ⟨h₁, hfs, hrb⟩
    split
    · exact receiving_stable h₁
    · rename_i hne
      have hlt' : n < data.length := by
        by_contra hge
        apply hne
        simp only [List.isEmpty_iff, List.drop_eq_nil_iff]
        omega
      refine keeps_seq _ _ _ _ _ (consumeTrailer_stable _ h₁ ?_) fun _ _ hq => hq
      rw [hfs, hrb, List.length_take]
      omega

theorem stable_restart {cfg : ServerConfig} (now : ℕ) (h : Stable cfg T g s) :
    Stable cfg T g { s with timer := s.timer.restart now } := by
  refine ⟨h.1, ?_⟩
  rcases h.2 with hc | hc | ⟨ho, hf, hw⟩
  · exact .inl hc
  · exact .inr (.inl hc)
  · refine .inr (.inr ⟨ho, hf, ?_⟩)
    have hr : TimerOk cfg s → TimerOk cfg { s with timer := s.timer.restart now } :=
      timerOk_restart now
    unfold Working at hw ⊢
    dsimp only
    split at hw
    · exact ⟨hw.1, hw.2.1, hw.2.2.1, hr hw.2.2.2⟩
    · exact ⟨hw.1, hr hw.2.1, hw.2.2⟩
    · exact hw
    · exact ⟨hw.1, hr hw.2⟩
    · exact ⟨hw.1, hr hw.2⟩
    · exact hw
    · exact hw

theorem stable_setReading {cfg : ServerConfig} (b : Bool) (h : Stable cfg T g s)
    (hc : s.cleanupStarted = false) : Stable cfg T g (setReading s b) := by
  refine ⟨h.1, ?_⟩
  rcases h.2 with hcl | hcl | hcl
  · simp [hc] at hcl
  · exact .inr (.inl hcl)
  · exact .inr (.inr hcl)

theorem stable_resumeReading {cfg : ServerConfig} (h : Stable cfg T g s) :
    Safe A (resumeReading s) g (Stable cfg T) := by
  by_cases hc : s.cleanupStarted = true
  · unfold resumeReading
    rw [if_pos (by simp [hc])]
    exact h
  · exact safe_resumeReading A s g _ fun b => stable_setReading b h (by simpa using hc)

theorem stable_cleanup {cfg : ServerConfig} (reason : String) (h : Stable cfg T g s) :
    Safe A (cleanup s reason) g (Stable cfg T) := by
  by_cases hc : s.cleanupStarted = true
  · unfold cleanup
    rw [if_pos hc]
    exact h
  · have ho : s.cleanupStarted = false := by simpa using hc
    rcases h.2 with hcl | hcl | hcl
    · exact absurd hcl.1 hc
    · exact cleanup_stable reason h.1 ho (live_receiving hcl.2.2.1)
    · exact cleanup_stable reason h.1 ho (working_live hcl.2.2)

theorem onRead_stable (data : Bytes) (h : Stable e.toServerConfig T g s)
    (hslot : s.slotAcquired = true → Receiving e.toServerConfig T g s ∧
      s.receivedBytes < s.fileSize) :
    Safe A (onRead e s data) g (Stable e.toServerConfig T) := by
  unfold onRead
  dsimp only
  split
  · rename_i hs
    obtain ⟨⟨h1, h2, h3, h4, h5, h6, h7⟩, hlt⟩ := hslot hs
    exact readSlot_stable data ⟨h1, h2, h3, h4, h5, timerOk_restart e.now h6, h7⟩ hlt
  · exact readLoop_stable _ data (stable_restart e.now h)

/-- A slot is handed out only to a session that takes payload. -/
theorem onAllocate_stable (h : Stable e.toServerConfig T g s) :
    Safe A (onAllocate e s) g (fun g r => Stable e.toServerConfig T g r.1 ∧
      (r.1.slotAcquired = true → Receiving e.toServerConfig T g r.1 ∧
        r.1.receivedBytes < r.1.fileSize)) := by
  unfold onAllocate
  dsimp only
  split
  · rename_i hst
    refine (keeps_ask_bind _ _ _ _ _ _).mpr ⟨trivial, fun acquired _ => ?_⟩
    cases acquired with
    | false => exact ⟨h, by simp⟩
    | true =>
      refine ⟨h, fun _ => ⟨?_, hst.2⟩⟩
      rcases h.2 with hcl | hcl | hcl
      · simp [hcl.2.2.1] at hst
      · have := hcl.2.2.2.2.1
        omega
      · exact working_receiving h hcl.1.1 hcl.2.1 hst.1
  · exact ⟨h, by simp⟩

theorem onReadable_stable (count : ℕ) (h : Stable e.toServerConfig T g s) :
    Safe A (onReadable e s count) g (Stable e.toServerConfig T) := by
  refine keeps_seq _ _ _ _ _ (onAllocate_stable h) ?_
  rintro g₁ ⟨s₁, size⟩ ⟨h₁, hslot⟩
  refine (keeps_ask_bind _ _ _ _ _ _).mpr ⟨trivial, fun data _ => ?_⟩
  split
  · exact h₁
  · exact onRead_stable data h₁ hslot

theorem onSendComplete_stable (ok : Bool) (h : Stable e.toServerConfig T g s) :
    Safe A (onSendComplete e s ok) g (Stable e.toServerConfig T) := by
  unfold onSendComplete
  split
  · exact h
  split
  · exact stable_cleanup _ h
  rename_i hf
  have hf' : s.closeAfterSend = false := by simpa using hf
  dsimp only
  split
  · rename_i hst
    have hr := stable_restart e.now h
    have hc : s.cleanupStarted = false := by
      rcases h.2 with hcl | hcl | hcl
      · simp [hcl.2.2.1] at hst
      · exact hcl.1.1
      · exact hcl.1.1
    obtain ⟨ho, hw⟩ := stable_working h hc hf'
    unfold Working at hw
    rw [hst] at hw
    refine safe_transition A e _ _ g _ (by simp [hst]) fun b => ?_
    have ht := timerOk_armTimer (e := e)
      (s := { s with timer := s.timer.restart e.now,
                     framer := Framer.reset .downloadDone .downloadDone, state := .waitDone })
      (.inr (.inr (.inr rfl)))
    obtain ⟨t, hat⟩ := armTimer_eq (e := e)
      { s with timer := s.timer.restart e.now,
               framer := Framer.reset .downloadDone .downloadDone, state := .waitDone }
    rw [hat] at ht ⊢
    exact ⟨h.1, .inr (.inr ⟨ho, hf', hw.1, ht⟩)⟩
  · exact stable_restart e.now h

/-- The failure Ack is the only write outstanding, so its completion ends the
session either way. -/
theorem onWrite_stable (ok : Bool) (text : String) (h : Stable e.toServerConfig T g s) :
    Safe A (onWrite e s ok text) g (Stable e.toServerConfig T) := by
  by_cases hf : s.cleanupStarted = false ∧ s.closeAfterSend = true
  · have hp : g.phase.Live := by
      rcases h.2 with hcl | hcl | hcl
      · simp [hf.1] at hcl
      · exact live_receiving hcl.2.2.1
      · simp [hf.2] at hcl
    cases ok with
    | true =>
      refine keeps_seq _ _ _ _ _ (Q := Stable e.toServerConfig T) ?_ fun _ _ hq => hq
      unfold onSendComplete
      rw [if_neg (by simp), if_pos hf.2]
      exact cleanup_stable _ h.1 hf.1 hp
    | false => exact cleanup_stable _ h.1 hf.1 hp
  · have h' : Stable e.toServerConfig T g
        { s with socket := { s.socket with pendingWrites := s.socket.pendingWrites - 1 } } := by
      refine ⟨h.1, ?_⟩
      rcases h.2 with hcl | hcl | hcl
      · exact .inl hcl
      · exact absurd ⟨hcl.1.1, hcl.2.1⟩ hf
      · exact .inr (.inr hcl)
    refine keeps_seq _ _ _ _ _ (onSendComplete_stable ok h') ?_
    intro g₁ s₁ h₁
    cases ok with
    | true => exact h₁
    | false => exact stable_cleanup _ h₁

theorem expire_stable (h : Stable e.toServerConfig T g s) :
    Safe A (SessionManager.expire s) g (Stable e.toServerConfig T) := by
  unfold SessionManager.expire onTimeout
  by_cases hc : s.cleanupStarted = true
  · unfold cleanup
    rw [if_pos hc]
    rcases h.2 with hcl | hcl | hcl
    · exact ⟨h.1, .inl hcl⟩
    · simp [hcl.1.1] at hc
    · simp [hcl.1.1] at hc
  · have ho : s.cleanupStarted = false := by simpa using hc
    rcases h.2 with hcl | hcl | hcl
    · exact absurd hcl.1 hc
    · exact cleanup_stable _ h.1 ho (live_receiving hcl.2.2.1)
    · exact cleanup_stable _ h.1 ho (working_live hcl.2.2)

theorem answered_not_analyzing {cfg : ServerConfig} (h : Answered cfg T g s) (p : Bytes) :
    g.phase ≠ .analyzing p := by
  intro hp
  rcases h.1.2 with hcl | hcl | hcl
  · rcases hcl.2.1 with ha | ha <;> simp [ha] at hp
  · simp [hcl.2.2.1] at hp
  · have hw := hcl.2.2
    have hst := h.2
    unfold Working at hw
    split at hw <;> simp_all

theorem onAnalysisComplete_stable (result : AnalysisResult)
    (h : Stable e.toServerConfig T g s) (hT : T.taking = .took)
    (hA : ∀ p, g.phase = .analyzing p → A p result) :
    Safe A (onAnalysisComplete e s result) g (fun g s =>
      Stable e.toServerConfig T g s ∧ ∀ p, g.phase ≠ .analyzing p) := by
  unfold onAnalysisComplete
  split
  · rename_i hg
    have hst : s.state ≠ .analyzing := by
      simp only [Bool.or_eq_true, decide_eq_true_eq] at hg
      rcases h.2 with hcl | hcl | hcl
      · simp [hcl.2.2.1]
      · exact hcl.2.2.2.2.2
      · exact hg.resolve_left (by simp [hcl.1.1])
    exact ⟨h, answered_not_analyzing ⟨h, hst⟩⟩
  · rename_i hg
    simp only [Bool.or_eq_true, decide_eq_true_eq, not_or, Bool.not_eq_true, not_not] at hg
    obtain ⟨hc, hst⟩ := hg
    have hf : s.closeAfterSend = false := by
      rcases h.2 with hcl | hcl | hcl
      · simp [hc] at hcl
      · exact absurd hst hcl.2.2.2.2.2
      · exact hcl.2.1
    obtain ⟨ho, hw⟩ := stable_working h hc hf
    unfold Working at hw
    rw [hst] at hw
    obtain ⟨hid, hcount, hcrc, hk, ht⟩ := h.1
    obtain ⟨hw, hpl⟩ := hw
    refine (keeps_ask_bind _ _ _ _ _ _).mpr
      ⟨⟨hid, hw, ht.1.trans hT, hA _ hw, hpl⟩, fun _ _ => ?_⟩
    refine (keeps_ask_bind _ _ _ _ _ _).mpr
      ⟨⟨hid, (s, result), g.guards, rfl, rfl, rfl⟩, fun _ _ => ?_⟩
    have hphase : Ghost.answer g.phase = .answered s.payload := by simp [hw, Ghost.answer]
    refine keeps_mono _ _ _ _ (fun _ _ h => ⟨h.1, answered_not_analyzing h⟩)
      (sendResult_answered _ _ _ ⟨hid, hcount, hcrc, rfl, ht⟩ ho hf (by simp [hst])
        (.inl hphase) ?_ ?_)
    · intro p hp
      have hpp : s.payload = p := by simpa using hphase.symm.trans hp
      exact ⟨(s, result), g.guards, rfl, hpp, .inl rfl⟩
    · intro p hp
      have hpp : s.payload = p := by simpa using hphase.symm.trans hp
      exact ⟨(s, result), g.guards, rfl, hpp, .inr rfl⟩

end Callbacks

end Session

end LogTransfer
