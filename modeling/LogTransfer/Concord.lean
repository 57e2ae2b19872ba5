import LogTransfer.Peers

/-!
# Conforming peers do not accuse each other

A client at rest and a server without a session start out on an errand. In
every joint run the server sends the replies of the errand and nothing else and
closes only behind DownloadDone; the client reports no error, gives up nothing
and stores the result that the server has on record.
-/

set_option autoImplicit false

namespace LogTransfer
open Program Interleave

section Starts

variable [Doubles] (e : Errand)

/-- No connection, no command and no upload; for a resumed result, the claim on
it with the bytes received so far. -/
def Rested (c : ClientSide) : Prop :=
  ∃ s, c.thread = .done s ∧ c.ghost = (Client.Wire.initial, Client.Call.initial) ∧
    s.socket = none ∧ Client.Call.Prepared e s ∧ c.shared.commands = [] ∧
    c.shared.reader.Sound ∧
    (e.Uploads → c.shared.reader.uploading = false ∧ c.shared.reader.ring = [])

/-- A server that has no session and nobody waiting, after any past in which no
analysis was aborted; for a resumed result, with the record of it. -/
def Vacant (cfg : ServerConfig) (d : ServerSide) : Prop :=
  ∃ m, d.thread = .done m ∧ d.ghost.2 = Visit.initial ∧ m.session = none ∧
    d.shared.backlog = 0 ∧ d.shared.inbox = [] ∧
    Reach (tapeMachine cfg) Orderly tapeInitial ⟨d.shared, d.ghost.1, d.thread⟩ ∧
    (¬ e.Uploads → d.shared.retained = some e.kept)

variable {e} {ip : Bytes} {port : ℕ} {files : Bytes → Option Bytes} {cfg : ServerConfig}
  {c : ClientSide} {d : ServerSide}

theorem rested_held (h : Rested e c) : ClientHeld e ip port files c := by
  obtain ⟨s, ht, hg, hk, hp, hcmd, hsound, hidle⟩ := h
  refine ⟨?_, ?_⟩
  · rw [ht, hg]
    refine ⟨.inl ⟨⟨fun _ k hs => ?_, fun k hs => ?_⟩, hp.1, .inl rfl⟩, .inl ⟨rfl, rfl, rfl, hk, hp⟩⟩
    · simp [hk] at hs
    · simp [hk] at hs
  · rw [hg]
    refine ⟨⟨hsound, Client.Conversation.nil⟩, ?_, (fun hn => absurd rfl hn),
      (fun hs => by cases hs), (fun hd => by cases hd), (fun hs => by cases hs), ⟨rfl, hidle⟩, rfl,
      Client.late_short (Nat.zero_le _)⟩
    simp [Client.Call.initial, hcmd]

theorem orderly_initial (cfg : ServerConfig) :
    Held (tapeMachine cfg) orderlyRules (overlaid (Joint OwnAnalysis Own) fun _ => TapeTrue cfg)
      (bothHeld (Idle cfg) TapeIdle) tapeInitial :=
  ⟨⟨idle_initial cfg, fun s hs => by cases hs⟩, ⟨own_initial, rfl, List.forall_mem_nil _⟩,
    tape_initial cfg⟩

theorem vacant_held (h : Vacant e cfg d) : ServerHeld e cfg d := by
  obtain ⟨m, ht, hv, hn, hb, -, hr, hret⟩ := h
  obtain ⟨hidle, hj⟩ := reach_held _ (orderly_discipline cfg) (orderly_initial cfg) hr
  simp only [ht] at hidle
  have hphase : d.ghost.1.1.phase = .vacant ∨ d.ghost.1.1.phase = .aborted := by
    have hready := hidle.1.1.2.2
    rw [hn] at hready
    exact hready.1
  refine ⟨?_, hj, ?_⟩
  · rw [ht]
    refine ⟨hidle, ?_⟩
    simp only [VisitIdle, hn, hv]
    exact .inl ⟨rfl, rfl, rfl, rfl, rfl, rfl⟩
  · rw [hv]
    refine ⟨.inl hb, (fun ha => by cases ha), fun p hp => ?_, fun hk => ?_,
      (fun _ hmany => by simp [Visit.initial] at hmany), List.nil_prefix, (fun hs => absurd rfl hs),
      (fun hc => by cases hc)⟩
    · rcases hphase with hq | hq <;> simp [hq] at hp
    · exact hret (hk.resolve_right fun hk => by cases hk)

theorem joined_start (hc : Rested e c) (hd : Vacant e cfg d) : Joined c d := by
  obtain ⟨s, -, hg, -⟩ := hc
  obtain ⟨m, -, hv, -, -, hi, -⟩ := hd
  refine ⟨fun hn => ?_, ?_, fun he => ?_⟩
  · rw [hg] at hn
    exact absurd rfl hn
  · rw [hv, hi]
    exact List.nil_prefix
  · rw [hg] at he
    cases he

end Starts

section Agreement

variable [Doubles] (e : Errand)

/-- What the client does when it has something against the server: it ends the
session, aborts an upload, reports an error or counts unexpected bytes. -/
def Accuses : Client.Op → Prop
  | .emit (.session .idle) | .emit (.log .error _) | .abortUpload | .note (.unexpected _) => True
  | _ => False

/-- Neither side has anything against the other. A session is closed through
`abortSession` alone. -/
structure Concord (c : ClientSide) (d : ServerSide) : Prop where
  calm : ∀ op, c.pending = some op → ¬ Accuses op
  replies : ∀ id bytes, d.pending = some (.send id bytes) →
    d.ghost.2.received = e.request ∧ d.ghost.2.sent ++ [bytes] <+: e.replies
  closing : ∀ id, d.pending = some (.abortSession id) →
    d.ghost.2.received = e.request ++ encodeDownloadDone ∧ d.ghost.2.sent = e.replies
  ended : ∀ m s, d.thread = .done m → m.session = some s → s.cleanupStarted = true →
    s.finishReason = "completed" ∧ d.ghost.2.received = e.request ++ encodeDownloadDone
  fetched : c.ghost.2.done = true → c.shared.resultCsv = e.csv ∧
    d.shared.retained = some e.kept ∧ c.ghost.1.bytes = e.request ++ encodeDownloadDone
  finished : c.ghost.2.done = true → ∀ m, d.thread = .done m →
    d.ghost.2.received = c.ghost.1.bytes → d.ghost.2.closed = true
  listening : c.ghost.2.done = true → ∀ m s, d.thread = .done m → m.session = some s →
    s.cleanupStarted = false → 0 < s.socket.pendingWrites ∨ s.socket.reading = true

variable {e} {ip : Bytes} {port : ℕ} {files : Bytes → Option Bytes} {cfg : ServerConfig}
  {c : ClientSide} {d : ServerSide}

omit [Doubles] in
theorem midway_short {f : Framer} {expected alternate : MessageType} {m part : Bytes}
    (h : Client.Midway f expected alternate m part) : part.length < m.length := by
  obtain ⟨q, hq, rfl, -⟩ := h
  have := List.length_pos_iff.mpr hq
  rw [List.length_append]
  omega

/-- A session that goes on has not read all of DownloadDone. -/
theorem seat_unread {v : Visit} {s : Session} (hl : Visit.Live e v s) (h : Visit.Seat e [] v s) :
    v.received.length < e.request.length + encodeDownloadDone.length := by
  have hpos : 0 < encodeDownloadDone.length := by decide
  rcases h with hgone | ⟨-, ⟨-, -, -, -, -, part, hr, hmid⟩ | ⟨-, -, -, -, ha, hbody⟩ |
    ⟨-, -, -, -, -, -, hr⟩ | ⟨-, -, -, -, hr⟩ | ⟨-, -, -, -, part, hr, hmid⟩⟩
  · have hopen := hl.1
    simp [hgone.1] at hopen
  · have hshort := midway_short hmid
    have hopening : e.opening.length ≤ e.request.length := by
      cases ht : e.task with
      | upload path =>
        rw [Errand.request_upload ht, List.append_assoc, List.length_append]
        omega
      | resume n => rw [Errand.request_resume ht]
    rw [hr, List.append_nil]
    omega
  · obtain ⟨path, ht⟩ := ha.1
    rw [Errand.request_upload ht]
    rcases hbody with ⟨hlt, -, hr⟩ | ⟨-, part, hr, hmid⟩
    · rw [hr]
      simp only [List.length_append, List.length_nil]
      omega
    · have hshort := midway_short hmid
      rw [hr]
      simp only [List.length_append, List.length_nil]
      omega
  · rw [hr, List.append_nil]
    omega
  · rw [hr, List.append_nil]
    omega
  · have hshort := midway_short hmid
    rw [hr]
    simp only [List.length_append, List.length_nil]
    omega

theorem done_thanked (hc : ClientHeld e ip port files c) (h : c.ghost.2.done = true) :
    c.ghost.2.stage = .thanked ∧ c.ghost.1.bytes = e.request ++ encodeDownloadDone := by
  have hst := (hc.2.2.done h).2
  have hh := hc.2.2.handed
  simp only [Client.Handed, hst] at hh
  exact ⟨hst, hh⟩

theorem concord_calm (hc : ClientHeld e ip port files c) (op : Client.Op)
    (hp : c.pending = some op) : ¬ Accuses op := by
  have hm := (held_pending _ hc hp).2
  cases op with
  | emit event =>
    cases event with
    | session session =>
      cases session with
      | idle => exact hm.elim
      | _ => exact fun h => h
    | log level message =>
      cases level with
      | error => exact hm.elim
      | _ => exact fun h => h
    | _ => exact fun h => h
  | abortUpload => exact hm.elim
  | note n =>
    cases n with
    | unexpected count => exact hm.elim
    | _ => exact fun h => h
  | _ => exact fun h => h

theorem concord_finished (hd : ServerHeld e cfg d) {m : Loop} (hm : d.thread = .done m)
    (hr : d.ghost.2.received = e.request ++ encodeDownloadDone) : d.ghost.2.closed = true := by
  have hidle := hd.1
  rw [hm] at hidle
  have hv : VisitIdle e d.ghost.2 m := hidle.2
  cases hs : m.session with
  | none =>
    simp only [VisitIdle, hs] at hv
    rcases hv with ⟨-, hblank, -⟩ | hclosed
    · have hpos := e.request_pos
      rw [hblank] at hr
      have hlen := congrArg List.length hr
      rw [List.length_nil, List.length_append] at hlen
      omega
    · exact hclosed.2
  | some s =>
    simp only [VisitIdle, hs] at hv
    rcases id hv with hgone | ⟨hl, -⟩
    · exact hgone.2.2.2.2.2.2.1
    · have hshort := seat_unread hl hv
      rw [hr, List.length_append] at hshort
      exact absurd hshort (lt_irrefl _)

theorem concord_listening (hd : ServerHeld e cfg d) (hsent : d.ghost.2.sent = e.replies)
    {m : Loop} {s : Session} (hm : d.thread = .done m) (hs : m.session = some s)
    (hopen : s.cleanupStarted = false) : 0 < s.socket.pendingWrites ∨ s.socket.reading = true := by
  have hidle := hd.1
  rw [hm] at hidle
  have hv : VisitIdle e d.ghost.2 m := hidle.2
  simp only [VisitIdle, hs] at hv
  have hpos := e.replies_pos
  rcases hv with hgone | ⟨hl, ⟨-, hn, -⟩ | ⟨-, hn, -⟩ | ⟨-, hn, -, -, ha, -⟩ | ⟨-, -, -, hfew, -⟩ |
    ⟨-, -, -, hread, -⟩⟩
  · simp [hgone.1] at hopen
  · rw [← hsent, hn] at hpos
    cases hpos
  · rw [← hsent, hn] at hpos
    cases hpos
  · obtain ⟨path, ht⟩ := ha.1
    rw [hsent, Errand.replies_upload ht] at hn
    simp at hn
  · have hsum := hl.2.2.2.1
    rw [hsent] at hsum
    exact .inl (by omega)
  · exact .inr hread

/-- In every joint run of conforming peers neither accuses the other, and a
client that is done has the result the server has on record. -/
theorem conforming_peers_agree (ht : Doubles.Truncates inferInstance) (cfg : ServerConfig)
    (e : Errand) (ip : Bytes) (port : ℕ) (files : Bytes → Option Bytes)
    (hf : Client.Keeping e files) (c₀ c : ClientSide) (d₀ d : ServerSide) (hc : Rested e c₀)
    (hd : Vacant e cfg d₀)
    (h : Together (Client.callMachine files) (visitMachine cfg) (wiring e ip port) c₀ d₀ c d) :
    Concord e c d := by
  have hsize : e.csv.length ≤ kMaxCsvSize := csv_size ht e.content e.size_le
  obtain ⟨hc, hd, hk⟩ := together_held _ _ _ (Client.call_discipline hsize hf)
    (visit_discipline hsize cfg)
    (fun c d a c' hc hd hk hw hs => ⟨client_allowed hf hc hd hk a hw, client_joined hc hk a hw hs⟩)
    (fun c d a d' hc hd hk hw hs => ⟨server_allowed hf hc hd hk a hw, server_joined hk a hw hs⟩)
    (rested_held hc) (vacant_held hd) (joined_start hc hd) h
  have hsent (hdone : c.ghost.2.done = true) : d.ghost.2.sent = e.replies :=
    thanked_sent hc hd hk (done_thanked hc hdone).1
  refine ⟨concord_calm hc, fun id bytes hp => ?_, fun id hp => ?_, fun m s hm hs hcl => ?_,
    fun hdone => ⟨hc.2.2.stored (hc.2.2.done hdone).1, ?_, (done_thanked hc hdone).2⟩,
    fun hdone m hm hr => concord_finished hd hm (hr.trans (done_thanked hc hdone).2),
    fun hdone m s hm hs => concord_listening hd (hsent hdone) hm hs⟩
  · have hm := (held_pending _ hd hp).2
    exact ⟨hm.1, hm.2.1⟩
  · have hm := (held_pending _ hd hp).2
    exact ⟨hm.1, hm.2.1⟩
  · have hidle := hd.1
    rw [hm] at hidle
    have hv : VisitIdle e d.ghost.2 m := hidle.2
    simp only [VisitIdle, hs] at hv
    rcases hv with hgone | ⟨hl, -⟩
    · exact ⟨hgone.2.2.2.2.1, hgone.2.2.2.2.2.2.2.1⟩
    · have hopen := hl.1
      simp [hcl] at hopen
  · by_cases hu : e.Uploads
    · refine hd.2.2.retained (.inr (hd.2.2.shelved hu ?_))
      obtain ⟨path, htask⟩ := hu
      rw [hsent hdone, Errand.replies_upload htask]
      simp
    · exact hd.2.2.retained (.inl hu)

end Agreement

section Run

/-- Whole numbers, cut off at 64 bits. -/
@[reducible] def cappedDoubles : Doubles :=
  { wholeDoubles with truncate := fun v : ℕ => v % 2 ^ 64 }

theorem capped_truncates : Doubles.Truncates cappedDoubles :=
  fun v => Nat.mod_lt (v : ℕ) (Nat.two_pow_pos 64)

theorem small_named : Client.isAcceptableFileName (bytesOf "a") = none := by decide

theorem small_sized : Client.queryFileSize (bytesOf "x").length = none := by decide

variable [Doubles]

def smallErrand : Errand :=
  { name := bytesOf "a", content := bytesOf "x", task := .upload (bytesOf "p"),
    named := small_named, sized := small_sized, partly := fun _ h => by cases h }

def smallFiles (path : Bytes) : Option Bytes :=
  if path = bytesOf "p" then some (bytesOf "x") else none

def clientStart : ClientSide := Client.clientInitial (Client.Wire.initial, Client.Call.initial)

def serverStart : ServerSide :=
  { shared := World.initial, ghost := ((Ghost.initial, Tape.initial), Visit.initial),
    thread := .done SessionManager.initial }

theorem clientStart_rested : Rested smallErrand clientStart :=
  ⟨_, rfl, rfl, rfl, ⟨rfl, rfl, fun _ h => by cases h⟩, rfl, Client.FileReader.sound_initial,
    fun _ => ⟨rfl, rfl⟩⟩

theorem serverStart_vacant : Vacant smallErrand defaultConfig serverStart :=
  ⟨_, rfl, rfl, rfl, rfl, rfl, .init, fun h => absurd ⟨bytesOf "p", rfl⟩ h⟩

/-- A whole upload: the file arrives at once, the replies arrive at once before
any completion is delivered, and DownloadDone behind the three completions. -/
def dialogue : List (Act Client.Signal Client.Peer ⊕ Act Event Peer) :=
  (Client.posted (.connect [] 1) ++ Client.signal (.async 1) 5).map .inl ++
    (callback .connection 5).map .inr ++
    (Client.signal (.connectDone true []) 2 ++
      Client.posted (.startUpload (bytesOf "p") (bytesOf "a") 1) ++ Client.signal (.async 1) 17 ++
      Client.readerSteps 11 ++ Client.signal (.async 0) 11).map .inl ++
    (arrival (uploadBytes (bytesOf "a") (bytesOf "x")) ++ callback (.readable 100) 6 ++
      parserSteps 17 ++ callback .completion 5).map .inr ++
    (.peer (.arrive smallErrand.stream) :: Client.signal (.readable 65536) 14).map .inl ++
    (callback (.writeDone true "") 0 ++ callback (.writeDone true "") 0 ++
      callback (.writeDone true "") 0 ++ arrival encodeDownloadDone ++
      callback (.readable 100) 2).map .inr

def permitted (c : ClientSide) (d : ServerSide) :
    Act Client.Signal Client.Peer ⊕ Act Event Peer → Bool
  | .inl a => decide (ClientMay smallErrand [] 1 c d a)
  | .inr a => decide (ServerMay c d a)

omit [Doubles] in
theorem small_upload_agreed :
    letI := cappedDoubles
    ∃ (c : ClientSide) (d : ServerSide), c.ghost.2.done = true ∧ d.ghost.2.closed = true ∧
      Concord smallErrand c d := by
  let _ := cappedDoubles
  have hrun : (runTogether (Client.callMachine smallFiles) (visitMachine defaultConfig) permitted
      clientStart serverStart dialogue).map (fun r => (r.1.ghost.2.done, r.2.ghost.2.closed)) =
      some (true, true) := by
    decide +kernel
  obtain ⟨⟨c, d⟩, hcd, hdone⟩ := Option.map_eq_some_iff.mp hrun
  simp only [Prod.mk.injEq] at hdone
  refine ⟨c, d, hdone.1, hdone.2, ?_⟩
  refine conforming_peers_agree capped_truncates defaultConfig smallErrand [] 1 smallFiles ?_
    clientStart c serverStart d clientStart_rested serverStart_vacant ?_
  · intro path h
    cases h
    rfl
  · refine runTogether_together _ _ (wiring smallErrand [] 1) (fun c d a ha => ?_)
      (fun c d a ha => ?_) _ _ _ _ _ hcd
    · have hmay : ClientMay smallErrand [] 1 c d a := of_decide_eq_true ha
      exact hmay
    · have hmay : ServerMay c d a := of_decide_eq_true ha
      exact hmay

end Run

end LogTransfer
