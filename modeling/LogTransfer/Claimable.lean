import LogTransfer.Retention
import LogTransfer.TransferService

/-!
# An acknowledged upload and its claim

The client takes Ack(Ok) for the promise of a result. The server makes the
record only when the analysis completes in a session that is still there, so
the promise is kept exactly as long as the session is not given up in
ANALYZING. `Course` follows one acknowledged upload from its mark to the
guard of `onAnalysisComplete`.
-/

set_option autoImplicit false

namespace LogTransfer
open Program Interleave

/-- The client holds the ticket of the upload. -/
structure ClaimsUpload (v : Client.Service) (s : Session) : Prop where
  available : v.hasClaim = true
  filename : v.claim.filename = s.filename
  fileSize : v.claim.fileSize = s.fileSize
  crc32 : v.claim.crc32 = s.payloadCrc

/-- What `handleAckBytes` does with Ack(Ok) gives the client its ticket. -/
theorem acceptAck_claims {S : Type} (h : (op : Client.Op) → S → Client.Ans op × S) (w : S)
    (v : Client.Service) (ack : Ack) (s : Session) (hf : v.uploadFilename = s.filename)
    (hs : v.uploadTotal = s.fileSize) (hc : v.uploadCrc = s.payloadCrc) :
    ClaimsUpload (eval h (v.acceptAck ack) w).1 s := ⟨rfl, hf, hs, hc⟩

section Requests

/-- A request that carries the ticket of `s` is answered from one fixed result. -/
def Claimable (cfg : ServerConfig) (retained : Option RetainedResult) (s : Session) : Prop :=
  ∃ csv : Bytes, ∀ (v : Client.Service) (id now : ℕ) (rs : List Segment),
    ClaimsUpload v s → v.claim.received ≤ csv.length → v.claim.received ≤ kMaxCsvSize →
    Stream.Cut cfg (Stream.opened cfg id now retained) rs →
    Stream.content rs = (Client.Message.request (Client.Service.requestOf v.claim)).bytes →
    (Stream.deliverAll cfg (Stream.opened cfg id now retained) rs).2.sent.flatten =
      encodeResultHeader { csvSize := csv.length, crc32 := crc32 0#32 csv } ++
        csv.drop v.claim.received

theorem requestOf_encoded (request : ResultRequest) (h : request.Valid) :
    Reception.RequestOf (encodeResultRequest request) request :=
  ⟨decodeResultRequest_encode request h, encodeResultRequest_length request⟩

theorem reply_matching (kept : RetainedResult) (request : ResultRequest)
    (hf : kept.filename = request.filename) (hs : kept.fileSize = request.fileSize)
    (hc : kept.uploadCrc32 = request.crc32) (ho : request.startOffset ≤ kept.csv.length) :
    (reply (some kept) request).flatten =
      encodeResultHeader { csvSize := kept.csv.length, crc32 := crc32 0#32 kept.csv } ++
        kept.csv.drop request.startOffset := by
  simp only [reply, hf, hs, hc, ho, and_self, if_true, List.flatten_cons]
  split
  · rename_i heq
    simp [heq]
  · simp

theorem requestOf_valid {v : Client.Service} {s : Session} (ht : s.Ticketed)
    (hv : ClaimsUpload v s) (hmax : v.claim.received ≤ kMaxCsvSize) :
    (Client.Service.requestOf v.claim).Valid :=
  ⟨hv.fileSize.trans_le ht.1, hmax, (congrArg isValidFilename hv.filename).trans ht.2⟩

/-- The record of an upload makes the upload claimable. -/
theorem claimable_of_record {cfg : ServerConfig} {s : Session} {kept : RetainedResult}
    (ht : s.Ticketed) (hf : kept.filename = s.filename) (hs : kept.fileSize = s.fileSize)
    (hc : kept.uploadCrc32 = s.payloadCrc) (hcrc : kept.csvCrc32 = crc32 0#32 kept.csv) :
    Claimable cfg (some kept) s := by
  refine ⟨kept.csv, fun v id now rs hv hle hmax hcut hb => ?_⟩
  have hseal : ∀ k, some kept = some k → k.csvCrc32 = crc32 0#32 k.csv := by
    rintro _ ⟨⟩
    exact hcrc
  have hans := (request_answered cfg id now (some kept) _ _ rs
    (requestOf_encoded _ (requestOf_valid ht hv hmax)) hseal hcut hb).1
  rw [hans]
  exact reply_matching kept _ (hf.trans hv.filename.symm) (hs.trans hv.fileSize.symm)
    (hc.trans hv.crc32.symm) hle

/-- Without a record nothing is claimable: the answer is a refusal. -/
theorem not_claimable_none {cfg : ServerConfig} {s : Session} (ht : s.Ticketed) :
    ¬ Claimable cfg none s := by
  rintro ⟨csv, hcsv⟩
  let claim : Client.ResultClaim :=
    { filename := s.filename, fileSize := s.fileSize, crc32 := s.payloadCrc, received := 0 }
  let v : Client.Service := { Client.Service.initial with hasClaim := true, claim := claim }
  have hv : ClaimsUpload v s := ⟨rfl, rfl, rfl, rfl⟩
  let bytes := encodeResultRequest (Client.Service.requestOf claim)
  have hcut := (deliverAll_bytewise cfg bytes (mirrors_opened cfg 0 0 none)).1
  have hsent := hcsv v 0 0 (bytewise bytes) hv (Nat.zero_le _) (Nat.zero_le _) hcut
    (content_bytewise bytes)
  have hans := (request_answered cfg 0 0 none bytes _ _
    (requestOf_encoded _ (requestOf_valid ht hv (Nat.zero_le _))) nofun hcut
    (content_bytewise bytes)).1
  rw [hans] at hsent
  simp only [reply, List.flatten_cons, List.flatten_nil, List.append_nil] at hsent
  exact ack_ne_result _ _ _ hsent

end Requests

/-- The session with number `id` is not given up while its analysis is
outstanding. -/
def Uninterrupted [Doubles] (id : ℕ) (g : Ghost) (_ : World) : Op → Prop
  | .abortSession id' => id' = id → ∀ p, g.phase ≠ .analyzing p
  | _ => True

section Runs

variable [Doubles] {cfg : ServerConfig} {c c' : ServerState} {s : Session}
  {G : List (Session × AnalysisResult)}

/-- Where an acknowledged upload stands, `G` being the guards passed before it. -/
inductive Course (G : List (Session × AnalysisResult)) (s : Session) (c : ServerState) : Prop
  | marking (op : c.pending = some (.markUploadComplete s)) (guards : c.ghost.guards = G)
  | analyzing (pledge : c.ghost.pledge = some s) (phase : ∃ p, c.ghost.phase = .analyzing p)
      (latest : c.ghost.latest = s.id) (guards : c.ghost.guards = G)
  | passed (newer : List (Session × AnalysisResult)) (e : Session × AnalysisResult)
      (guards : c.ghost.guards = newer ++ e :: G) (same : e.1.SameUpload s)

omit [Doubles] in
theorem next_guards (g : Ghost) (op : Op) (a : Ans op) :
    (g.next op a).guards = g.guards ∨ ∃ e, (g.next op a).guards = e :: g.guards := by
  cases op with
  | passGuard s r => exact .inr ⟨(s, r), rfl⟩
  | send id bytes =>
    left
    simp only [Ghost.next]
    split <;> rfl
  | _ => exact .inl rfl

theorem passed_next {op : Op} {a : Ans op} {newer : List (Session × AnalysisResult)}
    {e : Session × AnalysisResult} (hg : c.ghost.guards = newer ++ e :: G)
    (hs : e.1.SameUpload s) (hc : c'.ghost = c.ghost.next op a) : Course G s c' := by
  rcases next_guards c.ghost op a with h | ⟨e', h⟩
  · exact .passed newer e (by rw [hc, h, hg]) hs
  · exact .passed (e' :: newer) e (by rw [hc, h, hg]; rfl) hs

/-- While the analysis is outstanding the thread either leaves the upload alone
or passes its guard. -/
theorem analyzing_next {A : Bytes → AnalysisResult → Prop} {op : Op} {a : Ans op} {p : Bytes}
    (hpl : c.ghost.pledge = some s) (hph : c.ghost.phase = .analyzing p)
    (hl : c.ghost.latest = s.id) (hg : c.ghost.guards = G) (hm : may A c.ghost op)
    (hu : Uninterrupted s.id c.ghost c.shared op) (hc : c'.ghost = c.ghost.next op a) :
    Course G s c' := by
  have hstay (h₁ : (c.ghost.next op a).pledge = c.ghost.pledge)
      (h₂ : (c.ghost.next op a).phase = c.ghost.phase)
      (h₃ : (c.ghost.next op a).latest = c.ghost.latest)
      (h₄ : (c.ghost.next op a).guards = c.ghost.guards) : Course G s c' :=
    .analyzing (by rw [hc, h₁, hpl]) ⟨p, by rw [hc, h₂, hph]⟩ (by rw [hc, h₃, hl])
      (by rw [hc, h₄, hg])
  cases op with
  | abortPending => exact hstay rfl (by simp [Ghost.next, hph, Ghost.seen]) rfl rfl
  | construct id => simp [may, hph] at hm
  | beginSession => simp [may, hph] at hm
  | commitSlot id data => simp [may, hph] at hm
  | markUploadComplete t => simp [may, hph] at hm
  | abortSession id => exact absurd hph (hu (hm.1.trans hl) p)
  | passGuard t r =>
    obtain ⟨-, -, -, -, u, hu', hsame⟩ := hm
    obtain rfl : s = u := by simpa [hpl] using hu'
    exact .passed [] (t, r) (by rw [hc, Ghost.next, hg]; rfl) hsame
  | send id bytes =>
    cases a with
    | true => exact hstay rfl rfl rfl rfl
    | false => exact hstay rfl rfl rfl rfl
  | _ => exact hstay rfl rfl rfl rfl

theorem course_step {A : Bytes → AnalysisResult → Prop} {J : Ghost → World → Prop}
    {a : Act Event Peer} (held : Held (machine cfg) (rules A) J (Idle cfg) c)
    (hs : step (machine cfg) c a = some c') (ha : Allowed (onOps (Uninterrupted s.id)) c a)
    (h : Course G s c) : Course G s c' := by
  obtain ⟨ev, m, p, w, ht, rfl, -, rfl⟩ | ⟨op, k, b, ht, rfl, rfl⟩ | ⟨d, w, rfl, -, rfl⟩ :=
    step_inversion (machine cfg) hs
  · cases h with
    | marking op _ => simp [Config.pending, ht] at op
    | analyzing pledge phase latest guards => exact .analyzing pledge phase latest guards
    | passed newer e guards same => exact .passed newer e guards same
  · have hp : c.pending = some op := by simp [Config.pending, ht]
    have hm := held_pending (machine cfg) held hp
    simp only [Allowed, ht] at ha
    cases h with
    | marking hop guards =>
      obtain rfl : op = .markUploadComplete s := by simpa [hp] using hop
      obtain ⟨hid, ⟨q, hq⟩, -⟩ := hm
      exact .analyzing rfl ⟨q, by simp [machine, Ghost.next, hq, Ghost.mark]⟩ hid.symm guards
    | analyzing pledge phase latest guards =>
      obtain ⟨q, hq⟩ := phase
      exact analyzing_next pledge hq latest guards hm ha rfl
    | passed newer e guards same => exact passed_next guards same rfl
  · cases h with
    | marking op guards => exact .marking op guards
    | analyzing pledge phase latest guards => exact .analyzing pledge phase latest guards
    | passed newer e guards same => exact .passed newer e guards same

theorem course_reach {c₁ : ServerState} (h₁ : Reach (machine cfg) Always serverInitial c₁)
    (hp : c₁.pending = some (.markUploadComplete s))
    (h : Reach (machine cfg) (onOps (Uninterrupted s.id)) c₁ c) :
    Course c₁.ghost.guards s c := by
  induction h with
  | init => exact .marking hp rfl
  | step a hr ha hs ih =>
    have hfull := reach_trans _ h₁ (reach_always _ hr)
    exact course_step (clean_reach hfull) hs ha ih

/-- Once the session is gone, its upload has passed the guard. -/
theorem course_over {m : Loop} (h : Reach (machine cfg) Always serverInitial c)
    (hp : Course G s c) (hm : c.thread = .done m)
    (hgone : ∀ t, m.session = some t → t.id ≠ s.id) :
    ∃ newer e, c.ghost.guards = newer ++ e :: G ∧ e.1.SameUpload s := by
  cases hp with
  | marking op guards => simp [Config.pending, hm] at op
  | passed newer e guards same => exact ⟨newer, e, guards, same⟩
  | analyzing pledge phase latest guards =>
    exfalso
    obtain ⟨p, hp⟩ := phase
    obtain ⟨hk, -⟩ := clean_reach h
    rw [hm] at hk
    have hst := (show Idle cfg c.ghost m from hk).1.2.2
    cases hs : m.session with
    | none =>
      rw [hs] at hst
      rcases hst.1 with hv | hv <;> simp [hv] at hp
    | some t =>
      rw [hs] at hst
      exact hgone t hs (hst.1.1.trans latest)

/-- An acknowledged upload is claimable once its session is over, provided the
session was not given up in ANALYZING and no other upload completed. -/
theorem acknowledged_upload_claimable (cfg : ServerConfig) (c₁ c : ServerState) (s : Session)
    (m : Loop) (h₁ : Reach (machine cfg) Always serverInitial c₁)
    (hp : c₁.pending = some (.markUploadComplete s))
    (h : Reach (machine cfg) (onOps (Uninterrupted s.id)) c₁ c) (hm : c.thread = .done m)
    (hgone : ∀ t, m.session = some t → t.id ≠ s.id)
    (hone : c.ghost.guards.length ≤ c₁.ghost.guards.length + 1) :
    c₁.ghost.sent.getLast? =
        some (encodeAck { status := .ok, receivedBytes := s.receivedBytes }) ∧
      Claimable cfg c.shared.retained s := by
  obtain ⟨-, -, htk, hack⟩ := held_pending (machine cfg) (clean_reach h₁) hp
  have hfull := reach_trans _ h₁ (reach_always _ h)
  obtain ⟨newer, e, hg, -, hf, hs, hc⟩ := course_over hfull (course_reach h₁ hp h) hm hgone
  have hnil : newer = [] := by
    rw [hg, List.length_append, List.length_cons] at hone
    exact List.length_eq_zero_iff.mp (by omega)
  obtain ⟨hnew, hcrc⟩ := retained_newest hfull hm
  rw [newest, hg, hnil, List.nil_append, List.head?_cons, Option.map_some] at hnew
  refine ⟨hack, ?_⟩
  rw [hnew]
  exact claimable_of_record htk hf hs hc (hcrc _ hnew)

end Runs

section Schedules

variable [Doubles]

/-- An upload of the byte `x` under the name `a`, up to its mark. -/
def acknowledged : List (Act Event Peer) :=
  callback .connection 5 ++ arrival (uploadBytes (bytesOf "a") (bytesOf "x")) ++
    callback (.readable 65536) 5

/-- The connection is lost, `writes` messages are still queued, and the closed
session is reaped. -/
def lost (writes : ℕ) : List (Act Event Peer) :=
  callback (.readError "EOF") 1 ++ List.replicate writes (.start (.writeDone false "")) ++
    callback .closed 0 ++ callback .reap 1

/-- The mark, the analysis, its delivery, and only then the loss. -/
def lostSending : List (Act Event Peer) :=
  [.loop true] ++ parserSteps 17 ++ callback .completion 5 ++ lost 3

def lostAnalyzing : List (Act Event Peer) := [.loop true] ++ lost 1

def spares (id : ℕ) (c : ServerState) (_ : Act Event Peer) : Bool :=
  match c.pending, c.ghost.phase with
  | some (.abortSession id'), .analyzing _ => decide (id' ≠ id)
  | _, _ => true

theorem spares_allowed (id : ℕ) (c : ServerState) (a : Act Event Peer)
    (h : spares id c a = true) : Allowed (onOps (Uninterrupted id)) c a := by
  refine allowed_onOps (fun op hop => ?_) a
  cases op with
  | abortSession id' =>
    intro hid p hp
    simp [spares, hop, hp, hid] at h
  | _ => trivial

def marking (c : ServerState) : Option Session :=
  match c.pending with
  | some (.markUploadComplete s) => some s
  | _ => none

theorem marking_some {c : ServerState} {s : Session} (h : marking c = some s) :
    c.pending = some (.markUploadComplete s) := by
  unfold marking at h
  split at h
  · rename_i hp
    cases h
    exact hp
  · cases h

def emptyLoop (c : ServerState) : Bool :=
  match c.thread with
  | .done m => m.session.isNone
  | .call _ _ => false

theorem emptyLoop_true {c : ServerState} (h : emptyLoop c = true) :
    ∃ m, c.thread = .done m ∧ m.session = none := by
  unfold emptyLoop at h
  split at h
  · rename_i m hm
    exact ⟨m, hm, by simpa using h⟩
  · cases h

omit [Doubles] in
theorem lost_while_sending :
    letI := wholeDoubles
    ∃ (c₁ c : ServerState) (s : Session), c₁.pending = some (.markUploadComplete s) ∧
      s.filename = bytesOf "a" ∧
      Reach (machine defaultConfig) (onOps (Uninterrupted s.id)) c₁ c ∧
      Claimable defaultConfig c.shared.retained s := by
  let _ := wholeDoubles
  have hrun : ((anyRun acknowledged).bind fun c₁ =>
      (run (machine defaultConfig) (spares 1) c₁ lostSending).map fun c =>
        ((marking c₁).map fun s => (s.id, s.filename), emptyLoop c,
          decide (c.ghost.guards.length ≤ c₁.ghost.guards.length + 1))) =
      some (some (1, bytesOf "a"), true, true) := by
    decide
  obtain ⟨c₁, hc₁, hrest⟩ := Option.bind_eq_some_iff.mp hrun
  obtain ⟨c, hc, hk⟩ := Option.map_eq_some_iff.mp hrest
  simp only [Prod.mk.injEq, decide_eq_true_eq] at hk
  obtain ⟨hmark, hempty, hone⟩ := hk
  obtain ⟨s, hs, heq⟩ := Option.map_eq_some_iff.mp hmark
  simp only [Prod.mk.injEq] at heq
  obtain ⟨hid, hname⟩ := heq
  obtain ⟨m, hm, hnone⟩ := emptyLoop_true hempty
  have hr := run_reach (machine defaultConfig) (spares_allowed 1) _ _ _ hc
  rw [← hid] at hr
  have hgone : ∀ t, m.session = some t → t.id ≠ s.id := by simp [hnone]
  have hclaim := (acknowledged_upload_claimable defaultConfig c₁ c s m (anyRun_reach hc₁)
    (marking_some hs) hr hm hgone hone).2
  exact ⟨c₁, c, s, marking_some hs, hname, hr, hclaim⟩

omit [Doubles] in
/-- A connection lost in ANALYZING takes the promised result with it. -/
theorem acknowledged_not_always_claimable :
    letI := wholeDoubles
    ¬ ∀ (c₁ c : ServerState) (s : Session) (m : Loop),
      Reach (machine defaultConfig) Always serverInitial c₁ →
      c₁.pending = some (.markUploadComplete s) → Reach (machine defaultConfig) Always c₁ c →
      c.thread = .done m → (∀ t, m.session = some t → t.id ≠ s.id) →
      c.ghost.guards.length ≤ c₁.ghost.guards.length + 1 →
      Claimable defaultConfig c.shared.retained s := by
  let _ := wholeDoubles
  intro hall
  have hrun : ((anyRun acknowledged).bind fun c₁ =>
      (run (machine defaultConfig) (fun _ _ => true) c₁ lostAnalyzing).map fun c =>
        ((marking c₁).isSome, emptyLoop c, c.shared.retained,
          decide (c.ghost.guards.length ≤ c₁.ghost.guards.length + 1))) =
      some (true, true, none, true) := by
    decide
  obtain ⟨c₁, hc₁, hrest⟩ := Option.bind_eq_some_iff.mp hrun
  obtain ⟨c, hc, hk⟩ := Option.map_eq_some_iff.mp hrest
  simp only [Prod.mk.injEq, decide_eq_true_eq] at hk
  obtain ⟨hmark, hempty, hret, hone⟩ := hk
  obtain ⟨s, hs⟩ := Option.isSome_iff_exists.mp hmark
  obtain ⟨m, hm, hnone⟩ := emptyLoop_true hempty
  have hr₁ := anyRun_reach hc₁
  have hr : Reach (machine defaultConfig) Always c₁ c :=
    run_always _ hc
  have hclaim := hall c₁ c s m hr₁ (marking_some hs) hr hm (by simp [hnone]) hone
  obtain ⟨-, -, htk, -⟩ := held_pending (machine defaultConfig) (clean_reach hr₁) (marking_some hs)
  rw [hret] at hclaim
  exact not_claimable_none htk hclaim

end Schedules

end LogTransfer
