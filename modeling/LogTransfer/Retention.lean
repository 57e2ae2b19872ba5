import LogTransfer.CleanStart
import LogTransfer.Segmentation

/-!
# The kept result and its re-delivery

The manager keeps the record of the newest session that passed the guard of
`onAnalysisComplete` and changes it at no other point. A request gets what
`reply` says of that record, however its bytes arrive.
-/

set_option autoImplicit false

namespace LogTransfer
open Program Interleave

/-- The record of the newest guard passed. -/
def newest (g : Ghost) : Option RetainedResult :=
  g.guards.head?.map fun e => Session.recordOf e.1 e.2

def refusal (status : AckStatus) : Bytes := encodeAck { status := status, receivedBytes := 0 }

/-- What a client that asks for a result is sent. -/
def reply (retained : Option RetainedResult) (request : ResultRequest) : List Bytes :=
  match retained with
  | none => [refusal .noSuchResult]
  | some kept =>
    if kept.filename = request.filename ∧ kept.fileSize = request.fileSize ∧
        kept.uploadCrc32 = request.crc32 then
      if request.startOffset ≤ kept.csv.length then
        encodeResultHeader { csvSize := kept.csv.length, crc32 := crc32 0#32 kept.csv } ::
          if request.startOffset = kept.csv.length then []
          else [kept.csv.drop request.startOffset]
      else [refusal .protocolError]
    else [refusal .noSuchResult]

theorem respond_sent (retained : Option RetainedResult) (request : ResultRequest)
    (hk : ∀ kept, retained = some kept → kept.csvCrc32 = crc32 0#32 kept.csv) :
    ((Reception.initial retained).respond request).sent = reply retained request := by
  cases retained with
  | none => rfl
  | some kept =>
    have hcrc := hk kept rfl
    simp only [Reception.respond, Reception.initial, retainedResult, reply]
    by_cases ht : kept.filename = request.filename ∧ kept.fileSize = request.fileSize ∧
        kept.uploadCrc32 = request.crc32
    · rw [if_neg (by simp [ht]), if_pos ht]
      simp only
      by_cases ho : request.startOffset ≤ kept.csv.length
      · rw [if_neg (by omega), if_pos ho]
        simp [Reception.resultMessages, hcrc]
      · rw [if_pos (by omega), if_neg ho]
        rfl
    · rw [if_pos (by simp only [Bool.or_eq_true, decide_eq_true_eq]; tauto), if_neg ht]
      rfl

theorem respond_stage (a : Reception) (request : ResultRequest) :
    (a.respond request).stage ≠ .closed ∧ (a.respond request).retained = a.retained := by
  unfold Reception.respond Reception.refuse
  split
  · exact ⟨nofun, rfl⟩
  · split
    · exact ⟨nofun, rfl⟩
    · exact ⟨nofun, rfl⟩

theorem inStep_mirrors {chunkSize : ℕ} {a : Reception} {c : Session × Quiet} {u : Bytes}
    (h : InStep chunkSize a c u) (hu : (a.takeAll u).stage ≠ .closed) :
    Mirrors c (a.takeAll u) := by
  rcases h with hm | ⟨v, x, rfl, hx, -, -, han, -⟩
  · exact hm
  · rw [Reception.takeAll_append, Reception.takeAll_refused _ _ hx (.inl han)] at hu
    exact absurd rfl hu

/-- A request is answered by `reply` and leaves the record alone, whatever the
reads it comes in. -/
theorem request_answered (cfg : ServerConfig) (id now : ℕ) (retained : Option RetainedResult)
    (bytes : Bytes) (request : ResultRequest) (rs : List Segment)
    (hr : Reception.RequestOf bytes request)
    (hk : ∀ kept, retained = some kept → kept.csvCrc32 = crc32 0#32 kept.csv)
    (hcut : Stream.Cut cfg (Stream.opened cfg id now retained) rs)
    (hb : Stream.content rs = bytes) :
    let c := Stream.deliverAll cfg (Stream.opened cfg id now retained) rs
    c.2.sent = reply retained request ∧ c.2.retained = retained := by
  intro c
  have hstart : InStep cfg.chunkSize (Reception.initial retained)
      (Stream.opened cfg id now retained) [] := .inl (mirrors_opened cfg id now retained)
  have hin := inStep_deliverAll rs hstart hcut
  rw [List.nil_append, hb] at hin
  have htake := Reception.takeAll_requestOf retained bytes request hr
  obtain ⟨hne, hret⟩ := respond_stage (Reception.initial retained) request
  have hm := inStep_mirrors hin (htake ▸ hne)
  rw [htake] at hm
  exact ⟨hm.carries.sent.trans (respond_sent retained request hk), hm.carries.retained.trans hret⟩

variable [Doubles] {cfg : ServerConfig} {c c' : ServerState}

theorem exec_retained (cfg : ServerConfig) (op : Op) (b : Bool) (w : World) :
    (World.exec cfg op b w).2.retained = w.retained ∨
      ∃ id kept, op = .retain id kept ∧ (World.exec cfg op b w).2.retained = some kept := by
  cases op with
  | retain id kept => exact .inr ⟨id, kept, rfl, rfl⟩
  | acceptPending =>
    left
    simp only [World.exec]
    split <;> rfl
  | _ => exact .inl rfl

theorem step_retained {a : Act Event Peer} (hs : step (machine cfg) c a = some c') :
    c'.shared.retained = c.shared.retained ∨
      ∃ id kept, c.pending = some (.retain id kept) ∧ c'.shared.retained = some kept := by
  obtain ⟨ev, m, p, w, ht, rfl, hst, rfl⟩ | ⟨op, k, b, ht, rfl, rfl⟩ | ⟨d, w, rfl, hst, rfl⟩ :=
    step_inversion (machine cfg) hs
  · exact .inl (Server.start_delivers hst).1
  · rcases exec_retained cfg op b c.shared with h | ⟨id, kept, rfl, h⟩
    · exact .inl h
    · exact .inr ⟨id, kept, by simp [Config.pending, ht], h⟩
  · left
    cases d with
    | parser =>
      obtain ⟨t, -, rfl⟩ := Option.map_eq_some_iff.mp hst
      rfl
    | arrive bytes =>
      cases hst
      rfl

theorem retained_newest {m : Loop} (h : Reach (machine cfg) Always serverInitial c)
    (hm : c.thread = .done m) :
    c.shared.retained = newest c.ghost ∧
      ∀ kept, c.shared.retained = some kept → kept.csvCrc32 = crc32 0#32 kept.csv := by
  obtain ⟨hk, -, hret, hsealed⟩ := clean_reach h
  rw [hm] at hk
  have hrec : c.ghost.kept = newest c.ghost := hk.1.2.1
  have hnew := hret.trans hrec
  refine ⟨hnew, fun kept hkept => ?_⟩
  rw [hnew] at hkept
  obtain ⟨e, he, rfl⟩ := Option.map_eq_some_iff.mp hkept
  exact hsealed e (List.mem_of_mem_head? he)

/-- Retention and re-request. A step changes the record only to that of the
newest guard passed; between two callbacks it is that record, and a request
gets the reply it calls for. -/
theorem retention_and_reply (cfg : ServerConfig) (c : ServerState)
    (h : Reach (machine cfg) Always serverInitial c) :
    (∀ a c', step (machine cfg) c a = some c' →
      c'.shared.retained = c.shared.retained ∨
        ∃ id kept, c.pending = some (.retain id kept) ∧ c'.shared.retained = some kept ∧
          newest c.ghost = some kept) ∧
    ∀ m, c.thread = .done m → c.shared.retained = newest c.ghost ∧
      ∀ id now bytes request rs, Reception.RequestOf bytes request →
        Stream.Cut cfg (Stream.opened cfg id now c.shared.retained) rs →
        Stream.content rs = bytes →
        let r := Stream.deliverAll cfg (Stream.opened cfg id now c.shared.retained) rs
        r.2.sent = reply c.shared.retained request ∧ r.2.retained = c.shared.retained := by
  refine ⟨fun a c' hs => ?_, fun m hm => ?_⟩
  · rcases step_retained hs with hsame | ⟨id, kept, hp, hk⟩
    · exact .inl hsame
    · obtain ⟨-, e, rest, hg, -, hrec⟩ := held_pending (machine cfg) (clean_reach h) hp
      exact .inr ⟨id, kept, hp, hk, by simp [newest, hg, hrec]⟩
  · obtain ⟨hnew, hsealed⟩ := retained_newest h hm
    exact ⟨hnew, fun id now bytes request rs hr hcut hb =>
      request_answered cfg id now c.shared.retained bytes request rs hr hsealed hcut hb⟩

/-- A delivered upload, up to the end of the callback that sent its result. -/
def delivered : List (Act Event Peer) :=
  callback .connection 5 ++ arrival (uploadBytes (bytesOf "a") (bytesOf "x")) ++
    callback (.readable 65536) 6 ++ parserSteps 17 ++ callback .completion 5

def ticketKept (c : ServerState) : Option (Bytes × ℕ × Crc) :=
  match c.thread with
  | .done _ => c.shared.retained.map fun kept => (kept.filename, kept.fileSize, kept.uploadCrc32)
  | .call _ _ => none

theorem ticketKept_some {ticket : Bytes × ℕ × Crc} (h : ticketKept c = some ticket) :
    ∃ m kept, c.thread = .done m ∧ c.shared.retained = some kept ∧
      (kept.filename, kept.fileSize, kept.uploadCrc32) = ticket := by
  unfold ticketKept at h
  split at h
  · rename_i m hm
    obtain ⟨kept, hk, ht⟩ := Option.map_eq_some_iff.mp h
    exact ⟨m, kept, hm, hk, ht⟩
  · cases h

omit [Doubles] in
theorem kept_result_redelivered :
    letI := wholeDoubles
    let request : ResultRequest :=
      { fileSize := 1, crc32 := crc32 0#32 (bytesOf "x"), startOffset := 0,
        filename := bytesOf "a" }
    ∃ (c : ServerState) (kept : RetainedResult) (rs : List Segment),
      c.shared.retained = some kept ∧ newest c.ghost = some kept ∧
        Stream.content rs = encodeResultRequest request ∧
        (Stream.deliverAll defaultConfig (Stream.opened defaultConfig 2 0 (some kept)) rs).2.sent =
          [encodeResultHeader { csvSize := kept.csv.length, crc32 := crc32 0#32 kept.csv },
            kept.csv] := by
  let _ := wholeDoubles
  intro request
  have hrun : ((anyRun delivered).bind fun c => (ticketKept c).map fun ticket =>
      (ticket, c.shared.retained.map fun kept => kept.csv.isEmpty)) =
      some ((bytesOf "a", 1, crc32 0#32 (bytesOf "x")), some false) := by
    decide
  obtain ⟨c, hc, hk⟩ := Option.bind_eq_some_iff.mp hrun
  obtain ⟨ticket, htk, heq⟩ := Option.map_eq_some_iff.mp hk
  simp only [Prod.mk.injEq] at heq
  obtain ⟨rfl, hne⟩ := heq
  obtain ⟨m, kept, hm, hkept, ht⟩ := ticketKept_some htk
  simp only [Prod.mk.injEq] at ht
  obtain ⟨hf, hs, hu⟩ := ht
  have hr : Reception.RequestOf (encodeResultRequest request) request :=
    ⟨by decide, by decide⟩
  have h := (retention_and_reply defaultConfig c (anyRun_reach hc)).2 m hm
  have hcut := (deliverAll_bytewise defaultConfig (encodeResultRequest request)
    (mirrors_opened defaultConfig 2 0 c.shared.retained)).1
  have hreply := (h.2 2 0 _ request _ hr hcut (content_bytewise _)).1
  have hempty : ¬ 0 = kept.csv.length := by
    rw [hkept] at hne
    cases hcsv : kept.csv <;> simp_all
  rw [hkept] at hreply h
  refine ⟨c, kept, _, hkept, h.1.symm, content_bytewise _, ?_⟩
  rw [hreply]
  simp [reply, request, hf, hs, hu, hempty]

end LogTransfer
