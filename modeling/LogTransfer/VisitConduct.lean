import LogTransfer.VisitHistory

/-!
# A session on an errand answers and refuses nothing

The parts of a callback that send or read: the result, the Ack, and the three
messages of the client. Each takes the session from its seat to the next one.
-/

set_option autoImplicit false

namespace LogTransfer
open Program
open Client (Midway midway_feed midway_reset midway_status)

variable [Doubles] {e : Errand}

namespace Visit

section Reader

variable {v : Visit} {s : Session}

theorem startRead_attends (hc : s.socket.closing = false) :
    Attends e (Session.startRead s) v
      (fun v' r => v' = v ∧ r = (Session.setReading s true, true)) := by
  unfold Session.startRead
  rw [if_neg (by simp [hc])]
  split
  · rename_i hr
    exact ⟨rfl, by rw [Session.setReading_same hr]⟩
  · refine ⟨trivial, fun ok hok => ?_⟩
    rw [show ok = true from hok]
    exact ⟨rfl, rfl⟩

/-- Only a session that still takes payload may stay deaf. -/
theorem resumeReading_attends (ho : s.cleanupStarted = false) (hc : s.socket.closing = false) :
    Attends e (Session.resumeReading s) v (fun v' s' => v' = v ∧
      ∃ b, s' = Session.setReading s b ∧ (s.state ≠ .receiving → b = true)) := by
  unfold Session.resumeReading
  split
  · rename_i hr
    have hr' : s.socket.reading = true := by simpa [ho] using hr
    exact ⟨rfl, true, (Session.setReading_same hr').symm, fun _ => rfl⟩
  · have hread : Attends e (do
        act (.setReadStopped false)
        let started ← Session.startRead s
        pure started.1) v (fun v' s' => v' = v ∧
          ∃ b, s' = Session.setReading s b ∧ (s.state ≠ .receiving → b = true)) := by
      refine (keeps_ask_bind _ _ _ _ _ _).mpr ⟨trivial, fun _ _ => ?_⟩
      refine keeps_seq _ _ _ _ _ (startRead_attends hc) ?_
      rintro v' _ ⟨rfl, rfl⟩
      exact ⟨rfl, true, rfl, fun _ => rfl⟩
    unfold Session.ringBlocks
    split
    · rename_i hr hrec
      refine (keeps_ask_bind _ _ _ _ _ _).mpr ⟨trivial, fun blocked _ => ?_⟩
      cases blocked with
      | true =>
        refine ⟨rfl, s.socket.reading, (Session.setReading_same rfl).symm, fun hn => ?_⟩
        exact absurd hrec.1 hn
      | false => exact hread
    · exact hread

theorem transition_attends (env : Env) (st : SessionState) (hne : s.state ≠ st)
    (hst : st ≠ .receiving ∧ st ≠ .cleanup) (ho : s.cleanupStarted = false)
    (hc : s.socket.closing = false) :
    Attends e (Session.transition env s st) v (fun v' s' => v' = v ∧
      ∃ t, s' = Session.setReading { s with state := st, timer := t } true) := by
  unfold Session.transition
  rw [if_neg hne]
  dsimp only
  rw [if_pos hst]
  obtain ⟨t, ht⟩ := Session.armTimer_eq (e := env) { s with state := st }
  rw [ht]
  refine keeps_mono _ _ _ _ ?_
    (resumeReading_attends (s := { s with state := st, timer := t }) ho hc)
  rintro v' _ ⟨rfl, b, rfl, hb⟩
  rw [hb hst.1]
  exact ⟨rfl, t, rfl⟩

theorem receive_attends (env : Env) (hne : s.state ≠ .receiving) :
    Attends e (Session.transition env s .receiving) v (fun v' s' => v' = v ∧
      ∃ t, s' = { s with state := .receiving, timer := t }) := by
  unfold Session.transition
  rw [if_neg hne]
  dsimp only
  rw [if_neg (by simp)]
  obtain ⟨t, ht⟩ := Session.armTimer_eq (e := env) { s with state := .receiving }
  exact ⟨rfl, t, ht⟩

theorem send_attends (bytes : Bytes) (hc : s.socket.closing = false)
    (hr : v.received = e.request) (hb : v.sent ++ [bytes] <+: e.replies)
    (hk : e.Uploads → v.sent ≠ [] → v.kept = true) :
    Attends e (Session.send s bytes) v (fun v' r =>
      v' = { v with sent := v.sent ++ [bytes] } ∧ r = (Session.queued s, true)) := by
  unfold Session.send
  rw [if_neg (by simp [hc])]
  refine ⟨⟨hr, hb, hk⟩, fun ok hok => ?_⟩
  rw [show ok = true from hok]
  exact ⟨rfl, rfl⟩

theorem applyBackpressure_attends (ho : s.cleanupStarted = false)
    (hc : s.socket.closing = false) :
    Attends e (Session.applyBackpressure s) v (fun v' s' => v' = v ∧
      ∃ b, s' = Session.setReading s b) := by
  refine (keeps_ask_bind _ _ _ _ _ _).mpr ⟨trivial, fun full _ => ?_⟩
  split
  · refine (keeps_ask_bind _ _ _ _ _ _).mpr ⟨trivial, fun _ _ => ?_⟩
    refine (keeps_ask_bind _ _ _ _ _ _).mpr ⟨trivial, fun again _ => ?_⟩
    split
    · refine keeps_mono _ _ _ _ ?_ (resumeReading_attends (s := Session.stopRead s) ho hc)
      rintro v' _ ⟨rfl, b, rfl, -⟩
      exact ⟨rfl, b, rfl⟩
    · exact ⟨rfl, false, rfl⟩
  · exact ⟨rfl, s.socket.reading, (Session.setReading_same rfl).symm⟩

theorem copySlots_attends (env : Env) (fuel : ℕ) (rest : Bytes) :
    Attends e (Session.copySlots env s fuel rest) v (fun v' r => v' = v ∧ r = (s, true)) := by
  induction fuel generalizing rest with
  | zero => exact ⟨rfl, rfl⟩
  | succ fuel ih =>
    unfold Session.copySlots
    split
    · exact ⟨rfl, rfl⟩
    · refine (keeps_ask_bind _ _ _ _ _ _).mpr ⟨trivial, fun acquired hacq => ?_⟩
      rw [show acquired = true from hacq]
      exact (keeps_ask_bind _ _ _ _ _ _).mpr ⟨trivial, fun _ _ => ih _⟩

end Reader

section Answers

variable {v : Visit} {s : Session} {rest : Bytes}

theorem live_reading (b : Bool) (h : Live e v s) : Live e v (Session.setReading s b) := h

theorem live_sent (bytes : Bytes) (h : Live e v s) :
    Live e { v with sent := v.sent ++ [bytes] } (Session.queued s) := by
  obtain ⟨h1, h2, h3, h4, h5, h6, h7⟩ := h
  refine ⟨h1, h2, h3, ?_, h5, h6, h7⟩
  simp only [Session.queued, List.length_append, List.length_singleton]
  omega

/-- The two sends that end every errand. `front` is what was sent before. -/
theorem sendResult_attends (env : Env) (crc : Crc) (body : Bytes) (skipEmpty : Bool)
    (hl : Live e v s) (hst : s.state ≠ .sendingResult) (hr : v.received = e.request)
    (hw : v.waiting = false) (hk : e.Uploads → v.kept = true) (hcsv : s.csv = e.csv)
    (hcrc : crc = crc32 0#32 e.csv)
    (hall : e.replies = v.sent ++ wholeHeader e.csv ::
      if skipEmpty && body.isEmpty then [] else [body]) :
    Attends e (Session.sendResult env s crc body skipEmpty) v
      (fun v' s' => Live e v' s' ∧ AtResult e v' s' []) := by
  have hfew : v.completed < e.replies.length := by
    have := hl.2.2.2.1
    rw [hall]
    simp only [List.length_append, List.length_cons]
    omega
  refine keeps_seq _ _ _ _ _ (transition_attends env .sendingResult hst (by decide) hl.1 hl.2.1) ?_
  rintro v' s' ⟨rfl, t, rfl⟩
  have hheader : encodeResultHeader { csvSize := s.csv.length, crc32 := crc } =
      wholeHeader e.csv := by rw [hcsv, hcrc]; rfl
  rw [hheader]
  refine keeps_seq _ _ _ _ _ (send_attends (wholeHeader e.csv) hl.2.1 hr ?_ fun hu _ => hk hu) ?_
  · rw [hall]
    exact ⟨if skipEmpty && body.isEmpty then [] else [body], by simp⟩
  rintro v'' _ ⟨rfl, rfl⟩
  have hl' := live_sent (wholeHeader e.csv)
    (live_reading true (s := { s with state := .sendingResult, timer := t }) hl)
  change Attends e (Session.sendResultBody _ body skipEmpty) _ _
  unfold Session.sendResultBody
  split
  · rename_i hskip
    rw [if_pos hskip] at hall
    exact ⟨hl', rfl, hall.symm, hw, hfew, by rw [List.append_nil]; exact hr⟩
  · rename_i hskip
    rw [if_neg hskip] at hall
    refine keeps_seq _ _ _ _ _ (send_attends body hl.2.1 hr ?_ fun hu _ => hk hu) ?_
    · rw [hall]
      simp
    rintro v₃ _ ⟨rfl, rfl⟩
    refine ⟨live_sent body hl', rfl, ?_, hw, hfew, by rw [List.append_nil]; exact hr⟩
    rw [hall]
    simp

theorem handleResultRequest_attends (env : Env) (hsize : e.csv.length ≤ kMaxCsvSize) {n : ℕ}
    (ht : e.task = .resume n) (hl : Live e v s) (hst : s.state = .waitHeader)
    (hbuf : s.framer.buffer = e.opening) (hn : v.sent = []) (hw : v.waiting = false)
    (hr : v.received = e.request) :
    Attends e (Session.handleResultRequest env s) v
      (fun v' s' => Live e v' s' ∧ AtResult e v' s' []) := by
  have hdec : decodeResultRequest s.framer.message = .ok (e.claim n) := by
    rw [Framer.message, hbuf]
    exact (Errand.requestOf_opening hsize ht).1
  unfold Session.handleResultRequest
  rw [hdec]
  dsimp only
  refine (keeps_ask_bind _ _ _ _ _ _).mpr ⟨trivial, fun kept hk => ?_⟩
  have hno : ¬ e.Uploads := by
    rintro ⟨path, hp⟩
    simp [ht] at hp
  have hkept : kept = some e.kept := by
    rw [show kept = retainedResult (some e.kept) _ _ _ from hk hno]
    simp [retainedResult, Errand.claim, Client.Service.requestOf, Client.ticketOf]
  rw [hkept]
  dsimp only
  have hoff : (e.claim n).startOffset = n := rfl
  have hle : ¬ n > e.kept.csv.length := Nat.not_lt.mpr (Errand.offset_le ht)
  rw [hoff, if_neg hle]
  refine sendResult_attends (v := v) (s := { s with filename := _, csv := _ }) env _ _ true hl
    (by simp [hst]) hr hw (fun hu => absurd hu hno) rfl e.sealed_csv ?_
  rw [Errand.replies_resume ht, hn]
  have hdrop : (e.csv.drop n).isEmpty = decide (n = e.csv.length) := by
    have := Errand.offset_le ht
    rw [Bool.eq_iff_iff, List.isEmpty_iff, decide_eq_true_eq, List.drop_eq_nil_iff]
    omega
  simp [Errand.kept, hdrop]

theorem verifyAndAck_attends (env : Env) (hl : Live e v s) (hst : s.state = .receiving)
    (hn : v.sent = []) (hw : v.waiting = false) (hc : Counted s) (ha : Announced e s)
    (hp : s.payload = e.content) (hbuf : s.framer.buffer = e.trailer)
    (hr : v.received = e.request) :
    Attends e (Session.verifyAndAck env s) v
      (fun v' s' => Live e v' s' ∧ AtAnalysis e v' s' []) := by
  obtain ⟨path, ht⟩ := ha.1
  refine keeps_seq _ _ _ _ _ (transition_attends env .verifying (by simp [hst]) (by decide)
    hl.1 hl.2.1) ?_
  rintro v' s' ⟨rfl, t, rfl⟩
  have hdec : decodeUploadTrailer (Session.setReading { s with state := .verifying, timer := t }
      true).framer.message = .ok { crc32 := crc32 0#32 e.content } := by
    change decodeUploadTrailer s.framer.message = _
    rw [Framer.message, hbuf]
    exact (Errand.trailerOf_trailer e).1
  rw [hdec]
  dsimp only
  have hcrc : s.payloadCrc = crc32 0#32 e.content := by rw [hc.2, hp]
  rw [if_neg (by simp [Session.setReading, hcrc])]
  have hack : encodeAck { status := .ok, receivedBytes := s.receivedBytes } = e.ack := by
    rw [hc.1, hp]
    rfl
  have hall : v'.sent ++ [e.ack] <+: e.replies := by
    rw [hn, Errand.replies_upload ht]
    simp
  refine keeps_seq _ _ _ _ _ (Q := fun v₁ r => v₁ = { v' with sent := v'.sent ++ [e.ack] } ∧
    r = (Session.queued (Session.setReading { s with state := .verifying, timer := t } true),
      true)) ?_ ?_
  · have := send_attends (e := e) (v := v') (s := Session.setReading
      { s with state := .verifying, timer := t } true) e.ack hl.2.1 hr hall
      fun _ hne => absurd hn hne
    rw [← hack] at this ⊢
    exact this
  rintro v₁ _ ⟨rfl, rfl⟩
  have hl' := live_sent e.ack
    (live_reading true (s := { s with state := .verifying, timer := t }) hl)
  change Attends e (Session.analyzeAndSendResult env _) _ _
  refine keeps_seq _ _ _ _ _ (transition_attends env .analyzing (by simp [Session.queued,
    Session.setReading]) (by decide) hl.1 hl.2.1) ?_
  rintro v₂ s₂ ⟨rfl, t', rfl⟩
  refine (keeps_ask_bind _ _ _ _ _ _).mpr ⟨trivial, fun _ _ => ?_⟩
  refine ⟨hl', rfl, ?_, rfl, hc, ha, hp, by rw [List.append_nil]; exact hr⟩
  simp [Visit.next, hn]

end Answers

section Stages

variable {v : Visit} {s : Session} {data : Bytes}

/-- A pass over the bytes of a read took some of them. -/
def Passed (e : Errand) (data : Bytes) (v : Visit) (r : Session × ℕ) : Prop :=
  0 < r.2 ∧ Seat e (data.drop r.2) v r.1

theorem live_tail (hl : Live e v s) {front : Bytes} (hr : v.received = front ++ data)
    {m part : Bytes} (hf : front = m ++ part) {tail : Bytes}
    (he : e.request ++ encodeDownloadDone = m ++ tail) : part ++ data <+: tail := by
  have hin := hl.2.2.2.2.2.2.1
  rw [hr, hf, he, List.append_assoc] at hin
  exact (List.prefix_append_right_inj m).mp hin

/-- The header of the announced upload was read. -/
theorem opened_body (rest : Bytes) (hl : Live e v s) (hu : e.Uploads) (hn : v.sent = [])
    (hw : v.waiting = false) (hst : s.state = .receiving) (hc : Counted s) (hp : s.payload = [])
    (hs : s.fileSize = e.content.length) (hname : s.filename = e.name)
    (hf : s.framer = Framer.reset .uploadTrailer .uploadTrailer)
    (hr : v.received = e.opening ++ rest) : Seat e rest v s := by
  refine .inr ⟨hl, .inr (.inl ⟨hst, hn, hw, hc, ⟨hu, hs, hname⟩, ?_⟩)⟩
  by_cases hempty : e.content = []
  · right
    refine ⟨by rw [hp, hempty], [], ?_, ?_⟩
    · simp [hr, hempty]
    · rw [hf]
      exact midway_reset _ _ (Reception.whole_ne_nil _ _ (Errand.whole_trailer e))
  · left
    refine ⟨?_, hf, ?_⟩
    · rw [hp]
      exact List.length_pos_iff.mpr hempty
    · simp [hr, hp]

theorem consumeHeader_attends (env : Env) (hsize : e.csv.length ≤ kMaxCsvSize) (hne : data ≠ [])
    (hl : Live e v s) (h : AtOpening e v s data) :
    Attends e (Session.consumeHeader env s data) v (Passed e data) := by
  obtain ⟨hst, hn, hw, hc, hp, part, hr, hmid⟩ := h
  have hreq : ∃ tail, e.request ++ encodeDownloadDone = e.opening ++ tail := by
    cases ht : e.task with
    | upload path =>
      exact ⟨_, by rw [Errand.request_upload ht, List.append_assoc, List.append_assoc]⟩
    | resume n => exact ⟨_, by rw [Errand.request_resume ht]⟩
  obtain ⟨tail, htail⟩ := hreq
  have hin : part ++ data <+: e.opening ++ tail := by
    rw [← hr, ← htail]
    exact hl.2.2.2.2.2.2.1
  unfold Session.consumeHeader Session.headerFramed
  dsimp only
  rcases midway_feed hmid (Errand.whole_opening hsize) hin with ⟨f, hfeed, hmid'⟩ |
    ⟨q, rest, f, rfl, hq, hm, hfeed, hbuf, hok⟩
  · rw [hfeed]
    dsimp only
    rw [midway_status hmid']
    refine ⟨List.length_pos_iff.mpr hne,
      .inr ⟨hl, .inl ⟨hst, hn, hw, hc, hp, part ++ data, ?_, hmid'⟩⟩⟩
    rw [List.drop_length, List.append_nil]
    exact hr
  · rw [hfeed]
    dsimp only
    rw [hok]
    have hpos := List.length_pos_iff.mpr hq
    have hr' : v.received = e.opening ++ rest := by rw [hr, hm, List.append_assoc]
    cases ht : e.task with
    | upload path =>
      obtain ⟨-, htype, -, -⟩ := decodeUploadHeader_ok _ _ (Errand.headerOf_opening ht).1
      have htype' : f.messageType ≠ MessageType.resultRequest.code := by
        rw [Framer.messageType, hbuf, htype]
        decide
      dsimp only
      rw [if_neg htype']
      unfold Session.acceptHeader
      have hdec : decodeUploadHeader f.message = .ok e.header := by
        rw [Framer.message, hbuf]
        exact (Errand.headerOf_opening ht).1
      dsimp only
      rw [hdec]
      dsimp only
      refine keeps_seq _ _ _ _ _ (receive_attends env (by simp [hst])) ?_
      rintro v' _ ⟨rfl, t, rfl⟩
      refine ⟨hpos, ?_⟩
      dsimp only
      rw [List.drop_left]
      exact opened_body rest hl ⟨path, ht⟩ hn hw rfl hc hp rfl rfl rfl hr'
    | resume n =>
      obtain ⟨-, htype, -⟩ := decodeResultRequest_ok _ _ (Errand.requestOf_opening hsize ht).1
      have htype' : f.messageType = MessageType.resultRequest.code := by
        rw [Framer.messageType, hbuf, htype]
      dsimp only
      rw [if_pos htype']
      rw [← Errand.request_resume ht] at hr'
      have hrest : rest = [] := live_opening hl hn hr'
      rw [hrest, List.append_nil] at hr'
      refine keeps_seq _ _ _ _ _ (handleResultRequest_attends (s := { s with framer := f }) env
        hsize ht hl hst hbuf hn hw hr') ?_
      rintro v' s' ⟨hl', hres⟩
      refine ⟨hpos, ?_⟩
      dsimp only
      rw [List.drop_left, hrest]
      exact .inr ⟨hl', .inr (.inr (.inr (.inl hres)))⟩

/-- Nothing comes behind the trailer before the Ack. -/
theorem consumeTrailer_attends (env : Env) (hl : Live e v s) (hst : s.state = .receiving)
    (hn : v.sent = []) (hw : v.waiting = false) (hc : Counted s) (ha : Announced e s)
    (h : AtTrailer e v s data) :
    Attends e (Session.consumeTrailer env s data) v
      (fun v' r => r.2 = data.length ∧ Seat e [] v' r.1) := by
  obtain ⟨path, ht⟩ := ha.1
  obtain ⟨hp, part, hr, hmid⟩ := h
  have hin : part ++ data <+: e.trailer ++ encodeDownloadDone :=
    live_tail hl hr rfl (by rw [Errand.request_upload ht, List.append_assoc])
  unfold Session.consumeTrailer Session.trailerFramed
  dsimp only
  rcases midway_feed hmid (Errand.whole_trailer e) hin with ⟨f, hfeed, hmid'⟩ |
    ⟨q, rest, f, rfl, hq, hm, hfeed, hbuf, hok⟩
  · rw [hfeed]
    dsimp only
    rw [midway_status hmid']
    refine ⟨rfl, .inr ⟨hl, .inr (.inl ⟨hst, hn, hw, hc, ha, .inr ⟨hp, part ++ data, ?_, hmid'⟩⟩)⟩⟩
    simp [hr]
  · rw [hfeed]
    dsimp only
    rw [hok]
    have hr' : v.received = e.request ++ rest := by
      rw [hr, Errand.request_upload ht, hm]
      simp
    have hrest : rest = [] := live_opening hl hn hr'
    rw [hrest, List.append_nil] at hr'
    refine keeps_seq _ _ _ _ _ (verifyAndAck_attends (s := { s with framer := f }) env hl hst hn
      hw hc ha hp hbuf hr') ?_
    rintro v' s' ⟨hl', hres⟩
    exact ⟨by rw [hrest, List.append_nil], .inr ⟨hl', .inr (.inr (.inl hres))⟩⟩

theorem consumeDone_attends (hne : data ≠ []) (hl : Live e v s) (h : AtDone e v s data) :
    Attends e (Session.consumeDone s data) v (Passed e data) := by
  obtain ⟨hst, hsent, hw, hread, part, hr, hmid⟩ := h
  have hin : part ++ data <+: encodeDownloadDone ++ [] := by
    rw [List.append_nil]
    exact live_tail hl hr rfl rfl
  unfold Session.consumeDone
  dsimp only
  rcases midway_feed hmid Errand.whole_done hin with ⟨f, hfeed, hmid'⟩ |
    ⟨q, rest, f, rfl, hq, hm, hfeed, hbuf, hok⟩
  · rw [hfeed]
    dsimp only
    rw [midway_status hmid']
    refine ⟨List.length_pos_iff.mpr hne,
      .inr ⟨hl, .inr (.inr (.inr (.inr ⟨hst, hsent, hw, hread, part ++ data, ?_, hmid'⟩)))⟩⟩
    simp [hr]
  · rw [hfeed]
    dsimp only
    rw [hok]
    have hrest : rest = [] := by
      rw [hm, List.append_nil, ← List.append_assoc] at hin
      exact List.append_right_eq_self.mp (hin.eq_of_length_le (by simp))
    have hr' : v.received = e.request ++ encodeDownloadDone := by
      rw [hr, hm, hrest]
      simp
    have hsum := hl.2.2.2.1
    have hlen : v.sent.length = e.replies.length := by rw [hsent]
    have hmany : e.replies.length ≤ v.completed := by
      refine hl.2.2.2.2.2.2.2 ?_
      rw [hr', List.length_append]
      have : 0 < encodeDownloadDone.length := by decide
      omega
    have hall : v.completed = e.replies.length := by omega
    dsimp only
    refine keeps_seq _ _ _ _ _ (Q := Over e) ?_ ?_
    · unfold Session.cleanup
      rw [if_neg (by simp [hl.1])]
      refine (keeps_ask_bind _ _ _ _ _ _).mpr ⟨⟨hr', hsent, hall, hw⟩, fun _ _ => ?_⟩
      refine ⟨rfl, rfl, ?_, rfl, rfl, hl.2.2.2.2.1, rfl, hr', hsent⟩
      change s.socket.pendingWrites = 0
      omega
    · intro v' s' hgone
      exact ⟨List.length_pos_iff.mpr hq, .inl hgone⟩

end Stages

end Visit

end LogTransfer
