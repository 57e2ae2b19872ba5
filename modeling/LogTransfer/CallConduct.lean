import LogTransfer.CallHistory

/-!
# The service on an errand reads the replies

Replies that come in order, cut anywhere, are taken to the last byte: no
message is malformed, no size is refused and the checksum is right.
-/

set_option autoImplicit false

namespace LogTransfer.Client
open Program

variable [Doubles] {e : Errand} {ip : Bytes} {port : ℕ}

namespace Call

section Download

variable {c : Call} {s : Service} {consumed data : Bytes} {α : Type}

theorem calls_act (op : Op) (f : Ans op → P α) {Q : Call → α → Prop}
    (hm : (callRules e ip port).may c op)
    (h : ∀ a, (callRules e ip port).answers c op a → Calls e ip port (f a) (Call.next c op a) Q) :
    Calls e ip port (act op >>= f) c Q := ⟨hm, h⟩

theorem send_calls (m : Message) (ho : s.isOpen = true)
    (hm : (callRules e ip port).may c (.send m)) :
    Calls e ip port (s.send m) c (fun c' r => c' = Call.next c (.send m) true ∧
      r = (s.queued, true)) := by
  unfold Service.send
  rw [if_neg (by simp [ho])]
  refine calls_act _ _ hm fun ok hok => ?_
  rw [show ok = true from hok]
  exact ⟨rfl, rfl⟩

/-- In the loop of `onBytes`: the rest goes to the next reply, or all of it
was taken. -/
def InLoop (e : Errand) (ip : Bytes) (port : ℕ) (data : Bytes) (c : Call) (s : Service) : Prop :=
  (∃ consumed, Listening e ip port c s consumed data) ∨ Thanked e ip port c s ∧ data = []

theorem finishDownload_calls (hs : c.stage = .asked) (ht : c.taken = plan e ip port)
    (ho : s.isOpen = true) (hu : s.uploading = false) (hg : c.got = e.stream)
    (hcsv : s.csv = e.csv) (hcrc : s.csvExpectedCrc = crc32 0#32 e.csv) :
    Calls e ip port s.finishDownload c (Thanked e ip port) := by
  unfold Service.finishDownload
  dsimp only
  rw [if_neg (by simp [hcsv, hcrc])]
  refine calls_act _ _ ⟨hs, hcsv⟩ fun _ _ => calls_act _ _ trivial fun _ _ => ?_
  refine keeps_seq _ _ _ _ _ (send_calls .downloadDone ho ⟨hs, hg⟩) ?_
  rintro c' _ ⟨rfl, rfl⟩
  refine calls_act _ _ trivial fun _ _ => ?_
  refine keeps_seq _ _ _ _ _ (Q := fun c'' _ => c''.stage = .thanked ∧ c''.taken = plan e ip port ∧
    c''.got = e.stream ∧ c''.stored = true) ?_ ?_
  · unfold Service.warnSkipped
    split
    · exact ⟨rfl, ht, hg, rfl⟩
    · exact ⟨trivial, fun _ _ => ⟨rfl, ht, hg, rfl⟩⟩
  · rintro c'' _ ⟨h1, h2, h3, h4⟩
    exact calls_act _ _ ⟨h1, h4⟩ fun _ _ => ⟨h1, h2, h3, hu, rfl, rfl⟩

/-- Receiving, or about to find that everything is there. -/
structure Receives (e : Errand) (s : Service) (consumed : Bytes) : Prop where
  expecting : s.expecting = .csvPayload
  csv : s.csv <+: e.csv
  rest : consumed ++ e.csv.drop s.csv.length = e.stream
  size : s.csvSize = e.csv.length
  crc : s.csvExpectedCrc = crc32 0#32 e.csv

theorem completed_calls (hw : Waits e ip port c s consumed data) (h : Receives e s consumed) :
    Calls e ip port s.completed c (InLoop e ip port data) := by
  obtain ⟨hs, ht, ho, hu, hg, hin⟩ := hw
  have hle := h.csv.length_le
  unfold Service.completed
  split
  · rename_i hfull
    rw [h.size] at hfull
    have hcsv : s.csv = e.csv := h.csv.eq_of_length hfull
    have hstream : consumed = e.stream := by
      rw [← h.rest, hfull, List.drop_length, List.append_nil]
    have hdata : data = [] := by
      rw [hg, ← hstream] at hin
      exact List.append_right_eq_self.mp (hin.eq_of_length_le (by simp))
    have hall : c.got = e.stream := by rw [hg, hstream, hdata, List.append_nil]
    exact keeps_mono _ _ _ _ (fun _ _ hq => .inr ⟨hq, hdata⟩)
      (finishDownload_calls hs ht ho hu hall hcsv h.crc)
  · rename_i hpart
    rw [h.size] at hpart
    refine .inl ⟨consumed, ⟨hs, ht, ho, hu, hg, hin⟩, ?_⟩
    simp only [Follow, h.expecting]
    exact ⟨h.csv, by omega, h.size, h.crc, h.rest⟩

/-- One pass over the bytes of a read took some of them. -/
def Passes (e : Errand) (ip : Bytes) (port : ℕ) (data : Bytes) (c : Call) (r : Service × ℕ) :
    Prop :=
  0 < r.2 ∧ r.2 ≤ data.length ∧ InLoop e ip port (data.drop r.2) c r.1

theorem passes_all (hne : data ≠ []) {s' : Service} (h : InLoop e ip port [] c s') :
    Passes e ip port data c (s', data.length) := by
  refine ⟨List.length_pos_iff.mpr hne, le_refl _, ?_⟩
  rw [List.drop_length]
  exact h

theorem passes_part {q rest : Bytes} (hq : q ≠ []) {s' : Service}
    (h : InLoop e ip port rest c s') : Passes e ip port (q ++ rest) c (s', q.length) := by
  refine ⟨List.length_pos_iff.mpr hq, by simp, ?_⟩
  rw [List.drop_left]
  exact h

theorem waits_taken {q rest : Bytes} (h : Waits e ip port c s consumed (q ++ rest)) :
    Waits e ip port c s (consumed ++ q) rest := by
  obtain ⟨hs, ht, ho, hu, hg, hin⟩ := h
  exact ⟨hs, ht, ho, hu, by rw [hg, List.append_assoc], hin⟩

theorem waits_all (h : Waits e ip port c s consumed data) :
    Waits e ip port c s (consumed ++ data) [] := by
  rw [← List.append_nil data] at h
  exact waits_taken h

/-- The three message handlers: the framer stays inside the message `m`, or
`whole` takes over at its end. -/
theorem framed_calls {expected alternate : MessageType} {m part tail : Bytes}
    (malformed : String) (whole : Service → ℕ → P (Service × ℕ))
    (h : Waits e ip port c s consumed data) (hne : data ≠ [])
    (hmid : Midway s.framer expected alternate m part)
    (hw : (Framer.reset expected alternate).Whole m) (hd : part ++ data <+: m ++ tail)
    (hmore : ∀ f, Midway f expected alternate m (part ++ data) →
      Follow e { s with framer := f } (consumed ++ data))
    (hwhole : ∀ q rest f, data = q ++ rest → m = part ++ q → f.buffer = m →
      Waits e ip port c s (consumed ++ q) rest →
      Calls e ip port (whole { s with framer := f } q.length) c
        (fun c' r => r.2 = q.length ∧ InLoop e ip port rest c' r.1)) :
    Calls e ip port (s.framed data malformed whole) c (Passes e ip port data) := by
  unfold Service.framed
  dsimp only
  rcases midway_feed hmid hw hd with ⟨f, hfeed, hmid'⟩ |
    ⟨q, rest, f, hsplit, hq, hm, hfeed, hbuf, hok⟩
  · rw [hfeed]
    dsimp only
    rw [midway_status hmid']
    exact passes_all hne (.inl ⟨consumed ++ data, waits_all h, hmore f hmid'⟩)
  · rw [hfeed]
    dsimp only
    rw [hok]
    refine keeps_mono _ _ _ _ ?_ (hwhole q rest f hsplit hm hbuf (waits_taken (hsplit ▸ h)))
    rintro c' ⟨s', n⟩ ⟨hn, hr⟩
    have hn : n = q.length := hn
    rw [hsplit, hn]
    exact passes_part hq hr

/-- The header ends: with the first delivery nothing is held yet, and a resumed
one goes on where the service stands. -/
theorem headerFramed_calls {rest : Bytes} (resuming : Bool) (n : ℕ)
    (hmax : e.csv.length ≤ kMaxCsvSize) (hw : Waits e ip port c s consumed rest)
    (hcsv : s.csv <+: e.csv) (hfresh : resuming = false → s.csv = [])
    (hbuf : s.framer.buffer = wholeHeader e.csv)
    (hrest : consumed ++ e.csv.drop s.csv.length = e.stream) :
    Calls e ip port (s.headerFramed resuming n) c
      (fun c' r => r.2 = n ∧ InLoop e ip port rest c' r.1) := by
  have hle := hcsv.length_le
  have hsame : (s.receiving { csvSize := e.csv.length, crc32 := crc32 0#32 e.csv } resuming).csv =
      s.csv := by
    cases resuming with
    | true => rfl
    | false => exact (hfresh rfl).symm
  unfold Service.headerFramed
  rw [Framer.message, hbuf, show wholeHeader e.csv = announce e.kept.csv from rfl,
    @decode_announce e.kept hmax]
  refine keeps_seq _ _ _ _ _
    (Q := fun c' r => r.2 = true ∧ InLoop e ip port rest c' r.1) ?_ ?_
  · refine calls_act _ _ trivial fun _ _ => ?_
    rw [if_neg (by simp only; exact not_lt.mpr hmax),
      if_neg (by simp; exact fun _ => hle)]
    refine keeps_seq _ _ _ _ _ (Q := InLoop e ip port rest) ?_ fun _ _ h => ⟨rfl, h⟩
    refine calls_act _ _ trivial fun _ _ => calls_act _ _ trivial fun _ _ => ?_
    refine completed_calls hw ⟨rfl, ?_, ?_, rfl, rfl⟩
    · exact hsame ▸ hcsv
    · exact (congrArg (fun csv : Bytes => consumed ++ e.csv.drop csv.length) hsame).trans hrest
  · rintro c' ⟨s', begun⟩ ⟨hb, hr⟩
    have hb : begun = true := hb
    subst hb
    exact ⟨rfl, hr⟩

theorem ackFramed_calls {rest : Bytes} (n : ℕ) (hw : Waits e ip port c s e.ack rest)
    (hup : e.Uploads) (hcsv : s.csv = []) (hbuf : s.framer.buffer = e.ack) :
    Calls e ip port (s.ackFramed n) c
      (fun c' r => r.2 = n ∧ InLoop e ip port rest c' r.1) := by
  unfold Service.ackFramed
  rw [Framer.message, hbuf, Errand.ack, decodeAck_encode]
  simp only [ne_eq, not_true_eq_false, if_false]
  refine keeps_seq _ _ _ _ _ (Q := InLoop e ip port rest) ?_ fun _ _ h => ⟨rfl, h⟩
  refine calls_act _ _ trivial fun _ _ => calls_act _ _ trivial fun _ _ => ?_
  refine calls_act _ _ trivial fun _ _ => .inl ⟨e.ack, hw, hup, hcsv, [], by simp, ?_⟩
  exact midway_reset _ _ (Errand.wholeHeader_ne_nil _)

theorem handleCsvBytes_calls (hmax : e.csv.length ≤ kMaxCsvSize) (hne : data ≠ [])
    (he : s.expecting = .csvPayload) (h : Listening e ip port c s consumed data) :
    Calls e ip port (s.handleCsvBytes data) c (Passes e ip port data) := by
  obtain ⟨hw, hf⟩ := h
  simp only [Follow, he] at hf
  obtain ⟨hcsv, hlt, hsize, hcrc, hrest⟩ := hf
  obtain ⟨more, hmore⟩ := hcsv
  have hdrop : e.csv.drop s.csv.length = more := by rw [← hmore, List.drop_left]
  have hpre : data <+: more := by
    have hin := hw.2.2.2.2.2
    rw [hw.2.2.2.2.1, ← hrest, hdrop, List.prefix_append_right_inj] at hin
    exact hin
  have hlen : data.length ≤ more.length := hpre.length_le
  have htotal : e.csv.length = s.csv.length + more.length := by rw [← hmore, List.length_append]
  have htake : min data.length ((s.csvSize + kSizeRange - s.csv.length) % kSizeRange) =
      data.length := by
    rw [remaining_eq (hsize ▸ hlt) (hsize ▸ hmax), hsize]
    omega
  refine calls_act _ _ trivial fun _ _ => ?_
  dsimp only
  rw [htake, List.take_length]
  refine keeps_seq _ _ _ _ _ (Q := InLoop e ip port []) ?_ fun _ _ hr => passes_all hne hr
  obtain ⟨later, hlater⟩ := hpre
  have hwaits : Waits e ip port c (s.appended data) (consumed ++ data) [] := waits_all hw
  refine completed_calls hwaits ⟨he, ⟨later, ?_⟩, ?_, hsize, hcrc⟩
  · change s.csv ++ data ++ later = e.csv
    rw [List.append_assoc, hlater, hmore]
  · change consumed ++ data ++ e.csv.drop (s.csv ++ data).length = e.stream
    have hdrop' : e.csv.drop (s.csv ++ data).length = later := by
      rw [← hmore, ← hlater, ← List.append_assoc, List.drop_left]
    rw [hdrop', ← hrest, hdrop, ← hlater, List.append_assoc]

theorem stream_upload (h : e.Uploads) : e.stream = e.ack ++ (wholeHeader e.csv ++ e.csv) := by
  obtain ⟨path, hp⟩ := h
  simp [Errand.stream, Errand.replies_upload hp]

theorem stream_resume {n : ℕ} (h : e.task = .resume n) :
    e.stream = wholeHeader e.csv ++ e.csv.drop n := by
  simp only [Errand.stream, Errand.replies_resume h]
  split
  · rename_i hn
    simp [hn]
  · simp

theorem handleAckBytes_calls (hne : data ≠ []) (he : s.expecting = .ack)
    (h : Listening e ip port c s consumed data) :
    Calls e ip port (s.handleAckBytes data) c (Passes e ip port data) := by
  obtain ⟨hw, hf⟩ := h
  simp only [Follow, he] at hf
  obtain ⟨hup, hcsv, hmid⟩ := hf
  have hin := hw.2.2.2.2.2
  rw [hw.2.2.2.2.1, stream_upload hup] at hin
  refine framed_calls _ _ hw hne hmid (whole_ack e.kept .ack) hin (fun f hf => ?_)
    (fun q rest f hsplit hm hbuf hw' => ?_)
  · simp only [Follow, he]
    exact ⟨hup, hcsv, hf⟩
  · rw [← hm] at hw'
    exact ackFramed_calls _ hw' hup hcsv hbuf

theorem handleResultHeaderBytes_calls (hmax : e.csv.length ≤ kMaxCsvSize) (hne : data ≠ [])
    (he : s.expecting = .resultHeader) (h : Listening e ip port c s consumed data) :
    Calls e ip port (s.handleResultHeaderBytes data) c (Passes e ip port data) := by
  obtain ⟨hw, hf⟩ := h
  simp only [Follow, he] at hf
  obtain ⟨hup, hcsv, part, hpart, hmid⟩ := hf
  have hin := hw.2.2.2.2.2
  rw [hw.2.2.2.2.1, stream_upload hup, hpart, List.append_assoc,
    List.prefix_append_right_inj] at hin
  refine framed_calls _ _ hw hne hmid (whole_announce _ (.inl rfl)) hin (fun f hf => ?_)
    (fun q rest f hsplit hm hbuf hw' => ?_)
  · simp only [Follow, he]
    exact ⟨hup, hcsv, part ++ data, by rw [hpart, List.append_assoc], hf⟩
  · refine headerFramed_calls (s := { s with framer := f }) false _ hmax hw' ?_ (fun _ => hcsv)
      hbuf ?_
    · exact hcsv ▸ List.nil_prefix
    · rw [stream_upload hup, hpart, hm]
      simp [hcsv]

theorem handleResumeReplyBytes_calls (hmax : e.csv.length ≤ kMaxCsvSize) (hne : data ≠ [])
    (he : s.expecting = .resumeReply) (h : Listening e ip port c s consumed data) :
    Calls e ip port (s.handleResumeReplyBytes data) c (Passes e ip port data) := by
  obtain ⟨hw, hf⟩ := h
  simp only [Follow, he] at hf
  obtain ⟨n, hn, hcsv, hmid⟩ := hf
  have hin := hw.2.2.2.2.2
  rw [hw.2.2.2.2.1, stream_resume hn] at hin
  refine framed_calls _ _ hw hne hmid (whole_announce _ (.inr rfl)) hin (fun f hf => ?_)
    (fun q rest f hsplit hm hbuf hw' => ?_)
  · simp only [Follow, he]
    exact ⟨n, hn, hcsv, hf⟩
  · unfold Service.resumeFramed
    have htype : ({ s with framer := f } : Service).framer.messageType ≠ MessageType.ack.code := by
      change byteAt f.buffer kOffsetType ≠ _
      rw [hbuf, wholeHeader, (encodeResultHeader_size _).2]
      decide
    rw [if_neg htype]
    refine headerFramed_calls (s := { s with framer := f }) true _ hmax hw' ?_
      (fun hn => by cases hn) hbuf ?_
    · exact hcsv ▸ List.take_prefix _ _
    · rw [stream_resume hn, hm]
      simp [hcsv, Nat.min_eq_left (Errand.offset_le hn)]

theorem consume_calls (hmax : e.csv.length ≤ kMaxCsvSize) (hne : data ≠ [])
    (h : InLoop e ip port data c s) :
    Calls e ip port (s.consume data) c (Passes e ip port data) := by
  obtain ⟨consumed, hl⟩ := h.resolve_right fun ht => hne ht.2
  unfold Service.consume
  cases he : s.expecting with
  | ack => exact handleAckBytes_calls hne he hl
  | resultHeader => exact handleResultHeaderBytes_calls hmax hne he hl
  | csvPayload => exact handleCsvBytes_calls hmax hne he hl
  | resumeReply => exact handleResumeReplyBytes_calls hmax hne he hl
  | nothing =>
    have hf := hl.2
    simp only [Follow, he] at hf

theorem inLoop_onErrand (h : InLoop e ip port [] c s) : OnErrand e ip port c s := by
  rcases h with ⟨consumed, hw, hf⟩ | ⟨ht, -⟩
  · have hg := hw.2.2.2.2.1
    rw [List.append_nil] at hg
    rw [← hg] at hw hf
    exact .inr (.inr (.inr (.inl ⟨hw, hf⟩)))
  · exact .inr (.inr (.inr (.inr ht)))

theorem onBytes_calls (hmax : e.csv.length ≤ kMaxCsvSize) (n : ℕ) (hn : data.length < n)
    (h : InLoop e ip port data c s) :
    Calls e ip port (Service.onBytes n s data) c (OnErrand e ip port) := by
  apply Service.keeps_onBytes (fun _ _ => inLoop_onErrand) _ n data (.inl hn) h
  intro data c s hne h
  refine keeps_mono _ _ _ _ ?_ (consume_calls hmax hne h)
  rintro c' r ⟨hpos, -, hr⟩
  exact ⟨fun hzero => absurd hzero (Nat.ne_of_gt hpos), fun _ => hr⟩

end Download

end Call

end LogTransfer.Client
