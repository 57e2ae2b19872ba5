import LogTransfer.Download

/-!
# The service through the rounds of a download

`Track` says where in the server's bytes of this connection the service is,
and `Holds` what it has of the result. A pass over a read moves the position
by the bytes it takes; everything that ends a connection keeps what is held.
-/

set_option autoImplicit false

namespace LogTransfer.Client
open Program Interleave

/-- The framer has a proper part of `m`. -/
def Midway (f : Framer) (expected alternate : MessageType) (m part : Bytes) : Prop :=
  ∃ q, q ≠ [] ∧ m = part ++ q ∧
    f = { buffer := part, expected := expected, alternate := alternate, status := .needMoreData }

/-- `consumed` of the server's bytes on this connection have been handled. -/
def Track (kept : RetainedResult) (s : Service) (stream consumed : Bytes) : Prop :=
  match s.expecting with
  | .nothing => s.isOpen = true → consumed = stream
  | .ack => stream = firstDelivery kept ∧ Midway s.framer .ack .ack (ackOf kept) consumed
  | .resultHeader => stream = firstDelivery kept ∧ s.csv = [] ∧ s.hasClaim = true ∧
    ∃ part, consumed = ackOf kept ++ part ∧
      Midway s.framer .resultHeader .resultHeader (announce kept.csv) part
  | .resumeReply => stream = announce kept.csv ++ kept.csv.drop s.csv.length ∧
    s.hasClaim = true ∧ Midway s.framer .ack .resultHeader (announce kept.csv) consumed
  | .csvPayload => consumed ++ kept.csv.drop s.csv.length = stream ∧
    s.csv.length < kept.csv.length ∧ s.csvSize = kept.csv.length ∧
    s.csvExpectedCrc = crc32 0#32 kept.csv ∧ s.hasClaim = true

/-- The bytes held, the claim on the rest, and the ticket until there is one. -/
structure Holds (kept : RetainedResult) (s : Service) : Prop where
  csv : s.csv <+: kept.csv
  claim : s.hasClaim = true → s.claim = ticketOf kept s.csv.length
  bare : s.hasClaim = false → s.csv = []
  ticket : s.expecting = .ack → s.hasClaim = false ∧ s.uploadFilename = kept.filename ∧
    s.uploadTotal = kept.fileSize ∧ s.uploadCrc = kept.uploadCrc32

structure Stand (kept : RetainedResult) (s : Service) : Prop where
  links : Links s
  reads : Reads s
  upload : s.uploading = false
  holds : Holds kept s

/-- A reply is awaited on a socket that reports before it is gone. -/
def Carried (s : Service) : Prop :=
  s.expecting ≠ .nothing → ∃ k, s.socket = some k ∧ Carrier k

def Follows (kept : RetainedResult) (g : Download) (s : Service) : Prop :=
  Stand kept s ∧ Carried s ∧ Track kept s g.stream g.got

abbrev Fetches {α : Type} (kept : RetainedResult) (p : P α) (g : Download)
    (Q : Download → α → Prop) : Prop :=
  Keeps (Download.next kept) (downloadRules kept) p g Q

section Framing

variable {f : Framer} {expected alternate : MessageType} {m part data tail : Bytes}

theorem midway_reset (expected alternate : MessageType) (hm : m ≠ []) :
    Midway (Framer.reset expected alternate) expected alternate m [] :=
  ⟨m, hm, rfl, rfl⟩

theorem midway_status (h : Midway f expected alternate m part) : f.status = .needMoreData := by
  obtain ⟨q, -, -, rfl⟩ := h
  rfl

/-- A read either stays inside the message or brings it to its end. -/
theorem midway_feed (h : Midway f expected alternate m part)
    (hw : (Framer.reset expected alternate).Whole m) (hd : part ++ data <+: m ++ tail) :
    (∃ f', f.feed data = (f', data.length) ∧ Midway f' expected alternate m (part ++ data)) ∨
    ∃ q rest f', data = q ++ rest ∧ q ≠ [] ∧ m = part ++ q ∧ f.feed data = (f', q.length) ∧
      f'.buffer = m ∧ f'.status = .ok := by
  obtain ⟨q, hq, rfl, rfl⟩ := h
  rw [List.append_assoc, List.prefix_append_right_inj] at hd
  rcases List.prefix_or_prefix_of_prefix hd (List.prefix_append q tail) with hpre | hpre
  · obtain ⟨q', rfl⟩ := hpre
    by_cases hq' : q' = []
    · subst hq'
      rw [List.append_nil] at hq hw ⊢
      have hfeed := Framer.feed_whole ⟨part, expected, alternate, .needMoreData⟩ data [] rfl hw hq
      rw [List.append_nil] at hfeed
      exact .inr ⟨data, [], _, by simp, hq, rfl, hfeed, rfl, rfl⟩
    · exact .inl ⟨_, Framer.feed_part _ data q' rfl hw hq', q', hq', by simp, rfl⟩
  · obtain ⟨rest, rfl⟩ := hpre
    exact .inr ⟨q, rest, _, rfl, hq, rfl, Framer.feed_whole _ q rest rfl hw hq, rfl, rfl⟩

theorem whole_ack (kept : RetainedResult) (alternate : MessageType) :
    (Framer.reset .ack alternate).Whole (ackOf kept) := by
  obtain ⟨hs, ht⟩ := encodeAck_size { status := .ok, receivedBytes := kept.fileSize }
  refine ⟨hs, ?_, .inl ht⟩
  simp [ackOf, encodeAck, preamble_length, putU64, putBE_length]
  decide

theorem whole_announce (csv : Bytes) {expected alternate : MessageType}
    (h : expected = .resultHeader ∨ alternate = .resultHeader) :
    (Framer.reset expected alternate).Whole (announce csv) := by
  obtain ⟨hs, ht⟩ := encodeResultHeader_size { csvSize := csv.length, crc32 := crc32 0#32 csv }
  refine ⟨hs, ?_, h.imp (fun h => ?_) (fun h => ?_)⟩
  · simp [announce, encodeResultHeader, preamble_length, putU64, putU32, putBE_length]
    decide
  · rw [show (Framer.reset expected alternate).expected = .resultHeader from h]
    exact ht
  · rw [show (Framer.reset expected alternate).alternate = .resultHeader from h]
    exact ht

theorem announce_ne_nil (csv : Bytes) : announce csv ≠ [] := by
  simp [announce, encodeResultHeader, putPreamble, kMagic]

theorem ackOf_ne_nil (kept : RetainedResult) : ackOf kept ≠ [] := by
  simp [ackOf, encodeAck, putPreamble, kMagic]

end Framing

section Ends

variable {kept : RetainedResult} {g : Download} {s : Service} {α : Type}

theorem fetches_act (op : Op) (f : Ans op → P α) {Q : Download → α → Prop}
    (hm : (downloadRules kept).may g op)
    (h : ∀ a, Fetches kept (f a) (Download.next kept g op a) Q) :
    Fetches kept (act op >>= f) g Q := ⟨hm, fun a _ => h a⟩

/-- The connection is given up and nothing is awaited on it. -/
def Ended (kept : RetainedResult) (s : Service) : Prop :=
  Stand kept s ∧ s.expecting = .nothing ∧ s.isOpen = false

theorem follows_ended (h : Ended kept s) : Follows kept g s := by
  obtain ⟨hs, he, ho⟩ := h
  refine ⟨hs, fun hn => absurd he hn, ?_⟩
  simp [Track, he, ho]

theorem holds_failed (h : Holds kept s) : Holds kept s.failed := by
  unfold Service.failed
  by_cases hc : s.hasClaim = true
  · rw [if_pos hc]
    refine ⟨h.csv, fun _ => ?_, fun hn => by simp [hc] at hn, fun he => by cases he⟩
    rw [h.claim hc]
    rfl
  · rw [if_neg hc]
    exact ⟨List.nil_prefix, fun hn => absurd hn hc, fun _ => rfl, fun he => by cases he⟩

theorem ended_failed (h : Stand kept s) : Ended kept s.failed.closeSocket := by
  have hh := holds_failed h.holds
  refine ⟨⟨links_close (links_failed h.links), reads_close _, uploading_failed s, ?_⟩,
    expecting_failed s, isOpen_close _⟩
  exact ⟨hh.csv, hh.claim, hh.bare, hh.ticket⟩

theorem drainLoop_fetches (n : ℕ) :
    Fetches kept (Service.drainLoop n) g (fun g' _ => g' = g) := by
  induction n with
  | zero => exact rfl
  | succ n ih =>
    refine fetches_act _ _ trivial fun view => ?_
    cases view with
    | none => exact rfl
    | some chunk => exact fetches_act _ _ trivial fun _ => ih

theorem failSession_ended (reason : Bytes) (level : LogLevel) (h : Stand kept s) :
    Fetches kept (s.failSession reason level) g (fun g' s' => g' = g ∧ Ended kept s') := by
  unfold Service.failSession Service.stopReader
  rw [if_neg (by simp [h.upload])]
  refine fetches_act _ _ trivial fun _ => fetches_act _ _ trivial fun _ => ?_
  exact ⟨rfl, ended_failed h⟩

end Ends

section Download

variable {kept : RetainedResult} {g : Download} {s : Service} {consumed data : Bytes}

/-- In the loop of `onBytes`: `data` is what is left of the read. -/
structure Reading (kept : RetainedResult) (g : Download) (s : Service) (consumed data : Bytes) :
    Prop where
  stand : Stand kept s
  carried : Carried s
  track : Track kept s g.stream consumed
  got : g.got = consumed ++ data
  inOrder : g.got <+: g.stream
  isOpen : data ≠ [] → s.isOpen = true

theorem holds_stored (s : Service) (h : s.csv = []) (he : s.expecting = .nothing)
    (hc : s.hasClaim = false) : Holds kept s :=
  ⟨h ▸ List.nil_prefix, fun hn => by simp [hc] at hn, fun _ => h, fun hn => by simp [he] at hn⟩

/-- The result is complete: it is stored, and DownloadDone ends the session
with or without the socket's consent. -/
theorem finishDownload_stored (hs : Stand kept s) (hcsv : s.csv = kept.csv)
    (hcrc : s.csvExpectedCrc = crc32 0#32 kept.csv) :
    Fetches kept s.finishDownload g (fun g' s' => g' = { g with stored := true } ∧
      Stand kept s' ∧ s'.expecting = .nothing) := by
  unfold Service.finishDownload
  dsimp only
  rw [if_neg (by simp [hcsv, hcrc])]
  refine fetches_act _ _ hcsv fun _ => fetches_act _ _ trivial fun _ => ?_
  refine keeps_seq _ _ _ _ _ (Q := fun g' r => g' = { g with stored := true } ∧
    Stand kept r.1 ∧ r.1.expecting = .nothing) ?_ ?_
  · unfold Service.send
    have hst : Stand kept { s with
        csv := [], expecting := .nothing, hasClaim := false, claim := ResultClaim.none } :=
      ⟨hs.links, hs.reads, hs.upload, holds_stored _ rfl rfl rfl⟩
    split
    · exact ⟨rfl, hst, rfl⟩
    · refine fetches_act _ _ trivial fun ok => ?_
      cases ok with
      | true =>
        exact ⟨rfl, ⟨links_queued hst.links, reads_queued hst.reads, hs.upload,
          holds_stored _ rfl rfl rfl⟩, rfl⟩
      | false => exact ⟨rfl, hst, rfl⟩
  · rintro g' ⟨s', ok⟩ ⟨rfl, hst, he⟩
    cases ok with
    | false =>
      refine keeps_mono _ _ _ _ (fun _ _ h => ?_) (failSession_ended _ _ hst)
      exact ⟨h.1, h.2.1, h.2.2.1⟩
    | true =>
      refine fetches_act _ _ trivial fun _ => ?_
      refine keeps_seq _ _ _ _ _ (Q := fun g' _ => g' = { g with stored := true }) ?_ ?_
      · unfold Service.warnSkipped
        split
        · exact rfl
        · exact ⟨trivial, fun _ _ => rfl⟩
      · rintro g' _ rfl
        refine fetches_act _ _ rfl fun _ => ⟨rfl, ?_, he⟩
        have hh := hst.holds
        exact ⟨hst.links, hst.reads, hst.upload, ⟨hh.csv, hh.claim, hh.bare, hh.ticket⟩⟩

/-- Receiving, or about to find that everything is there. -/
structure Receiving (kept : RetainedResult) (s : Service) (stream consumed : Bytes) : Prop where
  expecting : s.expecting = .csvPayload
  rest : consumed ++ kept.csv.drop s.csv.length = stream
  size : s.csvSize = kept.csv.length
  crc : s.csvExpectedCrc = crc32 0#32 kept.csv
  claim : s.hasClaim = true

theorem completed_reading (hs : Stand kept s) (hk : Carried s) (ho : s.isOpen = true)
    (h : Receiving kept s g.stream consumed) (hg : g.got = consumed ++ data)
    (hin : g.got <+: g.stream) :
    Fetches kept s.completed g (fun g' s' => Reading kept g' s' consumed data) := by
  have hle := hs.holds.csv.length_le
  unfold Service.completed
  split
  · rename_i hfull
    rw [h.size] at hfull
    have hcsv : s.csv = kept.csv := hs.holds.csv.eq_of_length hfull
    have hstream : consumed = g.stream := by
      rw [← h.rest, hfull, List.drop_length, List.append_nil]
    have hdata : data = [] := by
      rw [hg, ← hstream] at hin
      exact List.append_right_eq_self.mp (hin.eq_of_length_le (by simp))
    refine keeps_mono _ _ _ _ ?_ (finishDownload_stored hs hcsv h.crc)
    rintro g' s' ⟨rfl, hst, he⟩
    refine ⟨hst, fun hn => absurd he hn, ?_, hg, hin, fun hn => absurd hdata hn⟩
    simp only [Track, he]
    exact fun _ => hstream
  · rename_i hpart
    refine ⟨hs, hk, ?_, hg, hin, fun _ => ho⟩
    simp only [Track, h.expecting]
    rw [h.size] at hpart
    exact ⟨h.rest, by omega, h.size, h.crc, h.claim⟩

/-- One pass over the bytes of a read took `n` of them. -/
def Passed (kept : RetainedResult) (consumed data : Bytes) (g : Download) (r : Service × ℕ) :
    Prop :=
  0 < r.2 ∧ r.2 ≤ data.length ∧
    Reading kept g r.1 (consumed ++ data.take r.2) (data.drop r.2)

theorem passed_all (hne : data ≠ []) {s' : Service}
    (h : Reading kept g s' (consumed ++ data) []) :
    Passed kept consumed data g (s', data.length) := by
  refine ⟨List.length_pos_iff.mpr hne, le_refl _, ?_⟩
  rw [List.take_length, List.drop_length]
  exact h

theorem passed_part {q rest : Bytes} (hq : q ≠ []) {s' : Service}
    (h : Reading kept g s' (consumed ++ q) rest) :
    Passed kept consumed (q ++ rest) g (s', q.length) := by
  refine ⟨List.length_pos_iff.mpr hq, by simp, ?_⟩
  rw [List.take_left, List.drop_left]
  exact h

theorem reading_framer (f : Framer) (h : Stand kept s) : Stand kept { s with framer := f } :=
  ⟨h.links, h.reads, h.upload, ⟨h.holds.csv, h.holds.claim, h.holds.bare, h.holds.ticket⟩⟩

/-- The three message handlers: the framer stays inside the message `m`, or
`whole` takes over at its end. -/
theorem framed_passed {expected alternate : MessageType} {m part tail : Bytes}
    (malformed : String) (whole : Service → ℕ → P (Service × ℕ))
    (h : Reading kept g s consumed data) (hne : data ≠ [])
    (hmid : Midway s.framer expected alternate m part)
    (hw : (Framer.reset expected alternate).Whole m) (hd : part ++ data <+: m ++ tail)
    (hmore : ∀ f, Midway f expected alternate m (part ++ data) →
      Track kept { s with framer := f } g.stream (consumed ++ data))
    (hwhole : ∀ q rest f, data = q ++ rest → m = part ++ q → f.buffer = m →
      Fetches kept (whole { s with framer := f } q.length) g
        (fun g' r => r.2 = q.length ∧ Reading kept g' r.1 (consumed ++ q) rest)) :
    Fetches kept (s.framed data malformed whole) g (Passed kept consumed data) := by
  unfold Service.framed
  dsimp only
  rcases midway_feed hmid hw hd with ⟨f, hfeed, hmid'⟩ |
    ⟨q, rest, f, hsplit, hq, hm, hfeed, hbuf, hok⟩
  · rw [hfeed]
    dsimp only
    rw [midway_status hmid']
    refine passed_all hne ⟨reading_framer _ h.stand, h.carried, hmore f hmid', ?_, h.inOrder, ?_⟩
    · rw [List.append_nil]
      exact h.got
    · exact fun hn => absurd rfl hn
  · rw [hfeed]
    dsimp only
    rw [hok]
    refine keeps_mono _ _ _ _ ?_ (hwhole q rest f hsplit hm hbuf)
    rintro g' ⟨s', n⟩ ⟨hn, hr⟩
    have hn : n = q.length := hn
    rw [hsplit, hn]
    exact passed_part hq hr

theorem decode_announce (hmax : kept.csv.length ≤ kMaxCsvSize) :
    decodeResultHeader (announce kept.csv) =
      .ok { csvSize := kept.csv.length, crc32 := crc32 0#32 kept.csv } := by
  refine decodeResultHeader_encode _ (lt_of_le_of_lt hmax ?_)
  decide

theorem stand_receiving (header : ResultHeader) (resuming : Bool) (h : Stand kept s)
    (hcsv : resuming = false → s.csv = []) : Stand kept (s.receiving header resuming) := by
  have hsame : (s.receiving header resuming).csv = s.csv := by
    cases resuming with
    | true => rfl
    | false => exact (hcsv rfl).symm
  refine ⟨h.links, h.reads, h.upload, ?_, ?_, ?_, fun he => by cases he⟩
  · rw [hsame]
    exact h.holds.csv
  · rw [hsame]
    exact h.holds.claim
  · rw [hsame]
    exact h.holds.bare

/-- The header ends: with the first delivery nothing is held yet, and a resumed
one goes on where the service stands. -/
theorem headerFramed_passed {rest : Bytes} (resuming : Bool) (n : ℕ)
    (hmax : kept.csv.length ≤ kMaxCsvSize) (hs : Stand kept s) (hk : Carried s)
    (he : s.expecting ≠ .nothing) (ho : s.isOpen = true) (hc : s.hasClaim = true)
    (hcsv : resuming = false → s.csv = []) (hbuf : s.framer.buffer = announce kept.csv)
    (hrest : consumed ++ kept.csv.drop s.csv.length = g.stream)
    (hg : g.got = consumed ++ rest) (hin : g.got <+: g.stream) :
    Fetches kept (s.headerFramed resuming n) g
      (fun g' r => r.2 = n ∧ Reading kept g' r.1 consumed rest) := by
  have hle := hs.holds.csv.length_le
  unfold Service.headerFramed
  rw [Framer.message, hbuf, decode_announce hmax]
  refine keeps_seq _ _ _ _ _
    (Q := fun g' r => r.2 = true ∧ Reading kept g' r.1 consumed rest) ?_ ?_
  · refine fetches_act _ _ trivial fun _ => ?_
    rw [if_neg (by simp only; omega), if_neg (by simp; intro _; omega)]
    refine keeps_seq _ _ _ _ _ (Q := fun g' s' => Reading kept g' s' consumed rest) ?_
      fun _ _ h => ⟨rfl, h⟩
    refine fetches_act _ _ trivial fun _ => fetches_act _ _ trivial fun _ => ?_
    refine completed_reading (stand_receiving _ resuming hs hcsv) (fun _ => hk he) ho
      ⟨rfl, ?_, rfl, rfl, hc⟩ hg hin
    have hlen : (s.receiving { csvSize := kept.csv.length, crc32 := crc32 0#32 kept.csv }
        resuming).csv.length = s.csv.length := by
      cases resuming with
      | true => rfl
      | false => simp [Service.receiving, hcsv rfl]
    rw [hlen]
    exact hrest
  · rintro g' ⟨s', begun⟩ ⟨hb, hr⟩
    have hb : begun = true := hb
    subst hb
    exact ⟨rfl, hr⟩

theorem ackFramed_passed {rest : Bytes} (n : ℕ) (hs : Stand kept s) (hk : Carried s)
    (he : s.expecting = .ack) (ho : s.isOpen = true) (hbuf : s.framer.buffer = ackOf kept)
    (hstream : g.stream = firstDelivery kept) (hg : g.got = ackOf kept ++ rest)
    (hin : g.got <+: g.stream) :
    Fetches kept (s.ackFramed n) g
      (fun g' r => r.2 = n ∧ Reading kept g' r.1 (ackOf kept) rest) := by
  obtain ⟨hclaim, hname, htotal, hcrc⟩ := hs.holds.ticket he
  have hcsv := hs.holds.bare hclaim
  unfold Service.ackFramed
  rw [Framer.message, hbuf, ackOf, decodeAck_encode]
  simp only [ne_eq, not_true_eq_false, if_false]
  refine keeps_seq _ _ _ _ _
    (Q := fun g' s' => Reading kept g' s' (ackOf kept) rest) ?_ fun _ _ h => ⟨rfl, h⟩
  refine fetches_act _ _ trivial fun _ => fetches_act _ _ trivial fun _ => ?_
  refine fetches_act _ _ trivial fun _ => ?_
  refine ⟨⟨hs.links, hs.reads, hs.upload, hs.holds.csv, fun _ => ?_, (fun hn => by cases hn),
    (fun hn => by cases hn)⟩, fun _ => hk (by simp [he]), ?_, hg, hin, fun _ => ho⟩
  · simp [ticketOf, hname, htotal, hcrc, hcsv]
  · exact ⟨hstream, hcsv, rfl, [], by simp, midway_reset _ _ (announce_ne_nil _)⟩

theorem handleCsvBytes_passed (hmax : kept.csv.length ≤ kMaxCsvSize)
    (h : Reading kept g s consumed data) (hne : data ≠ []) (he : s.expecting = .csvPayload) :
    Fetches kept (s.handleCsvBytes data) g (Passed kept consumed data) := by
  have ht := h.track
  simp only [Track, he] at ht
  obtain ⟨hrest, hlt, hsize, hcrc, hclaim⟩ := ht
  have hcsv := h.stand.holds.csv
  obtain ⟨more, hmore⟩ := hcsv
  have hdrop : kept.csv.drop s.csv.length = more := by rw [← hmore, List.drop_left]
  have hpre : data <+: more := by
    have hin := h.inOrder
    rw [h.got, ← hrest, hdrop, List.prefix_append_right_inj] at hin
    exact hin
  have hlen : data.length ≤ more.length := hpre.length_le
  have hkept : kept.csv.length = s.csv.length + more.length := by rw [← hmore, List.length_append]
  have htake : min data.length ((s.csvSize + kSizeRange - s.csv.length) % kSizeRange) =
      data.length := by
    rw [remaining_eq (hsize ▸ hlt) (hsize ▸ hmax), hsize]
    omega
  refine fetches_act _ _ ⟨h.stand.holds.csv, by omega⟩ fun _ => ?_
  dsimp only
  rw [htake, List.take_length]
  refine keeps_seq _ _ _ _ _ (Q := fun g' s' => Reading kept g' s' (consumed ++ data) []) ?_
    fun _ _ hr => passed_all hne hr
  obtain ⟨later, hlater⟩ := hpre
  have hheld : s.csv ++ data <+: kept.csv := ⟨later, by rw [← hmore, ← hlater, List.append_assoc]⟩
  have hst : Stand kept (s.appended data) := by
    refine ⟨h.stand.links, h.stand.reads, h.stand.upload, hheld, fun _ => ?_, fun hn => ?_,
      fun hn => ?_⟩
    · change (if s.hasClaim then _ else _) = _
      rw [if_pos hclaim, h.stand.holds.claim hclaim]
      rfl
    · exact absurd (show s.hasClaim = false from hn) (by simp [hclaim])
    · exact absurd (show s.expecting = .ack from hn) (by simp [he])
  refine completed_reading hst (fun _ => h.carried (by simp [he])) (h.isOpen hne)
    ⟨he, ?_, hsize, hcrc, hclaim⟩ (by rw [List.append_nil]; exact h.got) h.inOrder
  change consumed ++ data ++ kept.csv.drop (s.csv ++ data).length = g.stream
  have hdrop' : kept.csv.drop (s.csv ++ data).length = later := by
    rw [← hmore, ← hlater, ← List.append_assoc, List.drop_left]
  rw [hdrop', ← hrest, hdrop, ← hlater, List.append_assoc]

theorem handleAckBytes_passed (h : Reading kept g s consumed data) (hne : data ≠ [])
    (he : s.expecting = .ack) :
    Fetches kept (s.handleAckBytes data) g (Passed kept consumed data) := by
  have ht := h.track
  simp only [Track, he] at ht
  obtain ⟨hstream, hmid⟩ := ht
  have hin := h.inOrder
  rw [h.got, hstream] at hin
  refine framed_passed _ _ h hne hmid (whole_ack kept .ack) hin (fun f hf => ?_)
    (fun q rest f hsplit hm hbuf => ?_)
  · simp only [Track, he]
    exact ⟨hstream, hf⟩
  · rw [← hm]
    refine ackFramed_passed _ (reading_framer f h.stand) h.carried he (h.isOpen hne) hbuf hstream
      ?_ h.inOrder
    rw [h.got, hsplit, hm, List.append_assoc]

theorem handleResultHeaderBytes_passed (hmax : kept.csv.length ≤ kMaxCsvSize)
    (h : Reading kept g s consumed data) (hne : data ≠ []) (he : s.expecting = .resultHeader) :
    Fetches kept (s.handleResultHeaderBytes data) g (Passed kept consumed data) := by
  have ht := h.track
  simp only [Track, he] at ht
  obtain ⟨hstream, hcsv, hclaim, part, hpart, hmid⟩ := ht
  have hin := h.inOrder
  rw [h.got, hstream, hpart, List.append_assoc, firstDelivery, List.prefix_append_right_inj] at hin
  refine framed_passed _ _ h hne hmid (whole_announce _ (.inl rfl)) hin (fun f hf => ?_)
    (fun q rest f hsplit hm hbuf => ?_)
  · simp only [Track, he]
    exact ⟨hstream, hcsv, hclaim, part ++ data, by rw [hpart, List.append_assoc], hf⟩
  · refine headerFramed_passed false _ hmax (reading_framer f h.stand) h.carried (by simp [he])
      (h.isOpen hne) hclaim (fun _ => hcsv) hbuf ?_ ?_ h.inOrder
    · rw [hstream, firstDelivery, hpart, hm]
      simp [hcsv]
    · rw [h.got, hsplit, List.append_assoc]

theorem handleResumeReplyBytes_passed (hmax : kept.csv.length ≤ kMaxCsvSize)
    (h : Reading kept g s consumed data) (hne : data ≠ []) (he : s.expecting = .resumeReply) :
    Fetches kept (s.handleResumeReplyBytes data) g (Passed kept consumed data) := by
  have ht := h.track
  simp only [Track, he] at ht
  obtain ⟨hstream, hclaim, hmid⟩ := ht
  have hin := h.inOrder
  rw [h.got, hstream] at hin
  refine framed_passed _ _ h hne hmid (whole_announce _ (.inr rfl)) hin (fun f hf => ?_)
    (fun q rest f hsplit hm hbuf => ?_)
  · simp only [Track, he]
    exact ⟨hstream, hclaim, hf⟩
  · unfold Service.resumeFramed
    have htype : ({ s with framer := f } : Service).framer.messageType ≠ MessageType.ack.code := by
      change byteAt f.buffer kOffsetType ≠ _
      rw [hbuf, announce, (encodeResultHeader_size _).2]
      decide
    rw [if_neg htype]
    refine headerFramed_passed true _ hmax (reading_framer f h.stand) h.carried (by simp [he])
      (h.isOpen hne) hclaim (fun hn => by cases hn) hbuf ?_ ?_ h.inOrder
    · rw [hstream, hm]
    · rw [h.got, hsplit, List.append_assoc]

theorem consume_passed (hmax : kept.csv.length ≤ kMaxCsvSize)
    (h : Reading kept g s consumed data) (hne : data ≠ []) :
    Fetches kept (s.consume data) g (Passed kept consumed data) := by
  unfold Service.consume
  cases he : s.expecting with
  | ack => exact handleAckBytes_passed h hne he
  | resultHeader => exact handleResultHeaderBytes_passed hmax h hne he
  | csvPayload => exact handleCsvBytes_passed hmax h hne he
  | resumeReply => exact handleResumeReplyBytes_passed hmax h hne he
  | nothing =>
    -- everything the server sends was taken, so there is no byte left to read
    have ht := h.track
    simp only [Track, he] at ht
    have hin := h.inOrder
    rw [h.got, ht (h.isOpen hne)] at hin
    exact absurd (List.append_right_eq_self.mp (hin.eq_of_length_le (by simp))) hne

theorem reading_follows (h : Reading kept g s consumed []) : Follows kept g s := by
  have hg := h.got
  rw [List.append_nil] at hg
  exact ⟨h.stand, h.carried, hg ▸ h.track⟩

theorem onBytes_follows (hmax : kept.csv.length ≤ kMaxCsvSize) (n : ℕ) (hn : data.length < n)
    (h : Reading kept g s consumed data) :
    Fetches kept (Service.onBytes n s data) g (Follows kept) := by
  have hstart : ∃ consumed, Reading kept g s consumed data := ⟨consumed, h⟩
  refine Service.keeps_onBytes (I := fun data g s => ∃ consumed, Reading kept g s consumed data)
    (fun _ _ ⟨_, h⟩ => reading_follows h) ?_ n data (.inl hn) hstart
  rintro data g s hne ⟨consumed, h⟩
  refine keeps_mono _ _ _ _ ?_ (consume_passed hmax h hne)
  rintro g' r ⟨hpos, -, hr⟩
  exact ⟨fun hzero => absurd hzero (Nat.ne_of_gt hpos), fun _ => ⟨_, hr⟩⟩

end Download

section Commands

variable {kept : RetainedResult} {g : Download} {s : Service} {w : World}

theorem follows_stand {s' : Service} (h : Stand kept s) (hl : Links s') (hr : Reads s')
    (hu : s'.uploading = s.uploading) (hc : s'.csv = s.csv) (hh : s'.hasClaim = s.hasClaim)
    (hcl : s'.claim = s.claim) (he : s'.expecting = s.expecting)
    (hn : s'.uploadFilename = s.uploadFilename) (ht : s'.uploadTotal = s.uploadTotal)
    (hcrc : s'.uploadCrc = s.uploadCrc) : Stand kept s' := by
  refine ⟨hl, hr, hu.trans h.upload, ?_⟩
  obtain ⟨hcsv, hclaim, hbare, hticket⟩ := h.holds
  exact ⟨hc ▸ hcsv, by rw [hh, hcl, hc]; exact hclaim, by rw [hh, hc]; exact hbare,
    by rw [he, hh, hn, ht, hcrc]; exact hticket⟩

theorem stand_close (h : Stand kept s) : Stand kept s.closeSocket :=
  follows_stand h (links_close h.links) (reads_close s) rfl rfl rfl rfl rfl rfl rfl rfl

theorem ended_closed (h : Stand kept s) (he : s.expecting = .nothing) :
    Ended kept s.closeSocket := ⟨stand_close h, he, isOpen_close s⟩

theorem handleConnect_follows (ip : Bytes) (port : ℕ) (h : Follows kept g s) :
    Fetches kept (s.handleConnect ip port) g (Follows kept) := by
  unfold Service.handleConnect
  split
  · exact fetches_act _ _ trivial fun _ => h
  · rename_i hs
    have hk : s.socket = none := by simpa using hs
    obtain ⟨hst, hcar, htr⟩ := h
    have he : s.expecting = .nothing := by
      by_contra hn
      obtain ⟨k, hk', -⟩ := hcar hn
      simp [hk] at hk'
    refine fetches_act _ _ trivial fun _ => fetches_act _ _ trivial fun ok => ?_
    cases ok with
    | false =>
      refine fetches_act _ _ trivial fun _ => fetches_act _ _ trivial fun _ => ?_
      refine ⟨follows_stand hst hst.links hst.reads rfl rfl rfl rfl rfl rfl rfl rfl, hcar, ?_⟩
      simp only [Track, he] at htr ⊢
      exact htr
    | true =>
      refine fetches_act _ _ trivial fun _ => ?_
      refine ⟨follows_stand hst ⟨?_, ?_⟩ ?_ rfl rfl rfl rfl rfl rfl rfl rfl,
        fun hn => absurd he hn, ?_⟩
      · rintro _ _ ⟨⟩
        rfl
      · rintro _ ⟨⟩ _
        rfl
      · rintro _ ⟨⟩ _
        rfl
      · simp only [Track, he]
        exact fun _ => rfl

theorem handleDisconnect_follows (h : Follows kept g s) :
    Fetches kept s.handleDisconnect g (Follows kept) := by
  obtain ⟨hst, hcar, htr⟩ := h
  have hst' : Stand kept { s with connectTimer := false } :=
    follows_stand hst (links_stopped hst.links) hst.reads rfl rfl rfl rfl rfl rfl rfl rfl
  unfold Service.handleDisconnect
  dsimp only
  split
  · exact fetches_act _ _ trivial fun _ => ⟨hst', hcar, htr⟩
  · refine fetches_act _ _ trivial fun _ => ?_
    rw [if_neg (by simp [hst.upload])]
    split
    · exact keeps_mono _ _ _ _ (fun _ _ h => follows_ended h.2) (failSession_ended _ _ hst')
    · rename_i he
      exact follows_ended (ended_closed hst' (by simpa using he))

theorem handleStartUpload_follows (path filename : Bytes) (size : ℕ) (h : Follows kept g s) :
    Fetches kept (s.handleStartUpload path filename size) g (Follows kept) := by
  unfold Service.handleStartUpload
  rw [if_neg (by simp [h.1.upload])]
  split
  · exact fetches_act _ _ trivial fun _ => h
  · refine keeps_seq _ _ _ _ _ (Q := fun g' _ => g' = g) ?_ ?_
    · exact drainLoop_fetches _
    · rintro g' _ rfl
      refine (keeps_ask_bind _ _ _ _ _ _).mpr ⟨trivial, fun error he => ?_⟩
      cases error with
      | some error => exact fetches_act _ _ trivial fun _ => h
      | none => cases he

theorem handleRequestResult_follows (h : Follows kept g s) :
    Fetches kept s.handleRequestResult g (Follows kept) := by
  obtain ⟨hst, hcar, htr⟩ := h
  unfold Service.handleRequestResult
  split
  · exact fetches_act _ _ trivial fun _ => ⟨hst, hcar, htr⟩
  · rename_i hc
    have hclaim : s.hasClaim = true := by simpa using hc
    have hticket := hst.holds.claim hclaim
    split
    · exact fetches_act _ _ trivial fun _ => ⟨hst, hcar, htr⟩
    · refine fetches_act _ _ ⟨hst.holds.csv, by rw [hticket]; rfl, rfl⟩ fun _ => ?_
      unfold Service.send
      by_cases ho : s.isOpen = true
      · rw [if_neg (by simp [ho])]
        obtain ⟨k, hk, hopen⟩ := isOpen_some ho
        rw [bind_assoc]
        refine (keeps_ask_bind _ _ _ _ _ _).mpr ⟨trivial, fun ok hfresh => ?_⟩
        cases ok with
        | false =>
          exact keeps_mono _ _ _ _ (fun _ _ h => follows_ended h.2) (failSession_ended _ _ hst)
        | true =>
          refine fetches_act _ _ trivial fun _ => fetches_act _ _ trivial fun _ => ?_
          refine ⟨⟨links_queued hst.links, reads_queued hst.reads, hst.upload, hst.holds.csv,
            hst.holds.claim, hst.holds.bare, (fun hn => by cases hn)⟩,
            fun _ => carrier_queued hk hopen, ?_, hclaim, ?_⟩
          · change (reply (some kept) (Service.requestOf s.claim)).flatten = _
            rw [hticket, reply_ticket kept _ hst.holds.csv.length_le]
            rfl
          · have hgot : g.got = [] := hfresh.2
            change Midway _ _ _ _ g.got
            rw [hgot]
            exact midway_reset _ _ (announce_ne_nil _)
      · rw [if_pos (by simp [ho])]
        exact keeps_mono _ _ _ _ (fun _ _ h => follows_ended h.2) (failSession_ended _ _ hst)

theorem handle_follows (command : Command) (h : Follows kept g s) :
    Fetches kept (s.handle command) g (Follows kept) := by
  cases command with
  | connect ip port => exact handleConnect_follows ip port h
  | disconnect => exact handleDisconnect_follows h
  | startUpload path filename size => exact handleStartUpload_follows path filename size h
  | requestResult => exact handleRequestResult_follows h
  | cancelUpload =>
    change Fetches kept s.handleCancelUpload g (Follows kept)
    unfold Service.handleCancelUpload
    rw [if_pos (by simp [h.1.upload])]
    exact h

theorem drainCommands_follows (n : ℕ) (h : Follows kept g s) :
    Fetches kept (Service.drainCommands n s) g (Follows kept) := by
  apply Service.keeps_drainCommands (fun _ => trivial) (fun _ _ h => h) _ n h
  intro g s command h _
  exact handle_follows command h

theorem pumpUpload_follows (h : Follows kept g s) :
    Fetches kept s.pumpUpload g (Follows kept) := by
  unfold Service.pumpUpload
  rw [if_pos (by simp [h.1.upload])]
  exact h

end Commands

section Callbacks

variable {kept : RetainedResult} {g : Download} {s : Service} {w : World}

/-- Where the service stands depends on its socket only while it awaits
nothing. -/
theorem track_socket {s' : Service} {stream consumed : Bytes}
    (hs : ∃ timer socket, s' = { s with connectTimer := timer, socket := socket })
    (ho : s'.isOpen = true → s.isOpen = true) (h : Track kept s stream consumed) :
    Track kept s' stream consumed := by
  obtain ⟨timer, socket, rfl⟩ := hs
  unfold Track at h ⊢
  cases he : s.expecting with
  | nothing =>
    simp only [he] at h ⊢
    exact fun hn => h (ho hn)
  | _ =>
    simp only [he] at h ⊢
    exact h

theorem onConnectTimeout_follows (h : Follows kept g s) (ht : s.connectTimer = true) :
    Fetches kept s.onConnectTimeout g (Follows kept) := by
  obtain ⟨hst, hcar, htr⟩ := h
  have hst' : Stand kept { s with connectTimer := false } :=
    follows_stand hst (links_stopped hst.links) hst.reads rfl rfl rfl rfl rfl rfl rfl rfl
  unfold Service.onConnectTimeout
  dsimp only
  split
  · refine fetches_act _ _ trivial fun _ => fetches_act _ _ trivial fun _ => ?_
    refine fetches_act _ _ trivial fun _ => ⟨stand_close hst', fun he => ?_, ?_⟩
    · obtain ⟨k, hk, hc⟩ := hcar he
      exact ⟨_, congrArg (Option.map _) hk, hc.1, fun _ => hst.links.timer ht k hk⟩
    · refine track_socket ⟨_, _, rfl⟩ (fun ho => ?_) htr
      rw [isOpen_close] at ho
      cases ho
  · exact ⟨hst', hcar, track_socket ⟨_, _, rfl⟩ (fun ho => ho) htr⟩

theorem onConnect_follows (ok : Bool) (text : Bytes) (h : Follows kept g s)
    (hready : ready s w (.connectDone ok text) = true) :
    Fetches kept (s.onConnect ok text) g (Follows kept) := by
  obtain ⟨hst, hcar, htr⟩ := h
  obtain ⟨k, hk, hcond⟩ := Option.any_eq_true _ _ |>.mp hready
  simp only [Bool.and_eq_true, Bool.or_eq_true, Bool.not_eq_true'] at hcond
  have hst' : Stand kept (s.answered ok) :=
    follows_stand hst (links_answered s ok) (reads_map _ (fun _ => ⟨rfl, rfl⟩) hst.reads)
      rfl rfl rfl rfl rfl rfl rfl rfl
  unfold Service.onConnect
  cases ok with
  | false =>
    refine fetches_act _ _ trivial fun _ => fetches_act _ _ trivial fun _ => ?_
    refine ⟨stand_close hst', fun he => ?_,
      track_socket (s := s) ⟨_, _, rfl⟩ (fun ho => ?_) htr⟩
    · obtain ⟨k', hk', hc⟩ := hcar he
      obtain rfl : k = k' := by simpa [hk] using hk'
      refine ⟨_, congrArg (Option.map _ ∘ Option.map _) hk, fun _ => ?_, fun _ => rfl⟩
      exact hc.1 (hst.links.request k hk hcond.1)
    · rw [isOpen_close] at ho
      cases ho
  | true =>
    have hopen : k.closing = false := by simpa using hcond.2
    have ho : s.isOpen = true := by simp [Service.isOpen, hk, hopen]
    have ho' : (s.answered true).isOpen = true := by
      simp [Service.answered, Service.isOpen, hk, hopen]
    refine fetches_act _ _ trivial fun _ => fetches_act _ _ trivial fun _ => ?_
    rw [Service.startRead, if_pos ho']
    refine ⟨follows_stand hst' (links_map _ (fun _ => ⟨rfl, rfl⟩) hst'.links) ?_
      rfl rfl rfl rfl rfl rfl rfl rfl, fun _ => ?_,
      track_socket (s := s) ⟨_, _, rfl⟩ (fun _ => ho) htr⟩
    · intro k' hk' _
      have hk' : (s.socket.map _).map _ = some k' := hk'
      rw [hk] at hk'
      cases hk'
      exact hopen
    · refine ⟨_, congrArg (Option.map _ ∘ Option.map _) hk, (fun hn => by cases hn), fun hc => ?_⟩
      exact absurd (show k.closing = true from hc) (by simp [hopen])

theorem sayError_fetches (what : Option Bytes) :
    Fetches kept (s.sayError what) g (fun g' _ => g' = g) := by
  cases what with
  | some text => exact ⟨trivial, fun _ _ => rfl⟩
  | none =>
    change Fetches kept s.sayClosed g _
    unfold Service.sayClosed
    split
    · exact ⟨trivial, fun _ _ => rfl⟩
    · split
      · exact rfl
      · exact ⟨trivial, fun _ _ => rfl⟩

theorem onError_follows (what : Option Bytes) (h : Stand kept s) :
    Fetches kept (s.onError what) g (Follows kept) := by
  refine keeps_seq _ _ _ _ _ (sayError_fetches what) ?_
  rintro _ _ rfl
  refine keeps_seq _ _ _ _ _
    (Q := fun _ s' => Stand kept s' ∧ s'.expecting = .nothing) ?_ fun g' s' h' => ?_
  · unfold Service.giveUp
    rw [if_neg (by simp [h.upload])]
    split
    · exact keeps_mono _ _ _ _ (fun _ _ h => ⟨h.2.1, h.2.2.1⟩) (failSession_ended _ _ h)
    · rename_i he
      exact ⟨h, by simpa using he⟩
  · exact fetches_act _ _ trivial fun _ => follows_ended (ended_closed h'.1 h'.2)

theorem stand_written (h : Stand kept s) (n : ℕ) :
    Stand kept { s.written with inFlightWrites := n } := by
  have hl : Links s.written := links_map _ (fun _ => ⟨rfl, rfl⟩) h.links
  have hr : Reads s.written := reads_map _ (fun _ => ⟨rfl, rfl⟩) h.reads
  exact follows_stand h hl hr rfl rfl rfl rfl rfl rfl rfl rfl

theorem onWrite_follows (ok : Bool) (text : Bytes) (h : Follows kept g s)
    (hready : ready s w (.writeDone ok text) = true) :
    Fetches kept (s.onWrite ok text) g (Follows kept) := by
  obtain ⟨hst, hcar, htr⟩ := h
  obtain ⟨k, hk, hcond⟩ := Option.any_eq_true _ _ |>.mp hready
  simp only [Bool.and_eq_true, Bool.or_eq_true, Bool.not_eq_true'] at hcond
  have hst' := stand_written hst (s.inFlightWrites - 1)
  cases ok with
  | true =>
    have hconn : k.connected = true := by simpa using hcond.2
    refine keeps_seq _ _ _ _ _ (Q := Follows kept) (pumpUpload_follows ?_) fun _ _ h => h
    refine ⟨hst', fun he => ?_, ?_⟩
    · obtain ⟨k', hk', hc⟩ := hcar he
      obtain rfl : k = k' := by simpa [hk] using hk'
      refine ⟨_, congrArg (Option.map _) hk, fun hn => ?_, hc.2⟩
      exact absurd (show k.connected = false from hn) (by simp [hconn])
    · have hopen : s.written.isOpen = s.isOpen := by simp [Service.isOpen, Service.written, hk]
      have htrack : Track kept s.written _ _ :=
        track_socket (s := s) ⟨_, _, rfl⟩ (fun ho => hopen ▸ ho) htr
      exact htrack
  | false =>
    refine keeps_seq _ _ _ _ _ (Q := fun _ s' => Stand kept s') ?_
      fun _ _ h' => onError_follows _ h'
    change Fetches kept (if s.uploading then _ else _) g _
    rw [if_neg (by simp [hst.upload])]
    exact hst'

theorem onClosed_follows (h : Follows kept g s) (hready : ready s w .closed = true) :
    Fetches kept s.onClosed g (Follows kept) := by
  obtain ⟨hst, hcar, -⟩ := h
  obtain ⟨k, hk, hcond⟩ := Option.any_eq_true _ _ |>.mp hready
  simp only [Bool.and_eq_true, decide_eq_true_eq] at hcond
  have he : s.expecting = .nothing := by
    by_contra hn
    obtain ⟨k', hk', hc⟩ := hcar hn
    obtain rfl : k = k' := by simpa [hk] using hk'
    have := hc.1 (hc.2 hcond.1.1)
    omega
  refine fetches_act _ _ trivial fun _ => follows_ended ⟨?_, he, rfl⟩
  refine follows_stand hst ⟨fun _ _ hn => ?_, fun _ hn => ?_⟩ (fun _ hn => ?_)
    rfl rfl rfl rfl rfl rfl rfl rfl
  · cases hn
  · cases hn
  · cases hn

theorem onReadable_follows (hmax : kept.csv.length ≤ kMaxCsvSize) (count : ℕ)
    (h : Follows kept g s) (hready : ready s w (.readable count) = true) :
    Fetches kept (s.onReadable count) g (Follows kept) := by
  obtain ⟨hst, hcar, htr⟩ := h
  obtain ⟨k, hk, hr⟩ := Option.any_eq_true _ _ |>.mp hready
  have ho : s.isOpen = true := by simp [Service.isOpen, hk, hst.reads k hk hr]
  refine (keeps_ask_bind _ _ _ _ _ _).mpr ⟨trivial, fun data hin => ?_⟩
  exact onBytes_follows hmax _ (Nat.lt_succ_self _) ⟨hst, hcar, htr, rfl, hin, fun _ => ho⟩

theorem callback_follows (hmax : kept.csv.length ≤ kMaxCsvSize) (e : Signal)
    (h : Follows kept g s) (hready : ready s w e = true) :
    Fetches kept (callback s e) g (Follows kept) := by
  cases e with
  | async passes =>
    exact keeps_seq _ _ _ _ _ (drainCommands_follows _ h) fun _ _ => pumpUpload_follows
  | connectDone ok text => exact onConnect_follows ok text h hready
  | readable count => exact onReadable_follows hmax count h hready
  | readError error => exact onError_follows _ h.1
  | writeDone ok text => exact onWrite_follows ok text h hready
  | connectTimeout => exact onConnectTimeout_follows h hready
  | closed => exact onClosed_follows h hready

end Callbacks

end LogTransfer.Client
