import LogTransfer.CallCallbacks
import LogTransfer.UploadExact
import LogTransfer.Composition

/-!
# The client on an errand

The loop thread is on its errand over the discipline of the exact upload, which
says what the connection was given; a file that does not change is long enough
for its reader. What the client was handed and hands over is then the stream of
replies and the request, and DownloadDone is sent behind the last reply.
-/

set_option autoImplicit false

namespace LogTransfer.Client
open Program Interleave

section Reader

variable {r r' : FileReader}

/-- No read of the file comes up short. -/
def Plenty (r : FileReader) : Prop := r.failed = false ∧ r.remaining ≤ r.file.length

theorem plenty_readChunk (h : Plenty r) : Plenty r.readChunk := by
  obtain ⟨hf, hr⟩ := h
  unfold FileReader.readChunk
  dsimp only
  split
  · exact ⟨hf, hr⟩
  · rename_i hz
    split
    · rename_i he
      rw [List.isEmpty_iff.mp he, List.length_nil] at hr
      exact absurd (show min kDefaultSlotSize r.remaining = 0 by omega) hz
    · refine ⟨hf, ?_⟩
      simp only [List.length_take, List.length_drop]
      omega

theorem plenty_step (hs : r.Sound) (ha : r.abort = false) (h : Plenty r)
    (hst : r.readerStep = some r') : Plenty r' := by
  unfold FileReader.readerStep at hst
  cases hpc : r.pc with
  | read =>
    simp only [hpc] at hst
    cases hst
    exact plenty_readChunk h
  | leave =>
    simp only [hpc] at hst
    cases hst
    have hspent := hs.spent (by simp [hpc, FileReader.ReaderPc.last]) ha
    have hlen := congrArg List.length hspent
    rw [List.length_take, List.length_nil, Nat.min_eq_left h.2] at hlen
    exact ⟨h.1, by simp [hlen]⟩
  | waitUpload =>
    simp only [hpc] at hst
    split at hst <;> cases hst
    exact h
  | waitSpace =>
    simp only [hpc] at hst
    split at hst <;> cases hst
    exact h
  | _ =>
    simp only [hpc] at hst
    cases hst
    exact h

/-- A reader without an upload is asleep. -/
theorem asleep_step (hs : r.Sound) (hu : r.uploading = false) : r.readerStep = none := by
  have hpc : r.pc = .waitUpload := by
    by_contra hne
    simp [hs.working hne] at hu
  simp [FileReader.readerStep, hpc, hu]

end Reader

variable [Doubles] (e : Errand) (ip : Bytes) (port : ℕ) (files : Bytes → Option Bytes)

/-- The file of an upload is there and stays as it is. -/
def Keeping : Prop := ∀ path, e.task = .upload path → files path = some e.content

/-- What the connection was given, stage by stage. -/
def Handed (g : Wire) (c : Call) (r : FileReader) : Prop :=
  match c.stage with
  | .away | .linked => g.bytes = [] ∧ (e.Uploads → r.uploading = false ∧ r.ring = [])
  | .accepted => g.bytes = [] ∧ Plenty r ∧
    ∃ path, e.task = .upload path ∧ g.stage = .accepted path e.content.length
  | .streaming data => g.before = [] ∧ Plenty r ∧
    ∃ path, e.task = .upload path ∧ g.stage = .streaming path e.header data
  | .asked => g.bytes = e.request
  | .thanked => g.bytes = e.request ++ encodeDownloadDone

structure CallTrue (g : Wire) (c : Call) (w : World) : Prop where
  taken : c.taken ++ w.commands <+: plan e ip port
  heard : c.stage ≠ .away →
    c.got ++ w.inbox <+: e.stream ∧ (c.got ++ w.inbox ≠ [] → c.Spoken)
  stored : c.stored = true → w.resultCsv = e.csv
  done : c.done = true → c.stored = true ∧ c.stage = .thanked
  complete : c.stage = .thanked → c.got = e.stream
  handed : Handed e g c w.reader
  seen : c.seen.length = g.bytes.length
  late : ∀ n ∈ c.seen.drop e.request.length, n = e.stream.length

/-- The world in which the errand is run. -/
def Calling : Limits Op World Service Signal Peer (Wire × Call) where
  op _ _ op b :=
    match op with
    | .connect _ _ | .send _ => b = true
    | _ => True
  start g _ _ signal := Call.Reported g.2 signal
  peer g w d :=
    match d with
    | .arrive bytes => g.2.stage ≠ .away → g.2.got ++ (w.inbox ++ bytes) <+: e.stream ∧
      (g.2.got ++ (w.inbox ++ bytes) ≠ [] → g.2.Spoken)
    | .post command => g.2.taken ++ (w.commands ++ [command]) <+: plan e ip port
    | .click action => g.2.taken ++ (w.click action).commands <+: plan e ip port
    | _ => True

variable {e ip port files}

section Bytes

variable {g : Wire} {c : Call} {w : World}

/-- In an upload no more than the request has been handed over. -/
theorem streaming_bytes {path data : Bytes} {r : FileReader} (hf : Keeping e files)
    (htask : e.task = .upload path) (hst : g.stage = .streaming path e.header data)
    (hb : g.before = []) (h : StageOk files g r) :
    g.bytes = e.opening ++ data ∧ data <+: e.content := by
  simp only [StageOk, hst] at h
  obtain ⟨hbytes, -, hfeeds⟩ := h
  obtain ⟨content, hcont, hwhole⟩ := hfeeds.whole
  rw [hf path htask] at hcont
  cases hcont
  have htake : e.content.take e.header.fileSize = e.content := List.take_length
  rw [htake] at hwhole
  refine ⟨?_, _, hwhole⟩
  rw [hbytes, hb, Errand.opening_upload htask]
  rfl

/-- The client says the request and DownloadDone, and nothing else. -/
theorem handed_within (hf : Keeping e files) (hok : StageOk files g w.reader)
    (h : Handed e g c w.reader) : g.bytes <+: e.request ++ encodeDownloadDone := by
  unfold Handed at h
  split at h
  · rw [h.1]
    exact List.nil_prefix
  · rw [h.1]
    exact List.nil_prefix
  · rw [h.1]
    exact List.nil_prefix
  · obtain ⟨hb, -, path, htask, hst⟩ := h
    obtain ⟨hbytes, hdata⟩ := streaming_bytes hf htask hst hb hok
    rw [hbytes, Errand.request_upload htask, List.append_assoc, List.append_assoc,
      List.prefix_append_right_inj]
    exact hdata.trans (List.prefix_append _ _)
  · rw [h]
    exact List.prefix_append _ _
  · exact ⟨[], by rw [h, List.append_nil]⟩

/-- Whoever has all of the request was asked. -/
theorem handed_spoken (hf : Keeping e files) (hok : StageOk files g w.reader)
    (h : Handed e g c w.reader) (hlen : e.request.length ≤ g.bytes.length) : c.Spoken := by
  have hsome (hb : g.bytes = []) : False := by
    have hpos := e.request_pos
    rw [hb, List.length_nil] at hlen
    omega
  unfold Handed at h
  split at h
  · exact (hsome h.1).elim
  · exact (hsome h.1).elim
  · exact (hsome h.1).elim
  · obtain ⟨hb, -, path, htask, hst⟩ := h
    obtain ⟨hbytes, hdata⟩ := streaming_bytes hf htask hst hb hok
    have hshort := hdata.length_le
    have htrailer := e.trailer_pos
    rw [hbytes, Errand.request_upload htask] at hlen
    simp only [List.length_append] at hlen
    omega
  · exact .inl ‹_›
  · exact .inr ‹_›

theorem handed_thanked (hf : Keeping e files) (hok : StageOk files g w.reader)
    (h : Handed e g c w.reader) (hlen : e.request.length < g.bytes.length) :
    c.stage = .thanked := by
  refine (handed_spoken hf hok h hlen.le).resolve_left fun hst => ?_
  simp only [Handed, hst] at h
  rw [h] at hlen
  exact lt_irrefl _ hlen

theorem late_short {seen : List ℕ} (h : seen.length ≤ e.request.length) :
    ∀ n ∈ seen.drop e.request.length, n = e.stream.length := by
  rw [List.drop_of_length_le h]
  exact fun _ hn => by cases hn

end Bytes

section Operations

variable {g : Wire} {c : Call} {w w' : World} {b : Bool}

theorem call_sent {m : Message} (hn : c.stage ≠ .away) (hlast : c.stage ≠ .thanked)
    (hsp : c.Spoken → (Call.next c (.send m) true).Spoken)
    (hall : (Call.next c (.send m) true).stage = .thanked → c.got = e.stream)
    (hh : Handed e (Wire.next g (.send m) true) (Call.next c (.send m) true) w.reader)
    (hlate : ∀ n ∈ (Call.next c (.send m) true).seen.drop e.request.length, n = e.stream.length)
    (h : CallTrue e ip port g c w) :
    CallTrue e ip port (Wire.next g (.send m) true) (Call.next c (.send m) true) w where
  taken := h.taken
  heard _ := ⟨(h.heard hn).1, fun hne => hsp ((h.heard hn).2 hne)⟩
  stored := h.stored
  done hd := absurd (h.done hd).2 hlast
  complete := hall
  handed := hh
  seen := by simp [Call.next, Wire.next, h.seen]
  late := hlate

theorem sent_length (m : Message) (h : CallTrue e ip port g c w) :
    (Call.next c (.send m) true).seen.length = (Wire.next g (.send m) true).bytes.length := by
  simp [Call.next, Wire.next, h.seen]

theorem call_header (hok : WireOk files g w) (h : CallTrue e ip port g c w)
    (hst : c.stage = .accepted) :
    CallTrue e ip port (Wire.next g (.send (.header e.header)) true)
      (Call.next c (.send (.header e.header)) true) w := by
  have hn : c.stage ≠ .away := by simp [hst]
  have hh := h.handed
  simp only [Handed, hst] at hh
  obtain ⟨hb, hp, path, htask, hg⟩ := hh
  have hstage := hok.2
  simp only [StageOk, hg] at hstage
  have hbefore : g.before = [] := hstage.1 ▸ hb
  refine call_sent hn (by simp [hst]) (fun hs => ?_) (fun ht => by cases ht) ?_ (late_short ?_) h
  · rcases hs with hs | hs <;> simp [hst] at hs
  · exact ⟨hbefore, hp, path, htask, by simp [Wire.next, hg, Wire.sent]⟩
  · rw [sent_length _ h, Errand.request_upload htask, Errand.opening_upload htask]
    simp [Wire.next, hb, Message.bytes]

theorem call_chunk {chunk : Bytes} (hf : Keeping e files) (hok : WireOk files g w)
    (hm : mayHand g (.chunk chunk)) (h : CallTrue e ip port g c w) (hst : c.Streams) :
    CallTrue e ip port (Wire.next g (.send (.chunk chunk)) true)
      (Call.next c (.send (.chunk chunk)) true) w := by
  obtain ⟨data, hst⟩ := hst
  have hn : c.stage ≠ .away := by simp [hst]
  have hh := h.handed
  simp only [Handed, hst] at hh
  obtain ⟨hb, hp, path, htask, hg⟩ := hh
  have hstage : (Wire.next g (.send (.chunk chunk)) true).stage =
      .streaming path e.header (data ++ chunk) := by simp [Wire.next, hg, Wire.sent]
  have hcall : (Call.next c (.send (.chunk chunk)) true).stage = .streaming (data ++ chunk) := by
    simp [Call.next, Call.said, hst]
  refine call_sent hn (by simp [hst]) (fun hs => ?_) (fun ht => ?_) ?_ (late_short ?_) h
  · rcases hs with hs | hs <;> simp [hst] at hs
  · simp [hcall] at ht
  · simp only [Handed, hcall]
    exact ⟨hb, hp, path, htask, hstage⟩
  · obtain ⟨hbytes, hdata⟩ := streaming_bytes hf htask hstage hb (wireOk_sent hok hm)
    rw [sent_length _ h, hbytes, Errand.request_upload htask, List.append_assoc]
    have := hdata.length_le
    simp only [List.length_append] at this ⊢
    omega

/-- The trailer follows the whole file. -/
theorem call_trailer {t : UploadTrailer} (hf : Keeping e files) (hok : WireOk files g w)
    (hm : mayHand g (.trailer t)) (h : CallTrue e ip port g c w) (hst : c.Streams) :
    CallTrue e ip port (Wire.next g (.send (.trailer t)) true)
      (Call.next c (.send (.trailer t)) true) w := by
  obtain ⟨data, hst⟩ := hst
  have hn : c.stage ≠ .away := by simp [hst]
  have hh := h.handed
  simp only [Handed, hst] at hh
  obtain ⟨hb, hp, path, htask, hg⟩ := hh
  obtain ⟨hbytes, hdata⟩ := streaming_bytes hf htask hg hb hok.2
  have hall : data = e.content ∧ t.crc32 = crc32 0#32 data := by
    obtain ⟨path', header, data', hg', hlen, hcrc, -⟩ := hm
    rw [hg] at hg'
    cases hg'
    exact ⟨hdata.eq_of_length_le hlen, hcrc⟩
  have hrequest : (Wire.next g (.send (.trailer t)) true).bytes = e.request := by
    obtain ⟨crc⟩ := t
    obtain ⟨rfl, rfl⟩ := hall
    simp [Wire.next, hbytes, Message.bytes, Errand.request_upload htask, Errand.trailer]
  refine call_sent hn (by simp [hst]) (fun _ => .inl rfl) (fun ht => by cases ht) hrequest
    (late_short ?_) h
  rw [sent_length _ h, hrequest]

theorem call_request {n : ℕ} (h : CallTrue e ip port g c w) (hst : c.stage = .linked)
    (htask : e.task = .resume n) :
    CallTrue e ip port (Wire.next g (.send (.request (e.claim n))) true)
      (Call.next c (.send (.request (e.claim n))) true) w := by
  have hn : c.stage ≠ .away := by simp [hst]
  have hh := h.handed
  simp only [Handed, hst] at hh
  have hrequest : (Wire.next g (.send (.request (e.claim n))) true).bytes = e.request := by
    simp [Wire.next, hh.1, Message.bytes, Errand.request_resume htask,
      Errand.opening_resume htask]
  refine call_sent hn (by simp [hst]) (fun _ => .inl rfl) (fun ht => by cases ht) hrequest
    (late_short ?_) h
  rw [sent_length _ h, hrequest]

theorem call_downloadDone (h : CallTrue e ip port g c w) (hst : c.stage = .asked)
    (hall : c.got = e.stream) :
    CallTrue e ip port (Wire.next g (.send .downloadDone) true)
      (Call.next c (.send .downloadDone) true) w := by
  have hn : c.stage ≠ .away := by simp [hst]
  have hh := h.handed
  simp only [Handed, hst] at hh
  have hlen : c.seen.length = e.request.length := by rw [h.seen, hh]
  refine call_sent hn (by simp [hst]) (fun _ => .inr rfl) (fun _ => hall) ?_ ?_ h
  · change (Wire.next g (.send .downloadDone) true).bytes = _
    simp [Wire.next, hh, Message.bytes]
  · intro n hmem
    simp only [Call.next, if_true, ← hlen, List.drop_left] at hmem
    rw [List.eq_of_mem_replicate hmem, hall]

theorem call_send (m : Message) (hf : Keeping e files) (hok : WireOk files g w)
    (hm : mayHand g m) (h : CallTrue e ip port g c w) (hv : (callRules e ip port).may c (.send m)) :
    CallTrue e ip port (Wire.next g (.send m) true) (Call.next c (.send m) true) w := by
  cases m with
  | header header =>
    obtain ⟨hst, rfl⟩ := hv
    exact call_header hok h hst
  | chunk chunk => exact call_chunk hf hok hm h hv
  | trailer t => exact call_trailer hf hok hm h hv
  | request q =>
    obtain ⟨hst, n, htask, rfl⟩ := hv
    exact call_request h hst htask
  | downloadDone => exact call_downloadDone h hv.1 hv.2

theorem call_takeCommand (h : CallTrue e ip port g c w) :
    c.taken ++ (World.exec files .takeCommand b w).1.toList <+: plan e ip port ∧
      CallTrue e ip port g (Call.next c .takeCommand (World.exec files .takeCommand b w).1)
        (World.exec files .takeCommand b w).2 := by
  have htaken := h.taken
  cases hc : w.commands with
  | nil =>
    simp only [World.exec, hc, Call.next, Option.toList_none, List.append_nil]
    refine ⟨?_, h⟩
    simpa [hc] using htaken
  | cons command commands =>
    rw [hc, List.append_cons] at htaken
    simp only [World.exec, hc, Call.next, Option.toList_some]
    exact ⟨(List.prefix_append _ _).trans htaken, htaken, h.heard, h.stored, h.done, h.complete,
      h.handed, h.seen, h.late⟩

theorem call_beginUpload {path : Bytes} (hf : Keeping e files) (h : CallTrue e ip port g c w)
    (hst : c.stage = .linked) (htask : e.task = .upload path) :
    (w.reader.uploading = false → w.reader.ring = []) ∧
      (w.reader.beginUpload (files path) e.content.length).1 = none ∧
      CallTrue e ip port
        (Wire.next g (.beginUpload path e.content.length) none)
        (Call.next c (.beginUpload path e.content.length) none)
        { w with reader := (w.reader.beginUpload (files path) e.content.length).2 } := by
  have hn : c.stage ≠ .away := by simp [hst]
  have hh := h.handed
  simp only [Handed, hst] at hh
  obtain ⟨hb, hidle⟩ := hh
  obtain ⟨hu, hr⟩ := hidle ⟨path, htask⟩
  refine ⟨fun _ => hr, ?_, h.taken, fun _ => ⟨(h.heard hn).1, fun hne => ?_⟩, h.stored,
    fun hd => ?_, (fun ht => by cases ht), ⟨hb, ?_, path, htask, rfl⟩, h.seen, h.late⟩
  · simp [FileReader.beginUpload, hu, hf path htask]
  · rcases (h.heard hn).2 hne with hs | hs <;> simp [hst] at hs
  · have := (h.done hd).2
    simp [hst] at this
  · simp [FileReader.beginUpload, hu, hf path htask, Plenty]

theorem handed_reader {r r' : FileReader} (hu : r'.uploading = r.uploading)
    (hr : r.ring = [] → r'.ring = []) (hp : Plenty r → Plenty r') (h : Handed e g c r) :
    Handed e g c r' := by
  unfold Handed at h ⊢
  split at h
  · exact ⟨h.1, fun he => ⟨hu.trans (h.2 he).1, hr (h.2 he).2⟩⟩
  · exact ⟨h.1, fun he => ⟨hu.trans (h.2 he).1, hr (h.2 he).2⟩⟩
  · exact ⟨h.1, hp h.2.1, h.2.2⟩
  · exact ⟨h.1, hp h.2.1, h.2.2⟩
  · exact h
  · exact h

theorem call_reader (r' : FileReader) (hu : r'.uploading = w.reader.uploading)
    (hr : w.reader.ring = [] → r'.ring = []) (hp : Plenty w.reader → Plenty r')
    (h : CallTrue e ip port g c w) : CallTrue e ip port g c { w with reader := r' } :=
  ⟨h.taken, h.heard, h.stored, h.done, h.complete, handed_reader hu hr hp h.handed, h.seen, h.late⟩

theorem call_op (op : Op) (hf : Keeping e files) (hok : WireOk files g w)
    (hm : wireRules.may g op) (h : CallTrue e ip port g c w) (hv : (callRules e ip port).may c op)
    (hlim : (Calling e ip port).op (g, c) w op b) :
    NoLeftover g w op ∧ (callRules e ip port).answers c op (World.exec files op b w).1 ∧
      CallTrue e ip port (Wire.next g op (World.exec files op b w).1)
        (Call.next c op (World.exec files op b w).1) (World.exec files op b w).2 := by
  cases op with
  | takeCommand => exact ⟨trivial, call_takeCommand h⟩
  | connect ip' port' =>
    obtain rfl : b = true := hlim
    have hst : c.stage = .away := hv
    have hh := h.handed
    simp only [Handed, hst] at hh
    refine ⟨trivial, rfl, h.taken, fun _ => ⟨List.nil_prefix, fun hne => absurd rfl hne⟩, h.stored,
      fun hd => ?_, (fun ht => by cases ht), ⟨rfl, hh.2⟩, rfl, late_short (Nat.zero_le _)⟩
    have := (h.done hd).2
    simp [hst] at this
  | send m =>
    obtain rfl : b = true := hlim
    exact ⟨trivial, rfl, call_send m hf hok hm h hv⟩
  | recv count =>
    have hn : c.stage ≠ .away := hv
    obtain ⟨hin, hsp⟩ := h.heard hn
    have hsplit : c.got ++ w.inbox.take count ++ w.inbox.drop count = c.got ++ w.inbox := by
      rw [List.append_assoc, List.take_append_drop]
    refine ⟨trivial, ⟨?_, fun hne => hsp ?_⟩, h.taken, fun _ => ?_, h.stored, h.done, fun hst => ?_,
      h.handed, h.seen, h.late⟩
    · have hpart : c.got ++ w.inbox.take count <+: c.got ++ w.inbox := ⟨_, hsplit⟩
      exact hpart.trans hin
    · intro hnil
      rw [← hsplit, List.append_eq_nil_iff] at hnil
      exact hne hnil.1
    · simp only [World.exec, Call.next, hsplit]
      exact ⟨hin, hsp⟩
    · have hall := h.complete hst
      rw [hall] at hin
      have hnil := List.append_right_eq_self.mp (hin.eq_of_length_le (by simp))
      simp [World.exec, Call.next, hnil, hall]
  | emit event =>
    have hsame : CallTrue e ip port g c { w with events := w.events ++ [event] } :=
      ⟨h.taken, h.heard, h.stored, h.done, h.complete, h.handed, h.seen, h.late⟩
    refine ⟨trivial, trivial, ?_⟩
    cases event with
    | session session =>
      cases session with
      | done =>
        exact ⟨h.taken, h.heard, h.stored, fun _ => ⟨hv.2, hv.1⟩, h.complete, h.handed, h.seen,
          h.late⟩
      | _ => exact hsame
    | _ => exact hsame
  | beginUpload path size =>
    obtain ⟨hst, htask, rfl⟩ := hv
    obtain ⟨hleft, hnone, htrue⟩ := call_beginUpload hf h hst htask
    simp only [World.exec, hnone]
    exact ⟨hleft, rfl, htrue⟩
  | abortUpload => exact hv.elim
  | tryPeek =>
    refine ⟨trivial, fun hup hst => ?_, h.taken, h.heard, h.stored, h.done, h.complete, h.handed,
      h.seen, h.late⟩
    have hh := h.handed
    simp only [Handed, hst] at hh
    simp [World.exec, FileReader.tryPeek, (hh.2 hup).2]
  | release =>
    have hnext := call_reader w.reader.release rfl
      (fun hr => by simp [FileReader.release, hr]) (fun hp => hp) h
    exact ⟨trivial, trivial, hnext.taken, hnext.heard, hnext.stored, hnext.done, hnext.complete,
      hnext.handed, hnext.seen, hnext.late⟩
  | failed =>
    refine ⟨trivial, fun hst => ?_, h⟩
    obtain ⟨data, hst⟩ := hst
    have hh := h.handed
    simp only [Handed, hst] at hh
    exact hh.2.1.1
  | takeError =>
    exact ⟨trivial, trivial, call_reader w.reader.takeError.2 rfl (fun hr => hr)
      (fun hp => hp) h⟩
  | setResult csv =>
    obtain ⟨hst, rfl⟩ := hv
    refine ⟨trivial, trivial, h.taken, h.heard, fun _ => rfl, fun hd => ?_, h.complete, h.handed,
      h.seen, h.late⟩
    exact ⟨rfl, (h.done hd).2⟩
  | clearResult =>
    refine ⟨trivial, trivial, h.taken, h.heard, (fun hs => by cases hs), fun hd => ?_, h.complete,
      h.handed, h.seen, h.late⟩
    have := (h.done hd).2
    rw [show c.stage = .accepted from hv] at this
    cases this
  | _ => exact ⟨trivial, trivial, h⟩

end Operations

section Peers

variable {g : Wire} {c : Call} {w w' : World}

theorem call_commands {commands : List Command} {reader : FileReader} (ui : UiState)
    (hr : reader = { w.reader with wake := reader.wake })
    (ht : c.taken ++ commands <+: plan e ip port) (h : CallTrue e ip port g c w) :
    CallTrue e ip port g c { w with commands := commands, reader := reader, ui := ui } := by
  refine ⟨ht, h.heard, h.stored, h.done, h.complete, ?_, h.seen, h.late⟩
  rw [hr]
  exact handed_reader rfl (fun hr => hr) (fun hp => hp) h.handed

theorem call_click (action : UiAction)
    (ht : c.taken ++ (w.click action).commands <+: plan e ip port)
    (h : CallTrue e ip port g c w) : CallTrue e ip port g c (w.click action) := by
  cases action with
  | connect =>
    simp only [World.click] at ht ⊢
    split
    · exact h
    · rename_i port' hp
      simp only [hp] at ht
      split
      · exact h
      · rename_i hip
        rw [if_neg hip] at ht
        exact call_commands w.ui rfl ht h
  | send confirmed =>
    simp only [World.click] at ht ⊢
    split
    · exact h
    · rename_i hs
      rw [if_neg hs] at ht
      exact call_commands w.ui rfl ht h
  | edit ip' port' => exact call_commands _ rfl ht h
  | browse path name size => exact call_commands _ rfl ht h
  | disconnect => exact call_commands (w := w) _ rfl ht h
  | cancel => exact call_commands w.ui rfl ht h
  | requestResult => exact call_commands w.ui rfl ht h

theorem call_peer (d : Peer) (hok : WireOk files g w) (h : CallTrue e ip port g c w)
    (hlim : (Calling e ip port).peer (g, c) w d) (hs : peer w d = some w') :
    CallTrue e ip port g c w' := by
  cases d with
  | reader =>
    obtain ⟨r, hr, rfl⟩ := Option.map_eq_some_iff.mp hs
    obtain ⟨hsound, hstage⟩ := hok
    have hh := h.handed
    refine ⟨h.taken, h.heard, h.stored, h.done, h.complete, ?_, h.seen, h.late⟩
    have hasleep (hu : w.reader.uploading = false) : False := by
      simp [asleep_step hsound hu] at hr
    unfold Handed at hh ⊢
    split at hh
    · exact ⟨hh.1, fun he => (hasleep (hh.2 he).1).elim⟩
    · exact ⟨hh.1, fun he => (hasleep (hh.2 he).1).elim⟩
    · obtain ⟨hb, hp, path, htask, hg⟩ := hh
      simp only [StageOk, hg] at hstage
      exact ⟨hb, plenty_step hsound hstage.2.2.running hp hr, path, htask, hg⟩
    · obtain ⟨hb, hp, path, htask, hg⟩ := hh
      simp only [StageOk, hg] at hstage
      exact ⟨hb, plenty_step hsound hstage.2.2.running hp hr, path, htask, hg⟩
    · exact hh
    · exact hh
  | arrive bytes =>
    cases hs
    exact ⟨h.taken, hlim, h.stored, h.done, h.complete, h.handed, h.seen, h.late⟩
  | post command =>
    cases hs
    exact call_commands w.ui rfl hlim h
  | frame =>
    cases hs
    exact ⟨h.taken, h.heard, h.stored, h.done, h.complete, h.handed, h.seen, h.late⟩
  | click action =>
    simp only [peer] at hs
    split at hs
    · cases hs
      exact call_click action hlim h
    · cases hs

end Peers

section Discipline

abbrev callMachine (files : Bytes → Option Bytes) :
    Machine Op Ans World Service Signal Peer (Wire × Call) :=
  (machine files Wire.next).withHistory Call.next Call.begin

theorem call_discipline (hmax : e.csv.length ≤ kMaxCsvSize) (hf : Keeping e files) :
    Discipline (callMachine files) (wireRules.both (callRules e ip port)) (Calling e ip port)
      (overlaid (WireOk files) (CallTrue e ip port))
      (bothHeld Between (Call.OnErrand e ip port)) := by
  refine overlay_discipline _ _ _ wire_discipline ⟨?_, ?_, ?_⟩
  · intro g c w s signal p w' _ _ hi hj hlim hs
    simp only [machine] at hs
    split at hs
    · rename_i hready
      cases hs
      have hbegin : Call.OnErrand e ip port (c.begin signal) s := by
        cases signal with
        | _ => exact hi
      have hrep : Call.Reported (c.begin signal) signal := by
        cases signal with
        | _ => exact hlim
      refine ⟨trivial, Call.callback_calls hmax signal hrep hbegin hready, ?_⟩
      cases signal with
      | async passes => exact call_commands w.ui rfl hj.taken hj
      | readError error =>
        exact ⟨hj.taken, hj.heard, hj.stored, hj.done, hj.complete, hj.handed, hj.seen, hj.late⟩
      | _ => exact hj
    · cases hs
  · intro g c w op b hj hm hv hr hlim
    exact call_op op hf hj hm hv hr hlim
  · intro g c w d w' hj hv hlim hp
    exact ⟨trivial, call_peer d hj hv hlim hp⟩

end Discipline

end LogTransfer.Client
