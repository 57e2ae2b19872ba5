import LogTransfer.SessionManager

/-!
# What a session makes of a byte stream

The receiving half of a session, one byte at a time and with nothing but the
stream: no reads, no buffers, no slots, no timers. It is what the session is
meant to do with a stream however the network cuts it. `history` is the shape
of the bytes behind each stage.
-/

set_option autoImplicit false

namespace LogTransfer

inductive Stage where
  | header (f : Framer)
  | payload
  | trailer (f : Framer)
  | analyzing
  | sendingResult
  | failing (state : SessionState)
  | closed
  deriving DecidableEq, Repr

namespace Stage

def state : Stage → SessionState
  | .header _ => .waitHeader
  | .payload | .trailer _ => .receiving
  | .analyzing => .analyzing
  | .sendingResult => .sendingResult
  | .failing state => state
  | .closed => .cleanup

/-- Nothing that follows is looked at. -/
def Over : Stage → Prop
  | .failing _ | .closed => True
  | _ => False

end Stage

structure Reception where
  stage : Stage
  fileSize : ℕ
  payload : Bytes
  sent : List Bytes
  retained : Option RetainedResult
  deriving DecidableEq, Repr

namespace Reception

def headerFramer : Framer := Framer.reset .uploadHeader .resultRequest

def trailerFramer : Framer := Framer.reset .uploadTrailer .uploadTrailer

def initial (retained : Option RetainedResult) : Reception :=
  { stage := .header headerFramer, fileSize := 0, payload := [], sent := [], retained := retained }

def refuse (a : Reception) (state : SessionState) (status : AckStatus) : Reception :=
  let ack : Ack := { status := status, receivedBytes := a.payload.length }
  { a with stage := .failing state, sent := a.sent ++ [encodeAck ack] }

def close (a : Reception) : Reception := { a with stage := .closed }

/-- Payload as long as some is missing, the trailer after that. -/
def receive (a : Reception) : Reception :=
  { a with stage := if a.payload.length < a.fileSize then .payload else .trailer trailerFramer }

def resultMessages (kept : RetainedResult) (startOffset : ℕ) : List Bytes :=
  let header : ResultHeader := { csvSize := kept.csv.length, crc32 := kept.csvCrc32 }
  encodeResultHeader header ::
    if startOffset = kept.csv.length then [] else [kept.csv.drop startOffset]

def respond (a : Reception) (request : ResultRequest) : Reception :=
  match retainedResult a.retained request.filename request.fileSize request.crc32 with
  | none => a.refuse .waitHeader .noSuchResult
  | some kept =>
    if request.startOffset > kept.csv.length then a.refuse .waitHeader .protocolError
    else
      { a with stage := .sendingResult, sent := a.sent ++ resultMessages kept request.startOffset }

def headerStep (a : Reception) (f : Framer) : Reception :=
  match f.status with
  | .needMoreData => { a with stage := .header f }
  | .ok =>
    if f.messageType = MessageType.resultRequest.code then
      match decodeResultRequest f.message with
      | .ok request => a.respond request
      | .error .badValue => a.refuse .waitHeader .protocolError
      | .error _ => a.close
    else
      match decodeUploadHeader f.message with
      | .ok header => receive { a with fileSize := header.fileSize }
      | .error .badValue => a.refuse .waitHeader .protocolError
      | .error _ => a.close
  | .badValue => a.refuse .waitHeader .protocolError
  | _ => a.close

def verify (a : Reception) (trailer : UploadTrailer) : Reception :=
  let ack : Ack := { status := .ok, receivedBytes := a.payload.length }
  if trailer.crc32 ≠ crc32 0#32 a.payload then a.refuse .verifying .crcMismatch
  else { a with stage := .analyzing, sent := a.sent ++ [encodeAck ack] }

def trailerStep (a : Reception) (f : Framer) : Reception :=
  match f.status with
  | .needMoreData => { a with stage := .trailer f }
  | .ok =>
    match decodeUploadTrailer f.message with
    | .ok trailer => a.verify trailer
    | .error _ => a.close
  | .badValue => a.refuse .receiving .protocolError
  | _ => a.close

def take (a : Reception) (b : Byte) : Reception :=
  match a.stage with
  | .header f => a.headerStep (f.push b)
  | .payload => receive { a with payload := a.payload ++ [b] }
  | .trailer f => a.trailerStep (f.push b)
  | .analyzing | .sendingResult => a.close
  | .failing _ | .closed => a

def takeAll (a : Reception) (bs : Bytes) : Reception := bs.foldl take a

theorem takeAll_append (a : Reception) (x y : Bytes) :
    a.takeAll (x ++ y) = (a.takeAll x).takeAll y := List.foldl_append

theorem takeAll_over (a : Reception) (bs : Bytes) (h : a.stage.Over) : a.takeAll bs = a := by
  induction bs with
  | nil => rfl
  | cons b bs ih =>
    have hb : a.take b = a := by
      unfold take
      cases hs : a.stage <;> simp_all [Stage.Over]
    rw [takeAll, List.foldl_cons, hb]
    exact ih

theorem takeAll_refused (a : Reception) (bs : Bytes) (hne : bs ≠ [])
    (h : a.stage = .analyzing ∨ a.stage = .sendingResult) : a.takeAll bs = a.close := by
  cases bs with
  | nil => exact absurd rfl hne
  | cons b bs =>
    have hb : a.take b = a.close := by
      unfold take
      rcases h with h | h <;> rw [h]
    rw [takeAll, List.foldl_cons, hb]
    exact takeAll_over _ _ trivial

theorem headerStep_stage (a : Reception) (st : Stage) (f : Framer) :
    headerStep { a with stage := st } f = headerStep a f := by
  unfold headerStep respond refuse close receive
  rfl

theorem trailerStep_stage (a : Reception) (st : Stage) (f : Framer) :
    trailerStep { a with stage := st } f = trailerStep a f := by
  unfold trailerStep verify refuse close
  rfl

theorem headerStep_payload (a : Reception) (f : Framer) : (a.headerStep f).payload = a.payload := by
  unfold headerStep respond refuse close receive
  split
  · rfl
  · split
    · split
      · split
        · rfl
        · split <;> rfl
      · rfl
      · rfl
    · split <;> rfl
  · rfl
  · rfl

theorem trailerStep_payload (a : Reception) (f : Framer) :
    (a.trailerStep f).payload = a.payload := by
  unfold trailerStep verify refuse close
  split
  · rfl
  · split
    · dsimp only
      split <;> rfl
    · rfl
  · rfl
  · rfl

theorem take_payload (a : Reception) (b : Byte) : a.payload <+: (a.take b).payload := by
  unfold take
  split
  · exact headerStep_payload a _ ▸ List.prefix_rfl
  · exact List.prefix_append _ _
  · exact trailerStep_payload a _ ▸ List.prefix_rfl
  · exact List.prefix_rfl
  · exact List.prefix_rfl
  · exact List.prefix_rfl
  · exact List.prefix_rfl

theorem takeAll_payload_prefix (a : Reception) (bs : Bytes) :
    a.payload <+: (a.takeAll bs).payload := by
  induction bs generalizing a with
  | nil => exact List.prefix_rfl
  | cons b bs ih => exact (take_payload a b).trans (ih (a.take b))

/-- From the payload stage on, an upload has bytes. -/
theorem payload_ne_nil (a : Reception) (bs : Bytes) (ha : a.stage = .payload) (hne : bs ≠ []) :
    (a.takeAll bs).payload ≠ [] := by
  cases bs with
  | nil => exact absurd rfl hne
  | cons b bs =>
    have hb : (a.take b).payload = a.payload ++ [b] := by
      rw [take, ha]
      rfl
    have hgrow := takeAll_payload_prefix (a.take b) bs
    rw [hb] at hgrow
    intro hnil
    have hz : a.payload ++ [b] <+: [] := hnil ▸ hgrow
    simp at hz

/-- Both framed stages walk a read to where their framer stops. -/
theorem takeAll_framed (wrap : Framer → Stage) (step : Reception → Framer → Reception)
    (htake : ∀ a f b, a.stage = wrap f → a.take b = step a (f.push b))
    (hopen : ∀ a f, f.status = .needMoreData → step a f = { a with stage := wrap f })
    (hstage : ∀ a st f, step { a with stage := st } f = step a f)
    (a : Reception) (f : Framer) (bs : Bytes) (hf : f.status = .needMoreData)
    (ha : a.stage = wrap f) (hne : bs ≠ []) :
    a.takeAll (bs.take (f.absorb bs).2) = step a (f.absorb bs).1 := by
  induction bs generalizing a f with
  | nil => exact absurd rfl hne
  | cons b bs ih =>
    rw [Framer.absorb, if_neg (by simp [hf])]
    simp only [List.take_succ_cons, takeAll, List.foldl_cons, htake a f b ha]
    by_cases hs : (f.push b).status = .needMoreData
    · by_cases hnil : bs = []
      · subst hnil
        rfl
      · rw [hopen a _ hs]
        have hrest := ih { a with stage := wrap (f.push b) } (f.push b) hs rfl hnil
        rw [hstage] at hrest
        exact hrest
    · rw [Framer.absorb_settled _ _ hs]
      rfl

theorem takeAll_header (a : Reception) (f : Framer) (bs : Bytes) (hf : f.status = .needMoreData)
    (ha : a.stage = .header f) (hne : bs ≠ []) :
    a.takeAll (bs.take (f.absorb bs).2) = a.headerStep (f.absorb bs).1 := by
  refine takeAll_framed .header headerStep (fun a f b h => ?_) (fun a f h => ?_)
    headerStep_stage a f bs hf ha hne
  · rw [take, h]
  · rw [headerStep, h]

theorem takeAll_trailer (a : Reception) (f : Framer) (bs : Bytes) (hf : f.status = .needMoreData)
    (ha : a.stage = .trailer f) (hne : bs ≠ []) :
    a.takeAll (bs.take (f.absorb bs).2) = a.trailerStep (f.absorb bs).1 := by
  refine takeAll_framed .trailer trailerStep (fun a f b h => ?_) (fun a f h => ?_)
    trailerStep_stage a f bs hf ha hne
  · rw [take, h]
  · rw [trailerStep, h]

theorem takeAll_payload (a : Reception) (bs : Bytes) (ha : a.stage = .payload) (hne : bs ≠ [])
    (hl : a.payload.length + bs.length ≤ a.fileSize) :
    a.takeAll bs = receive { a with payload := a.payload ++ bs } := by
  induction bs generalizing a with
  | nil => exact absurd rfl hne
  | cons b bs ih =>
    have hb : a.take b = receive { a with payload := a.payload ++ [b] } := by rw [take, ha]
    rw [takeAll, List.foldl_cons, hb]
    by_cases hnil : bs = []
    · subst hnil
      rfl
    · have hpos : 0 < bs.length := List.length_pos_iff.mpr hnil
      simp only [List.length_cons] at hl
      have hst : (receive { a with payload := a.payload ++ [b] }).stage = .payload := by
        simp only [receive, List.length_append, List.length_singleton]
        exact if_pos (by omega)
      have hrest := ih (receive { a with payload := a.payload ++ [b] }) hst hnil
        (by simp only [receive, List.length_append, List.length_singleton]; omega)
      simp only [takeAll] at hrest
      rw [hrest]
      simp [receive]

section History

def HeaderOf (h : Bytes) (m : UploadHeader) : Prop :=
  decodeUploadHeader h = .ok m ∧ h.length = kUploadHeaderFixedSize + m.filename.length

def TrailerOf (t : Bytes) (m : UploadTrailer) : Prop :=
  decodeUploadTrailer t = .ok m ∧ t.length = kUploadTrailerSize

/-- A complete upload and nothing else. -/
def Upload (u payload : Bytes) : Prop :=
  ∃ h header t trailer, HeaderOf h header ∧ header.fileSize = payload.length ∧
    TrailerOf t trailer ∧ trailer.crc32 = crc32 0#32 payload ∧ u = h ++ payload ++ t

/-- The bytes `u` behind a stage. -/
def Behind (a : Reception) (u : Bytes) : Prop :=
  match a.stage with
  | .header f => u = f.buffer ∧ f.status = .needMoreData ∧ a.payload = []
  | .payload => a.payload.length < a.fileSize ∧
    ∃ h header, HeaderOf h header ∧ header.fileSize = a.fileSize ∧ u = h ++ a.payload
  | .trailer f => f.status = .needMoreData ∧ a.payload.length = a.fileSize ∧
    ∃ h header, HeaderOf h header ∧ header.fileSize = a.fileSize ∧ u = h ++ a.payload ++ f.buffer
  | .analyzing => Upload u a.payload
  | _ => True

theorem behind_receive (a : Reception) (h : Bytes) (header : UploadHeader)
    (hh : HeaderOf h header) (hs : header.fileSize = a.fileSize)
    (hl : a.payload.length ≤ a.fileSize) : Behind a.receive (h ++ a.payload) := by
  unfold Behind receive
  by_cases hlt : a.payload.length < a.fileSize
  · simp only [hlt, if_true]
    exact ⟨trivial, h, header, hh, hs, rfl⟩
  · simp only [hlt, if_false]
    exact ⟨rfl, by omega, h, header, hh, hs, by simp [trailerFramer, Framer.reset]⟩

theorem behind_headerStep (a : Reception) (f : Framer) (b : Byte) (hf : f.status = .needMoreData)
    (hp : a.payload = []) : Behind (a.headerStep (f.push b)) (f.push b).buffer := by
  unfold headerStep
  split
  · rename_i hs
    exact ⟨rfl, hs, hp⟩
  · rename_i hs
    have hsize := Framer.push_ok f b hf hs
    split
    · split
      · unfold respond
        split
        · trivial
        · split <;> trivial
      · trivial
      · trivial
    · split
      · rename_i header hd
        have hlen := (decodeUploadHeader_ok _ _ hd).1
        rw [show (f.push b).message = (f.push b).buffer from rfl, hsize] at hlen
        have := behind_receive { a with fileSize := header.fileSize } _ header
          ⟨hd, by injection hlen⟩ rfl (by simp [hp])
        simpa [hp, Framer.message] using this
      · trivial
      · trivial
  · trivial
  · trivial

theorem behind_trailerStep (a : Reception) (f : Framer) (b : Byte) (u : Bytes)
    (ha : a.stage = .trailer f) (h : Behind a u) :
    Behind (a.trailerStep (f.push b)) (u ++ [b]) := by
  simp only [Behind, ha] at h
  obtain ⟨hf, hl, hd, header, hh, hs, hu⟩ := h
  have hu' : u ++ [b] = hd ++ a.payload ++ (f.push b).buffer := by
    rw [Framer.push_buffer, hu]
    simp
  unfold trailerStep
  split
  · rename_i hst
    exact ⟨hst, hl, hd, header, hh, hs, hu'⟩
  · rename_i hst
    have hsize := Framer.push_ok f b hf hst
    split
    · rename_i trailer ht
      have hlen := (decodeUploadTrailer_ok _ _ ht).1
      rw [show (f.push b).message = (f.push b).buffer from rfl, hsize] at hlen
      unfold verify
      dsimp only
      split
      · trivial
      · rename_i hcrc
        exact ⟨hd, header, (f.push b).buffer, trailer, hh, hs.trans hl.symm,
          ⟨ht, by injection hlen⟩, by simpa using hcrc, hu'⟩
    · trivial
  · trivial
  · trivial

theorem behind_take (a : Reception) (u : Bytes) (b : Byte) (h : Behind a u) :
    Behind (a.take b) (u ++ [b]) := by
  unfold take
  split
  · rename_i f ha
    simp only [Behind, ha] at h
    obtain ⟨rfl, hf, hp⟩ := h
    have := behind_headerStep a f b hf hp
    rwa [Framer.push_buffer] at this
  · rename_i ha
    simp only [Behind, ha] at h
    obtain ⟨hl, hd, header, hh, hs, rfl⟩ := h
    have := behind_receive { a with payload := a.payload ++ [b] } hd header hh hs
      (by simp only [List.length_append, List.length_singleton]; omega)
    simpa using this
  · rename_i f ha
    exact behind_trailerStep a f b u ha h
  · trivial
  · trivial
  · rename_i ha
    simp only [Behind, ha]
  · rename_i ha
    simp only [Behind, ha]

theorem behind_takeAll (a : Reception) (u bs : Bytes) (h : Behind a u) :
    Behind (a.takeAll bs) (u ++ bs) := by
  induction bs generalizing a u with
  | nil => simpa [takeAll] using h
  | cons b bs ih =>
    have := ih (a.take b) (u ++ [b]) (behind_take a u b h)
    simpa [takeAll] using this

theorem behind_initial (retained : Option RetainedResult) (bs : Bytes) :
    Behind ((initial retained).takeAll bs) bs := by
  have := behind_takeAll (initial retained) [] bs ⟨rfl, rfl, rfl⟩
  simpa using this

end History

section Messages

variable (retained : Option RetainedResult)

def RequestOf (m : Bytes) (request : ResultRequest) : Prop :=
  decodeResultRequest m = .ok request ∧ m.length = kResultRequestFixedSize + request.filename.length

theorem whole_ne_nil (f : Framer) (m : Bytes) (h : f.Whole m) : m ≠ [] := by
  rintro rfl
  have := (Framer.expected_ok [] [] _ h.1).1
  simp at this

theorem takeAll_wholeHeader (m : Bytes) (h : headerFramer.Whole m) :
    (initial retained).takeAll m =
      (initial retained).headerStep { headerFramer with buffer := m, status := .ok } := by
  have hne := whole_ne_nil _ _ h
  have ha : headerFramer.absorb m =
      ({ headerFramer with buffer := m, status := .ok }, m.length) :=
    Framer.absorb_whole headerFramer m rfl h hne
  have := takeAll_header (initial retained) headerFramer m rfl rfl hne
  rwa [ha, List.take_length] at this

theorem whole_headerOf (h : Bytes) (header : UploadHeader) (hh : HeaderOf h header) :
    headerFramer.Whole h := by
  obtain ⟨hs, ht, hv, -⟩ := decodeUploadHeader_ok _ _ hh.1
  have hname := validFilename_length _ hv
  refine ⟨hh.2 ▸ hs, ?_, .inl ht⟩
  rw [hh.2]
  exact (Nat.add_le_add_left hname kUploadHeaderFixedSize).trans (by decide)

theorem whole_requestOf (m : Bytes) (request : ResultRequest) (hr : RequestOf m request) :
    headerFramer.Whole m := by
  obtain ⟨hs, ht, hv⟩ := decodeResultRequest_ok _ _ hr.1
  have hname := validFilename_length _ hv
  refine ⟨hr.2 ▸ hs, ?_, .inr ht⟩
  rw [hr.2]
  exact (Nat.add_le_add_left hname kResultRequestFixedSize).trans (by decide)

theorem takeAll_headerOf (h : Bytes) (header : UploadHeader) (hh : HeaderOf h header) :
    (initial retained).takeAll h =
      receive { initial retained with fileSize := header.fileSize } := by
  obtain ⟨-, ht, -, -⟩ := decodeUploadHeader_ok _ _ hh.1
  rw [takeAll_wholeHeader retained h (whole_headerOf h header hh), headerStep]
  simp only [Framer.messageType, Framer.message, ht, hh.1]
  rfl

theorem takeAll_requestOf (m : Bytes) (request : ResultRequest) (hr : RequestOf m request) :
    (initial retained).takeAll m = (initial retained).respond request := by
  obtain ⟨-, ht, -⟩ := decodeResultRequest_ok _ _ hr.1
  rw [takeAll_wholeHeader retained m (whole_requestOf m request hr), headerStep]
  simp only [Framer.messageType, Framer.message, ht, hr.1]
  rfl

theorem whole_trailerOf (t : Bytes) (trailer : UploadTrailer) (ht : TrailerOf t trailer) :
    trailerFramer.Whole t := by
  obtain ⟨hs, hty⟩ := decodeUploadTrailer_ok _ _ ht.1
  exact ⟨ht.2 ▸ hs, by rw [ht.2]; decide, .inl hty⟩

theorem takeAll_trailerOf (a : Reception) (t : Bytes) (trailer : UploadTrailer)
    (ha : a.stage = .trailer trailerFramer) (ht : TrailerOf t trailer) :
    a.takeAll t = a.verify trailer := by
  have hw := whole_trailerOf t trailer ht
  have hne := whole_ne_nil _ _ hw
  have hab : trailerFramer.absorb t =
      ({ trailerFramer with buffer := t, status := .ok }, t.length) :=
    Framer.absorb_whole trailerFramer t rfl hw hne
  have := takeAll_trailer a trailerFramer t rfl ha hne
  rw [hab, List.take_length] at this
  rw [this, trailerStep]
  simp only [Framer.message, ht.1]

end Messages

end Reception

end LogTransfer
