import LogTransfer.CodecLaws

/-!
# Decoding under more data

The functions of `View` follow the source at the level of the byte view: every
read names its offset and faults outside the view, and a decoder returns its
status beside the output message it was given. They never fault, and they are
the decoders of the model with the output kept where nothing was decoded.
-/

set_option autoImplicit false

namespace LogTransfer

namespace View

/-- A read outside the view is a fault. -/
def byteAt (buf : Bytes) (off : ℕ) : Option Byte := buf[off]?

-- The loop of `getU32` and `getU64`: `count` bytes are still to be read.
def getLoop (buf : Bytes) : ℕ → ℕ → ℕ → Option ℕ
  | 0, _, v => some v
  | count+1, off, v => do
    let b ← byteAt buf off
    getLoop buf count (off + 1) (v * 256 + b.toNat)

def getU16 (buf : Bytes) (off : ℕ) : Option ℕ := getLoop buf 2 off 0
def getU32 (buf : Bytes) (off : ℕ) : Option Crc := (getLoop buf 4 off 0).map (BitVec.ofNat 32)
def getU64 (buf : Bytes) (off : ℕ) : Option ℕ := getLoop buf 8 off 0

/-- `string_view::substr`, which throws when it starts behind the end. -/
def substr (buf : Bytes) (pos count : ℕ) : Option Bytes :=
  if pos ≤ buf.length then some ((buf.drop pos).take count) else none

/-- The loop over the magic, which leaves at the first wrong byte. -/
def magicLoop (buf : Bytes) : Bytes → ℕ → Option Bool
  | [], _ => some true
  | m::rest, off => do
    let b ← byteAt buf off
    if b ≠ m then some false else magicLoop buf rest (off + 1)

def checkPreamble (buf : Bytes) (expected : MessageType) : Option DecodeStatus :=
  if buf.length < kPreambleSize then some .needMoreData
  else do
    let magic ← magicLoop buf kMagic 0
    if !magic then some .badMagic
    else
      let version ← byteAt buf kOffsetVersion
      if version ≠ kProtocolVersion then some .badVersion
      else
        let type ← byteAt buf kOffsetType
        if type ≠ expected.code then some .badType else some .ok

def decodeUploadHeader (buf : Bytes) (out : UploadHeader) :
    Option (DecodeStatus × UploadHeader) := do
  let pre ← checkPreamble buf .uploadHeader
  if pre ≠ .ok then some (pre, out)
  else if buf.length < kUploadHeaderFixedSize then some (.needMoreData, out)
  else
    let fileSize ← getU64 buf kPreambleSize
    let nameLen ← getU16 buf (kPreambleSize + 8)
    if buf.length < kUploadHeaderFixedSize + nameLen then some (.needMoreData, out)
    else if fileSize > kMaxFileSize then some (.badValue, out)
    else
      let name ← substr buf kUploadHeaderFixedSize nameLen
      if !isValidFilename name then some (.badValue, out)
      else some (.ok, { out with fileSize := fileSize, filename := name })

def decodeUploadTrailer (buf : Bytes) (out : UploadTrailer) :
    Option (DecodeStatus × UploadTrailer) := do
  let pre ← checkPreamble buf .uploadTrailer
  if pre ≠ .ok then some (pre, out)
  else if buf.length < kUploadTrailerSize then some (.needMoreData, out)
  else
    let crc ← getU32 buf kPreambleSize
    some (.ok, { out with crc32 := crc })

def decodeAck (buf : Bytes) (out : Ack) : Option (DecodeStatus × Ack) := do
  let pre ← checkPreamble buf .ack
  if pre ≠ .ok then some (pre, out)
  else if buf.length < kAckSize then some (.needMoreData, out)
  else
    let status ← byteAt buf kPreambleSize
    match AckStatus.ofCode status with
    | none => some (.badValue, out)
    | some st =>
      let received ← getU64 buf (kPreambleSize + 1)
      some (.ok, { out with status := st, receivedBytes := received })

def decodeResultHeader (buf : Bytes) (out : ResultHeader) :
    Option (DecodeStatus × ResultHeader) := do
  let pre ← checkPreamble buf .resultHeader
  if pre ≠ .ok then some (pre, out)
  else if buf.length < kResultHeaderSize then some (.needMoreData, out)
  else
    let csvSize ← getU64 buf kPreambleSize
    let crc ← getU32 buf (kPreambleSize + 8)
    some (.ok, { out with csvSize := csvSize, crc32 := crc })

def decodeResultRequest (buf : Bytes) (out : ResultRequest) :
    Option (DecodeStatus × ResultRequest) := do
  let pre ← checkPreamble buf .resultRequest
  if pre ≠ .ok then some (pre, out)
  else if buf.length < kResultRequestFixedSize then some (.needMoreData, out)
  else
    let fileSize ← getU64 buf kPreambleSize
    let crc ← getU32 buf (kPreambleSize + 8)
    let startOffset ← getU64 buf (kPreambleSize + 12)
    let nameLen ← getU16 buf (kPreambleSize + 20)
    if buf.length < kResultRequestFixedSize + nameLen then some (.needMoreData, out)
    else if fileSize > kMaxFileSize then some (.badValue, out)
    else if startOffset > kMaxCsvSize then some (.badValue, out)
    else
      let name ← substr buf kResultRequestFixedSize nameLen
      if !isValidFilename name then some (.badValue, out)
      else some (.ok, { out with fileSize := fileSize, crc32 := crc, startOffset := startOffset,
                                 filename := name })

def decodeDownloadDone (buf : Bytes) : Option DecodeStatus := checkPreamble buf .downloadDone

/-- The decoder of a message type on the output it is given. -/
def decode : (t : MessageType) → Bytes → t.Payload → Option (DecodeStatus × t.Payload)
  | .uploadHeader => decodeUploadHeader
  | .uploadTrailer => decodeUploadTrailer
  | .ack => decodeAck
  | .resultHeader => decodeResultHeader
  | .downloadDone => fun buf out => (decodeDownloadDone buf).map fun st => (st, out)
  | .resultRequest => decodeResultRequest

/-- A status and the output: replaced only by a decoded message. -/
def settle {A : Type} (out : A) : Except DecodeStatus A → DecodeStatus × A
  | .error st => (st, out)
  | .ok m => (.ok, m)

section Reads

variable (buf : Bytes)

theorem byteAt_eq (off : ℕ) (h : off < buf.length) :
    byteAt buf off = some (LogTransfer.byteAt buf off) := by
  simp [byteAt, LogTransfer.byteAt, List.getD, h]

theorem getLoop_eq (count off v : ℕ) (h : off + count ≤ buf.length) :
    getLoop buf count off v =
      some (((buf.drop off).take count).foldl (fun v b => v * 256 + b.toNat) v) := by
  induction count generalizing off v with
  | zero => simp [getLoop]
  | succ count ih =>
    have hoff : off < buf.length := by omega
    have hget : byteAt buf off = some buf[off] := by simp [byteAt, hoff]
    rw [getLoop, hget, Option.bind_eq_bind, Option.bind_some, ih (off + 1) _ (by omega),
      List.drop_eq_getElem_cons hoff, List.take_succ_cons, List.foldl_cons]

theorem getU16_eq (off : ℕ) (h : off + 2 ≤ buf.length) :
    getU16 buf off = some (LogTransfer.getU16 buf off) := getLoop_eq buf 2 off 0 h

theorem getU32_eq (off : ℕ) (h : off + 4 ≤ buf.length) :
    getU32 buf off = some (LogTransfer.getU32 buf off) := by
  rw [getU32, getLoop_eq buf 4 off 0 h]
  rfl

theorem getU64_eq (off : ℕ) (h : off + 8 ≤ buf.length) :
    getU64 buf off = some (LogTransfer.getU64 buf off) := getLoop_eq buf 8 off 0 h

theorem magicLoop_eq (magic : Bytes) (off : ℕ) (h : off + magic.length ≤ buf.length) :
    magicLoop buf magic off = some (decide ((buf.drop off).take magic.length = magic)) := by
  induction magic generalizing off with
  | nil => simp [magicLoop]
  | cons m magic ih =>
    rw [List.length_cons] at h
    have hoff : off < buf.length := by omega
    have hget : byteAt buf off = some buf[off] := by simp [byteAt, hoff]
    rw [magicLoop, hget, Option.bind_eq_bind, Option.bind_some, List.drop_eq_getElem_cons hoff,
      List.length_cons, List.take_succ_cons]
    by_cases hm : buf[off] = m
    · rw [if_neg (by simp [hm]), ih (off + 1) (by omega)]
      simp [hm]
    · rw [if_pos hm]
      simp [hm]

theorem checkPreamble_eq (t : MessageType) :
    checkPreamble buf t = some (LogTransfer.checkPreamble buf t) := by
  unfold checkPreamble LogTransfer.checkPreamble
  by_cases h8 : buf.length < kPreambleSize
  · rw [if_pos h8, if_pos h8]
  · have hlen : 8 ≤ buf.length := Nat.le_of_not_lt h8
    have hmagic : magicLoop buf kMagic 0 = some (magicOk buf) :=
      magicLoop_eq buf kMagic 0 (le_trans (by decide) hlen)
    rw [if_neg h8, if_neg h8, hmagic,
      byteAt_eq buf kOffsetVersion (by simp [kOffsetVersion]; omega),
      byteAt_eq buf kOffsetType (by simp [kOffsetType]; omega)]
    simp only [Option.bind_eq_bind, Option.bind_some]
    split_ifs <;> rfl

end Reads

section Decoders

variable (buf : Bytes)

theorem uploadHeader_settles (out : UploadHeader) :
    decodeUploadHeader buf out = some (settle out (LogTransfer.decodeUploadHeader buf)) := by
  rw [decodeUploadHeader, checkPreamble_eq, LogTransfer.decodeUploadHeader]
  simp only [Option.bind_eq_bind, Option.bind_some]
  cases LogTransfer.checkPreamble buf .uploadHeader with
  | ok =>
    by_cases h1 : buf.length < kUploadHeaderFixedSize
    · simp [h1, settle]
    · have hlen : 18 ≤ buf.length := Nat.le_of_not_lt h1
      have hsub (n : ℕ) : substr buf kUploadHeaderFixedSize n =
          some ((buf.drop kUploadHeaderFixedSize).take n) := if_pos hlen
      rw [getU64_eq buf kPreambleSize (by simp [kPreambleSize]; omega),
        getU16_eq buf (kPreambleSize + 8) (by simp [kPreambleSize]; omega)]
      simp only [hsub, Option.bind_some, if_neg h1]
      split_ifs <;> first | rfl | contradiction
  | _ => rfl

theorem uploadTrailer_settles (out : UploadTrailer) :
    decodeUploadTrailer buf out = some (settle out (LogTransfer.decodeUploadTrailer buf)) := by
  rw [decodeUploadTrailer, checkPreamble_eq, LogTransfer.decodeUploadTrailer]
  simp only [Option.bind_eq_bind, Option.bind_some]
  cases LogTransfer.checkPreamble buf .uploadTrailer with
  | ok =>
    by_cases h1 : buf.length < kUploadTrailerSize
    · simp [h1, settle]
    · have hlen : 12 ≤ buf.length := Nat.le_of_not_lt h1
      rw [getU32_eq buf kPreambleSize (by simp [kPreambleSize]; omega)]
      simp [h1, settle]
  | _ => rfl

theorem ack_settles (out : Ack) :
    decodeAck buf out = some (settle out (LogTransfer.decodeAck buf)) := by
  rw [decodeAck, checkPreamble_eq, LogTransfer.decodeAck]
  simp only [Option.bind_eq_bind, Option.bind_some]
  cases LogTransfer.checkPreamble buf .ack with
  | ok =>
    by_cases h1 : buf.length < kAckSize
    · simp [h1, settle]
    · have hlen : 17 ≤ buf.length := Nat.le_of_not_lt h1
      rw [byteAt_eq buf kPreambleSize (by simp [kPreambleSize]; omega),
        getU64_eq buf (kPreambleSize + 1) (by simp [kPreambleSize]; omega)]
      simp only [Option.bind_some, if_neg h1]
      cases AckStatus.ofCode (LogTransfer.byteAt buf kPreambleSize) <;> rfl
  | _ => rfl

theorem resultHeader_settles (out : ResultHeader) :
    decodeResultHeader buf out = some (settle out (LogTransfer.decodeResultHeader buf)) := by
  rw [decodeResultHeader, checkPreamble_eq, LogTransfer.decodeResultHeader]
  simp only [Option.bind_eq_bind, Option.bind_some]
  cases LogTransfer.checkPreamble buf .resultHeader with
  | ok =>
    by_cases h1 : buf.length < kResultHeaderSize
    · simp [h1, settle]
    · have hlen : 20 ≤ buf.length := Nat.le_of_not_lt h1
      rw [getU64_eq buf kPreambleSize (by simp [kPreambleSize]; omega),
        getU32_eq buf (kPreambleSize + 8) (by simp [kPreambleSize]; omega)]
      simp [h1, settle]
  | _ => rfl

theorem resultRequest_settles (out : ResultRequest) :
    decodeResultRequest buf out = some (settle out (LogTransfer.decodeResultRequest buf)) := by
  rw [decodeResultRequest, checkPreamble_eq, LogTransfer.decodeResultRequest]
  simp only [Option.bind_eq_bind, Option.bind_some]
  cases LogTransfer.checkPreamble buf .resultRequest with
  | ok =>
    by_cases h1 : buf.length < kResultRequestFixedSize
    · simp [h1, settle]
    · have hlen : 30 ≤ buf.length := Nat.le_of_not_lt h1
      have hsub (n : ℕ) : substr buf kResultRequestFixedSize n =
          some ((buf.drop kResultRequestFixedSize).take n) := if_pos hlen
      rw [getU64_eq buf kPreambleSize (by simp [kPreambleSize]; omega),
        getU32_eq buf (kPreambleSize + 8) (by simp [kPreambleSize]; omega),
        getU64_eq buf (kPreambleSize + 12) (by simp [kPreambleSize]; omega),
        getU16_eq buf (kPreambleSize + 20) (by simp [kPreambleSize]; omega)]
      simp only [hsub, Option.bind_some, if_neg h1]
      split_ifs <;> first | rfl | contradiction
  | _ => rfl

/-- No decoder faults, and each is the decoder of the model. -/
theorem decode_settles (t : MessageType) (out : t.Payload) :
    decode t buf out = some (settle out (t.decode buf)) := by
  cases t with
  | uploadHeader => exact uploadHeader_settles buf out
  | uploadTrailer => exact uploadTrailer_settles buf out
  | ack => exact ack_settles buf out
  | resultHeader => exact resultHeader_settles buf out
  | downloadDone =>
    change (checkPreamble buf .downloadDone).map _ =
      some (settle out (MessageType.unitOf (LogTransfer.checkPreamble buf .downloadDone)))
    rw [checkPreamble_eq]
    cases LogTransfer.checkPreamble buf .downloadDone <;> rfl
  | resultRequest => exact resultRequest_settles buf out

end Decoders

end View

namespace MessageType

variable (t : MessageType) (b r : Bytes)

theorem checkPreamble_append (h : kPreambleSize ≤ b.length) :
    checkPreamble (b ++ r) t = checkPreamble b t := by
  obtain ⟨hm, hv, ht⟩ := Framer.preamble_append b r h
  have hl : (b ++ r).length = b.length + r.length := List.length_append
  have hshort : ¬ b.length < kPreambleSize := Nat.not_lt.mpr h
  have hlong : ¬ (b ++ r).length < kPreambleSize := by omega
  unfold checkPreamble
  rw [hm, hv, ht, if_neg hshort, if_neg hlong]

theorem checkPreamble_short (h : b.length < kPreambleSize) :
    checkPreamble b t = .needMoreData := by
  rw [checkPreamble, if_pos h]

theorem read_not_needMore (rest : Bytes) : t.read rest ≠ .error .needMoreData := by
  cases t <;> simp only [read]
  case ack => split <;> simp
  case downloadDone | uploadTrailer | resultHeader => simp
  all_goals split_ifs <;> simp

theorem size_error (st : DecodeStatus) (h : typedMessageSize t.code b = .error st) :
    st = .needMoreData := by
  cases t with
  | uploadHeader =>
    rw [uploadHeader_size] at h
    split_ifs at h
    cases h
    rfl
  | resultRequest =>
    rw [resultRequest_size] at h
    split_ifs at h
    cases h
    rfl
  | uploadTrailer | ack | resultHeader | downloadDone => cases h

/-- An answer other than a request for more is final. -/
theorem decode_append (h : t.decode b ≠ .error .needMoreData) :
    t.decode (b ++ r) = t.decode b := by
  rw [decode_eq, decode_eq] at *
  by_cases h8 : b.length < kPreambleSize
  · rw [checkPreamble_short t b h8] at h
    exact absurd rfl h
  · rw [checkPreamble_append t b r (Nat.le_of_not_lt h8)]
    cases hp : checkPreamble b t with
    | ok =>
      rw [hp] at h
      simp only [readChecked] at h ⊢
      cases hn : typedMessageSize t.code b with
      | ok n =>
        rw [hn] at h
        rw [Framer.typedMessageSize_ok_append t.code b r n hn]
        simp only [readSized, readWhole] at h ⊢
        split_ifs at h with hlt
        · exact absurd rfl h
        · have hle : n ≤ b.length := Nat.le_of_not_lt hlt
          rw [if_neg (by rw [List.length_append]; omega), if_neg hlt,
            List.take_append_of_le_length hle]
      | error st =>
        rw [hn, size_error t b st hn] at h
        exact absurd rfl h
    | _ => rfl

theorem preamble_of_size (n : ℕ) (ht : byteAt b kOffsetType = t.code)
    (h : expectedMessageSize b = .ok n) :
    checkPreamble b t = .ok ∧ typedMessageSize t.code b = .ok n := by
  unfold expectedMessageSize at h
  split_ifs at h with h1 h2 h3
  rw [ht] at h
  refine ⟨?_, h⟩
  rw [checkPreamble, if_neg h1, if_neg h2, if_neg h3, if_neg (by simp [ht])]

/-- With its size known, a message is asked for exactly until it is there. -/
theorem decode_needMore_iff (n : ℕ) (ht : byteAt b kOffsetType = t.code)
    (h : expectedMessageSize b = .ok n) :
    t.decode b = .error .needMoreData ↔ b.length < n := by
  obtain ⟨hp, hn⟩ := preamble_of_size t b n ht h
  rw [decode_eq, hp, readChecked, hn, readSized, readWhole]
  constructor
  · intro hd
    by_contra hlt
    rw [if_neg hlt] at hd
    exact read_not_needMore t _ hd
  · intro hlt
    rw [if_pos hlt]

theorem decode_strict (m : t.Payload) (n k : ℕ) (h : t.decode b = .ok m)
    (hn : expectedMessageSize b = .ok n) (hk : k < n) :
    t.decode (b.take k) = .error .needMoreData := by
  by_contra hne
  have hsame := decode_append t (b.take k) (b.drop k) hne
  rw [List.take_append_drop] at hsame
  obtain ⟨-, hexp, hlen, -⟩ := decode_canonical t (b.take k) m (hsame.symm.trans h)
  obtain ⟨-, hexp', -, -⟩ := decode_canonical t b m h
  rw [hn] at hexp'
  cases hexp'
  have := List.length_take_le k b
  omega

end MessageType

/-- Decoding is stable under more data and agrees with the size rule; no
decoder reads outside its view or touches the output of a refused message. -/
theorem decoding_is_stable (t : MessageType) (b : Bytes) :
    (t.decode b ≠ .error .needMoreData → ∀ r, t.decode (b ++ r) = t.decode b) ∧
      (∀ m, t.decode b = .ok m → ∃ n, expectedMessageSize b = .ok n ∧ n ≤ b.length ∧
        ∀ k < n, t.decode (b.take k) = .error .needMoreData) ∧
      (∀ n, byteAt b kOffsetType = t.code → expectedMessageSize b = .ok n →
        (t.decode b = .error .needMoreData ↔ b.length < n)) ∧
      ∀ out : t.Payload, ∃ st out', View.decode t b out = some (st, out') ∧
        (st, out') = View.settle out (t.decode b) ∧ (st ≠ .ok → out' = out) := by
  refine ⟨fun h r => t.decode_append b r h, ?_, fun n => t.decode_needMore_iff b n, ?_⟩
  · intro m h
    obtain ⟨-, hexp, hlen, -⟩ := t.decode_canonical b m h
    exact ⟨_, hexp, hlen, fun k hk => t.decode_strict b m _ k h hexp hk⟩
  · intro out
    refine ⟨_, _, View.decode_settles b t out, rfl, ?_⟩
    intro hst
    cases hd : t.decode b with
    | ok m =>
      rw [hd] at hst
      exact absurd rfl hst
    | error st => rfl

end LogTransfer
