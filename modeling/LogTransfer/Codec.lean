import Mathlib.Tactic.Ring
import LogTransfer.Crc32

/-!
# Wire messages and their codec

All integers travel big-endian, field by field. Sizes and offsets are natural
numbers; a `u64` or `u16` write keeps the low bytes exactly as a shift and a
mask do. A decoder answers `needMoreData` before it looks at any value, and
its error carries the status while the output message does not exist.
-/

set_option autoImplicit false

namespace LogTransfer

def kMagic : Bytes := [0x42#8, 0x59#8, 0x44#8, 0x41#8]
def kProtocolVersion : Byte := 1#8

def kOffsetVersion : ℕ := 4
def kOffsetType : ℕ := 5
def kPreambleSize : ℕ := 8

inductive MessageType where
  | uploadHeader
  | uploadTrailer
  | ack
  | resultHeader
  | downloadDone
  | resultRequest
  deriving DecidableEq, Repr

def MessageType.code : MessageType → Byte
  | .uploadHeader => 1#8
  | .uploadTrailer => 2#8
  | .ack => 3#8
  | .resultHeader => 4#8
  | .downloadDone => 5#8
  | .resultRequest => 7#8

inductive AckStatus where
  | ok
  | crcMismatch
  | sizeMismatch
  | protocolError
  | serverError
  | noSuchResult
  deriving DecidableEq, Repr

def AckStatus.code : AckStatus → Byte
  | .ok => 0#8
  | .crcMismatch => 1#8
  | .sizeMismatch => 2#8
  | .protocolError => 3#8
  | .serverError => 4#8
  | .noSuchResult => 5#8

def AckStatus.ofCode (b : Byte) : Option AckStatus :=
  if b = 0#8 then some .ok
  else if b = 1#8 then some .crcMismatch
  else if b = 2#8 then some .sizeMismatch
  else if b = 3#8 then some .protocolError
  else if b = 4#8 then some .serverError
  else if b = 5#8 then some .noSuchResult
  else none

def kMaxFilenameLen : ℕ := 255
def kUploadHeaderFixedSize : ℕ := kPreambleSize + 8 + 2
def kUploadHeaderMaxSize : ℕ := kUploadHeaderFixedSize + kMaxFilenameLen
def kUploadTrailerSize : ℕ := kPreambleSize + 4
def kAckSize : ℕ := kPreambleSize + 1 + 8
def kResultHeaderSize : ℕ := kPreambleSize + 8 + 4
def kDownloadDoneSize : ℕ := kPreambleSize
def kResultRequestFixedSize : ℕ := kPreambleSize + 8 + 4 + 8 + 2
def kResultRequestMaxSize : ℕ := kResultRequestFixedSize + kMaxFilenameLen
def kMaxFileSize : ℕ := 8 * 1024 * 1024 * 1024
def kMaxCsvSize : ℕ := 4 * 1024 * 1024

structure UploadHeader where
  fileSize : ℕ
  filename : Bytes
  deriving DecidableEq, Repr

structure UploadTrailer where
  crc32 : Crc
  deriving DecidableEq, Repr

structure Ack where
  status : AckStatus
  receivedBytes : ℕ
  deriving DecidableEq, Repr

structure ResultHeader where
  csvSize : ℕ
  crc32 : Crc
  deriving DecidableEq, Repr

structure ResultRequest where
  fileSize : ℕ
  crc32 : Crc
  startOffset : ℕ
  filename : Bytes
  deriving DecidableEq, Repr

inductive DecodeStatus where
  | ok
  | needMoreData
  | badMagic
  | badVersion
  | badType
  | badValue
  deriving DecidableEq, Repr

/-- The low `n` bytes of `v`, most significant first. -/
def putBE : ℕ → ℕ → Bytes
  | 0, _ => []
  | n+1, v => BitVec.ofNat 8 (v / 256 ^ n) :: putBE n v

def putU16 (v : ℕ) : Bytes := putBE 2 v
def putU32 (v : Crc) : Bytes := putBE 4 v.toNat
def putU64 (v : ℕ) : Bytes := putBE 8 v

def getBE (bs : Bytes) : ℕ := bs.foldl (fun v b => v * 256 + b.toNat) 0

def byteAt (buf : Bytes) (off : ℕ) : Byte := buf.getD off 0#8
def getU16 (buf : Bytes) (off : ℕ) : ℕ := getBE ((buf.drop off).take 2)
def getU32 (buf : Bytes) (off : ℕ) : Crc := BitVec.ofNat 32 (getBE ((buf.drop off).take 4))
def getU64 (buf : Bytes) (off : ℕ) : ℕ := getBE ((buf.drop off).take 8)

def putPreamble (t : MessageType) : Bytes :=
  kMagic ++ [kProtocolVersion, t.code, 0#8, 0#8]

def magicOk (buf : Bytes) : Bool := buf.take 4 = kMagic

def checkPreamble (buf : Bytes) (expected : MessageType) : DecodeStatus :=
  if buf.length < kPreambleSize then .needMoreData
  else if !magicOk buf then .badMagic
  else if byteAt buf kOffsetVersion ≠ kProtocolVersion then .badVersion
  else if byteAt buf kOffsetType ≠ expected.code then .badType
  else .ok

def isValidFilename (name : Bytes) : Bool :=
  !name.isEmpty && name.length ≤ kMaxFilenameLen &&
    name.all fun b => !(b ≤ 0x1F#8 || b = 0x7F#8 || b = 0x2F#8 || b = 0x5C#8)

/-- The switch over the type byte. Only the two messages with a file name need
more than the preamble. -/
def typedMessageSize (t : Byte) (buf : Bytes) : Except DecodeStatus ℕ :=
  if t = MessageType.uploadHeader.code then
    if buf.length < kUploadHeaderFixedSize then .error .needMoreData
    else .ok (kUploadHeaderFixedSize + getU16 buf (kPreambleSize + 8))
  else if t = MessageType.uploadTrailer.code then .ok kUploadTrailerSize
  else if t = MessageType.ack.code then .ok kAckSize
  else if t = MessageType.resultHeader.code then .ok kResultHeaderSize
  else if t = MessageType.downloadDone.code then .ok kDownloadDoneSize
  else if t = MessageType.resultRequest.code then
    if buf.length < kResultRequestFixedSize then .error .needMoreData
    else .ok (kResultRequestFixedSize + getU16 buf (kPreambleSize + 20))
  else .error .badType

def expectedMessageSize (buf : Bytes) : Except DecodeStatus ℕ :=
  if buf.length < kPreambleSize then .error .needMoreData
  else if !magicOk buf then .error .badMagic
  else if byteAt buf kOffsetVersion ≠ kProtocolVersion then .error .badVersion
  else typedMessageSize (byteAt buf kOffsetType) buf

def encodeUploadHeader (m : UploadHeader) : Bytes :=
  putPreamble .uploadHeader ++ putU64 m.fileSize ++ putU16 m.filename.length ++ m.filename

def encodeUploadTrailer (m : UploadTrailer) : Bytes :=
  putPreamble .uploadTrailer ++ putU32 m.crc32

def encodeAck (m : Ack) : Bytes :=
  putPreamble .ack ++ [m.status.code] ++ putU64 m.receivedBytes

def encodeResultHeader (m : ResultHeader) : Bytes :=
  putPreamble .resultHeader ++ putU64 m.csvSize ++ putU32 m.crc32

def encodeResultRequest (m : ResultRequest) : Bytes :=
  putPreamble .resultRequest ++ putU64 m.fileSize ++ putU32 m.crc32 ++ putU64 m.startOffset ++
    putU16 m.filename.length ++ m.filename

def encodeDownloadDone : Bytes := putPreamble .downloadDone

def decodeUploadHeader (buf : Bytes) : Except DecodeStatus UploadHeader :=
  match checkPreamble buf .uploadHeader with
  | .ok =>
    if buf.length < kUploadHeaderFixedSize then .error .needMoreData
    else
      let fileSize := getU64 buf kPreambleSize
      let nameLen := getU16 buf (kPreambleSize + 8)
      if buf.length < kUploadHeaderFixedSize + nameLen then .error .needMoreData
      else if fileSize > kMaxFileSize then .error .badValue
      else
        let name := (buf.drop kUploadHeaderFixedSize).take nameLen
        if !isValidFilename name then .error .badValue
        else .ok { fileSize := fileSize, filename := name }
  | st => .error st

def decodeUploadTrailer (buf : Bytes) : Except DecodeStatus UploadTrailer :=
  match checkPreamble buf .uploadTrailer with
  | .ok =>
    if buf.length < kUploadTrailerSize then .error .needMoreData
    else .ok { crc32 := getU32 buf kPreambleSize }
  | st => .error st

def decodeAck (buf : Bytes) : Except DecodeStatus Ack :=
  match checkPreamble buf .ack with
  | .ok =>
    if buf.length < kAckSize then .error .needMoreData
    else
      match AckStatus.ofCode (byteAt buf kPreambleSize) with
      | none => .error .badValue
      | some st => .ok { status := st, receivedBytes := getU64 buf (kPreambleSize + 1) }
  | st => .error st

def decodeResultHeader (buf : Bytes) : Except DecodeStatus ResultHeader :=
  match checkPreamble buf .resultHeader with
  | .ok =>
    if buf.length < kResultHeaderSize then .error .needMoreData
    else .ok { csvSize := getU64 buf kPreambleSize, crc32 := getU32 buf (kPreambleSize + 8) }
  | st => .error st

def decodeResultRequest (buf : Bytes) : Except DecodeStatus ResultRequest :=
  match checkPreamble buf .resultRequest with
  | .ok =>
    if buf.length < kResultRequestFixedSize then .error .needMoreData
    else
      let fileSize := getU64 buf kPreambleSize
      let crc := getU32 buf (kPreambleSize + 8)
      let startOffset := getU64 buf (kPreambleSize + 12)
      let nameLen := getU16 buf (kPreambleSize + 20)
      if buf.length < kResultRequestFixedSize + nameLen then .error .needMoreData
      else if fileSize > kMaxFileSize then .error .badValue
      else if startOffset > kMaxCsvSize then .error .badValue
      else
        let name := (buf.drop kResultRequestFixedSize).take nameLen
        if !isValidFilename name then .error .badValue
        else .ok { fileSize := fileSize, crc32 := crc, startOffset := startOffset,
                   filename := name }
  | st => .error st

def decodeDownloadDone (buf : Bytes) : DecodeStatus := checkPreamble buf .downloadDone

theorem putBE_length (n v : ℕ) : (putBE n v).length = n := by
  induction n with
  | zero => rfl
  | succ n ih => simp [putBE, ih]

theorem getBE_foldl (bs : Bytes) (v : ℕ) :
    bs.foldl (fun v b => v * 256 + b.toNat) v = v * 256 ^ bs.length + getBE bs := by
  induction bs generalizing v with
  | nil => simp [getBE]
  | cons b bs ih =>
    simp only [List.foldl_cons, List.length_cons, getBE]
    rw [ih, ih (0 * 256 + b.toNat)]
    ring

theorem getBE_cons (b : Byte) (bs : Bytes) :
    getBE (b :: bs) = b.toNat * 256 ^ bs.length + getBE bs := by
  have h := getBE_foldl bs (0 * 256 + b.toNat)
  simpa [getBE] using h

/-- Reading back a big-endian field gives the value modulo its width. -/
theorem getBE_putBE (n v : ℕ) : getBE (putBE n v) = v % 256 ^ n := by
  induction n with
  | zero => simp [putBE, getBE, Nat.mod_one]
  | succ n ih =>
    rw [putBE, getBE_cons, ih, putBE_length, BitVec.toNat_ofNat,
      show (2:ℕ) ^ 8 = 256 from rfl, pow_succ, Nat.mod_mul]
    ring

theorem preamble_length (t : MessageType) : (putPreamble t).length = 8 := rfl

theorem checkPreamble_ok (buf : Bytes) (t : MessageType) (h : checkPreamble buf t = .ok) :
    expectedMessageSize buf = typedMessageSize t.code buf ∧ byteAt buf kOffsetType = t.code := by
  unfold checkPreamble at h
  split_ifs at h with h1 h2 h3 h4
  have ht : byteAt buf kOffsetType = t.code := by simpa using h4
  rw [expectedMessageSize, if_neg h1, if_neg h2, if_neg h3, ht]
  exact ⟨rfl, rfl⟩

theorem nameField_length (buf : Bytes) (fixed n : ℕ) (h : ¬ buf.length < fixed + n) :
    ((buf.drop fixed).take n).length = n := by
  simp only [List.length_take, List.length_drop]
  omega

theorem decodeUploadHeader_ok (buf : Bytes) (m : UploadHeader)
    (h : decodeUploadHeader buf = .ok m) :
    expectedMessageSize buf = .ok (kUploadHeaderFixedSize + m.filename.length) ∧
      byteAt buf kOffsetType = MessageType.uploadHeader.code ∧
      isValidFilename m.filename = true ∧ m.fileSize ≤ kMaxFileSize := by
  unfold decodeUploadHeader at h
  split at h
  · rename_i hp
    dsimp only at h
    split_ifs at h with h1 h2 h3 h4
    cases h
    obtain ⟨hs, ht⟩ := checkPreamble_ok _ _ hp
    refine ⟨?_, ht, by simpa using h4, Nat.le_of_not_lt h3⟩
    rw [hs, typedMessageSize, if_pos rfl, if_neg h1]
    simp only [nameField_length _ _ _ h2]
  · cases h

theorem decodeResultRequest_ok (buf : Bytes) (m : ResultRequest)
    (h : decodeResultRequest buf = .ok m) :
    expectedMessageSize buf = .ok (kResultRequestFixedSize + m.filename.length) ∧
      byteAt buf kOffsetType = MessageType.resultRequest.code ∧
      isValidFilename m.filename = true := by
  unfold decodeResultRequest at h
  split at h
  · rename_i hp
    dsimp only at h
    split_ifs at h with h1 h2 h3 h4 h5
    cases h
    obtain ⟨hs, ht⟩ := checkPreamble_ok _ _ hp
    refine ⟨?_, ht, by simpa using h5⟩
    rw [hs, typedMessageSize, if_neg (by decide), if_neg (by decide), if_neg (by decide),
      if_neg (by decide), if_neg (by decide), if_pos rfl, if_neg h1]
    simp only [nameField_length _ _ _ h2]
  · cases h

theorem decodeUploadTrailer_ok (buf : Bytes) (m : UploadTrailer)
    (h : decodeUploadTrailer buf = .ok m) :
    expectedMessageSize buf = .ok kUploadTrailerSize ∧
      byteAt buf kOffsetType = MessageType.uploadTrailer.code := by
  unfold decodeUploadTrailer at h
  split at h
  · rename_i hp
    obtain ⟨hs, ht⟩ := checkPreamble_ok _ _ hp
    refine ⟨?_, ht⟩
    rw [hs, typedMessageSize, if_neg (by decide), if_pos rfl]
  · cases h

theorem validFilename_length (name : Bytes) (h : isValidFilename name = true) :
    name.length ≤ kMaxFilenameLen := by
  simp only [isValidFilename, Bool.and_eq_true, decide_eq_true_eq] at h
  exact h.1.2

theorem field_eq (pre field post : Bytes) (i : ℕ) (hi : pre.length = i) :
    ((pre ++ (field ++ post)).drop i).take field.length = field := by
  subst hi
  rw [List.drop_left, List.take_left]

theorem getU16_field (pre post : Bytes) (v i : ℕ) (hi : pre.length = i) (hv : v < 256 ^ 2) :
    getU16 (pre ++ (putU16 v ++ post)) i = v := by
  have h := field_eq pre (putU16 v) post i hi
  rw [show (putU16 v).length = 2 from putBE_length 2 v] at h
  rw [getU16, h, putU16, getBE_putBE, Nat.mod_eq_of_lt hv]

theorem getU32_field (pre post : Bytes) (v : Crc) (i : ℕ) (hi : pre.length = i) :
    getU32 (pre ++ (putU32 v ++ post)) i = v := by
  have h := field_eq pre (putU32 v) post i hi
  rw [show (putU32 v).length = 4 from putBE_length 4 _] at h
  rw [getU32, h, putU32, getBE_putBE, Nat.mod_eq_of_lt (by exact v.isLt)]
  exact BitVec.ofNat_toNat 32 v

theorem getU64_field (pre post : Bytes) (v i : ℕ) (hi : pre.length = i) (hv : v < 256 ^ 8) :
    getU64 (pre ++ (putU64 v ++ post)) i = v := by
  have h := field_eq pre (putU64 v) post i hi
  rw [show (putU64 v).length = 8 from putBE_length 8 v] at h
  rw [getU64, h, putU64, getBE_putBE, Nat.mod_eq_of_lt hv]

theorem checkPreamble_put (t : MessageType) (rest : Bytes) :
    checkPreamble (putPreamble t ++ rest) t = .ok := by
  simp [checkPreamble, putPreamble, kMagic, magicOk, byteAt, kOffsetVersion, kOffsetType,
    kPreambleSize]

/-- A claim that the wire can carry. -/
structure ResultRequest.Valid (m : ResultRequest) : Prop where
  fileSize : m.fileSize ≤ kMaxFileSize
  startOffset : m.startOffset ≤ kMaxCsvSize
  filename : isValidFilename m.filename = true

theorem encodeResultRequest_length (m : ResultRequest) :
    (encodeResultRequest m).length = kResultRequestFixedSize + m.filename.length := by
  simp [encodeResultRequest, preamble_length, putU64, putU32, putU16, putBE_length,
    kResultRequestFixedSize, kPreambleSize]
  omega

theorem decodeResultRequest_encode (m : ResultRequest) (h : m.Valid) :
    decodeResultRequest (encodeResultRequest m) = .ok m := by
  have hname := validFilename_length _ h.filename
  have hlen := encodeResultRequest_length m
  have h64 (v : ℕ) : (putU64 v).length = 8 := putBE_length 8 v
  have h32 (v : Crc) : (putU32 v).length = 4 := putBE_length 4 _
  have h16 (v : ℕ) : (putU16 v).length = 2 := putBE_length 2 v
  have hpre : checkPreamble (encodeResultRequest m) .resultRequest = .ok := by
    simp only [encodeResultRequest, List.append_assoc]
    exact checkPreamble_put .resultRequest _
  have hsize : getU64 (encodeResultRequest m) kPreambleSize = m.fileSize := by
    simp only [encodeResultRequest, List.append_assoc]
    exact getU64_field _ _ _ _ rfl (h.fileSize.trans_lt (by decide))
  have hcrc : getU32 (encodeResultRequest m) (kPreambleSize + 8) = m.crc32 := by
    have := getU32_field (putPreamble .resultRequest ++ putU64 m.fileSize)
      (putU64 m.startOffset ++ putU16 m.filename.length ++ m.filename) m.crc32 (kPreambleSize + 8)
      (by simp [h64, preamble_length, kPreambleSize])
    simpa [encodeResultRequest] using this
  have hoff : getU64 (encodeResultRequest m) (kPreambleSize + 12) = m.startOffset := by
    have := getU64_field (putPreamble .resultRequest ++ putU64 m.fileSize ++ putU32 m.crc32)
      (putU16 m.filename.length ++ m.filename) m.startOffset (kPreambleSize + 12)
      (by simp [h64, h32, preamble_length, kPreambleSize])
      (h.startOffset.trans_lt (by decide))
    simpa [encodeResultRequest] using this
  have hn : getU16 (encodeResultRequest m) (kPreambleSize + 20) = m.filename.length := by
    have := getU16_field (putPreamble .resultRequest ++ putU64 m.fileSize ++ putU32 m.crc32 ++
      putU64 m.startOffset) m.filename m.filename.length (kPreambleSize + 20)
      (by simp [h64, h32, preamble_length, kPreambleSize]) (hname.trans_lt (by decide))
    simpa [encodeResultRequest] using this
  have hfield : (encodeResultRequest m).drop kResultRequestFixedSize = m.filename := by
    have : (putPreamble .resultRequest ++ putU64 m.fileSize ++ putU32 m.crc32 ++
      putU64 m.startOffset ++ putU16 m.filename.length).length = kResultRequestFixedSize := by
      simp [h64, h32, h16, preamble_length, kResultRequestFixedSize, kPreambleSize]
    rw [encodeResultRequest, ← this, List.drop_left]
  have hf := h.fileSize
  have ho := h.startOffset
  rw [decodeResultRequest, hpre]
  simp only [hsize, hcrc, hoff, hn, hlen, hfield, List.take_length, h.filename]
  rw [if_neg (by omega), if_neg (by omega), if_neg (by omega), if_neg (by omega), if_neg (by simp)]

theorem encodeUploadHeader_length (m : UploadHeader) :
    (encodeUploadHeader m).length = kUploadHeaderFixedSize + m.filename.length := by
  simp [encodeUploadHeader, preamble_length, putU64, putU16, putBE_length,
    kUploadHeaderFixedSize, kPreambleSize]
  omega

theorem decodeUploadHeader_encode (m : UploadHeader) (hs : m.fileSize ≤ kMaxFileSize)
    (hv : isValidFilename m.filename = true) :
    decodeUploadHeader (encodeUploadHeader m) = .ok m := by
  have hname := validFilename_length _ hv
  have hlen := encodeUploadHeader_length m
  have h64 (v : ℕ) : (putU64 v).length = 8 := putBE_length 8 v
  have h16 (v : ℕ) : (putU16 v).length = 2 := putBE_length 2 v
  have hpre : checkPreamble (encodeUploadHeader m) .uploadHeader = .ok := by
    simp only [encodeUploadHeader, List.append_assoc]
    exact checkPreamble_put .uploadHeader _
  have hsize : getU64 (encodeUploadHeader m) kPreambleSize = m.fileSize := by
    simp only [encodeUploadHeader, List.append_assoc]
    exact getU64_field _ _ _ _ rfl (hs.trans_lt (by decide))
  have hn : getU16 (encodeUploadHeader m) (kPreambleSize + 8) = m.filename.length := by
    have := getU16_field (putPreamble .uploadHeader ++ putU64 m.fileSize) m.filename
      m.filename.length (kPreambleSize + 8) (by simp [h64, preamble_length, kPreambleSize])
      (hname.trans_lt (by decide))
    simpa [encodeUploadHeader] using this
  have hfield : (encodeUploadHeader m).drop kUploadHeaderFixedSize = m.filename := by
    have : (putPreamble .uploadHeader ++ putU64 m.fileSize ++ putU16 m.filename.length).length =
        kUploadHeaderFixedSize := by
      simp [h64, h16, preamble_length, kUploadHeaderFixedSize, kPreambleSize]
    rw [encodeUploadHeader, ← this, List.drop_left]
  rw [decodeUploadHeader, hpre]
  simp only [hsize, hn, hlen, hfield, List.take_length, hv]
  rw [if_neg (by omega), if_neg (by omega), if_neg (by omega), if_neg (by simp)]

theorem encodeUploadTrailer_length (m : UploadTrailer) :
    (encodeUploadTrailer m).length = kUploadTrailerSize := by
  simp [encodeUploadTrailer, preamble_length, putU32, putBE_length, kUploadTrailerSize,
    kPreambleSize]

theorem decodeUploadTrailer_encode (m : UploadTrailer) :
    decodeUploadTrailer (encodeUploadTrailer m) = .ok m := by
  have hpre : checkPreamble (encodeUploadTrailer m) .uploadTrailer = .ok :=
    checkPreamble_put .uploadTrailer _
  have hcrc : getU32 (encodeUploadTrailer m) kPreambleSize = m.crc32 := by
    have := getU32_field (putPreamble .uploadTrailer) [] m.crc32 kPreambleSize rfl
    simpa [encodeUploadTrailer] using this
  rw [decodeUploadTrailer, hpre]
  simp only [encodeUploadTrailer_length, lt_irrefl, if_false, hcrc]

theorem encodeAck_size (m : Ack) :
    expectedMessageSize (encodeAck m) = .ok (encodeAck m).length ∧
      byteAt (encodeAck m) kOffsetType = MessageType.ack.code := by
  have hpre : checkPreamble (encodeAck m) .ack = .ok := by
    simp only [encodeAck, List.append_assoc]
    exact checkPreamble_put .ack _
  obtain ⟨hs, ht⟩ := checkPreamble_ok _ _ hpre
  refine ⟨?_, ht⟩
  rw [hs]
  simp [typedMessageSize, MessageType.code, encodeAck, preamble_length, putU64, putBE_length,
    kAckSize, kPreambleSize]

theorem decodeAck_encode (m : Ack) :
    decodeAck (encodeAck m) = .ok { m with receivedBytes := m.receivedBytes % 256 ^ 8 } := by
  have hpre : checkPreamble (encodeAck m) .ack = .ok := by
    simp only [encodeAck, List.append_assoc]
    exact checkPreamble_put .ack _
  have hlen : (encodeAck m).length = kAckSize := by
    simp [encodeAck, preamble_length, putU64, putBE_length, kAckSize, kPreambleSize]
  have hst : byteAt (encodeAck m) kPreambleSize = m.status.code := by
    simp [byteAt, encodeAck, putPreamble, kMagic, kPreambleSize]
  have hn : getU64 (encodeAck m) (kPreambleSize + 1) = m.receivedBytes % 256 ^ 8 := by
    have h := field_eq (putPreamble .ack ++ [m.status.code]) (putU64 m.receivedBytes) []
      (kPreambleSize + 1) (by simp [preamble_length, kPreambleSize])
    rw [show (putU64 m.receivedBytes).length = 8 from putBE_length 8 _, List.append_nil] at h
    rw [getU64, encodeAck, h, putU64, getBE_putBE]
  have hof : AckStatus.ofCode m.status.code = some m.status := by
    cases m.status <;> rfl
  rw [decodeAck, hpre]
  simp only [hlen, lt_irrefl, if_false, hst, hof, hn]

theorem encodeResultHeader_size (m : ResultHeader) :
    expectedMessageSize (encodeResultHeader m) = .ok (encodeResultHeader m).length ∧
      byteAt (encodeResultHeader m) kOffsetType = MessageType.resultHeader.code := by
  have hpre : checkPreamble (encodeResultHeader m) .resultHeader = .ok := by
    simp only [encodeResultHeader, List.append_assoc]
    exact checkPreamble_put .resultHeader _
  obtain ⟨hs, ht⟩ := checkPreamble_ok _ _ hpre
  refine ⟨?_, ht⟩
  rw [hs]
  simp [typedMessageSize, MessageType.code, encodeResultHeader, preamble_length, putU64, putU32,
    putBE_length, kResultHeaderSize, kPreambleSize]

theorem decodeResultHeader_encode (m : ResultHeader) (h : m.csvSize < 256 ^ 8) :
    decodeResultHeader (encodeResultHeader m) = .ok m := by
  have hpre : checkPreamble (encodeResultHeader m) .resultHeader = .ok := by
    simp only [encodeResultHeader, List.append_assoc]
    exact checkPreamble_put .resultHeader _
  have hlen : (encodeResultHeader m).length = kResultHeaderSize := by
    simp [encodeResultHeader, preamble_length, putU64, putU32, putBE_length, kResultHeaderSize,
      kPreambleSize]
  have hsize : getU64 (encodeResultHeader m) kPreambleSize = m.csvSize := by
    simp only [encodeResultHeader, List.append_assoc]
    exact getU64_field _ _ _ _ rfl h
  have hcrc : getU32 (encodeResultHeader m) (kPreambleSize + 8) = m.crc32 := by
    have := getU32_field (putPreamble .resultHeader ++ putU64 m.csvSize) [] m.crc32
      (kPreambleSize + 8) (by simp [preamble_length, putU64, putBE_length, kPreambleSize])
    simpa [encodeResultHeader] using this
  rw [decodeResultHeader, hpre]
  simp only [hlen, lt_irrefl, if_false, hsize, hcrc]

theorem ack_ne_result (ack : Ack) (header : ResultHeader) (rest : Bytes) :
    encodeAck ack ≠ encodeResultHeader header ++ rest := by
  intro h
  have hack := (encodeAck_size ack).2
  have hres := (encodeResultHeader_size header).2
  have hlen : kOffsetType < (encodeResultHeader header).length := by
    simp [encodeResultHeader, preamble_length, putU64, putU32, putBE_length, kOffsetType]
  rw [h, byteAt, List.getD_eq_getElem?_getD, List.getElem?_append_left hlen,
    ← List.getD_eq_getElem?_getD, ← byteAt, hres] at hack
  revert hack
  decide

theorem status_of_encodeAck {m m' : Ack} (h : encodeAck m = encodeAck m') :
    m.status = m'.status := by
  have hb := congrArg (fun bs => byteAt bs 8) h
  have hcode : m.status.code = m'.status.code := hb
  cases hm : m.status <;> cases hm' : m'.status <;> rw [hm, hm'] at hcode <;>
    first
    | rfl
    | exact absurd hcode (by decide)

end LogTransfer
