import LogTransfer.Framer
import LogTransfer.Errand

/-!
# The six messages as one family

A decoder is its preamble check, the size rule and a reading of the bytes
between them. In this form the laws of the codec are proved once for all
messages: what is written is read back, and what is accepted was written,
except for the two reserved bytes that a receiver ignores.
-/

set_option autoImplicit false

namespace LogTransfer

namespace MessageType

def Payload : MessageType → Type
  | .uploadHeader => UploadHeader
  | .uploadTrailer => UploadTrailer
  | .ack => Ack
  | .resultHeader => ResultHeader
  | .downloadDone => Unit
  | .resultRequest => ResultRequest

/-- A name of 1 to 255 bytes without control characters and separators. -/
def PlainName (name : Bytes) : Prop :=
  1 ≤ name.length ∧ name.length ≤ 255 ∧
    ∀ b ∈ name, 0x1F < b.toNat ∧ b.toNat ≠ 0x7F ∧ b ≠ ch '/' ∧ b ≠ ch '\\'

/-- The values that the wire can carry; a `Crc` has its range by type. -/
def Carried : (t : MessageType) → t.Payload → Prop
  | .uploadHeader, (m : UploadHeader) =>
    m.fileSize ≤ kMaxFileSize ∧ PlainName m.filename
  | .uploadTrailer, _ => True
  | .ack, (m : Ack) => m.receivedBytes < 2 ^ 64
  | .resultHeader, (m : ResultHeader) => m.csvSize < 2 ^ 64
  | .downloadDone, _ => True
  | .resultRequest, (m : ResultRequest) =>
    m.fileSize ≤ kMaxFileSize ∧ m.startOffset ≤ kMaxCsvSize ∧ PlainName m.filename

def encode : (t : MessageType) → t.Payload → Bytes
  | .uploadHeader => encodeUploadHeader
  | .uploadTrailer => encodeUploadTrailer
  | .ack => encodeAck
  | .resultHeader => encodeResultHeader
  | .downloadDone => fun _ => encodeDownloadDone
  | .resultRequest => encodeResultRequest

/-- A status that stands for a message without fields. -/
def unitOf : DecodeStatus → Except DecodeStatus Unit
  | .ok => .ok ()
  | st => .error st

def decode : (t : MessageType) → Bytes → Except DecodeStatus t.Payload
  | .uploadHeader => decodeUploadHeader
  | .uploadTrailer => decodeUploadTrailer
  | .ack => decodeAck
  | .resultHeader => decodeResultHeader
  | .downloadDone => fun buf => unitOf (decodeDownloadDone buf)
  | .resultRequest => decodeResultRequest

/-- The bytes of a message behind its preamble. -/
def body : (t : MessageType) → t.Payload → Bytes
  | .uploadHeader, (m : UploadHeader) =>
    putU64 m.fileSize ++ (putU16 m.filename.length ++ m.filename)
  | .uploadTrailer, (m : UploadTrailer) => putU32 m.crc32
  | .ack, (m : Ack) => m.status.code :: putU64 m.receivedBytes
  | .resultHeader, (m : ResultHeader) => putU64 m.csvSize ++ putU32 m.crc32
  | .downloadDone, _ => []
  | .resultRequest, (m : ResultRequest) =>
    putU64 m.fileSize ++ (putU32 m.crc32 ++ (putU64 m.startOffset ++
      (putU16 m.filename.length ++ m.filename)))

/-- The values a body stands for, once it is known to be whole. -/
def read : (t : MessageType) → Bytes → Except DecodeStatus t.Payload
  | .uploadHeader => fun rest =>
    if getU64 rest 0 > kMaxFileSize then .error .badValue
    else if !isValidFilename (rest.drop 10) then .error .badValue
    else .ok (UploadHeader.mk (getU64 rest 0) (rest.drop 10))
  | .uploadTrailer => fun rest => .ok (UploadTrailer.mk (getU32 rest 0))
  | .ack => fun rest =>
    match AckStatus.ofCode (byteAt rest 0) with
    | none => .error .badValue
    | some st => .ok (Ack.mk st (getU64 rest 1))
  | .resultHeader => fun rest => .ok (ResultHeader.mk (getU64 rest 0) (getU32 rest 8))
  | .downloadDone => fun _ => .ok ()
  | .resultRequest => fun rest =>
    if getU64 rest 0 > kMaxFileSize then .error .badValue
    else if getU64 rest 12 > kMaxCsvSize then .error .badValue
    else if !isValidFilename (rest.drop 22) then .error .badValue
    else .ok (ResultRequest.mk (getU64 rest 0) (getU32 rest 8) (getU64 rest 12) (rest.drop 22))

/-- Where the size rule is met, the bytes inside it decide. -/
def readWhole (t : MessageType) (buf : Bytes) (n : ℕ) : Except DecodeStatus t.Payload :=
  if buf.length < n then .error .needMoreData
  else t.read ((buf.take n).drop kPreambleSize)

def readSized (t : MessageType) (buf : Bytes) :
    Except DecodeStatus ℕ → Except DecodeStatus t.Payload
  | .error st => .error st
  | .ok n => t.readWhole buf n

def readChecked (t : MessageType) (buf : Bytes) : DecodeStatus → Except DecodeStatus t.Payload
  | .ok => t.readSized buf (typedMessageSize t.code buf)
  | st => .error st

end MessageType

section Slices

theorem getBE_lt (bs : Bytes) : getBE bs < 256 ^ bs.length := by
  induction bs with
  | nil => simp [getBE]
  | cons b bs ih =>
    have hb : b.toNat * 256 ^ bs.length ≤ 255 * 256 ^ bs.length :=
      Nat.mul_le_mul_right _ (Nat.le_of_lt_succ b.isLt)
    rw [getBE_cons, List.length_cons, pow_succ]
    omega

theorem putBE_add (n m k v : ℕ) (h : n ≤ m) : putBE n (k * 256 ^ m + v) = putBE n v := by
  induction n with
  | zero => rfl
  | succ n ih =>
    have hm : k * 256 ^ m = 256 ^ n * (256 * (k * 256 ^ (m - n - 1))) := by
      have he : m = n + 1 + (m - n - 1) := by omega
      conv_lhs => rw [he, pow_add, pow_succ]
      ring
    have hbyte : BitVec.ofNat 8 ((k * 256 ^ m + v) / 256 ^ n) = BitVec.ofNat 8 (v / 256 ^ n) := by
      apply BitVec.eq_of_toNat_eq
      rw [BitVec.toNat_ofNat, BitVec.toNat_ofNat, hm,
        Nat.mul_add_div (by positivity)]
      exact Nat.mul_add_mod _ _ _
    rw [putBE, putBE, hbyte, ih (by omega)]

/-- Writing back the value of a field gives the bytes of the field. -/
theorem putBE_getBE (bs : Bytes) : putBE bs.length (getBE bs) = bs := by
  induction bs with
  | nil => rfl
  | cons b bs ih =>
    have hdiv : (b.toNat * 256 ^ bs.length + getBE bs) / 256 ^ bs.length = b.toNat := by
      rw [Nat.mul_comm, Nat.mul_add_div (by positivity), Nat.div_eq_of_lt (getBE_lt bs),
        Nat.add_zero]
    rw [List.length_cons, putBE, getBE_cons, hdiv, putBE_add _ _ _ _ (le_refl _), ih]
    rw [BitVec.ofNat_toNat, BitVec.setWidth_eq]

theorem slice_length (buf : Bytes) (off count : ℕ) (h : off + count ≤ buf.length) :
    ((buf.drop off).take count).length = count := by
  rw [List.length_take, List.length_drop]
  omega

theorem putU16_getU16 (buf : Bytes) (off : ℕ) (h : off + 2 ≤ buf.length) :
    putU16 (getU16 buf off) = (buf.drop off).take 2 := by
  have hb := putBE_getBE ((buf.drop off).take 2)
  rwa [slice_length buf off 2 h] at hb

theorem putU32_getU32 (buf : Bytes) (off : ℕ) (h : off + 4 ≤ buf.length) :
    putU32 (getU32 buf off) = (buf.drop off).take 4 := by
  have hb := putBE_getBE ((buf.drop off).take 4)
  have hlt := getBE_lt ((buf.drop off).take 4)
  rw [slice_length buf off 4 h] at hb hlt
  rw [putU32, getU32, BitVec.toNat_ofNat, Nat.mod_eq_of_lt (by exact hlt), hb]

theorem putU64_getU64 (buf : Bytes) (off : ℕ) (h : off + 8 ≤ buf.length) :
    putU64 (getU64 buf off) = (buf.drop off).take 8 := by
  have hb := putBE_getBE ((buf.drop off).take 8)
  rwa [slice_length buf off 8 h] at hb

/-- A field of a slice is a field of the buffer. -/
theorem take_slice (buf : Bytes) (n off count skip : ℕ) (h : skip + off + count ≤ n) :
    ((((buf.take n).drop skip).drop off).take count) = (buf.drop (skip + off)).take count := by
  rw [List.drop_drop, List.drop_take, List.take_take]
  congr 1
  omega

theorem getU16_slice (buf : Bytes) (n off : ℕ) (h : 8 + off + 2 ≤ n) :
    getU16 ((buf.take n).drop kPreambleSize) off = getU16 buf (kPreambleSize + off) :=
  congrArg getBE (take_slice buf n off 2 8 h)

theorem getU32_slice (buf : Bytes) (n off : ℕ) (h : 8 + off + 4 ≤ n) :
    getU32 ((buf.take n).drop kPreambleSize) off = getU32 buf (kPreambleSize + off) :=
  congrArg (fun bs => BitVec.ofNat 32 (getBE bs)) (take_slice buf n off 4 8 h)

theorem getU64_slice (buf : Bytes) (n off : ℕ) (h : 8 + off + 8 ≤ n) :
    getU64 ((buf.take n).drop kPreambleSize) off = getU64 buf (kPreambleSize + off) :=
  congrArg getBE (take_slice buf n off 8 8 h)

theorem byteAt_slice (buf : Bytes) (n : ℕ) (h : 8 < n) :
    byteAt ((buf.take n).drop kPreambleSize) 0 = byteAt buf kPreambleSize := by
  simp [byteAt, List.getD, kPreambleSize, h]

end Slices

namespace MessageType

section NormalForm

variable (buf : Bytes)

theorem uploadHeader_size : typedMessageSize uploadHeader.code buf =
    if buf.length < kUploadHeaderFixedSize then .error .needMoreData
    else .ok (kUploadHeaderFixedSize + getU16 buf (kPreambleSize + 8)) := rfl

theorem resultRequest_size : typedMessageSize resultRequest.code buf =
    if buf.length < kResultRequestFixedSize then .error .needMoreData
    else .ok (kResultRequestFixedSize + getU16 buf (kPreambleSize + 20)) := rfl

theorem nameField_slice (fixed n : ℕ) (h : kPreambleSize ≤ fixed) :
    ((buf.take (fixed + n)).drop kPreambleSize).drop (fixed - kPreambleSize) =
      (buf.drop fixed).take n := by
  rw [List.drop_drop, Nat.add_sub_cancel' h, List.drop_take, Nat.add_sub_cancel_left]

theorem decodeUploadHeader_eq (h : checkPreamble buf .uploadHeader = .ok) :
    decodeUploadHeader buf =
      readSized .uploadHeader buf (typedMessageSize uploadHeader.code buf) := by
  rw [decodeUploadHeader, h, uploadHeader_size]
  by_cases h1 : buf.length < kUploadHeaderFixedSize
  · simp only [if_pos h1, readSized]
    rfl
  · have hname := nameField_slice buf kUploadHeaderFixedSize
      (getU16 buf (kPreambleSize + 8)) (by decide)
    have hsize := getU64_slice buf (kUploadHeaderFixedSize + getU16 buf (kPreambleSize + 8)) 0
      (by simp only [kUploadHeaderFixedSize, kPreambleSize]; omega)
    simp only [if_neg h1, readSized, readWhole, read]
    rw [show (10 : ℕ) = kUploadHeaderFixedSize - kPreambleSize from rfl, hname, hsize]
    rfl

theorem decodeResultRequest_eq (h : checkPreamble buf .resultRequest = .ok) :
    decodeResultRequest buf =
      readSized .resultRequest buf (typedMessageSize resultRequest.code buf) := by
  rw [decodeResultRequest, h, resultRequest_size]
  by_cases h1 : buf.length < kResultRequestFixedSize
  · simp only [if_pos h1, readSized]
    rfl
  · have hn : 30 ≤ kResultRequestFixedSize + getU16 buf (kPreambleSize + 20) := by
      simp only [kResultRequestFixedSize, kPreambleSize]
      omega
    have hname := nameField_slice buf kResultRequestFixedSize
      (getU16 buf (kPreambleSize + 20)) (by decide)
    have hsize := getU64_slice buf _ 0 (le_trans (by decide) hn)
    have hcrc := getU32_slice buf _ 8 (le_trans (by decide) hn)
    have hoff := getU64_slice buf _ 12 (le_trans (by decide) hn)
    simp only [if_neg h1, readSized, readWhole, read]
    rw [show (22 : ℕ) = kResultRequestFixedSize - kPreambleSize from rfl, hname, hsize, hcrc, hoff]
    rfl

theorem decodeUploadTrailer_eq (h : checkPreamble buf .uploadTrailer = .ok) :
    decodeUploadTrailer buf = readWhole .uploadTrailer buf kUploadTrailerSize := by
  rw [decodeUploadTrailer, h]
  simp only [readWhole, read]
  rw [getU32_slice buf kUploadTrailerSize 0 (by decide)]
  rfl

theorem decodeAck_eq (h : checkPreamble buf .ack = .ok) :
    decodeAck buf = readWhole .ack buf kAckSize := by
  rw [decodeAck, h]
  simp only [readWhole, read]
  rw [getU64_slice buf kAckSize 1 (by decide), byteAt_slice buf kAckSize (by decide)]
  rfl

theorem decodeResultHeader_eq (h : checkPreamble buf .resultHeader = .ok) :
    decodeResultHeader buf = readWhole .resultHeader buf kResultHeaderSize := by
  rw [decodeResultHeader, h]
  simp only [readWhole, read]
  rw [getU64_slice buf kResultHeaderSize 0 (by decide),
    getU32_slice buf kResultHeaderSize 8 (by decide)]
  rfl

theorem decodeDownloadDone_eq (h : checkPreamble buf .downloadDone = .ok) :
    unitOf (decodeDownloadDone buf) = readWhole .downloadDone buf kDownloadDoneSize := by
  have hlen : ¬ buf.length < kDownloadDoneSize := by
    intro hlt
    rw [checkPreamble, if_pos (by exact hlt)] at h
    cases h
  rw [decodeDownloadDone, h, readWhole, if_neg hlen]
  rfl

/-- Every decoder has the one form. -/
theorem decode_eq (t : MessageType) : t.decode buf = t.readChecked buf (checkPreamble buf t) := by
  cases hp : checkPreamble buf t with
  | ok =>
    cases t with
    | uploadHeader => exact decodeUploadHeader_eq buf hp
    | uploadTrailer => exact decodeUploadTrailer_eq buf hp
    | ack => exact decodeAck_eq buf hp
    | resultHeader => exact decodeResultHeader_eq buf hp
    | downloadDone => exact decodeDownloadDone_eq buf hp
    | resultRequest => exact decodeResultRequest_eq buf hp
  | _ =>
    cases t <;> simp only [decode, decodeUploadHeader, decodeUploadTrailer, decodeAck,
      decodeResultHeader, decodeDownloadDone, decodeResultRequest, hp] <;> rfl

end NormalForm

end MessageType

end LogTransfer
