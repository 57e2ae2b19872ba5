import LogTransfer.Message

/-!
# Codec round trip and canonical form

Both directions go through the body of a message: reading a written body gives
the values back, and an accepted body is the one its values are written as.
-/

set_option autoImplicit false

namespace LogTransfer

namespace MessageType

section Names

theorem plain_iff_valid (name : Bytes) : PlainName name ↔ isValidFilename name = true := by
  have hbyte (b : Byte) : (0x1F < b.toNat ∧ b.toNat ≠ 0x7F ∧ b ≠ ch '/' ∧ b ≠ ch '\\') ↔
      (!(b ≤ 0x1F#8 || b = 0x7F#8 || b = 0x2F#8 || b = 0x5C#8)) = true := by
    have hle : b ≤ 0x1F#8 ↔ b.toNat ≤ 0x1F := BitVec.le_def
    have heq : b = 0x7F#8 ↔ b.toNat = 0x7F := BitVec.toNat_inj.symm
    have hslash : ch '/' = 0x2F#8 := rfl
    have hback : ch '\\' = 0x5C#8 := rfl
    simp only [Bool.not_eq_true', Bool.or_eq_false_iff, decide_eq_false_iff_not, hle, heq, hslash,
      hback, Nat.not_le, and_assoc]
  have hpos : 1 ≤ name.length ↔ name ≠ [] := List.length_pos_iff
  have hlen : name.length ≤ 255 ↔ decide (name.length ≤ kMaxFilenameLen) = true :=
    decide_eq_true_iff.symm
  simp only [PlainName, isValidFilename, Bool.and_eq_true, List.all_eq_true, Bool.not_eq_true',
    List.isEmpty_eq_false_iff, hpos, hlen, and_assoc, hbyte]

end Names

section RoundTrip

variable (t : MessageType) (m : t.Payload)

theorem encode_body : t.encode m = putPreamble t ++ t.body m := by
  cases t <;> simp only [encode, body, encodeUploadHeader, encodeUploadTrailer, encodeAck,
    encodeResultHeader, encodeDownloadDone, encodeResultRequest, List.append_assoc,
    List.append_nil, List.singleton_append]

theorem encode_length : (t.encode m).length = kPreambleSize + (t.body m).length := by
  rw [encode_body, List.length_append, preamble_length]
  rfl

theorem putU16_length (v : ℕ) : (putU16 v).length = 2 := putBE_length 2 v

theorem putU32_length (v : Crc) : (putU32 v).length = 4 := putBE_length 4 _

theorem putU64_length (v : ℕ) : (putU64 v).length = 8 := putBE_length 8 v

/-- The size rule names the length of what was written. -/
theorem typedMessageSize_encode (h : t.Carried m) (r : Bytes) :
    typedMessageSize t.code (t.encode m ++ r) = .ok (t.encode m).length := by
  have hl := encode_length t m
  cases t with
  | uploadHeader =>
    have hn := h.2.2.1
    have hlen : getU16 (encode uploadHeader m ++ r) (kPreambleSize + 8) = m.filename.length := by
      rw [encode_body]
      simp only [body, List.append_assoc]
      rw [← List.append_assoc]
      exact getU16_field _ _ _ _ (by simp [preamble_length, putU64_length, kPreambleSize])
        (hn.trans_lt (by decide))
    have hfix : ¬ (encode uploadHeader m ++ r).length < kUploadHeaderFixedSize := by
      rw [List.length_append, hl]
      simp only [body, List.length_append, putU64_length, putU16_length, kUploadHeaderFixedSize]
      omega
    rw [uploadHeader_size, if_neg hfix, hlen, hl]
    simp only [body, List.length_append, putU64_length, putU16_length, kUploadHeaderFixedSize,
      Nat.add_assoc]
  | resultRequest =>
    have hn := h.2.2.2.1
    have hlen : getU16 (encode resultRequest m ++ r) (kPreambleSize + 20) = m.filename.length := by
      rw [encode_body]
      simp only [body, List.append_assoc]
      rw [← List.append_assoc, ← List.append_assoc, ← List.append_assoc]
      exact getU16_field _ _ _ _
        (by simp [preamble_length, putU64_length, putU32_length, kPreambleSize])
        (hn.trans_lt (by decide))
    have hfix : ¬ (encode resultRequest m ++ r).length < kResultRequestFixedSize := by
      rw [List.length_append, hl]
      simp only [body, List.length_append, putU64_length, putU32_length, putU16_length,
        kResultRequestFixedSize]
      omega
    rw [resultRequest_size, if_neg hfix, hlen, hl]
    simp only [body, List.length_append, putU64_length, putU32_length, putU16_length,
      kResultRequestFixedSize, Nat.add_assoc]
  | uploadTrailer | ack | resultHeader | downloadDone =>
    rw [hl]
    simp [body, putU64_length, putU32_length, typedMessageSize, code, kUploadTrailerSize,
      kAckSize, kResultHeaderSize, kDownloadDoneSize, kPreambleSize]

theorem read_body (h : t.Carried m) : t.read (t.body m) = .ok m := by
  cases t with
  | uploadHeader =>
    obtain ⟨hs, hv⟩ := h
    have h64 : getU64 (body uploadHeader m) 0 = m.fileSize :=
      getU64_field [] _ _ 0 rfl (hs.trans_lt (by decide))
    have hname : (body uploadHeader m).drop 10 = m.filename := by
      simp [body, List.drop_append, putU64_length, putU16_length]
    simp only [read, h64, hname, (plain_iff_valid _).mp hv]
    rw [if_neg (Nat.not_lt.mpr hs), if_neg (by simp)]
    rfl
  | uploadTrailer =>
    have h32 := getU32_field [] [] m.crc32 0 rfl
    rw [List.nil_append, List.append_nil] at h32
    simp only [read, body, h32]
    rfl
  | ack =>
    have h64 := getU64_field [m.status.code] [] m.receivedBytes 1 rfl h
    rw [List.append_nil] at h64
    have hst : AckStatus.ofCode m.status.code = some m.status := by cases m.status <;> rfl
    have hb : AckStatus.ofCode (byteAt (body ack m) 0) = some m.status := hst
    simp only [read, hb]
    exact congrArg (fun n => Except.ok (Ack.mk m.status n)) h64
  | resultHeader =>
    have h64 : getU64 (body resultHeader m) 0 = m.csvSize := getU64_field [] _ _ 0 rfl h
    have h32 : getU32 (body resultHeader m) 8 = m.crc32 := by
      have := getU32_field (putU64 m.csvSize) [] m.crc32 8 (putU64_length _)
      rwa [List.append_nil] at this
    simp only [read, h64, h32]
    rfl
  | downloadDone => rfl
  | resultRequest =>
    obtain ⟨hs, ho, hv⟩ := h
    have h64 : getU64 (body resultRequest m) 0 = m.fileSize :=
      getU64_field [] _ _ 0 rfl (hs.trans_lt (by decide))
    have h32 : getU32 (body resultRequest m) 8 = m.crc32 :=
      getU32_field (putU64 m.fileSize) _ m.crc32 8 (putU64_length _)
    have hoff : getU64 (body resultRequest m) 12 = m.startOffset := by
      simp only [body]
      rw [← List.append_assoc]
      exact getU64_field _ _ _ _ (by simp [putU64_length, putU32_length])
        (ho.trans_lt (by decide))
    have hname : (body resultRequest m).drop 22 = m.filename := by
      simp only [body]
      rw [← List.append_assoc, ← List.append_assoc, ← List.append_assoc]
      exact List.drop_left' (by simp [putU64_length, putU32_length, putU16_length])
    simp only [read, h64, h32, hoff, hname, (plain_iff_valid _).mp hv]
    rw [if_neg (Nat.not_lt.mpr hs), if_neg (Nat.not_lt.mpr ho), if_neg (by simp)]
    rfl

theorem decode_encode (h : t.Carried m) (r : Bytes) : t.decode (t.encode m ++ r) = .ok m := by
  have hp : checkPreamble (t.encode m ++ r) t = .ok := by
    rw [encode_body, List.append_assoc]
    exact checkPreamble_put t _
  have hbody : (t.encode m).drop kPreambleSize = t.body m := by
    rw [encode_body]
    exact List.drop_left' (preamble_length t)
  rw [decode_eq, hp, readChecked, typedMessageSize_encode t m h r, readSized, readWhole,
    if_neg (by rw [List.length_append]; omega), List.take_left, hbody]
  exact read_body t m h

theorem expectedMessageSize_encode (h : t.Carried m) :
    expectedMessageSize (t.encode m) = .ok (t.encode m).length := by
  have hp : checkPreamble (t.encode m) t = .ok := by
    rw [encode_body]
    exact checkPreamble_put t _
  have hsize := typedMessageSize_encode t m h []
  rw [List.append_nil] at hsize
  rw [(checkPreamble_ok _ _ hp).1, hsize]

end RoundTrip

section Canonical

/-- A body as long as the size rule says. -/
def Fits : MessageType → Bytes → Prop
  | .uploadHeader, rest => rest.length = 10 + getU16 rest 8
  | .uploadTrailer, rest => rest.length = 4
  | .ack, rest => rest.length = 9
  | .resultHeader, rest => rest.length = 12
  | .downloadDone, rest => rest.length = 0
  | .resultRequest, rest => rest.length = 22 + getU16 rest 20

theorem fits_of_size (t : MessageType) (buf : Bytes) (n : ℕ)
    (h : typedMessageSize t.code buf = .ok n) (hn : n ≤ buf.length) :
    kPreambleSize ≤ n ∧ t.Fits ((buf.take n).drop kPreambleSize) := by
  have hl : ((buf.take n).drop kPreambleSize).length = n - kPreambleSize := by
    rw [List.length_drop, List.length_take, Nat.min_eq_left hn]
  cases t with
  | uploadHeader =>
    rw [uploadHeader_size] at h
    split_ifs at h
    cases h
    have hs := getU16_slice buf (kUploadHeaderFixedSize + getU16 buf (kPreambleSize + 8)) 8
      (by simp only [kUploadHeaderFixedSize, kPreambleSize]; omega)
    refine ⟨by simp only [kUploadHeaderFixedSize]; omega, ?_⟩
    rw [Fits, hl, hs]
    simp only [kUploadHeaderFixedSize]
    omega
  | resultRequest =>
    rw [resultRequest_size] at h
    split_ifs at h
    cases h
    have hs := getU16_slice buf (kResultRequestFixedSize + getU16 buf (kPreambleSize + 20)) 20
      (by simp only [kResultRequestFixedSize, kPreambleSize]; omega)
    refine ⟨by simp only [kResultRequestFixedSize]; omega, ?_⟩
    rw [Fits, hl, hs]
    simp only [kResultRequestFixedSize]
    omega
  | uploadTrailer | ack | resultHeader | downloadDone =>
    cases h
    exact ⟨by decide, hl⟩

theorem getU64_lt (buf : Bytes) (off : ℕ) : getU64 buf off < 2 ^ 64 := by
  have hlt := getBE_lt ((buf.drop off).take 8)
  refine hlt.trans_le ?_
  calc
    256 ^ ((buf.drop off).take 8).length ≤ 256 ^ 8 :=
      Nat.pow_le_pow_right (by decide) (List.length_take_le _ _)
    _ = 2 ^ 64 := by decide

theorem slice_append (rest : Bytes) (off count : ℕ) :
    (rest.drop off).take count ++ rest.drop (off + count) = rest.drop off := by
  rw [← List.drop_drop, List.take_append_drop]

/-- An accepted body is the one its values are written as. -/
theorem body_read (t : MessageType) (rest : Bytes) (m : t.Payload) (hf : t.Fits rest)
    (h : t.read rest = .ok m) : t.Carried m ∧ t.body m = rest := by
  cases t with
  | uploadHeader =>
    simp only [Fits] at hf
    simp only [read] at h
    split_ifs at h with hs hv
    cases h
    refine ⟨⟨Nat.le_of_not_lt hs, (plain_iff_valid _).mpr (by simpa using hv)⟩, ?_⟩
    have hname : (rest.drop 10).length = getU16 rest 8 := by
      rw [List.length_drop, hf]
      omega
    change putU64 (getU64 rest 0) ++ (putU16 (rest.drop 10).length ++ rest.drop 10) = rest
    rw [hname, putU64_getU64 rest 0 (by omega), putU16_getU16 rest 8 (by omega),
      slice_append rest 8 2]
    exact slice_append rest 0 8
  | uploadTrailer =>
    simp only [Fits] at hf
    cases h
    refine ⟨trivial, ?_⟩
    change putU32 (getU32 rest 0) = rest
    rw [putU32_getU32 rest 0 (by omega), List.drop_zero, ← hf, List.take_length]
  | ack =>
    simp only [Fits] at hf
    simp only [read] at h
    split at h
    · cases h
    · rename_i st hst
      cases h
      refine ⟨getU64_lt rest 1, ?_⟩
      have hcode : st.code = byteAt rest 0 := by
        unfold AckStatus.ofCode at hst
        split_ifs at hst with h0 h1 h2 h3 h4 h5 <;> cases hst <;> symm <;> assumption
      change st.code :: putU64 (getU64 rest 1) = rest
      rw [putU64_getU64 rest 1 (by omega), hcode]
      cases rest with
      | nil => simp at hf
      | cons b rest =>
        rw [List.length_cons] at hf
        simp only [List.drop_one, List.tail_cons]
        rw [show 8 = rest.length by omega, List.take_length]
        rfl
  | resultHeader =>
    simp only [Fits] at hf
    cases h
    refine ⟨getU64_lt rest 0, ?_⟩
    change putU64 (getU64 rest 0) ++ putU32 (getU32 rest 8) = rest
    have hlast : rest.drop (8 + 4) = [] := List.drop_eq_nil_of_le (by omega)
    have h8 := slice_append rest 8 4
    rw [hlast, List.append_nil] at h8
    rw [putU64_getU64 rest 0 (by omega), putU32_getU32 rest 8 (by omega), h8]
    exact slice_append rest 0 8
  | downloadDone =>
    simp only [Fits] at hf
    exact ⟨trivial, (List.length_eq_zero_iff.mp hf).symm⟩
  | resultRequest =>
    simp only [Fits] at hf
    simp only [read] at h
    split_ifs at h with hs ho hv
    cases h
    have hplain := (plain_iff_valid _).mpr (by simpa using hv)
    refine ⟨⟨Nat.le_of_not_lt hs, Nat.le_of_not_lt ho, hplain⟩, ?_⟩
    have hname : (rest.drop 22).length = getU16 rest 20 := by
      rw [List.length_drop, hf]
      omega
    change putU64 (getU64 rest 0) ++ (putU32 (getU32 rest 8) ++ (putU64 (getU64 rest 12) ++
      (putU16 (rest.drop 22).length ++ rest.drop 22))) = rest
    rw [hname, putU64_getU64 rest 0 (by omega), putU32_getU32 rest 8 (by omega),
      putU64_getU64 rest 12 (by omega), putU16_getU16 rest 20 (by omega),
      slice_append rest 20 2, slice_append rest 12 8, slice_append rest 8 4]
    exact slice_append rest 0 8

/-- The two bytes of the preamble that a receiver ignores. -/
def Reserved (i : ℕ) : Prop := kOffsetType < i ∧ i < kPreambleSize

theorem preamble_agrees (t : MessageType) (buf : Bytes) (h : checkPreamble buf t = .ok) (i : ℕ)
    (hi : i < kPreambleSize) (hr : ¬ Reserved i) : buf[i]? = (putPreamble t)[i]? := by
  unfold checkPreamble at h
  split_ifs at h with hlen hmagic hversion htype
  simp only [magicOk, Bool.not_eq_true', decide_eq_false_iff_not,
    not_not] at hmagic hversion htype
  have hget (j : ℕ) (hj : j < kPreambleSize) : buf[j]? = some (byteAt buf j) := by
    have hjl : j < buf.length := by omega
    simp [byteAt, List.getD, hjl]
  have hlow (j : ℕ) (hj : j < 4) : buf[j]? = kMagic[j]? := by
    rw [← hmagic, List.getElem?_take, if_pos hj]
  have h8 : kPreambleSize = 8 := rfl
  have h5 : kOffsetType = 5 := rfl
  simp only [Reserved, not_and, Nat.not_lt] at hr
  have hcases : i < 4 ∨ i = kOffsetVersion ∨ i = kOffsetType := by
    simp only [kOffsetVersion]
    omega
  rcases hcases with hi4 | rfl | rfl
  · rw [hlow i hi4]
    exact (List.getElem?_append_left (by exact hi4)).symm
  · rw [hget _ (by decide), hversion]
    rfl
  · rw [hget _ (by decide), htype]
    rfl

theorem decode_canonical (t : MessageType) (buf : Bytes) (m : t.Payload)
    (h : t.decode buf = .ok m) :
    t.Carried m ∧ expectedMessageSize buf = .ok (t.encode m).length ∧
      (t.encode m).length ≤ buf.length ∧
      ∀ i, ¬ Reserved i → (buf.take (t.encode m).length)[i]? = (t.encode m)[i]? := by
  rw [decode_eq] at h
  cases hp : checkPreamble buf t with
  | ok =>
    rw [hp, readChecked] at h
    obtain ⟨hexp, -⟩ := checkPreamble_ok buf t hp
    cases hn : typedMessageSize t.code buf with
    | error st =>
      rw [hn] at h
      cases h
    | ok n =>
      rw [hn, readSized, readWhole] at h
      split_ifs at h with hlt
      obtain ⟨h8, hfits⟩ := fits_of_size t buf n hn (Nat.le_of_not_lt hlt)
      obtain ⟨hc, hbody⟩ := body_read t _ m hfits h
      have henc := encode_body t m
      have hlen : (t.encode m).length = n := by
        rw [encode_length, hbody, List.length_drop, List.length_take]
        omega
      refine ⟨hc, by rw [hexp, hn, hlen], by omega, ?_⟩
      intro i hi
      rw [hlen, henc, hbody]
      by_cases hi8 : i < kPreambleSize
      · rw [List.getElem?_append_left (by exact hi8), ← preamble_agrees t buf hp i hi8 hi,
          List.getElem?_take, if_pos (by omega)]
      · rw [List.getElem?_append_right (by rw [preamble_length]; exact Nat.le_of_not_lt hi8),
          List.getElem?_drop, preamble_length]
        congr 1
        simp only [kPreambleSize] at hi8 ⊢
        omega
  | _ =>
    rw [hp] at h
    cases h

end Canonical

end MessageType

/-- What is written is read back whatever follows it, what is accepted was
written, and what the client lets through the server takes. -/
theorem codec_round_trip (t : MessageType) :
    (∀ m : t.Payload, t.Carried m →
      (∀ r, t.decode (t.encode m ++ r) = .ok m) ∧
        expectedMessageSize (t.encode m) = .ok (t.encode m).length) ∧
      (∀ (buf : Bytes) (m : t.Payload), t.decode buf = .ok m →
        ∃ n, expectedMessageSize buf = .ok n ∧ n ≤ buf.length ∧ n = (t.encode m).length ∧
          ∀ i, ¬ MessageType.Reserved i → (buf.take n)[i]? = (t.encode m)[i]?) ∧
      ∀ (name : Bytes) (size : ℕ) (r : Bytes), Client.isAcceptableFileName name = none →
        Client.queryFileSize size = none →
          decodeUploadHeader
              (encodeUploadHeader { fileSize := size, filename := name } ++ r) =
            .ok { fileSize := size, filename := name } := by
  refine ⟨fun m hm => ⟨t.decode_encode m hm, t.expectedMessageSize_encode m hm⟩, ?_, ?_⟩
  · intro buf m h
    obtain ⟨-, hexp, hlen, hsame⟩ := t.decode_canonical buf m h
    exact ⟨_, hexp, hlen, rfl, hsame⟩
  · intro name size r hname hsize
    exact MessageType.decode_encode .uploadHeader { fileSize := size, filename := name }
      ⟨Client.query_size size hsize,
        (MessageType.plain_iff_valid name).mpr (Client.acceptable_valid name hname)⟩ r

theorem small_header_round_trip :
    MessageType.Carried .uploadHeader (UploadHeader.mk 3 (bytesOf "a")) ∧
      decodeUploadHeader (encodeUploadHeader (UploadHeader.mk 3 (bytesOf "a")) ++ [7#8]) =
        .ok (UploadHeader.mk 3 (bytesOf "a")) := by
  have hname : isValidFilename (bytesOf "a") = true := by decide
  have hc : MessageType.Carried .uploadHeader (UploadHeader.mk 3 (bytesOf "a")) :=
    ⟨by decide, (MessageType.plain_iff_valid _).mpr hname⟩
  exact ⟨hc, ((codec_round_trip .uploadHeader).1 _ hc).1 [7#8]⟩

end LogTransfer
