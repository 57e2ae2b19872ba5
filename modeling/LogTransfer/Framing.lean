import LogTransfer.FramerBuffer

/-!
# Framing against the reference

The outcome of any use of the framer is a function of the types it allows and
of the stream. The limit on a file name is only the size of the buffer: a
ResultRequest meets it at 256 bytes, an UploadHeader at 268.
-/

set_option autoImplicit false

namespace LogTransfer

namespace FramerBuffer

theorem frameOnce_ok (expected alternate : MessageType) (s : Bytes) (n : ℕ)
    (h : Framer.frameOnce expected alternate s = (.ok, n)) : expectedMessageSize s = .ok n := by
  unfold Framer.frameOnce at h
  split_ifs at h
  · cases h
  · dsimp only at h
    split at h
    · rename_i total he
      split_ifs at h <;> cases h
      exact he
    · split_ifs at h <;> cases h
    · rename_i hst he
      cases h
      exact absurd he (Framer.expected_not_ok s)

/-- Whatever a framer was used for before its reset, and however the stream is
cut, the outcome is that of the one-shot reference. -/
theorem feedAll_reference (f : FramerBuffer) (expected alternate : MessageType)
    (chunks : List Bytes) :
    ∃ r, (f.reset expected alternate).feedAll chunks = some r ∧
      Simulates ((Framer.reset expected alternate).absorb chunks.flatten) r ∧
      (r.framer.status, r.consumed) = Framer.frameOnce expected alternate chunks.flatten := by
  obtain ⟨r, hr, hsim⟩ := feedAll_live chunks _ (sound_reset f expected alternate)
  rw [live_reset] at hsim
  refine ⟨r, hr, hsim, ?_⟩
  have hst : r.framer.status =
      ((Framer.reset expected alternate).absorb chunks.flatten).1.status :=
    congrArg Framer.status hsim.live
  rw [← Framer.verdict_reference, hst, hsim.consumed, Framer.verdictFrom, List.drop_zero,
    Nat.zero_add]
  rfl

/-- The framer is the one-shot reference, whatever it was used for before and
however the stream is cut. -/
theorem framing_is_reference (f : FramerBuffer) (h : Used f) (expected alternate : MessageType)
    (chunks : List Bytes) :
    (∀ data, ∃ r, f.feed data = some r ∧ r.guarded = false ∧
      r.framer.size ≤ kFramerBufferSize) ∧
    ∃ r, (f.reset expected alternate).feedAll chunks = some r ∧ r.guarded = false ∧
      r.framer.size ≤ kFramerBufferSize ∧
      (r.framer.status, r.consumed) = Framer.frameOnce expected alternate chunks.flatten ∧
      (r.framer.status = .ok → expectedMessageSize chunks.flatten = .ok r.consumed ∧
        r.framer.message = chunks.flatten.take r.consumed) ∧
      (r.framer.status ≠ .needMoreData → ∀ data,
        r.framer.feed data = some { framer := r.framer, consumed := 0, guarded := false }) := by
  constructor
  · intro data
    obtain ⟨r, hr, -, hsim⟩ := feed_live f data (used_sound h)
    exact ⟨r, hr, hsim.unguarded, hsim.size⟩
  · obtain ⟨r, hr, hsim, href⟩ := feedAll_reference f expected alternate chunks
    refine ⟨r, hr, hsim.unguarded, hsim.size, href, ?_, ?_⟩
    · intro hok
      rw [hok] at href
      refine ⟨frameOnce_ok expected alternate _ _ href.symm, ?_⟩
      have hbuf := Framer.absorb_buffer (Framer.reset expected alternate) chunks.flatten
      rw [← hsim.consumed] at hbuf
      have hmsg : r.framer.message =
          ((Framer.reset expected alternate).absorb chunks.flatten).1.buffer :=
        congrArg Framer.buffer hsim.live
      rw [hmsg, hbuf]
      rfl
    · intro hne data
      rw [feed, if_pos hne]

theorem trailer_framed :
    ∃ r, ((init .ack .ack).reset .uploadTrailer .downloadDone).feedAll
        [[], (encodeUploadTrailer (UploadTrailer.mk 7#32)).take 5,
          (encodeUploadTrailer (UploadTrailer.mk 7#32)).drop 5 ++ [1#8, 2#8]] = some r ∧
      r.framer.status = .ok ∧ r.consumed = 12 := by
  obtain ⟨-, r, hr, -, -, href, -⟩ := framing_is_reference (init .ack .ack) (.init .ack .ack)
    .uploadTrailer .downloadDone [[], (encodeUploadTrailer (UploadTrailer.mk 7#32)).take 5,
      (encodeUploadTrailer (UploadTrailer.mk 7#32)).drop 5 ++ [1#8, 2#8]]
  have hval : Framer.frameOnce .uploadTrailer .downloadDone
      [[], (encodeUploadTrailer (UploadTrailer.mk 7#32)).take 5,
        (encodeUploadTrailer (UploadTrailer.mk 7#32)).drop 5 ++ [1#8, 2#8]].flatten =
      (.ok, 12) := by decide
  rw [hval, Prod.mk.injEq] at href
  exact ⟨r, hr, href⟩

section NameLimit

def nameLen (t : MessageType) (s : Bytes) : ℕ := getU16 s (Framer.fixedSizeFor t.code - 2)

/-- A stream that starts with the fixed part of a message with a name, which
is to be longer than a name may be. -/
structure OverlongName (t : MessageType) (s : Bytes) : Prop where
  named : t = .uploadHeader ∨ t = .resultRequest
  preamble : checkPreamble s t = .ok
  fixed : Framer.fixedSizeFor t.code ≤ s.length
  long : kMaxFilenameLen < nameLen t s

theorem overlong_size {t : MessageType} {s : Bytes} (h : OverlongName t s) :
    expectedMessageSize s = .ok (Framer.fixedSizeFor t.code + nameLen t s) ∧
      byteAt s kOffsetType = t.code := by
  obtain ⟨hexp, ht⟩ := checkPreamble_ok s t h.preamble
  refine ⟨?_, ht⟩
  have hfix := h.fixed
  rw [hexp]
  rcases h.named with rfl | rfl
  · have hlong : ¬ s.length < kUploadHeaderFixedSize := Nat.not_lt.mpr hfix
    rw [typedMessageSize, if_pos rfl, if_neg hlong]
    rfl
  · have hlong : ¬ s.length < kResultRequestFixedSize := Nat.not_lt.mpr hfix
    rw [typedMessageSize, if_neg (by decide), if_neg (by decide), if_neg (by decide),
      if_neg (by decide), if_neg (by decide), if_pos rfl, if_neg hlong]
    rfl

/-- The one limit is the size of the buffer, which has room for the longer of
the two fixed parts. -/
theorem overlong_verdict {t expected alternate : MessageType} {s : Bytes} (h : OverlongName t s)
    (ht : t = expected ∨ t = alternate) :
    Framer.frameOnce expected alternate s = (.badValue, Framer.fixedSizeFor t.code) ↔
      t = .resultRequest ∨ kFramerBufferSize - kUploadHeaderFixedSize < nameLen t s := by
  obtain ⟨hsize, htype⟩ := overlong_size h
  have h8 : ¬ s.length < kPreambleSize :=
    Nat.not_lt.mpr ((Framer.fixedSizeFor_bounds t.code).1.trans h.fixed)
  have hallow : Framer.allowed expected alternate t.code = true := by
    rcases ht with rfl | rfl <;> simp [Framer.allowed]
  have hbig : kFramerBufferSize < Framer.fixedSizeFor t.code + nameLen t s ↔
      t = .resultRequest ∨ kFramerBufferSize - kUploadHeaderFixedSize < nameLen t s := by
    have hlong := h.long
    have hb : kFramerBufferSize = 285 := rfl
    have hu : kUploadHeaderFixedSize = 18 := rfl
    have hm : kMaxFilenameLen = 255 := rfl
    rcases h.named with rfl | rfl
    · have hf : Framer.fixedSizeFor MessageType.uploadHeader.code = 18 := rfl
      simp only [hf, hb, hu, reduceCtorEq, false_or]
      omega
    · have hf : Framer.fixedSizeFor MessageType.resultRequest.code = 30 := rfl
      simp only [hf, hb, true_or, iff_true]
      omega
  rw [← hbig, Framer.frameOnce, if_neg h8, hsize, htype]
  simp only [hallow]
  rw [if_neg (by simp)]
  constructor
  · intro hv
    split_ifs at hv with hgt
    · exact hgt
    · cases hv
    · cases hv
  · intro hgt
    rw [if_pos hgt]

/-- An over-long name is refused before its first byte exactly where the
message could not fit into the buffer. -/
theorem overlong_refused_iff (f : FramerBuffer) (expected alternate t : MessageType) (s : Bytes)
    (ht : t = expected ∨ t = alternate) (h : OverlongName t s) :
    (∀ chunks : List Bytes, chunks.flatten = s →
      ∃ r, (f.reset expected alternate).feedAll chunks = some r ∧
        r.framer.status = .badValue ∧ r.consumed = Framer.fixedSizeFor t.code) ↔
      t = .resultRequest ∨ kFramerBufferSize - kUploadHeaderFixedSize < nameLen t s := by
  rw [← overlong_verdict h ht]
  constructor
  · intro hall
    obtain ⟨r, hr, hst, hn⟩ := hall [s] List.flatten_singleton
    obtain ⟨r', hr', -, href⟩ := feedAll_reference f expected alternate [s]
    rw [hr] at hr'
    cases hr'
    rw [List.flatten_singleton] at href
    rw [← href, hst, hn]
  · intro hv chunks hs
    obtain ⟨r, hr, -, href⟩ := feedAll_reference f expected alternate chunks
    rw [hs, hv, Prod.mk.injEq] at href
    exact ⟨r, hr, href.1, href.2⟩

/-- A header whose name is one byte too long. -/
def longHeader : Bytes :=
  putPreamble .uploadHeader ++ putU64 3 ++ putU16 256 ++ List.replicate 256 0x61#8

theorem longHeader_overlong : OverlongName .uploadHeader longHeader :=
  ⟨.inl rfl, by decide +kernel, by decide +kernel, by decide +kernel⟩

/-- The framer takes the whole name of 256 bytes and calls the message complete. -/
theorem longHeader_taken :
    OverlongName .uploadHeader longHeader ∧
      ∃ r, ((init .uploadHeader .resultRequest).reset .uploadHeader .resultRequest).feedAll
          [longHeader] = some r ∧
        r.framer.status = .ok ∧ r.consumed = 274 ∧
        ¬ (r.framer.status = .badValue ∧ r.consumed = kUploadHeaderFixedSize) := by
  refine ⟨longHeader_overlong, ?_⟩
  obtain ⟨r, hr, -, href⟩ := feedAll_reference (init .uploadHeader .resultRequest)
    .uploadHeader .resultRequest [longHeader]
  have hval : Framer.frameOnce .uploadHeader .resultRequest [longHeader].flatten =
      (.ok, 274) := by decide +kernel
  rw [hval, Prod.mk.injEq] at href
  refine ⟨r, hr, href.1, href.2, ?_⟩
  rintro ⟨hbad, -⟩
  rw [href.1] at hbad
  cases hbad

theorem longRequest_refused :
    ∃ r, ((init .uploadHeader .resultRequest).reset .uploadHeader .resultRequest).feedAll
        [putPreamble .resultRequest ++ List.replicate 20 0#8, [1#8, 0#8, 0x61#8]] = some r ∧
      r.framer.status = .badValue ∧ r.consumed = 30 := by
  have hlong : OverlongName .resultRequest
      (putPreamble .resultRequest ++ List.replicate 20 0#8 ++ [1#8, 0#8, 0x61#8]) :=
    ⟨.inr rfl, by decide, by decide, by decide⟩
  exact (overlong_refused_iff (init .uploadHeader .resultRequest) .uploadHeader .resultRequest
    .resultRequest _ (.inr rfl) hlong).mpr (.inl rfl) _ (by simp)

end NameLimit

end FramerBuffer

end LogTransfer
