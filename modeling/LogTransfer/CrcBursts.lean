import LogTransfer.CrcBitwise
import LogTransfer.OutputGrammar
import LogTransfer.Segmentation
import LogTransfer.SessionMoves

/-!
# Short bursts

A checksum of 32 bits tells apart any two byte strings which differ within four
consecutive bytes. So an upload damaged in this way under an intact trailer is
refused: whatever the reads are, the answer is Ack(CrcMismatch), and in no run
of the server is the session ever in ANALYZING.
-/

set_option autoImplicit false

namespace LogTransfer
open Program Interleave

/-- Same length, and what differs lies within four consecutive bytes. -/
def Burst (a b : Bytes) : Prop :=
  a.length = b.length ∧ a ≠ b ∧ ∃ k, ∀ i : ℕ, a[i]? ≠ b[i]? → k ≤ i ∧ i < k + 4

section Detection

theorem burst_split {a b : Bytes} (h : Burst a b) :
    ∃ pre x y post, a = pre ++ x ++ post ∧ b = pre ++ y ++ post ∧ x.length = y.length ∧
      x.length ≤ 4 ∧ x ≠ y := by
  obtain ⟨hl, hne, k, hk⟩ := h
  have hpre : a.take k = b.take k := by
    apply List.ext_getElem?
    intro i
    by_cases hi : i < k
    · have heq : a[i]? = b[i]? := by
        by_contra hdiff
        have := hk i hdiff
        omega
      rw [List.getElem?_take_of_lt hi, List.getElem?_take_of_lt hi, heq]
    · rw [List.getElem?_take_eq_none (by omega), List.getElem?_take_eq_none (by omega)]
  have hpost : a.drop (k + 4) = b.drop (k + 4) := by
    apply List.ext_getElem?
    intro i
    rw [List.getElem?_drop, List.getElem?_drop]
    by_contra hdiff
    have := hk _ hdiff
    omega
  have hcut (c : Bytes) : c = c.take k ++ (c.drop k).take 4 ++ c.drop (k + 4) := by
    rw [List.append_assoc, ← List.drop_drop, List.take_append_drop, List.take_append_drop]
  refine ⟨a.take k, (a.drop k).take 4, (b.drop k).take 4, a.drop (k + 4), hcut a, ?_, ?_, ?_, ?_⟩
  · rw [hpre, hpost]
    exact hcut b
  · simp [hl]
  · exact List.length_take_le _ _
  · intro hmid
    apply hne
    rw [hcut a, hcut b, hpre, hmid, hpost]

theorem bitsOf_injective (x y : Bytes) (hl : x.length = y.length) (h : bitsOf x = bitsOf y) :
    x = y := by
  induction x generalizing y with
  | nil => exact (List.length_eq_zero_iff.mp hl.symm).symm
  | cons b bs ih =>
    cases y with
    | nil => cases hl
    | cons c cs =>
      have hlen (d : Byte) : (bitsOf [d]).length = 8 := bitsOf_length [d]
      have hb : bitsOf (b::bs) = bitsOf [b] ++ bitsOf bs := bitsOf_append [b] bs
      have hc : bitsOf (c::cs) = bitsOf [c] ++ bitsOf cs := bitsOf_append [c] cs
      rw [hb, hc] at h
      obtain ⟨hhead, htail⟩ := List.append_inj h (by rw [hlen, hlen])
      have hword : b.setWidth 32 = c.setWidth 32 := by rw [← word_byte, ← word_byte, hhead]
      have hbyte := congrArg (BitVec.setWidth 8) hword
      simp only [BitVec.setWidth_setWidth_of_le _ (show 8 ≤ 32 by decide),
        BitVec.setWidth_eq] at hbyte
      rw [hbyte, ih cs (by simpa using hl) htail]

theorem crc32_burst {a b : Bytes} (h : Burst a b) : crc32 0#32 a ≠ crc32 0#32 b := by
  obtain ⟨pre, x, y, post, rfl, rfl, hl, h4, hne⟩ := burst_split h
  intro heq
  rw [crc32_bitwise, crc32_bitwise, crc32Bitwise, crc32Bitwise, BitVec.xor_left_inj] at heq
  simp only [bitsOf_append] at heq
  refine ReflectedCrc.burst_detected (by decide) _ _ _ _ _ ?_ ?_ ?_ heq
  · rw [bitsOf_length, bitsOf_length, hl]
  · rw [bitsOf_length]
    omega
  · exact fun hbits => hne (bitsOf_injective x y hl hbits)

end Detection

section Refusal

/-- `verifyAndAck` is the way of Ack(CrcMismatch), which never asks for an
analysis. -/
def RefusesMismatch (e : Env) (s : Session) : Prop :=
  s.verifyAndAck e = (s.transition e .verifying >>= fun s =>
    s.failWithAck .crcMismatch "payload CRC mismatch")

/-- Of what the verdict depends on, a transition changes nothing. -/
theorem transition_verdict (e : Env) (s : Session) (next : SessionState) :
    Yields (fun s' => s'.framer = s.framer ∧ s'.payloadCrc = s.payloadCrc)
      (s.transition e next) := by
  by_cases hs : s.state = next
  · unfold Session.transition
    rw [if_pos hs]
    exact ⟨rfl, rfl⟩
  · refine yields_mono ?_ (Session.transition_moved s _ hs)
    rintro _ ⟨b, rfl⟩
    obtain ⟨-, -, hf, hp⟩ := Session.moved_open (e := e) s next b
    exact ⟨hf, hp⟩

theorem verifyAndAck_burst (e : Env) (s : Session) {sent received : Bytes}
    (h : Burst sent received) (hc : s.payloadCrc = crc32 0#32 received)
    (ht : decodeUploadTrailer s.framer.message = .ok { crc32 := crc32 0#32 sent }) :
    RefusesMismatch e s := by
  unfold RefusesMismatch Session.verifyAndAck
  refine bind_congr_yields (transition_verdict e s .verifying) fun s' hs' => ?_
  rw [hs'.1, ht, hs'.2, hc]
  exact if_pos (crc32_burst h)

end Refusal

section Uploads

/-- The bytes of an upload of `received` under the trailer of `sent`, the two
differing in a short burst. -/
def DamagedUpload (sent received bytes : Bytes) : Prop :=
  Burst sent received ∧ ∃ h header t trailer, Reception.HeaderOf h header ∧
    header.fileSize = received.length ∧ Reception.TrailerOf t trailer ∧
    trailer.crc32 = crc32 0#32 sent ∧ bytes = h ++ received ++ t

theorem takeAll_upload (retained : Option RetainedResult) {h t payload : Bytes}
    {header : UploadHeader} {trailer : UploadTrailer} (hh : Reception.HeaderOf h header)
    (hs : header.fileSize = payload.length) (ht : Reception.TrailerOf t trailer) :
    (Reception.initial retained).takeAll (h ++ payload ++ t) =
      Reception.verify { Reception.initial retained with
        stage := .trailer Reception.trailerFramer, fileSize := payload.length,
        payload := payload } trailer := by
  have hopen := Reception.takeAll_headerOf retained h header hh
  have hpayload : (Reception.initial retained).takeAll (h ++ payload) =
      { Reception.initial retained with
        stage := .trailer Reception.trailerFramer, fileSize := payload.length,
        payload := payload } := by
    rw [Reception.takeAll_append, hopen]
    by_cases hnil : payload = []
    · subst hnil
      simp [Reception.receive, Reception.initial, Reception.takeAll, hs]
    · have hpos : 0 < payload.length := List.length_pos_iff.mpr hnil
      have hstart : Reception.receive
          { Reception.initial retained with fileSize := header.fileSize } =
            { Reception.initial retained with
              stage := .payload, fileSize := payload.length } := by
        simp [Reception.receive, Reception.initial, hs, hpos]
      rw [hstart, Reception.takeAll_payload _ _ rfl hnil (by simp [Reception.initial])]
      simp [Reception.receive, Reception.initial]
  rw [Reception.takeAll_append, hpayload]
  exact Reception.takeAll_trailerOf _ t trailer rfl ht

/-- What every cut of a damaged upload ends in. -/
def mismatch (received : Bytes) : Outcome :=
  { state := .verifying,
    sent := [encodeAck { status := .crcMismatch, receivedBytes := received.length }],
    committed := received, receivedBytes := received.length, payloadCrc := crc32 0#32 received,
    cleanupStarted := false }

variable {sent received bytes : Bytes}

theorem takeAll_damaged (retained : Option RetainedResult)
    (h : DamagedUpload sent received bytes) :
    ((Reception.initial retained).takeAll bytes).stage = .failing .verifying ∧
      ((Reception.initial retained).takeAll bytes).outcome = mismatch received := by
  obtain ⟨hburst, hd, header, t, trailer, hh, hs, ht, hcrc, rfl⟩ := h
  have hne : trailer.crc32 ≠ crc32 0#32 received := by
    rw [hcrc]
    exact crc32_burst hburst
  rw [takeAll_upload retained hh hs ht, Reception.verify, if_pos hne]
  exact ⟨rfl, rfl⟩

/-- A damaged upload and an intact one never begin one stream. -/
theorem damaged_not_upload {stream u payload : Bytes} (h : DamagedUpload sent received bytes)
    (hb : bytes <+: stream) (hup : Reception.Upload u payload) (hu : u <+: stream) : False := by
  obtain ⟨hd, header, t, trailer, hh, hs, ht, hcrc, rfl⟩ := hup
  have hgood : ((Reception.initial none).takeAll (hd ++ payload ++ t)).stage = .analyzing := by
    rw [takeAll_upload none hh hs ht, Reception.verify, if_neg (by simp [hcrc])]
  have hbad := (takeAll_damaged none h).1
  rcases List.prefix_or_prefix_of_prefix hb hu with ⟨x, hx⟩ | ⟨x, hx⟩
  · rw [← hx, Reception.takeAll_append, Reception.takeAll_over _ _ (by rw [hbad]; trivial),
      hbad] at hgood
    cases hgood
  · by_cases hnil : x = []
    · rw [← hx, hnil, List.append_nil, hgood] at hbad
      cases hbad
    · rw [← hx, Reception.takeAll_append,
        Reception.takeAll_refused _ _ hnil (.inl hgood)] at hbad
      cases hbad

theorem damaged_not_surplus {n : ℕ} (h : DamagedUpload sent received bytes) :
    ¬ SlotSurplus n bytes := by
  rintro ⟨u, payload, x, rfl, hup, -⟩
  exact damaged_not_upload h (List.prefix_refl _) hup (List.prefix_append u x)

/-- A session in ANALYZING has a whole upload behind it. -/
theorem taped_analyzing {g : Tape} {s : Session} {rest : Bytes} (h : Session.Taped rest g s)
    (hs : s.state = .analyzing) : Session.Acked g := by
  rcases h with (hend | href | ⟨-, -, hpast⟩) | ⟨-, hhead⟩ | ⟨-, hpay, -⟩
  · have := hend.2.1
    rw [hs] at this
    cases this
  · rcases href.2.2.2.2.2 with hst | hst <;> rw [hs] at hst <;> cases hst
  · rcases hpast with ⟨-, hacked⟩ | hst | hst
    · exact hacked
    · rw [hs] at hst
      cases hst
    · rw [hs] at hst
      cases hst
  · have := hhead.1
    rw [hs] at this
    cases this
  · have := hpay.1
    rw [hs] at this
    cases this

end Uploads

variable [Doubles]

/-- A short burst changes the checksum. So `verifyAndAck` refuses the upload
whatever the surroundings are; every cut of it into reads ends in
Ack(CrcMismatch); and in no run of the server is a session that received it
acknowledged or in ANALYZING. -/
theorem short_burst_detected :
    (∀ a b : Bytes, Burst a b → crc32 0#32 a ≠ crc32 0#32 b) ∧
      (∀ (e : Env) (s : Session) (sent received : Bytes), Burst sent received →
        s.payloadCrc = crc32 0#32 received →
        decodeUploadTrailer s.framer.message = .ok { crc32 := crc32 0#32 sent } →
        RefusesMismatch e s) ∧
      (∀ (cfg : ServerConfig) (id now : ℕ) (retained : Option RetainedResult)
        (rs : List Segment) (sent received : Bytes),
        DamagedUpload sent received (Stream.content rs) →
        Stream.Cut cfg (Stream.opened cfg id now retained) rs →
        outcome (Stream.deliverAll cfg (Stream.opened cfg id now retained) rs) =
          mismatch received) ∧
      ∀ (cfg : ServerConfig) (c : TapeState), Reach (tapeMachine cfg) Always tapeInitial c →
        ∀ sent received bytes : Bytes, DamagedUpload sent received bytes →
          bytes <+: c.ghost.2.received →
          (∀ count rest, c.ghost.2.sent ≠
            encodeAck { status := .ok, receivedBytes := count } :: rest) ∧
          ∀ m s, c.thread = .done m → m.session = some s → s.state ≠ .analyzing := by
  refine ⟨fun a b h => crc32_burst h, fun e s sent received h hc ht =>
    verifyAndAck_burst e s h hc ht, ?_, ?_⟩
  · intro cfg id now retained rs sent received h hcut
    rw [deliverAll_outcome id now retained rs hcut (damaged_not_surplus h)]
    exact (takeAll_damaged retained h).2
  · intro cfg c hreach sent received bytes h hb
    have held := tape_reach hreach
    refine ⟨fun count rest hs => ?_, fun m s hm hses hst => ?_⟩
    · obtain ⟨u, payload, hu, hup, -⟩ := speaks_ackOk (hs ▸ held.2.2.speaks)
      exact damaged_not_upload h hb hup hu
    · have hidle : TapeIdle c.ghost.2 m := by
        have hk := held.1
        rw [hm] at hk
        exact hk.2
      obtain ⟨u, payload, hu, hup, -⟩ := taped_analyzing (hidle s hses) hst
      exact damaged_not_upload h hb hup hu

omit [Doubles] in
theorem one_byte_detected : crc32 0#32 [0x61#8] ≠ crc32 0#32 [0x62#8] := by
  let _ := wholeDoubles
  refine short_burst_detected.1 [0x61#8] [0x62#8] ⟨rfl, by decide, 0, fun i hi => ?_⟩
  cases i with
  | zero => omega
  | succ i => exact absurd rfl hi

end LogTransfer
