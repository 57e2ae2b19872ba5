import LogTransfer.SessionTape

/-!
# The callbacks keep the tape

Every stage of a session's callbacks, whatever the socket and the parser
answer, leaves `Taped` behind and says nothing that `Conversation` does not
have. The last bytes of a read are accounted for one stage at a time.
-/

set_option autoImplicit false

namespace LogTransfer
open Program

abbrev OnTape {α : Type} (p : P α) (g : Tape) (Q : Tape → α → Prop) : Prop :=
  Keeps Tape.next Tape.rules p g Q

namespace Session
open Tape (Same)

section Reader

variable {g : Tape} {s : Session}

theorem stored_same {g' : Tape} (h : Stored g s) (hs : Same g g') : Stored g' s := by
  obtain ⟨hr, hsl, -, -⟩ := hs
  unfold Stored Counted at h ⊢
  rw [hr, hsl]
  exact h

theorem stored_received (data : Bytes) (h : Stored g s) :
    Stored { g with received := g.received ++ data } s := by
  refine ⟨h.1, h.2.1, ?_⟩
  rcases h.2.2 with hn | ⟨hd, header, hh, hs, hp⟩
  · exact .inl hn
  · exact .inr ⟨hd, header, hh, hs, hp.trans (List.prefix_append _ _)⟩

theorem setReading_same {b : Bool} (h : s.socket.reading = b) : setReading s b = s := by
  rw [← h]
  rfl

theorem taped_startRead (Q : Tape → Session × Bool → Prop) (hc : s.socket.closing = false)
    (hr : s.socket.reading = false)
    (h : ∀ ok, Q (g.next .startRead ok) (setReading s ok, ok)) :
    OnTape (startRead s) g Q := by
  unfold startRead
  rw [if_neg (by simp [hc]), if_neg (by simp [hr])]
  exact ⟨trivial, fun ok _ => h ok⟩

theorem flowing_unblocked {b : Bool} (hroom : s.receivedBytes < s.fileSize → g.room = true)
    (hb : b = false → g.deaf = true) : Flowing g (setReading s b) := by
  refine ⟨fun _ => hroom, fun hr hd => ?_⟩
  have hb' : b = false := hr
  simp [hb hb'] at hd

/-- Past the ring check: the flag goes down and the reader starts. -/
theorem taped_restart (Q : Tape → Session → Prop) (hc : s.socket.closing = false)
    (hr : s.socket.reading = false)
    (hroom : s.state = .receiving → s.receivedBytes < s.fileSize → g.room = true)
    (h : ∀ g' b, Same g g' → (s.state = .receiving → Flowing g' (setReading s b)) →
      Q g' (setReading s b)) :
    OnTape (do act (.setReadStopped false); let started ← startRead s; pure started.1) g Q := by
  refine (keeps_ask_bind _ _ _ _ _ _).mpr ⟨trivial, fun _ _ => ?_⟩
  refine keeps_seq _ _ _ _ _ (Q := fun g' r => Q g' r.1)
    (taped_startRead _ hc hr fun ok => ?_) ?_
  swap
  · exact fun _ _ hq => hq
  refine h _ ok ⟨rfl, rfl, rfl, rfl⟩ fun hst => flowing_unblocked (hroom hst) fun hb => ?_
  simp [Tape.next, hb]

/-- `resumeReading`, whoever calls it. A session that takes payload is left
flowing; of the reader before, only the part a delivered wake-up does not
clear is needed. -/
theorem taped_resumeReading (Q : Tape → Session → Prop) (ho : s.cleanupStarted = false)
    (hc : s.socket.closing = false)
    (hpre : s.state = .receiving → s.socket.reading = true → Flowing g s)
    (hstop : s.state = .receiving → s.socket.reading = false → g.deaf = false →
      g.stopped = true)
    (h : ∀ g' b, Same g g' → (s.state = .receiving → Flowing g' (setReading s b)) →
      Q g' (setReading s b)) :
    OnTape (resumeReading s) g Q := by
  unfold resumeReading
  by_cases hr : s.socket.reading = true
  · rw [if_pos (by simp [hr])]
    have hs := setReading_same hr
    have := h g true (Tape.same_refl g) fun hst => by
      rw [hs]
      exact hpre hst hr
    rwa [hs] at this
  · have hr' : s.socket.reading = false := by simpa using hr
    rw [if_neg (by simp [ho, hr'])]
    have hsame := setReading_same hr'
    unfold ringBlocks
    by_cases hb : s.state = .receiving ∧ s.receivedBytes < s.fileSize
    · rw [if_pos hb]
      refine (keeps_ask_bind _ _ _ _ _ _).mpr ⟨trivial, fun full _ => ?_⟩
      cases full with
      | true =>
        have := h (g.next .ringFull true) false ⟨rfl, rfl, rfl, rfl⟩ fun hst => by
          refine ⟨(fun hn => by cases hn), fun _ hd => ?_⟩
          have hst' := hstop hst hr' hd
          exact ⟨hst', by simp [Tape.next, hst']⟩
        rw [hsame] at this
        exact this
      | false =>
        refine taped_restart Q hc hr' (fun _ _ => rfl) fun g' b hg' => ?_
        exact h g' b hg'
    · rw [if_neg hb]
      refine taped_restart Q hc hr' (fun hst hlt => absurd ⟨hst, hlt⟩ hb) fun g' b hg' => ?_
      exact h g' b hg'

theorem taped_applyBackpressure (Q : Tape → Session → Prop) (ho : s.cleanupStarted = false)
    (hc : s.socket.closing = false) (hr : s.socket.reading = true) (hst : s.state = .receiving)
    (h : ∀ g' b, Same g g' → Flowing g' (setReading s b) → Q g' (setReading s b)) :
    OnTape (applyBackpressure s) g Q := by
  have hsame := setReading_same hr
  refine (keeps_ask_bind _ _ _ _ _ _).mpr ⟨trivial, fun full _ => ?_⟩
  cases full with
  | false =>
    have := h (g.next .ringFull false) true ⟨rfl, rfl, rfl, rfl⟩
      (flowing_unblocked (fun _ => rfl) fun hb => by cases hb)
    rw [hsame] at this
    rw [if_neg (by simp)]
    exact this
  | true =>
    rw [if_pos (by simp [hr])]
    refine (keeps_ask_bind _ _ _ _ _ _).mpr ⟨trivial, fun _ _ => ?_⟩
    refine (keeps_ask_bind _ _ _ _ _ _).mpr ⟨trivial, fun again _ => ?_⟩
    cases again with
    | true =>
      refine h _ false ⟨rfl, rfl, rfl, rfl⟩ ⟨(fun hn => by cases hn), fun _ _ => ⟨rfl, ?_⟩⟩
      simp [Tape.next]
    | false =>
      refine taped_resumeReading Q ho hc (fun _ hn => by cases hn) (fun _ _ _ => rfl) ?_
      exact fun g' b hg' hf => h g' b hg' (hf hst)

theorem taped_transition (e : Env) (st : SessionState) (Q : Tape → Session → Prop)
    (hne : s.state ≠ st) (hst : st ≠ .receiving ∧ st ≠ .cleanup) (ho : s.cleanupStarted = false)
    (hc : s.socket.closing = false)
    (h : ∀ g' t b, Same g g' → Q g' (setReading { s with state := st, timer := t } b)) :
    OnTape (transition e s st) g Q := by
  unfold transition
  rw [if_neg hne]
  dsimp only
  rw [if_pos hst]
  obtain ⟨t, ht⟩ := armTimer_eq (e := e) { s with state := st }
  rw [ht]
  refine taped_resumeReading Q ho hc (fun hn => absurd hn hst.1) (fun hn => absurd hn hst.1) ?_
  exact fun g' b hg' _ => h g' t b hg'

theorem taped_send (bytes : Bytes) (Q : Tape → Session × Bool → Prop)
    (hc : s.socket.closing = false)
    (hm : g.closed = false ∧ ¬ g.Refused ∧ Speaks g.received (g.sent ++ [bytes]))
    (hyes : Q { g with sent := g.sent ++ [bytes] } (queued s, true)) (hno : Q g (s, false)) :
    OnTape (send s bytes) g Q := by
  unfold send
  rw [if_neg (by simp [hc])]
  refine ⟨hm, fun ok _ => ?_⟩
  cases ok with
  | true => exact hyes
  | false => exact hno

theorem taped_cleanup (reason : String) (ho : s.cleanupStarted = false) :
    OnTape (cleanup s reason) g Past := by
  unfold cleanup
  rw [if_neg (by simp [ho])]
  exact ⟨trivial, fun _ _ => .inl ⟨rfl, rfl, rfl, rfl⟩⟩

end Reader

section Refusals

variable {g : Tape} {s : Session}

theorem speaks_refusal (received : Bytes) (status : AckStatus) (count : ℕ) (h : status ≠ .ok) :
    Speaks received [encodeAck { status := status, receivedBytes := count }] :=
  ⟨_, .refused status count h, List.prefix_rfl⟩

theorem not_refused_nil (h : g.sent = []) : ¬ g.Refused := by
  rintro ⟨status, count, -, hs⟩
  simp [h] at hs

/-- Only a session that has said nothing refuses. -/
theorem taped_failWithAck (status : AckStatus) (reason : String)
    (hst : status ≠ .ok) (ha : Active g s) (hn : g.sent = []) (hs : Stored g s)
    (hstate : s.state = .waitHeader ∨ s.state = .verifying) :
    OnTape (failWithAck s status reason) g Past := by
  obtain ⟨ho, hc, hf, hov⟩ := ha
  refine keeps_seq _ _ _ _ _
    (Q := fun g' r => Same { g with sent := g'.sent } g' ∧ (r = (queued s, true) ∨ r = (s, false)))
    ?_ ?_
  · refine taped_send _ _ hc ⟨hov, not_refused_nil hn, ?_⟩ ⟨?_, .inl rfl⟩ ⟨?_, .inr rfl⟩
    · rw [hn]
      exact speaks_refusal _ _ _ hst
    · exact ⟨rfl, rfl, rfl, rfl⟩
    · exact ⟨rfl, rfl, rfl, rfl⟩
  · rintro g' r ⟨⟨hr', hsl', -, hov'⟩, rfl | rfl⟩
    · refine .inr (.inl ⟨ho, hc, rfl, hov'.trans hov, ?_, hstate⟩)
      unfold Stored Counted at hs ⊢
      rw [hr', hsl']
      exact hs
    · exact taped_cleanup reason ho

end Refusals

section Results

variable {e : Env} {g : Tape} {s : Session}

theorem not_refused_header (csv : Bytes) (h : g.sent = [] ∨ Acked g) :
    ¬ Tape.Refused { g with sent := g.sent ++ [wholeHeader csv] } := by
  rintro ⟨status, count, hst, hs⟩
  rcases h with hn | ⟨u, payload, -, -, hn⟩
  · simp only [hn, List.nil_append, List.cons.injEq, and_true] at hs
    exact ack_ne_result _ _ [] (by simpa [wholeHeader] using hs.symm)
  · simp [hn] at hs

theorem not_refused_acked (h : Acked g) : ¬ g.Refused := by
  rintro ⟨status, count, hst, hs⟩
  obtain ⟨u, payload, -, -, hn⟩ := h
  simp only [hn, List.cons.injEq, and_true] at hs
  exact hst (status_of_encodeAck hs).symm

/-- Both ways of sending a result: the header, then the body unless it is left
out. `hsay` is what the conversation so far allows. -/
theorem taped_sendResult (crc : Crc) (body : Bytes) (skipEmpty : Bool)
    (ha : Active g s) (hs : Stored g s) (hne : s.state ≠ .sendingResult)
    (hcrc : crc = crc32 0#32 s.csv) (hsent : g.sent = [] ∨ Acked g)
    (hhead : Speaks g.received (g.sent ++ [wholeHeader s.csv]))
    (hsay : ¬ (skipEmpty && body.isEmpty) = true →
      Speaks g.received (g.sent ++ [wholeHeader s.csv] ++ [body])) :
    OnTape (sendResult e s crc body skipEmpty) g Past := by
  obtain ⟨ho, hc, hf, hov⟩ := ha
  have hhdr : encodeResultHeader { csvSize := s.csv.length, crc32 := crc } = wholeHeader s.csv := by
    rw [hcrc]
    rfl
  have hnot : ¬ g.Refused := by
    rcases hsent with hn | hn
    · exact not_refused_nil hn
    · exact not_refused_acked hn
  have hnot' := not_refused_header s.csv hsent
  let Ready : Tape → Session → Prop := fun g' s' =>
    s'.cleanupStarted = false ∧ s'.socket.closing = false ∧ s'.closeAfterSend = false ∧
      s'.state = .sendingResult ∧ s'.receivedBytes = s.receivedBytes ∧
      s'.payloadCrc = s.payloadCrc ∧ s'.fileSize = s.fileSize ∧ g'.received = g.received ∧
      g'.slots = g.slots ∧ g'.closed = false
  have hdone : ∀ g' s', Ready g' s' → Past g' s' := by
    rintro g' s' ⟨h1, h2, h3, h4, h5, h6, h7, h8, h9, h10⟩
    refine .inr (.inr ⟨⟨h1, h2, h3, h10⟩, ?_, .inr (.inl h4)⟩)
    unfold Stored Counted at hs ⊢
    rw [h5, h6, h7, h8, h9]
    exact hs
  refine keeps_seq _ _ _ _ _ (Q := fun g' s' => Ready g' s' ∧ g'.sent = g.sent) ?_ ?_
  · refine taped_transition e _ _ hne ⟨by simp, by simp⟩ ho hc fun g' t b hg' => ?_
    exact ⟨⟨ho, hc, hf, rfl, rfl, rfl, rfl, hg'.1, hg'.2.1, hg'.2.2.2.trans hov⟩, hg'.2.2.1⟩
  rintro g₁ s₁ ⟨h₁, hs₁⟩
  rw [hhdr]
  refine keeps_seq _ _ _ _ _ (Q := fun g' r => Ready g' r.1 ∧
    (r.2 = true → g'.sent = g.sent ++ [wholeHeader s.csv])) ?_ ?_
  · have hmay : ¬ g₁.Refused := by
      unfold Tape.Refused
      rw [hs₁]
      exact hnot
    refine taped_send _ _ h₁.2.1 ⟨h₁.2.2.2.2.2.2.2.2.2, hmay, ?_⟩ ⟨h₁, fun _ => ?_⟩
      ⟨h₁, fun hn => by cases hn⟩
    · rw [hs₁, h₁.2.2.2.2.2.2.2.1]
      exact hhead
    · simp [hs₁]
  rintro g₂ ⟨s₂, ok⟩ ⟨h₂, hs₂⟩
  cases ok with
  | false => exact taped_cleanup _ h₂.1
  | true =>
    change OnTape (sendResultBody s₂ body skipEmpty) g₂ _
    have hs₂ := hs₂ rfl
    unfold sendResultBody
    split
    · exact hdone _ _ h₂
    · rename_i hbody
      refine keeps_seq _ _ _ _ _ (Q := fun g' r => Ready g' r.1) ?_ ?_
      · have hmay : ¬ g₂.Refused := by
          unfold Tape.Refused at hnot' ⊢
          rw [hs₂]
          exact hnot'
        refine taped_send _ _ h₂.2.1 ⟨h₂.2.2.2.2.2.2.2.2.2, hmay, ?_⟩ h₂ h₂
        rw [hs₂, h₂.2.2.2.2.2.2.2.1]
        exact hsay hbody
      · rintro g₃ ⟨s₃, ok⟩ h₃
        cases ok with
        | false => exact taped_cleanup _ h₃.1
        | true => exact hdone _ _ h₃

theorem speaks_resumed (received csv : Bytes) (offset : ℕ) (ho : offset ≤ csv.length) :
    Speaks received [wholeHeader csv] ∧
      (¬ (true && (csv.drop offset).isEmpty) = true →
        Speaks received [wholeHeader csv, csv.drop offset]) := by
  have hfull : Conversation received _ := .resumed csv offset ho
  refine ⟨⟨_, hfull, by simp⟩, fun hne => ⟨_, hfull, ?_⟩⟩
  have hlt : offset ≠ csv.length := by
    intro heq
    simp [heq] at hne
  simp [hlt]

end Results

section Header

variable {e : Env} {g : Tape} {s : Session} {rest : Bytes}

/-- What the framer hands on when it took `data` and had taken the bytes of a
message before. -/
theorem feed_spec (f : Framer) (data : Bytes) (hf : f.Open) :
    (f.feed data).1.Settled ∧ (f.feed data).1.buffer = f.buffer ++ data.take (f.feed data).2 ∧
      ((f.feed data).1.status = .needMoreData → (f.feed data).2 = data.length) ∧
      ((f.feed data).1.status = .ok → expectedMessageSize (f.feed data).1.buffer =
        .ok (f.feed data).1.buffer.length) ∧ (data ≠ [] → 0 < (f.feed data).2) := by
  have hs : f.Settled := .inr hf
  rw [Framer.feed_eq_absorb f data hs]
  exact ⟨Framer.settled_absorb f data hs, Framer.absorb_buffer f data,
    (Framer.absorb_consumed f data).2, Framer.absorb_ok f data hf.1,
    Framer.absorb_pos f data hf.1⟩

theorem settled_open {f : Framer} (h : f.Settled) (hs : f.status = .needMoreData) : f.Open :=
  h.resolve_left fun hn => hn hs

/-- The first message is framed; `rest` follows it in the read. -/
def HeaderRead (g : Tape) (s : Session) (rest : Bytes) : Prop :=
  Active g s ∧ s.state = .waitHeader ∧ g.sent = [] ∧ g.slots = [] ∧ Counted g s ∧
    s.fileSize = 0 ∧ g.received = s.framer.buffer ++ rest ∧ g.room = true ∧
    s.socket.reading = true

theorem stored_headerRead (h : HeaderRead g s rest) : Stored g s := by
  obtain ⟨-, -, -, hsl, hc, -⟩ := h
  exact ⟨hc, by rw [hc.1, hsl]; simp, .inl hsl⟩

theorem headerRead_fail (status : AckStatus) (reason : String) (hst : status ≠ .ok)
    (h : HeaderRead g s rest) : OnTape (failWithAck s status reason) g Past :=
  taped_failWithAck status reason hst h.1 h.2.2.1 (stored_headerRead h) (.inl h.2.1)

theorem headerRead_cleanup (reason : String) (h : HeaderRead g s rest) :
    OnTape (cleanup s reason) g Past :=
  taped_cleanup reason h.1.1

theorem taped_handleResultRequest (h : HeaderRead g s rest) :
    OnTape (handleResultRequest e s) g Past := by
  unfold handleResultRequest
  split
  · exact headerRead_fail _ _ (by simp) h
  · exact headerRead_cleanup _ h
  · rename_i request _
    refine (keeps_ask_bind _ _ _ _ _ _).mpr ⟨trivial, fun kept hk => ?_⟩
    cases kept with
    | none => exact headerRead_fail _ _ (by simp) h
    | some kept =>
      change OnTape _ g _
      dsimp only
      split
      · exact headerRead_fail _ _ (by simp) h
      · rename_i hoff
        have hcrc : kept.csvCrc32 = crc32 0#32 kept.csv := hk kept rfl
        have hsay := speaks_resumed g.received kept.csv request.startOffset (by omega)
        refine taped_sendResult _ _ _ h.1 (stored_headerRead h) (by simp [h.2.1]) hcrc
          (.inl h.2.2.1) ?_ ?_
        · rw [h.2.2.1]
          exact hsay.1
        · rw [h.2.2.1]
          exact hsay.2

/-- Payload that is left in the read has a slot to go to. -/
def Fits (rest : Bytes) (g : Tape) (s : Session) : Prop :=
  s.state = .receiving → s.receivedBytes < s.fileSize →
    rest = [] ∨ g.room = true ∧ s.socket.reading = true

/-- After a pass over `data` of which `n` bytes were taken. -/
def Passed (data : Bytes) (g : Tape) (r : Session × ℕ) : Prop :=
  Past g r.1 ∨ 0 < r.2 ∧ Taped (data.drop r.2) g r.1 ∧ Fits (data.drop r.2) g r.1

theorem ontape_past {n : ℕ} {p : P Session} (data : Bytes) (h : OnTape p g Past) :
    OnTape (p >>= fun s => pure (s, n)) g (Passed data) :=
  keeps_seq _ _ _ _ _ h fun _ _ hq => .inl hq

/-- The header opens the payload, of which nothing has come to the session yet. -/
theorem taped_acceptHeader (data : Bytes) (n : ℕ) (hn : 0 < n)
    (h : HeaderRead g s (data.drop n))
    (hsize : expectedMessageSize s.framer.buffer = .ok s.framer.buffer.length) :
    OnTape (acceptHeader e s n) g (Passed data) := by
  unfold acceptHeader
  split
  · exact ontape_past data (headerRead_fail _ _ (by simp) h)
  · exact ontape_past data (headerRead_cleanup _ h)
  · rename_i header hd
    obtain ⟨hact, hst, hsent, hsl, hc, -, hrec, hroom, hread⟩ := h
    have hlen := (decodeUploadHeader_ok _ _ hd).1
    rw [show s.framer.message = s.framer.buffer from rfl, hsize] at hlen
    have hof : Reception.HeaderOf s.framer.buffer header := ⟨hd, by injection hlen⟩
    have hz : s.receivedBytes = 0 := by rw [hc.1, hsl]; rfl
    dsimp only
    unfold transition
    rw [if_neg (by simp [hst])]
    dsimp only
    rw [if_neg (by simp)]
    obtain ⟨t, ht⟩ := armTimer_eq (e := e)
      { s with fileSize := header.fileSize, filename := header.filename,
               framer := Framer.reset .uploadTrailer .uploadTrailer, state := .receiving }
    rw [ht]
    refine .inr ⟨hn, .inr (.inr ⟨hact, ⟨rfl, hsent, hc, ?_, ?_, ⟨rfl, rfl⟩, ?_, fun _ => rfl⟩,
      fun _ _ => hroom, fun hr => ?_⟩), fun _ _ => .inr ⟨hroom, hread⟩⟩
    · exact hz ▸ Nat.zero_le _
    · exact ⟨rfl, 8, rfl⟩
    · exact ⟨s.framer.buffer, header, hof, rfl, by simp [hsl, hrec, Framer.reset]⟩
    · have hr' : s.socket.reading = false := hr
      simp [hread] at hr'

theorem taped_consumeHeader (data : Bytes) (hne : data ≠ []) (ha : Active g s)
    (h : AtHeader g s data) : OnTape (consumeHeader e s data) g (Passed data) := by
  obtain ⟨hst, hsent, hsl, hc, hz, hf, hrec, hroom, hread⟩ := h
  obtain ⟨hset, hbuf, hmore, hok, hpos⟩ := feed_spec s.framer data hf
  have hpos := hpos hne
  have hr : HeaderRead g { s with framer := (s.framer.feed data).1 }
      (data.drop (s.framer.feed data).2) := by
    refine ⟨ha, hst, hsent, hsl, hc, hz, ?_, hroom, hread⟩
    rw [hrec, hbuf, List.append_assoc, List.take_append_drop]
  unfold consumeHeader headerFramed
  dsimp only
  split
  · rename_i hs
    refine .inr ⟨hpos, .inr (.inl ⟨ha, hst, hsent, hsl, hc, hz, settled_open hset hs, ?_, hroom,
      hread⟩), fun hn => ?_⟩
    · exact hr.2.2.2.2.2.2.1
    · exact absurd (hst.symm.trans hn) (by simp)
  · rename_i hs
    split
    · exact ontape_past data (taped_handleResultRequest hr)
    · exact taped_acceptHeader data _ hpos hr (hok hs)
  all_goals first
    | exact ontape_past data (headerRead_cleanup _ hr)
    | exact ontape_past data (headerRead_fail _ _ (by simp) hr)

end Header

section Payload

variable {e : Env} {g : Tape} {s : Session} {rest : Bytes}

/-- Payload that fits one slot goes to one slot. -/
theorem taped_copySlots (fuel : ℕ) (hne : rest ≠ []) (hfit : rest.length ≤ e.chunkSize)
    (hroom : g.room = true) :
    OnTape (copySlots e s (fuel + 2) rest) g (fun g' r => r = (s, true) ∧
      g' = { g with slots := g.slots ++ [rest], room := false }) := by
  unfold copySlots
  rw [if_neg (by simpa using hne)]
  refine (keeps_ask_bind _ _ _ _ _ _).mpr ⟨hroom, fun acquired hacq => ?_⟩
  rw [show acquired = true from hacq]
  refine (keeps_ask_bind _ _ _ _ _ _).mpr ⟨rfl, fun _ _ => ?_⟩
  unfold copySlots
  rw [if_pos (by simp [hfit])]
  exact ⟨rfl, by simp [Tape.next, List.take_of_length_le hfit]⟩

/-- Counting and committing the same bytes. -/
theorem atPayload_count (data : Bytes) (n : ℕ) (h : AtPayload g s data)
    (hlt : s.receivedBytes < s.fileSize) (hn : n = min (s.fileSize - s.receivedBytes) data.length) :
    AtPayload { g with slots := g.slots ++ [data.take n], room := false }
      (countPayload s (data.take n)) (data.drop n) := by
  obtain ⟨hst, hsent, ⟨hcount, hcrc⟩, hle, hf, htf, ⟨hd, header, hh, hs, hrec⟩, hbuf⟩ := h
  have hb := hbuf hlt
  refine ⟨hst, hsent, ⟨?_, ?_⟩, ?_, hf, htf, ⟨hd, header, hh, hs, ?_⟩, fun _ => hb⟩
  · simp [countPayload, hcount]
  · simp [countPayload, hcrc, crc32_append]
  · simp only [countPayload, List.length_take]
    omega
  · simp [countPayload, hrec, hb]

theorem taped_consumePayload (data : Bytes) (hne : data ≠ []) (hfit : data.length ≤ e.chunkSize)
    (ha : Active g s) (h : AtPayload g s data) (hlt : s.receivedBytes < s.fileSize)
    (hroom : g.room = true) (hread : s.socket.reading = true) :
    OnTape (consumePayload e s data) g (Passed data) := by
  unfold consumePayload
  dsimp only
  generalize hn : min (s.fileSize - s.receivedBytes) data.length = n
  have hpos : 0 < data.length := List.length_pos_iff.mpr hne
  have hlen : (data.take n).length = n := by
    rw [List.length_take]
    omega
  have hne' : data.take n ≠ [] := by
    rw [← List.length_pos_iff, hlen]
    omega
  obtain ⟨m, rfl⟩ : ∃ m, n = m + 1 := ⟨n - 1, by omega⟩
  refine keeps_seq _ _ _ _ _ (taped_copySlots m hne' (by omega) hroom) ?_
  rintro _ _ ⟨rfl, rfl⟩
  have hcount := atPayload_count data (m + 1) h hlt hn.symm
  refine keeps_seq _ _ _ _ _ (taped_applyBackpressure (fun g' s' =>
    Active g' s' ∧ AtPayload g' s' (data.drop (m + 1)) ∧ Flowing g' s' ∧
      s'.receivedBytes = s.receivedBytes + (m + 1) ∧ s'.fileSize = s.fileSize)
    ha.1 ha.2.1 hread h.1 ?_) ?_
  · rintro g' b ⟨hr, hsl, hse, hov⟩ hflow
    refine ⟨⟨ha.1, ha.2.1, ha.2.2.1, hov.trans ha.2.2.2⟩, ?_, hflow, ?_, rfl⟩
    · unfold AtPayload Counted Behind at hcount ⊢
      rw [hr, hsl, hse]
      exact hcount
    · simp only [countPayload, setReading, hlen]
  · rintro g' s' ⟨ha', hp', hf', hrb, hfs⟩
    refine .inr ⟨Nat.succ_pos m, .inr (.inr ⟨ha', hp', hf'⟩), fun _ hlt' => .inl ?_⟩
    have hlt₁ : s'.receivedBytes < s'.fileSize := hlt'
    simp only [List.drop_eq_nil_iff]
    omega

theorem stored_payload (h : AtPayload g s rest) : Stored g s := by
  obtain ⟨-, -, hc, hle, -, -, ⟨hd, header, hh, hs, hrec⟩, -⟩ := h
  refine ⟨hc, hle, .inr ⟨hd, header, hh, hs, ?_⟩⟩
  rw [hrec, List.append_assoc]
  exact List.prefix_append _ _

end Payload

section Trailer

variable {e : Env} {g : Tape} {s : Session} {rest : Bytes}

/-- All payload is in and a whole trailer is framed. -/
def TrailerRead (g : Tape) (s : Session) (rest : Bytes) : Prop :=
  Active g s ∧ s.state = .receiving ∧ g.sent = [] ∧ Stored g s ∧ s.receivedBytes = s.fileSize ∧
    Behind g s rest ∧ expectedMessageSize s.framer.buffer = .ok s.framer.buffer.length

theorem upload_trailerRead {g : Tape} {trailer : UploadTrailer} (hb : Behind g s rest)
    (hc : Counted g s) (hfull : s.receivedBytes = s.fileSize)
    (hsize : expectedMessageSize s.framer.buffer = .ok s.framer.buffer.length)
    (hd : decodeUploadTrailer s.framer.message = .ok trailer)
    (hcrc : trailer.crc32 = s.payloadCrc) :
    ∃ u, u <+: g.received ∧ Reception.Upload u g.slots.flatten := by
  obtain ⟨h, header, hh, hs, hrec⟩ := hb
  have hlen := (decodeUploadTrailer_ok _ _ hd).1
  rw [show s.framer.message = s.framer.buffer from rfl, hsize] at hlen
  refine ⟨h ++ g.slots.flatten ++ s.framer.buffer, ?_, h, header, s.framer.buffer, trailer, hh,
    ?_, ⟨hd, by injection hlen⟩, hcrc.trans hc.2, rfl⟩
  · rw [hrec]
    exact List.prefix_append _ _
  · rw [hs, ← hfull, hc.1]

theorem speaks_ack {u payload : Bytes} {received : Bytes} (hu : u <+: received)
    (h : Reception.Upload u payload) :
    Speaks received [encodeAck { status := .ok, receivedBytes := payload.length }] :=
  ⟨_, .uploaded u payload [] hu h, by simp⟩

theorem taped_analyze (ha : Active g s) (hst : s.state = .verifying) (hs : Stored g s)
    (hack : Acked g) : OnTape (analyzeAndSendResult e s) g Past := by
  obtain ⟨ho, hc, hf, hov⟩ := ha
  refine keeps_seq _ _ _ _ _ (Q := fun g' s' => Active g' s' ∧ Stored g' s' ∧
    s'.state = .analyzing ∧ Acked g') ?_ ?_
  · refine taped_transition e _ _ (by simp [hst]) ⟨by simp, by simp⟩ ho hc fun g' t b hg' => ?_
    refine ⟨⟨ho, hc, hf, hg'.2.2.2.trans hov⟩, stored_same hs hg', rfl, ?_⟩
    unfold Acked
    rw [hg'.1, hg'.2.2.1]
    exact hack
  · rintro g' s' ⟨ha', hs', hst', hack'⟩
    exact ⟨trivial, fun _ _ => .inr (.inr ⟨ha', hs', .inl ⟨hst', hack'⟩⟩)⟩

theorem taped_verifyAndAck (h : TrailerRead g s rest) : OnTape (verifyAndAck e s) g Past := by
  obtain ⟨⟨ho, hc, hf, hov⟩, hst, hsent, hstored, hfull, hbeh, hsize⟩ := h
  let Verifying : Tape → Session → Prop := fun g' s' =>
    s'.cleanupStarted = false ∧ s'.socket.closing = false ∧ s'.closeAfterSend = false ∧
      s'.state = .verifying ∧ s'.framer = s.framer ∧ s'.receivedBytes = s.receivedBytes ∧
      s'.payloadCrc = s.payloadCrc ∧ s'.fileSize = s.fileSize ∧ Same g g'
  refine keeps_seq _ _ _ _ _ (Q := Verifying) ?_ ?_
  · refine taped_transition e _ _ (by simp [hst]) ⟨by simp, by simp⟩ ho hc fun g' t b hg' => ?_
    exact ⟨ho, hc, hf, rfl, rfl, rfl, rfl, rfl, hg'⟩
  rintro g₁ s₁ ⟨ho₁, hc₁, hf₁, hst₁, hfr₁, hrb₁, hcrc₁, hfs₁, hg₁⟩
  have hact₁ : Active g₁ s₁ := ⟨ho₁, hc₁, hf₁, hg₁.2.2.2.trans hov⟩
  have hsent₁ : g₁.sent = [] := hg₁.2.2.1.trans hsent
  have hstored₁ : Stored g₁ s₁ := by
    have := stored_same hstored hg₁
    unfold Stored Counted at this ⊢
    rw [hrb₁, hcrc₁, hfs₁]
    exact this
  split
  · exact taped_cleanup _ ho₁
  · rename_i trailer htr
    split
    · exact taped_failWithAck _ _ (by simp) hact₁ hsent₁ hstored₁ (.inr hst₁)
    · rename_i hcrc
      obtain ⟨u, hu, hup⟩ := upload_trailerRead hbeh hstored.1 hfull hsize (hfr₁ ▸ htr)
        (by rw [← hcrc₁]; simpa using hcrc)
      have hcount : s₁.receivedBytes = g.slots.flatten.length := hrb₁.trans hstored.1.1
      rw [← hg₁.1] at hu
      refine keeps_seq _ _ _ _ _ (Q := fun g' r => Active g' r.1 ∧ r.1.state = .verifying ∧
        Stored g' r.1 ∧ (r.2 = true → Acked g')) ?_ ?_
      · refine taped_send _ _ hc₁ ⟨hact₁.2.2.2, not_refused_nil hsent₁, ?_⟩ ?_
          ⟨hact₁, hst₁, hstored₁, fun hn => by cases hn⟩
        · rw [hsent₁, hcount]
          exact speaks_ack hu hup
        · refine ⟨hact₁, hst₁, hstored₁, fun _ => ⟨u, g.slots.flatten, hu, hup, ?_⟩⟩
          simp [hsent₁, hcount]
      · rintro g₂ ⟨s₂, ok⟩ ⟨hact₂, hst₂, hstored₂, hack₂⟩
        cases ok with
        | false => exact taped_cleanup _ hact₂.1
        | true => exact taped_analyze hact₂ hst₂ hstored₂ (hack₂ rfl)

theorem trailer_not_badValue (f : Framer) (data : Bytes) (hf : f.Open) (ht : TrailerFramer f) :
    (f.feed data).1.status ≠ .badValue := by
  rw [Framer.feed_eq_absorb f data (.inr hf)]
  exact Framer.absorb_not_badValue f data hf ht.1 ht.2 (n := kUploadTrailerSize) (fun _ => rfl)
    (by decide)

/-- A trailer that is not whole yet has taken every byte there was. -/
theorem taped_consumeTrailer (data : Bytes) (ha : Active g s) (h : AtPayload g s data)
    (hflow : Flowing g s) (hfull : ¬ s.receivedBytes < s.fileSize) :
    OnTape (consumeTrailer e s data) g (fun g' r => Past g' r.1 ∨
      r.2 = data.length ∧ Taped [] g' r.1 ∧ ¬ r.1.receivedBytes < r.1.fileSize) := by
  have hstored := stored_payload h
  obtain ⟨hst, hsent, hcnt, hle, hf, htf, ⟨hd, header, hh, hs, hrec⟩, hbuf⟩ := h
  obtain ⟨hset, hb, hmore, hok, -⟩ := feed_spec s.framer data hf
  have hbeh : Behind g { s with framer := (s.framer.feed data).1 }
      (data.drop (s.framer.feed data).2) := by
    refine ⟨hd, header, hh, hs, ?_⟩
    simp only [hrec, hb, List.append_assoc, List.take_append_drop]
  have htypes : TrailerFramer (s.framer.feed data).1 := by
    rw [Framer.feed_eq_absorb s.framer data (.inr hf)]
    obtain ⟨h1, h2⟩ := Framer.absorb_types s.framer data
    exact ⟨h1.trans htf.1, h2.trans htf.2⟩
  unfold consumeTrailer trailerFramed
  dsimp only
  split
  · rename_i hs'
    have hall := hmore hs'
    rw [hall, List.drop_length] at hbeh
    exact .inr ⟨hall, .inr (.inr ⟨ha, ⟨hst, hsent, hcnt, hle, settled_open hset hs', htypes, hbeh,
      fun hn => absurd hn hfull⟩, hflow⟩), hfull⟩
  · rename_i hs'
    have hread : TrailerRead g { s with framer := (s.framer.feed data).1 }
        (data.drop (s.framer.feed data).2) :=
      ⟨ha, hst, hsent, hstored, Nat.le_antisymm hle (Nat.not_lt.mp hfull), hbeh, hok hs'⟩
    refine keeps_seq _ _ _ _ _ (taped_verifyAndAck hread) ?_
    exact fun _ _ hq => .inl hq
  · rename_i hs'
    exact absurd hs' (trailer_not_badValue s.framer data hf htf)
  · refine keeps_seq _ _ _ _ _ (taped_cleanup _ ha.1) ?_
    exact fun _ _ hq => .inl hq

end Trailer

section Callbacks

variable {e : Env} {g : Tape} {s : Session}

theorem past_state (h : Past g s) : s.state ≠ .receiving := by
  rcases h with h | h | ⟨-, -, h | h | h⟩
  · simp [h.2.1]
  · rcases h.2.2.2.2.2 with h | h <;> simp [h]
  · simp [h.1]
  · simp [h]
  · simp [h]

theorem taped_consumeDone (data : Bytes) (ha : Active g s) (hst : s.state = .waitDone)
    (hs : Stored g s) : OnTape (consumeDone s data) g (Passed data) := by
  unfold consumeDone
  dsimp only
  split
  · exact .inl (.inr (.inr ⟨ha, hs, .inr (.inr hst)⟩))
  · exact ontape_past data (taped_cleanup _ ha.1)
  · exact ontape_past data (taped_cleanup _ ha.1)

theorem taped_consumeStage (data : Bytes) (hne : data ≠ []) (hfit : data.length ≤ e.chunkSize)
    (h : Taped data g s) (hfits : Fits data g s) (ho : s.cleanupStarted = false)
    (hf : s.closeAfterSend = false) : OnTape (consumeStage e s data) g (Passed data) := by
  unfold consumeStage
  rcases h with (hend | href | ⟨ha, hs, hst⟩) | ⟨ha, hp⟩ | ⟨ha, hp, hflow⟩
  · simp [hend.1] at ho
  · simp [href.2.2.1] at hf
  · rcases hst with ⟨hst, -⟩ | hst | hst <;> simp only [hst]
    · exact ontape_past data (taped_cleanup _ ha.1)
    · exact ontape_past data (taped_cleanup _ ha.1)
    · exact taped_consumeDone data ha hst hs
  · simp only [hp.1]
    exact taped_consumeHeader data hne ha hp
  · simp only [hp.1]
    split
    · rename_i hlt
      obtain ⟨hroom, hread⟩ := (hfits hp.1 hlt).resolve_left hne
      exact taped_consumePayload data hne hfit ha hp hlt hroom hread
    · rename_i hfull
      refine keeps_mono _ _ _ _ ?_ (taped_consumeTrailer data ha hp hflow hfull)
      rintro g' ⟨s', n⟩ (hpast | ⟨hn, ht, hfull'⟩)
      · exact .inl hpast
      · rw [show n = data.length from hn]
        refine .inr ⟨List.length_pos_iff.mpr hne, ?_, fun _ hlt => absurd hlt hfull'⟩
        rw [List.drop_length]
        exact ht

theorem taped_readLoop (fuel : ℕ) (data : Bytes) (hfuel : data.length < fuel)
    (hfit : data.length ≤ e.chunkSize) (h : Taped data g s) (hfits : Fits data g s) :
    OnTape (readLoop e fuel s data) g (Taped []) := by
  have hstart : data.length ≤ e.chunkSize ∧ Taped data g s ∧ Fits data g s := ⟨hfit, h, hfits⟩
  refine keeps_readLoop
    (I := fun data g s => data.length ≤ e.chunkSize ∧ Taped data g s ∧ Fits data g s) ?_ ?_
    fuel data (.inl hfuel) hstart
  · rintro data g s ⟨-, h, -⟩ (hn | hc | hf)
    · rw [hn] at h
      exact h
    · rcases h with hp | ⟨ha, -⟩ | ⟨ha, -⟩
      · exact .inl hp
      · simp [ha.1] at hc
      · simp [ha.1] at hc
    · rcases h with hp | ⟨ha, -⟩ | ⟨ha, -⟩
      · exact .inl hp
      · simp [ha.2.2.1] at hf
      · simp [ha.2.2.1] at hf
  · rintro data g s ⟨hfit, h, hfits⟩ hne hc hf
    refine keeps_mono _ _ _ _ ?_ (taped_consumeStage data hne hfit h hfits hc hf)
    rintro g' ⟨s', n⟩ hpass
    have hfit' : (data.drop n).length ≤ e.chunkSize := by
      rw [List.length_drop]
      omega
    rcases hpass with hp | ⟨hpos, ht, hfits'⟩
    · exact ⟨fun _ => .inl hp, fun _ => ⟨hfit', .inl hp, fun hst => absurd hst (past_state hp)⟩⟩
    · exact ⟨fun hz => absurd hz (Nat.ne_of_gt hpos), fun _ => ⟨hfit', ht, hfits'⟩⟩

theorem acked_received (data : Bytes) (h : Acked g) :
    Acked { g with received := g.received ++ data } := by
  obtain ⟨u, payload, hu, hup, hs⟩ := h
  exact ⟨u, payload, hu.trans (List.prefix_append _ _), hup, hs⟩

theorem taped_received (data : Bytes) (h : Taped [] g s) :
    Taped data { g with received := g.received ++ data } s := by
  rcases h with (h | h | ⟨ha, hs, hst⟩) | ⟨ha, hp⟩ | ⟨ha, hp, hflow⟩
  · exact .inl (.inl h)
  · obtain ⟨h1, h2, h3, h4, h5, h6⟩ := h
    exact .inl (.inr (.inl ⟨h1, h2, h3, h4, stored_received data h5, h6⟩))
  · refine .inl (.inr (.inr ⟨ha, stored_received data hs, ?_⟩))
    exact hst.imp_left fun h => ⟨h.1, acked_received data h.2⟩
  · obtain ⟨h1, h2, h3, h4, h5, h6, h7, h8⟩ := hp
    refine .inr (.inl ⟨ha, h1, h2, h3, h4, h5, h6, ?_, h8⟩)
    simp [h7]
  · obtain ⟨h1, h2, h3, h4, h5, h6, ⟨hd, header, hh, hs, hrec⟩, h8⟩ := hp
    refine .inr (.inr ⟨ha, ⟨h1, h2, h3, h4, h5, h6, ⟨hd, header, hh, hs, ?_⟩, h8⟩, hflow⟩)
    simp [hrec]

/-- Where a slot is handed out. -/
def Takes (s : Session) : Prop := s.state = .receiving ∧ s.receivedBytes < s.fileSize

theorem taped_takes {rest : Bytes} (h : Taped rest g s) (ht : Takes s) :
    Active g s ∧ AtPayload g s rest ∧ Flowing g s := by
  rcases h with h | ⟨-, h⟩ | h
  · exact absurd ht.1 (past_state h)
  · exact absurd (h.1.symm.trans ht.1) (by simp)
  · exact h

theorem taped_onAllocate (h : Taped [] g s) (hread : s.socket.reading = true) :
    OnTape (onAllocate e s) g (fun g' r => Taped [] g' r.1 ∧ r.2 ≤ e.chunkSize ∧
      r.1.socket.reading = true ∧ (r.1.slotAcquired = true ↔ Takes r.1)) := by
  unfold onAllocate
  dsimp only
  split
  · rename_i ht
    obtain ⟨ha, hp, hflow⟩ := taped_takes h ht
    have hroom := hflow.1 hread ht.2
    refine (keeps_ask_bind _ _ _ _ _ _).mpr ⟨hroom, fun acquired hacq => ?_⟩
    rw [show acquired = true from hacq]
    exact ⟨.inr (.inr ⟨ha, hp, fun _ _ => rfl, hflow.2⟩), le_refl _, hread, fun _ => ht,
      fun _ => rfl⟩
  · rename_i ht
    exact ⟨h, min_le_right _ _, hread, (fun hn => by cases hn), fun hn => absurd hn ht⟩

theorem taped_readSlot (data : Bytes) (ha : Active g s) (h : AtPayload g s data)
    (hlt : s.receivedBytes < s.fileSize) (hroom : g.room = true)
    (hread : s.socket.reading = true) : OnTape (readSlot e s data) g (Taped []) := by
  unfold readSlot
  dsimp only
  generalize hn : min (s.fileSize - s.receivedBytes) data.length = n
  refine (keeps_ask_bind _ _ _ _ _ _).mpr ⟨hroom, fun _ _ => ?_⟩
  have hcount := atPayload_count data n h hlt hn.symm
  refine keeps_seq _ _ _ _ _ (taped_applyBackpressure (fun g' s' =>
    Active g' s' ∧ AtPayload g' s' (data.drop n) ∧ Flowing g' s' ∧
      s'.receivedBytes = s.receivedBytes + (data.take n).length ∧ s'.fileSize = s.fileSize)
    ha.1 ha.2.1 hread h.1 ?_) ?_
  · rintro g' b ⟨hr, hsl, hse, hov⟩ hflow
    refine ⟨⟨ha.1, ha.2.1, ha.2.2.1, hov.trans ha.2.2.2⟩, ?_, hflow, rfl, rfl⟩
    unfold AtPayload Counted Behind at hcount ⊢
    rw [hr, hsl, hse]
    exact hcount
  · rintro g' s' ⟨ha', hp', hf', hrb, hfs⟩
    split
    · rename_i hemp
      rw [List.isEmpty_iff.mp hemp] at hp'
      exact .inr (.inr ⟨ha', hp', hf'⟩)
    · rename_i hne
      have hne' : data.drop n ≠ [] := by simpa using hne
      have hlen : n < data.length := by
        by_contra hge
        exact hne' (List.drop_eq_nil_iff.mpr (by omega))
      have hfull : ¬ s'.receivedBytes < s'.fileSize := by
        rw [List.length_take] at hrb
        omega
      refine keeps_seq _ _ _ _ _ (taped_consumeTrailer _ ha' hp' hf' hfull) ?_
      rintro g'' ⟨s'', k⟩ (hpast | ⟨-, ht, -⟩)
      · exact .inl hpast
      · exact ht

theorem taped_onReadable (count : ℕ) (h : Taped [] g s) (hread : s.socket.reading = true) :
    OnTape (onReadable e s count) g (Taped []) := by
  refine keeps_seq _ _ _ _ _ (taped_onAllocate h hread) ?_
  rintro g₁ ⟨s₁, size⟩ ⟨h₁, hsize, hread₁, hslot⟩
  refine (keeps_ask_bind _ _ _ _ _ _).mpr ⟨trivial, fun data hdata => ?_⟩
  have hfit : data.length ≤ e.chunkSize := by
    have hd : data.length ≤ min count size := hdata
    have hs : size ≤ e.chunkSize := hsize
    omega
  have h₂ := taped_received data h₁
  split
  · rename_i hn
    rw [List.isEmpty_iff.mp hn] at h₂ ⊢
    exact h₂
  · unfold onRead
    dsimp only
    split
    · rename_i hs
      have ht := hslot.mp hs
      obtain ⟨ha, hp, hflow⟩ := taped_takes h₂ ht
      exact taped_readSlot data ha hp ht.2 (hflow.1 hread₁ ht.2) hread₁
    · rename_i hs
      refine taped_readLoop _ data (Nat.lt_succ_self _) hfit h₂ fun hst hlt => ?_
      exact absurd (hslot.mpr ⟨hst, hlt⟩) hs

theorem taped_stop (reason : String) (h : Taped [] g s) :
    OnTape (cleanup s reason) g (Taped []) := by
  by_cases hc : s.cleanupStarted = true
  · unfold cleanup
    rw [if_pos hc]
    exact h
  · exact keeps_mono _ _ _ _ (fun _ _ hp => .inl hp) (taped_cleanup reason (by simpa using hc))

theorem taped_onSendComplete (ok : Bool) (h : Taped [] g s) :
    OnTape (onSendComplete e s ok) g (Taped []) := by
  unfold onSendComplete
  split
  · exact h
  split
  · exact taped_stop _ h
  rename_i hf
  dsimp only
  split
  · rename_i hst
    have hsend : Active g s ∧ Stored g s := by
      rcases h with (h | h | ⟨ha, hs, -⟩) | ⟨-, h⟩ | ⟨-, h, -⟩
      · simp [h.2.1] at hst
      · exact absurd h.2.2.1 hf
      · exact ⟨ha, hs⟩
      · simp [h.1] at hst
      · simp [h.1] at hst
    obtain ⟨⟨ho, hc, hf', hov⟩, hs⟩ := hsend
    refine taped_transition e _ _ (by simp [hst]) ⟨by simp, by simp⟩ ho hc fun g' t b hg' => ?_
    exact .inl (.inr (.inr ⟨⟨ho, hc, hf', hg'.2.2.2.trans hov⟩, stored_same hs hg',
      .inr (.inr rfl)⟩))
  · exact h

theorem taped_onWrite (ok : Bool) (text : String) (h : Taped [] g s) :
    OnTape (onWrite e s ok text) g (Taped []) := by
  have h' : Taped [] g
      { s with socket := { s.socket with pendingWrites := s.socket.pendingWrites - 1 } } := h
  refine keeps_seq _ _ _ _ _ (taped_onSendComplete ok h') ?_
  intro g₁ s₁ h₁
  cases ok with
  | true => exact h₁
  | false => exact taped_stop _ h₁

/-- A delivered wake-up: what it was owed for is looked at again. -/
theorem taped_onResume (h : Taped [] g s) :
    OnTape (resumeReading s) { g with owed := false } (Taped []) := by
  have hquiet : Past g s → s.cleanupStarted = false → s.socket.closing = false →
      OnTape (resumeReading s) { g with owed := false } (Taped []) := by
    intro hp ho hc
    have hst := past_state hp
    refine taped_resumeReading _ ho hc (fun hn => absurd hn hst) (fun hn => absurd hn hst) ?_
    rintro g' b hg' -
    have hsame : Same g g' := hg'
    rcases hp with hp | ⟨h1, h2, h3, h4, h5, h6⟩ | ⟨⟨h1, h2, h3, h4⟩, hs, hst'⟩
    · simp [hp.1] at ho
    · exact .inl (.inr (.inl ⟨h1, h2, h3, hsame.2.2.2.trans h4, stored_same h5 hsame, h6⟩))
    · refine .inl (.inr (.inr ⟨⟨h1, h2, h3, hsame.2.2.2.trans h4⟩, stored_same hs hsame, ?_⟩))
      refine hst'.imp_left fun hack => ⟨hack.1, ?_⟩
      unfold Acked
      rw [hsame.1, hsame.2.2.1]
      exact hack.2
  rcases h with hp | ⟨ha, hp⟩ | ⟨ha, hp, hflow⟩
  · rcases hp with hend | href | hact
    · unfold resumeReading
      rw [if_pos (by simp [hend.1])]
      exact .inl (.inl hend)
    · exact hquiet (.inr (.inl href)) href.1 href.2.1
    · exact hquiet (.inr (.inr hact)) hact.1.1 hact.1.2.1
  · unfold resumeReading
    rw [if_pos (by simp [hp.2.2.2.2.2.2.2.2])]
    exact .inr (.inl ⟨ha, hp⟩)
  · refine taped_resumeReading _ ha.1 ha.2.1 (fun _ hr => ⟨hflow.1, fun hn => ?_⟩)
      (fun _ hr hd => (hflow.2 hr hd).1) ?_
    · simp [hr] at hn
    · rintro g' b ⟨hr, hsl, hse, hov⟩ hflow'
      refine .inr (.inr ⟨⟨ha.1, ha.2.1, ha.2.2.1, hov.trans ha.2.2.2⟩, ?_, hflow' hp.1⟩)
      unfold AtPayload Counted Behind at hp ⊢
      rw [hr, hsl, hse]
      exact hp

theorem speaks_uploaded (csv : Bytes) (h : Acked g) :
    Speaks g.received (g.sent ++ [wholeHeader csv]) ∧
      Speaks g.received (g.sent ++ [wholeHeader csv] ++ [csv]) := by
  obtain ⟨u, payload, hu, hup, hs⟩ := h
  rw [hs]
  exact ⟨⟨_, .uploaded u payload csv hu hup, by simp⟩,
    ⟨_, .uploaded u payload csv hu hup, by simp⟩⟩

theorem taped_onAnalysisComplete (result : AnalysisResult) (hr : result.Sealed)
    (h : Taped [] g s) : OnTape (onAnalysisComplete e s result) g (Taped []) := by
  unfold onAnalysisComplete
  split
  · exact h
  · rename_i hg
    simp only [Bool.or_eq_true, decide_eq_true_eq, not_or, Bool.not_eq_true, not_not] at hg
    obtain ⟨hc, hst⟩ := hg
    have hwork : Active g s ∧ Stored g s ∧ Acked g := by
      rcases h with (h | h | ⟨ha, hs, h | h | h⟩) | ⟨-, h⟩ | ⟨-, h, -⟩
      · simp [h.1] at hc
      · rcases h.2.2.2.2.2 with h | h <;> simp [h] at hst
      · exact ⟨ha, hs, h.2⟩
      · simp [h] at hst
      · simp [h] at hst
      · simp [h.1] at hst
      · simp [h.1] at hst
    obtain ⟨ha, hs, hack⟩ := hwork
    refine (keeps_ask_bind _ _ _ _ _ _).mpr ⟨trivial, fun _ _ => ?_⟩
    refine (keeps_ask_bind _ _ _ _ _ _).mpr ⟨hr, fun _ _ => ?_⟩
    have hsay := speaks_uploaded result.csv hack
    refine keeps_mono _ _ _ _ (fun _ _ hp => .inl hp) ?_
    exact taped_sendResult (g := g) (s := { s with csv := result.csv }) _ _ _ ha hs (by simp [hst])
      hr (.inr hack) hsay.1 fun _ => hsay.2

theorem taped_start (hn : s = construct s.id) (hr : g.received = [] ∧ g.slots = [] ∧ g.sent = [])
    (hov : g.closed = false) (hroom : g.room = true) :
    OnTape (start e s) g (fun g' r => r.2 = true → Taped [] g' r.1) := by
  have hc : s.socket.closing = false := by rw [hn]; rfl
  have hrd : s.socket.reading = false := by rw [hn]; rfl
  refine keeps_seq _ _ _ _ _ (Q := fun g' r => Same g g' ∧ g'.room = true ∧
    r.1 = setReading s r.2) ?_ ?_
  · exact taped_startRead _ hc hrd fun ok => ⟨⟨rfl, rfl, rfl, rfl⟩, hroom, rfl⟩
  · rintro g' ⟨s', ok⟩ ⟨hsame, hroom', hs'⟩
    cases ok with
    | false =>
      have ho : s'.cleanupStarted = false := by
        rw [show s' = setReading s false from hs', hn]
        rfl
      refine keeps_seq _ _ _ _ _ (taped_cleanup _ ho) ?_
      rintro g'' s'' - hn
      cases hn
    | true =>
      refine ⟨trivial, fun _ _ _ => ?_⟩
      obtain ⟨t, ht⟩ := armTimer_eq (e := e) s'
      change Taped [] _ (armTimer e s')
      rw [ht, show s' = setReading s true from hs', hn]
      obtain ⟨h1, h2, h3, h4⟩ := hsame
      have hsl : g'.slots = [] := h2.trans hr.2.1
      refine .inr (.inl ⟨⟨rfl, rfl, rfl, h4.trans hov⟩, rfl, h3.trans hr.2.2, hsl, ⟨?_, ?_⟩, rfl,
        ⟨rfl, 8, rfl⟩, ?_, hroom', rfl⟩)
      · simp [Tape.next, hsl, construct, setReading]
      · simp [Tape.next, hsl, construct, setReading, crc32_nil]
      · exact h1.trans hr.1

end Callbacks

end Session

end LogTransfer
