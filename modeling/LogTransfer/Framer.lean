import LogTransfer.Codec

/-!
# Message framing

The framer accumulates bytes up to a target which it can always name: the
preamble, then the fixed part that holds the length prefix, then the whole
message. It copies a run of bytes at once. `absorb` is the same machine one
byte at a time; their equality is what makes segmentation invisible.
-/

set_option autoImplicit false

namespace LogTransfer

def kFramerBufferSize : ℕ :=
  if kResultRequestMaxSize > kUploadHeaderMaxSize then kResultRequestMaxSize
  else kUploadHeaderMaxSize

structure Framer where
  buffer : Bytes
  expected : MessageType
  alternate : MessageType
  status : DecodeStatus
  deriving DecidableEq, Repr

namespace Framer

def reset (expected alternate : MessageType) : Framer :=
  { buffer := [], expected := expected, alternate := alternate, status := .needMoreData }

def message (f : Framer) : Bytes := f.buffer

def messageType (f : Framer) : Byte := byteAt f.buffer kOffsetType

def fixedSizeFor (t : Byte) : ℕ :=
  if t = MessageType.uploadHeader.code then kUploadHeaderFixedSize
  else if t = MessageType.resultRequest.code then kResultRequestFixedSize
  else kPreambleSize

inductive Verdict where
  | stop (status : DecodeStatus)
  | want (target : ℕ)
  deriving DecidableEq, Repr

def typeExpected (f : Framer) : Bool :=
  f.messageType = f.expected.code || f.messageType = f.alternate.code

/-- The defence against a target that does not move past the current size. -/
def aim (f : Framer) (target : ℕ) : Verdict :=
  if target ≤ f.buffer.length then .stop .badValue else .want target

/-- One pass of the loop body, up to the point where bytes would be copied. -/
def judge (f : Framer) : Verdict :=
  match expectedMessageSize f.buffer with
  | .ok total =>
    if !f.typeExpected then .stop .badType
    else if total > kFramerBufferSize then .stop .badValue
    else if f.buffer.length = total then .stop .ok
    else f.aim total
  | .error .needMoreData =>
    if f.buffer.length < kPreambleSize then f.aim kPreambleSize
    else if !f.typeExpected then .stop .badType
    else f.aim (fixedSizeFor f.messageType)
  | .error st => .stop st

def extend (f : Framer) (bs : Bytes) : Framer := { f with buffer := f.buffer ++ bs }

-- The fuel is the number of input bytes plus one: a pass either leaves the
-- loop or copies at least one byte.
def feedLoop : ℕ → Framer → Bytes → ℕ → Framer × ℕ
  | 0, f, _, consumed => (f, consumed)
  | fuel+1, f, rest, consumed =>
    match f.judge with
    | .stop st => ({ f with status := st }, consumed)
    | .want target =>
      if rest.isEmpty then (f, consumed)
      else
        let take := min (target - f.buffer.length) rest.length
        feedLoop fuel (f.extend (rest.take take)) (rest.drop take) (consumed + take)

def feed (f : Framer) (data : Bytes) : Framer × ℕ :=
  if f.status ≠ .needMoreData then (f, 0) else feedLoop (data.length + 1) f data 0

def push (f : Framer) (b : Byte) : Framer :=
  match (f.extend [b]).judge with
  | .stop st => { f.extend [b] with status := st }
  | .want _ => f.extend [b]

def absorb : Framer → Bytes → Framer × ℕ
  | f, [] => (f, 0)
  | f, b::bs =>
    if f.status ≠ .needMoreData then (f, 0)
    else
      let r := absorb (f.push b) bs
      (r.1, r.2 + 1)

/-- The framer is still collecting and knows how far. -/
def Open (f : Framer) : Prop := f.status = .needMoreData ∧ ∃ t, f.judge = .want t

theorem byteAt_append (a b : Bytes) (i : ℕ) (h : i < a.length) :
    byteAt (a ++ b) i = byteAt a i := by
  simp [byteAt, List.getD, List.getElem?_append_left h]

theorem magicOk_append (a b : Bytes) (h : 4 ≤ a.length) : magicOk (a ++ b) = magicOk a := by
  simp [magicOk, List.take_append_of_le_length h]

theorem getU16_append (a b : Bytes) (i : ℕ) (h : i + 2 ≤ a.length) :
    getU16 (a ++ b) i = getU16 a i := by
  have hd : (a ++ b).drop i = a.drop i ++ b := List.drop_append_of_le_length (by omega)
  have hl : 2 ≤ (a.drop i).length := by simp; omega
  simp [getU16, hd, List.take_append_of_le_length hl]

/-- The size comes from a length prefix at the end of the fixed part, or from
the type alone, or there is no such type. -/
theorem typedMessageSize_cases (t : Byte) :
    (8 < fixedSizeFor t ∧ ∀ a, typedMessageSize t a =
        if a.length < fixedSizeFor t then .error .needMoreData
        else .ok (fixedSizeFor t + getU16 a (fixedSizeFor t - 2))) ∨
      (∃ n, fixedSizeFor t ≤ n ∧ n ≤ kFramerBufferSize ∧ ∀ a, typedMessageSize t a = .ok n) ∨
      ∀ a, typedMessageSize t a = .error .badType := by
  by_cases h1 : t = MessageType.uploadHeader.code
  · subst h1
    refine .inl ⟨by decide, fun a => ?_⟩
    rw [typedMessageSize, if_pos rfl]
    rfl
  by_cases h2 : t = MessageType.resultRequest.code
  · subst h2
    refine .inl ⟨by decide, fun a => ?_⟩
    rw [typedMessageSize, if_neg (by decide), if_neg (by decide), if_neg (by decide),
      if_neg (by decide), if_neg (by decide), if_pos rfl]
    rfl
  have hf : fixedSizeFor t = kPreambleSize := by rw [fixedSizeFor, if_neg h1, if_neg h2]
  rw [hf]
  by_cases h3 : t = MessageType.uploadTrailer.code
  · refine .inr (.inl ⟨kUploadTrailerSize, by decide, by decide, fun a => ?_⟩)
    rw [typedMessageSize, if_neg h1, if_pos h3]
  by_cases h4 : t = MessageType.ack.code
  · refine .inr (.inl ⟨kAckSize, by decide, by decide, fun a => ?_⟩)
    rw [typedMessageSize, if_neg h1, if_neg h3, if_pos h4]
  by_cases h5 : t = MessageType.resultHeader.code
  · refine .inr (.inl ⟨kResultHeaderSize, by decide, by decide, fun a => ?_⟩)
    rw [typedMessageSize, if_neg h1, if_neg h3, if_neg h4, if_pos h5]
  by_cases h6 : t = MessageType.downloadDone.code
  · refine .inr (.inl ⟨kDownloadDoneSize, by decide, by decide, fun a => ?_⟩)
    rw [typedMessageSize, if_neg h1, if_neg h3, if_neg h4, if_neg h5, if_pos h6]
  refine .inr (.inr fun a => ?_)
  rw [typedMessageSize, if_neg h1, if_neg h3, if_neg h4, if_neg h5, if_neg h6, if_neg h2]

theorem fixedSizeFor_bounds (t : Byte) : 8 ≤ fixedSizeFor t ∧ fixedSizeFor t ≤ 30 := by
  unfold fixedSizeFor
  split_ifs <;> decide

theorem typedMessageSize_ok_append (t : Byte) (a b : Bytes) (n : ℕ)
    (h : typedMessageSize t a = .ok n) : typedMessageSize t (a ++ b) = .ok n := by
  rcases typedMessageSize_cases t with ⟨-, hs⟩ | ⟨k, -, -, hs⟩ | hs
  · have hfixed := (fixedSizeFor_bounds t).1
    have hl : (a ++ b).length = a.length + b.length := List.length_append
    rw [hs] at h ⊢
    split_ifs at h with hshort
    rw [if_neg (by omega), getU16_append a b _ (by omega)]
    exact h
  · rw [hs] at h ⊢
    exact h
  · rw [hs] at h
    cases h

theorem typedMessageSize_needMore (t : Byte) (a : Bytes)
    (h : typedMessageSize t a = .error .needMoreData) :
    a.length < fixedSizeFor t ∧
      ∀ b : Bytes, b.length < fixedSizeFor t → typedMessageSize t b = .error .needMoreData := by
  rcases typedMessageSize_cases t with ⟨-, hs⟩ | ⟨k, -, -, hs⟩ | hs
  · rw [hs] at h
    split_ifs at h with hshort
    refine ⟨hshort, fun b hb => ?_⟩
    rw [hs, if_pos hb]
  · rw [hs] at h
    cases h
  · rw [hs] at h
    cases h

theorem typedMessageSize_error (t : Byte) (a b : Bytes) (n : ℕ) (st : DecodeStatus)
    (h : typedMessageSize t (a ++ b) = .ok n) (he : typedMessageSize t a = .error st) :
    st = .needMoreData ∧ a.length < fixedSizeFor t := by
  rcases typedMessageSize_cases t with ⟨-, hs⟩ | ⟨k, -, -, hs⟩ | hs
  · rw [hs] at he
    split_ifs at he with hshort
    cases he
    exact ⟨rfl, hshort⟩
  · rw [hs] at he
    cases he
  · rw [hs] at h
    cases h

theorem expected_error (a : Bytes) (st : DecodeStatus) (h : expectedMessageSize a = .error st) :
    st = .needMoreData ∨ st = .badMagic ∨ st = .badVersion ∨ st = .badType := by
  unfold expectedMessageSize at h
  split_ifs at h
  · cases h
    exact .inl rfl
  · cases h
    exact .inr (.inl rfl)
  · cases h
    exact .inr (.inr (.inl rfl))
  · rcases typedMessageSize_cases (byteAt a kOffsetType) with ⟨-, hs⟩ | ⟨k, -, -, hs⟩ | hs
    · rw [hs] at h
      split_ifs at h
      cases h
      exact .inl rfl
    · rw [hs] at h
      cases h
    · rw [hs] at h
      cases h
      exact .inr (.inr (.inr rfl))

theorem expected_not_ok (a : Bytes) : expectedMessageSize a ≠ .error .ok := by
  intro h
  have := expected_error a _ h
  simp at this

theorem preamble_append (a b : Bytes) (h : 8 ≤ a.length) :
    magicOk (a ++ b) = magicOk a ∧
      byteAt (a ++ b) kOffsetVersion = byteAt a kOffsetVersion ∧
      byteAt (a ++ b) kOffsetType = byteAt a kOffsetType := by
  refine ⟨magicOk_append a b (by omega), byteAt_append a b _ ?_, byteAt_append a b _ ?_⟩ <;>
    simp only [kOffsetVersion, kOffsetType] <;> omega

theorem judge_stop_status (f : Framer) (st : DecodeStatus) (h : f.judge = .stop st) :
    st ≠ .needMoreData := by
  unfold judge aim at h
  split at h
  · split_ifs at h <;> cases h <;> decide
  · split_ifs at h <;> cases h <;> decide
  · rename_i st' hst _
    cases h
    intro hn
    exact hst (by rw [hn])

theorem judge_want (f : Framer) (t : ℕ) (h : f.judge = .want t) :
    f.buffer.length < t ∧
      ((f.buffer.length < 8 ∧ t = 8) ∨
        (8 ≤ f.buffer.length ∧ f.typeExpected ∧ t = fixedSizeFor f.messageType ∧
          expectedMessageSize f.buffer = .error .needMoreData) ∨
        (f.typeExpected ∧ t ≤ kFramerBufferSize ∧ expectedMessageSize f.buffer = .ok t)) := by
  unfold judge aim at h
  split at h
  · rename_i total hs
    split_ifs at h with h1 h2 h3 h4
    cases h
    exact ⟨by omega, Or.inr (Or.inr ⟨by simpa using h1, by omega, hs⟩)⟩
  · rename_i hs
    split_ifs at h with h1 h2 h3 h4
    · cases h
      exact ⟨h1, Or.inl ⟨h1, rfl⟩⟩
    · cases h
      have h8 : kPreambleSize = 8 := rfl
      exact ⟨by omega, Or.inr (Or.inl ⟨by omega, by simpa using h3, rfl, hs⟩)⟩
  · cases h

/-- Past the preamble a refusal stands, and else the message itself decides. -/
theorem expected_behind (a b : Bytes) (h8 : 8 ≤ a.length) :
    (∃ st, st ≠ .needMoreData ∧ expectedMessageSize a = .error st ∧
      expectedMessageSize (a ++ b) = .error st) ∨
    (expectedMessageSize a = typedMessageSize (byteAt a kOffsetType) a ∧
      expectedMessageSize (a ++ b) = typedMessageSize (byteAt a kOffsetType) (a ++ b)) := by
  obtain ⟨hm, hv, ht⟩ := preamble_append a b h8
  have hk : ¬ a.length < kPreambleSize := Nat.not_lt.mpr h8
  have hk' : ¬ (a ++ b).length < kPreambleSize := by
    simp only [kPreambleSize, List.length_append]
    omega
  unfold expectedMessageSize
  rw [if_neg hk, if_neg hk', hm, hv, ht]
  split_ifs
  · exact .inl ⟨_, by decide, rfl, rfl⟩
  · exact .inl ⟨_, by decide, rfl, rfl⟩
  · exact .inr ⟨rfl, rfl⟩

theorem expected_needMore (a : Bytes) (h8 : 8 ≤ a.length)
    (h : expectedMessageSize a = .error .needMoreData) (b : Bytes)
    (hb : (a ++ b).length < fixedSizeFor (byteAt a kOffsetType)) :
    expectedMessageSize (a ++ b) = .error .needMoreData := by
  rcases expected_behind a b h8 with ⟨st, hst, ha, -⟩ | ⟨ha, hab⟩
  · rw [h] at ha
    cases ha
    exact absurd rfl hst
  · rw [ha] at h
    rw [hab]
    exact (typedMessageSize_needMore _ a h).2 _ hb

theorem expected_ok (a b : Bytes) (n : ℕ) (h : expectedMessageSize a = .ok n) :
    8 ≤ a.length ∧ expectedMessageSize (a ++ b) = .ok n := by
  have h8 : 8 ≤ a.length := by
    by_contra hshort
    have hk : a.length < kPreambleSize := Nat.not_le.mp hshort
    rw [expectedMessageSize, if_pos hk] at h
    cases h
  refine ⟨h8, ?_⟩
  rcases expected_behind a b h8 with ⟨st, -, ha, -⟩ | ⟨ha, hab⟩
  · rw [h] at ha
    cases ha
  · rw [ha] at h
    rw [hab]
    exact typedMessageSize_ok_append _ a b n h

theorem typeExpected_extend (f : Framer) (x : Bytes) (h8 : 8 ≤ f.buffer.length) :
    (f.extend x).typeExpected = f.typeExpected ∧ (f.extend x).messageType = f.messageType := by
  have ht := (preamble_append f.buffer x h8).2.2
  have hm : (f.extend x).messageType = f.messageType := ht
  exact ⟨by rw [typeExpected, hm]; rfl, hm⟩

/-- Until the target is reached, more bytes change neither verdict nor target. -/
theorem judge_extend (f : Framer) (t : ℕ) (x : Bytes) (h : f.judge = .want t)
    (hx : f.buffer.length + x.length < t) : (f.extend x).judge = .want t := by
  have hl : (f.extend x).buffer.length = f.buffer.length + x.length := by simp [extend]
  have haim : (f.extend x).aim t = .want t := by rw [aim, if_neg (by omega)]
  obtain ⟨-, ⟨h8, rfl⟩ | ⟨h8, he, ht, hs⟩ | ⟨he, hb, hs⟩⟩ := judge_want f t h
  · have hk : (f.extend x).buffer.length < kPreambleSize := by simp only [kPreambleSize]; omega
    have hs : expectedMessageSize (f.extend x).buffer = .error .needMoreData := by
      rw [expectedMessageSize, if_pos hk]
    rw [judge, hs]
    simp only [if_pos hk]
    exact haim
  · have hk : ¬ (f.extend x).buffer.length < kPreambleSize := by
      simp only [kPreambleSize]; omega
    obtain ⟨hte, htm⟩ := typeExpected_extend f x h8
    have hs' : expectedMessageSize (f.extend x).buffer = .error .needMoreData := by
      refine expected_needMore f.buffer h8 hs x ?_
      rw [List.length_append]
      change _ < fixedSizeFor f.messageType
      omega
    rw [judge, hs']
    simp only [if_neg hk, hte, htm, he, ← ht]
    exact haim
  · obtain ⟨h8, hs'⟩ := expected_ok f.buffer x t hs
    obtain ⟨hte, -⟩ := typeExpected_extend f x h8
    rw [judge, show (f.extend x).buffer = f.buffer ++ x from rfl, hs']
    simp only [hte, he]
    rw [if_neg (by simp), if_neg (by omega), if_neg (by simp; omega)]
    exact haim

theorem extend_extend (f : Framer) (x y : Bytes) : (f.extend x).extend y = f.extend (x ++ y) := by
  simp [extend]

theorem absorb_settled (f : Framer) (bs : Bytes) (h : f.status ≠ .needMoreData) :
    absorb f bs = (f, 0) := by
  cases bs with
  | nil => rfl
  | cons b bs => simp [absorb, h]

/-- A run of bytes that does not pass the target can be copied at once. -/
theorem absorb_run (f : Framer) (t : ℕ) (x y : Bytes) (hf : f.status = .needMoreData)
    (h : f.judge = .want t) (hne : x ≠ []) (hx : f.buffer.length + x.length ≤ t) :
    absorb f (x ++ y) = match (f.extend x).judge with
      | .stop st => ({ f.extend x with status := st }, x.length)
      | .want _ => ((absorb (f.extend x) y).1, (absorb (f.extend x) y).2 + x.length) := by
  induction x generalizing f with
  | nil => exact absurd rfl hne
  | cons b x ih =>
    rw [List.cons_append, absorb, if_neg (by simp [hf])]
    by_cases hx' : x = []
    · subst hx'
      simp only [List.nil_append, push, List.length_singleton]
      cases hj : (f.extend [b]).judge with
      | stop st =>
        have hs : ({ f.extend [b] with status := st } : Framer).status ≠ .needMoreData :=
          judge_stop_status _ st hj
        simp only [absorb_settled _ y hs, Nat.zero_add]
      | want t' => rfl
    · have hpos : 0 < x.length := List.length_pos_iff.mpr hx'
      simp only [List.length_cons] at hx
      have hj : (f.extend [b]).judge = .want t := judge_extend f t [b] h (by simp; omega)
      have hp : f.push b = f.extend [b] := by simp [push, hj]
      have hih := ih (f.extend [b]) (by simpa [extend] using hf) hj hx' (by simp [extend]; omega)
      rw [hp, hih, extend_extend]
      simp only [List.singleton_append, List.length_cons]
      cases (f.extend (b :: x)).judge with
      | stop st => simp
      | want t' => simp [Nat.add_assoc]

theorem feedLoop_absorb (fuel : ℕ) (f : Framer) (rest : Bytes) (c : ℕ)
    (hf : f.status = .needMoreData) (hfuel : rest.length < fuel) :
    feedLoop fuel f rest c = match f.judge with
      | .stop st => ({ f with status := st }, c)
      | .want _ => ((absorb f rest).1, c + (absorb f rest).2) := by
  induction fuel generalizing f rest c with
  | zero => omega
  | succ fuel ih =>
    rw [feedLoop]
    cases hj : f.judge with
    | stop st => rfl
    | want t =>
      cases hr : rest with
      | nil => rfl
      | cons b bs =>
        simp only [List.isEmpty_cons, Bool.false_eq_true, if_false]
        rw [← hr]
        have hlt := (judge_want f t hj).1
        have hpos : 0 < rest.length := by simp [hr]
        generalize hk : min (t - f.buffer.length) rest.length = k
        have hkl : (rest.take k).length = k := by simp; omega
        have hne : rest.take k ≠ [] := List.length_pos_iff.mp (by omega)
        have hrun := absorb_run f t (rest.take k) (rest.drop k) hf hj hne (by omega)
        rw [List.take_append_drop] at hrun
        rw [ih _ _ _ (by simpa [extend] using hf) (by simp; omega), hrun, hkl]
        cases (f.extend (rest.take k)).judge with
        | stop st => simp
        | want t' =>
          simp only [Prod.mk.injEq, true_and]
          omega

def Settled (f : Framer) : Prop := f.status ≠ .needMoreData ∨ f.Open

theorem settled_reset (e a : MessageType) : (reset e a).Settled :=
  Or.inr ⟨rfl, 8, rfl⟩

theorem push_buffer (f : Framer) (b : Byte) : (f.push b).buffer = f.buffer ++ [b] := by
  unfold push
  split <;> rfl

theorem settled_push (f : Framer) (b : Byte) (h : f.status = .needMoreData) :
    (f.push b).Settled := by
  unfold push
  cases hj : (f.extend [b]).judge with
  | stop st => exact Or.inl (judge_stop_status _ st hj)
  | want t => exact Or.inr ⟨by simpa [extend] using h, t, hj⟩

/-- The copying loop and the byte machine agree. -/
theorem feed_eq_absorb (f : Framer) (data : Bytes) (h : f.Settled) :
    f.feed data = absorb f data := by
  rcases h with hs | ⟨hs, t, ht⟩
  · rw [feed, if_pos hs, absorb_settled f data hs]
  · rw [feed, if_neg (by simp [hs]), feedLoop_absorb _ _ _ _ hs (by omega), ht]
    simp

theorem settled_absorb (f : Framer) (bs : Bytes) (h : f.Settled) : (absorb f bs).1.Settled := by
  induction bs generalizing f with
  | nil => exact h
  | cons b bs ih =>
    rw [absorb]
    split_ifs with hs
    · exact h
    · exact ih _ (settled_push f b (by simpa using hs))

theorem absorb_append (f : Framer) (a b : Bytes) :
    absorb f (a ++ b) =
      if (absorb f a).1.status = .needMoreData then
        ((absorb (absorb f a).1 b).1, (absorb f a).2 + (absorb (absorb f a).1 b).2)
      else absorb f a := by
  induction a generalizing f with
  | nil =>
    simp only [List.nil_append, absorb, Nat.zero_add]
    split_ifs with hs
    · rfl
    · exact absorb_settled f b hs
  | cons x a ih =>
    by_cases hs : f.status = .needMoreData
    · simp only [List.cons_append, absorb, hs, ne_eq, not_true_eq_false, if_false]
      rw [ih]
      split_ifs <;> simp; omega
    · simp [absorb, hs]

theorem absorb_consumed (f : Framer) (a : Bytes) :
    (absorb f a).2 ≤ a.length ∧
      ((absorb f a).1.status = .needMoreData → (absorb f a).2 = a.length) := by
  induction a generalizing f with
  | nil => simp [absorb]
  | cons x a ih =>
    by_cases hs : f.status = .needMoreData
    · have hi := ih (f.push x)
      simp only [absorb, hs, ne_eq, not_true_eq_false, if_false, List.length_cons]
      exact ⟨by omega, fun h => by have := hi.2 h; omega⟩
    · simp [absorb, hs]

theorem absorb_buffer (f : Framer) (bs : Bytes) :
    (absorb f bs).1.buffer = f.buffer ++ bs.take (absorb f bs).2 := by
  induction bs generalizing f with
  | nil => simp [absorb]
  | cons b bs ih =>
    rw [absorb]
    split_ifs with hs
    · simp
    · rw [ih, push_buffer]
      simp

theorem judge_ok (f : Framer) (h : f.judge = .stop .ok) :
    expectedMessageSize f.buffer = .ok f.buffer.length := by
  unfold judge aim at h
  split at h
  · rename_i total hs
    split_ifs at h with h1 h2 h3 <;> cases h
    rw [hs, h3]
  · split_ifs at h <;> cases h
  · rename_i hs
    cases h
    exact absurd hs (expected_not_ok f.buffer)

theorem push_ok (f : Framer) (b : Byte) (hf : f.status = .needMoreData)
    (h : (f.push b).status = .ok) :
    expectedMessageSize (f.push b).buffer = .ok (f.push b).buffer.length := by
  rw [push_buffer]
  cases hj : (f.extend [b]).judge with
  | stop st =>
    simp only [push, hj] at h
    subst h
    exact judge_ok _ hj
  | want t =>
    simp only [push, hj] at h
    simp [extend, hf] at h

theorem absorb_ok (f : Framer) (bs : Bytes) (hf : f.status = .needMoreData)
    (h : (absorb f bs).1.status = .ok) :
    expectedMessageSize (absorb f bs).1.buffer = .ok (absorb f bs).1.buffer.length := by
  induction bs generalizing f with
  | nil => simp [absorb, hf] at h
  | cons b bs ih =>
    rw [absorb, if_neg (by simp [hf])] at h ⊢
    by_cases hs : (f.push b).status = .needMoreData
    · exact ih _ hs h
    · rw [absorb_settled _ _ hs] at h ⊢
      exact push_ok f b hf h

/-- A message that the framer will take as it stands. -/
def Whole (f : Framer) (m : Bytes) : Prop :=
  expectedMessageSize m = .ok m.length ∧ m.length ≤ kFramerBufferSize ∧
    (byteAt m kOffsetType = f.expected.code ∨ byteAt m kOffsetType = f.alternate.code)

theorem typeExpected_code (f : Framer) (h : byteAt f.buffer kOffsetType = f.expected.code ∨
    byteAt f.buffer kOffsetType = f.alternate.code) : f.typeExpected = true := by
  rcases h with h | h <;> simp [typeExpected, messageType, h]

theorem judge_whole (f : Framer) (h : f.Whole f.buffer) : f.judge = .stop .ok := by
  obtain ⟨hs, hl, ht⟩ := h
  have hte := typeExpected_code f ht
  rw [judge, hs]
  simp only [hte]
  rw [if_neg (by simp), if_neg (by omega), if_pos trivial]

theorem judge_prefix (f : Framer) (q : Bytes) (h : f.Whole (f.buffer ++ q)) (hq : q ≠ []) :
    ∃ t, f.judge = .want t := by
  obtain ⟨hs, hl, ht⟩ := h
  have hpos : 0 < q.length := List.length_pos_iff.mpr hq
  rw [List.length_append] at hs hl
  by_cases h8 : f.buffer.length < 8
  · have hk : f.buffer.length < kPreambleSize := h8
    have hn : expectedMessageSize f.buffer = .error .needMoreData := by
      rw [expectedMessageSize, if_pos hk]
    refine ⟨8, ?_⟩
    rw [judge, hn]
    simp only [if_pos hk]
    rw [aim, if_neg (by simp only [kPreambleSize]; omega)]
    rfl
  · have hk : ¬ f.buffer.length < kPreambleSize := h8
    have h8' : 8 ≤ f.buffer.length := Nat.not_lt.mp h8
    rw [(preamble_append f.buffer q h8').2.2] at ht
    have hte := typeExpected_code f ht
    cases he : expectedMessageSize f.buffer with
    | ok n =>
      have hn := (expected_ok f.buffer q n he).2
      rw [hs] at hn
      cases hn
      refine ⟨f.buffer.length + q.length, ?_⟩
      rw [judge, he]
      simp only [hte]
      rw [if_neg (by simp), if_neg (by omega), if_neg (by omega), aim, if_neg (by omega)]
    | error st =>
      rcases expected_behind f.buffer q h8' with ⟨st', -, -, hab⟩ | ⟨ha, hab⟩
      · rw [hs] at hab
        cases hab
      rw [hab] at hs
      rw [ha] at he
      obtain ⟨hst, hfix⟩ := typedMessageSize_error _ _ _ _ _ hs he
      refine ⟨fixedSizeFor f.messageType, ?_⟩
      have hn : expectedMessageSize f.buffer = .error .needMoreData := by
        rw [ha, he, hst]
      rw [judge, hn]
      simp only [if_neg hk, hte]
      rw [if_neg (by simp), aim, if_neg (by change ¬ fixedSizeFor (byteAt _ _) ≤ _; omega)]

/-- A whole message is taken to its last byte and no further. -/
theorem absorb_whole (f : Framer) (q : Bytes) (hf : f.status = .needMoreData)
    (h : f.Whole (f.buffer ++ q)) (hq : q ≠ []) :
    f.absorb q = ({ f with buffer := f.buffer ++ q, status := .ok }, q.length) := by
  induction q generalizing f with
  | nil => exact absurd rfl hq
  | cons b q ih =>
    have hbuf : (f.extend [b]).buffer ++ q = f.buffer ++ b :: q := by simp [extend]
    have hw : (f.extend [b]).Whole ((f.extend [b]).buffer ++ q) := by
      rw [hbuf]
      exact h
    rw [absorb, if_neg (by simp [hf])]
    by_cases hnil : q = []
    · subst hnil
      rw [List.append_nil] at hw
      have hp : f.push b = { f.extend [b] with status := .ok } := by
        simp [push, judge_whole _ hw]
      simp [hp, absorb, extend]
    · obtain ⟨t, ht⟩ := judge_prefix _ q hw hnil
      have hp : f.push b = f.extend [b] := by simp [push, ht]
      rw [hp, ih _ (by simpa [extend] using hf) hw hnil, hbuf]
      simp [extend]

theorem absorb_types (f : Framer) (bs : Bytes) :
    (absorb f bs).1.expected = f.expected ∧ (absorb f bs).1.alternate = f.alternate := by
  induction bs generalizing f with
  | nil => exact ⟨rfl, rfl⟩
  | cons b bs ih =>
    rw [absorb]
    split_ifs with hs
    · exact ⟨rfl, rfl⟩
    · have hp : (f.push b).expected = f.expected ∧ (f.push b).alternate = f.alternate := by
        unfold push
        split <;> exact ⟨rfl, rfl⟩
      exact ⟨(ih _).1.trans hp.1, (ih _).2.trans hp.2⟩

theorem settled_whole (f : Framer) (q : Bytes) (hf : f.status = .needMoreData)
    (h : f.Whole (f.buffer ++ q)) (hq : q ≠ []) : f.Settled :=
  .inr ⟨hf, judge_prefix f q h hq⟩

/-- The end of a whole message, whatever follows it. -/
theorem feed_whole (f : Framer) (q rest : Bytes) (hf : f.status = .needMoreData)
    (h : f.Whole (f.buffer ++ q)) (hq : q ≠ []) :
    f.feed (q ++ rest) = ({ f with buffer := f.buffer ++ q, status := .ok }, q.length) := by
  rw [feed_eq_absorb f _ (settled_whole f q hf h hq), absorb_append, absorb_whole f q hf h hq]
  simp

/-- A part of a whole message is taken and kept. -/
theorem feed_part (f : Framer) (p q : Bytes) (hf : f.status = .needMoreData)
    (h : f.Whole (f.buffer ++ (p ++ q))) (hq : q ≠ []) :
    f.feed p = (f.extend p, p.length) := by
  have hpq : p ++ q ≠ [] := by simp [hq]
  have hpos : 0 < q.length := List.length_pos_iff.mpr hq
  have hall := absorb_whole f (p ++ q) hf h hpq
  have happ := absorb_append f p q
  have hst : (absorb f p).1.status = .needMoreData := by
    by_contra hn
    rw [if_neg hn, hall] at happ
    have hle := (absorb_consumed f p).1
    rw [← happ] at hle
    simp only [List.length_append] at hle
    omega
  have hlen := (absorb_consumed f p).2 hst
  have hbuf := absorb_buffer f p
  obtain ⟨he, ha⟩ := absorb_types f p
  rw [feed_eq_absorb f p (settled_whole f _ hf h hpq)]
  refine Prod.ext ?_ hlen
  rw [hlen, List.take_length] at hbuf
  generalize (absorb f p).1 = f' at *
  cases f'
  simp only at hst hbuf he ha
  subst hst hbuf he ha
  simp [extend, hf]

theorem absorb_pos (f : Framer) (data : Bytes) (hf : f.status = .needMoreData) (hne : data ≠ []) :
    0 < (absorb f data).2 := by
  cases data with
  | nil => exact absurd rfl hne
  | cons b bs => simp [absorb, hf]

section FixedSize

variable {T : MessageType} {n : ℕ}

theorem expected_not_badValue (a : Bytes) : expectedMessageSize a ≠ .error .badValue := by
  intro h
  have := expected_error a _ h
  simp at this

theorem expected_fixed (f : Framer) (he : f.expected = T) (ha : f.alternate = T)
    (hfix : ∀ buf, typedMessageSize T.code buf = .ok n) (ht : f.typeExpected = true)
    (h8 : ¬ f.buffer.length < kPreambleSize) :
    expectedMessageSize f.buffer ≠ .error .needMoreData ∧
      ∀ total, expectedMessageSize f.buffer = .ok total → total = n := by
  have hcode : byteAt f.buffer kOffsetType = T.code := by
    simpa [typeExpected, messageType, he, ha] using ht
  unfold expectedMessageSize
  rw [hcode, hfix]
  constructor
  · split_ifs <;> simp
  · intro total htot
    split_ifs at htot
    injection htot with htot
    exact htot.symm

/-- A message of fixed size has no value the framer could refuse. -/
theorem push_not_badValue (f : Framer) (b : Byte) (hf : f.Open) (he : f.expected = T)
    (ha : f.alternate = T) (hfix : ∀ buf, typedMessageSize T.code buf = .ok n)
    (hn : 8 ≤ n ∧ n ≤ kFramerBufferSize) : (f.push b).status ≠ .badValue := by
  obtain ⟨hs, t, hw⟩ := hf
  have hk : kPreambleSize = 8 := rfl
  have hl : (f.extend [b]).buffer.length = f.buffer.length + 1 := by simp [extend]
  intro hbad
  cases hj : (f.extend [b]).judge with
  | want t' =>
    simp only [push, hj] at hbad
    simp [extend, hs] at hbad
  | stop st =>
    simp only [push, hj] at hbad
    rw [hbad] at hj
    obtain ⟨hlt, hcases⟩ := judge_want f t hw
    unfold judge at hj
    split at hj
    · rename_i total htot
      have h8 : ¬ (f.extend [b]).buffer.length < kPreambleSize := by
        have := (expected_ok _ [] _ htot).1
        omega
      split_ifs at hj with h1 h2 h3
      · cases hj
      · have := (expected_fixed (f.extend [b]) he ha hfix (by simpa using h1) h8).2 _ htot
        omega
      · cases hj
      · have hsize := (expected_fixed (f.extend [b]) he ha hfix (by simpa using h1) h8).2 _ htot
        have hgone : total ≤ f.buffer.length := by
          by_contra hgt
          rw [aim, if_neg (by omega)] at hj
          cases hj
        rcases hcases with ⟨hlow, -⟩ | ⟨h8', hte, -, hneed⟩ | ⟨hte, -, hgot⟩
        · omega
        · exact (expected_fixed f he ha hfix hte (by omega)).1 hneed
        · have := (expected_fixed f he ha hfix hte (by omega)).2 _ hgot
          omega
    · rename_i hneed
      split_ifs at hj with h1 h2
      · rw [aim, if_neg (by omega)] at hj
        cases hj
      · cases hj
      · exact (expected_fixed (f.extend [b]) he ha hfix (by simpa using h2) h1).1 hneed
    · rename_i st' hst
      injection hj with hj
      exact expected_not_badValue _ (hj ▸ hst)

theorem absorb_not_badValue (f : Framer) (bs : Bytes) (hf : f.Open) (he : f.expected = T)
    (ha : f.alternate = T) (hfix : ∀ buf, typedMessageSize T.code buf = .ok n)
    (hn : 8 ≤ n ∧ n ≤ kFramerBufferSize) : (f.absorb bs).1.status ≠ .badValue := by
  induction bs generalizing f with
  | nil => simp [absorb, hf.1]
  | cons b bs ih =>
    rw [absorb, if_neg (by simp [hf.1])]
    have hb := push_not_badValue f b hf he ha hfix hn
    have htypes := absorb_types f [b]
    simp only [absorb, hf.1, ne_eq, not_true_eq_false, if_false] at htypes
    rcases settled_push f b hf.1 with hs | hs
    · rw [absorb_settled _ _ hs]
      exact hb
    · exact ih (f.push b) hs (htypes.1.trans he) (htypes.2.trans ha)

end FixedSize

end Framer

end LogTransfer
