import LogTransfer.Framer

/-!
# Framing of a whole stream at once

`frameOnce` looks at the stream as a whole and says how framing ends and how
many bytes it takes. The byte machine reaches the same verdict in three stages:
the preamble, the fixed part, the message.
-/

set_option autoImplicit false

namespace LogTransfer

namespace Framer

def allowed (expected alternate : MessageType) (t : Byte) : Bool :=
  t = expected.code || t = alternate.code

/-- The verdict over a stream that starts with its message, and the bytes
that belong to it. -/
def frameOnce (expected alternate : MessageType) (s : Bytes) : DecodeStatus × ℕ :=
  if s.length < kPreambleSize then (.needMoreData, s.length)
  else
    let t := byteAt s kOffsetType
    match expectedMessageSize s with
    | .ok n =>
      if !allowed expected alternate t then (.badType, kPreambleSize)
      else if n > kFramerBufferSize then (.badValue, fixedSizeFor t)
      else if s.length < n then (.needMoreData, s.length)
      else (.ok, n)
    | .error .needMoreData =>
      if !allowed expected alternate t then (.badType, kPreambleSize)
      else (.needMoreData, s.length)
    | .error st => (st, kPreambleSize)

section Sizes

theorem typedMessageSize_refused (t : Byte) (a b : Bytes) (st : DecodeStatus)
    (h : typedMessageSize t a = .error st) (hst : st ≠ .needMoreData) :
    typedMessageSize t b = .error st := by
  rcases typedMessageSize_cases t with ⟨-, hs⟩ | ⟨k, -, -, hs⟩ | hs
  · rw [hs] at h
    split_ifs at h
    cases h
    exact absurd rfl hst
  · rw [hs] at h
    cases h
  · rw [hs] at h ⊢
    exact h

/-- A preamble that is refused is refused whatever follows it. -/
theorem expected_refused (a b : Bytes) (st : DecodeStatus) (h8 : 8 ≤ a.length)
    (h : expectedMessageSize a = .error st) (hst : st ≠ .needMoreData) :
    expectedMessageSize (a ++ b) = .error st := by
  rcases expected_behind a b h8 with ⟨st', -, ha, hab⟩ | ⟨ha, hab⟩
  · rw [← h, ha, hab]
  · rw [ha] at h
    rw [hab]
    exact typedMessageSize_refused _ _ _ st h hst

theorem typedMessageSize_long (t : Byte) (a b : Bytes)
    (h : typedMessageSize t a = .error .needMoreData) (hb : fixedSizeFor t ≤ b.length) :
    typedMessageSize t b = .ok (fixedSizeFor t + getU16 b (fixedSizeFor t - 2)) := by
  rcases typedMessageSize_cases t with ⟨-, hs⟩ | ⟨k, -, -, hs⟩ | hs
  · rw [hs, if_neg (Nat.not_lt.mpr hb)]
  · rw [hs] at h
    cases h
  · rw [hs] at h
    cases h

/-- Behind the preamble only the two messages with a name ask for more, and
they do until their length prefix is there. -/
theorem expected_prefixed (a b : Bytes) (h8 : 8 ≤ a.length)
    (h : expectedMessageSize a = .error .needMoreData) :
    a.length < fixedSizeFor (byteAt a kOffsetType) ∧
      (fixedSizeFor (byteAt a kOffsetType) ≤ (a ++ b).length →
        expectedMessageSize (a ++ b) = .ok (fixedSizeFor (byteAt a kOffsetType) +
          getU16 (a ++ b) (fixedSizeFor (byteAt a kOffsetType) - 2))) := by
  rcases expected_behind a b h8 with ⟨st, hst, ha, -⟩ | ⟨ha, hab⟩
  · rw [h] at ha
    cases ha
    exact absurd rfl hst
  · rw [ha] at h
    rw [hab]
    exact ⟨(typedMessageSize_needMore _ a h).1, typedMessageSize_long _ a _ h⟩

theorem typedMessageSize_fixed (t : Byte) (a : Bytes) (n : ℕ) (h : typedMessageSize t a = .ok n) :
    fixedSizeFor t ≤ n := by
  rcases typedMessageSize_cases t with ⟨-, hs⟩ | ⟨k, hk, -, hs⟩ | hs
  · rw [hs] at h
    split_ifs at h
    cases h
    exact Nat.le_add_right _ _
  · rw [hs] at h
    cases h
    exact hk
  · rw [hs] at h
    cases h

theorem expected_fixedSize (a : Bytes) (n : ℕ) (h : expectedMessageSize a = .ok n) :
    fixedSizeFor (byteAt a kOffsetType) ≤ n := by
  unfold expectedMessageSize at h
  split_ifs at h
  exact typedMessageSize_fixed _ a n h

end Sizes

section Stages

variable (f : Framer)

theorem absorb_short (t : ℕ) (rest : Bytes) (hf : f.status = .needMoreData)
    (h : f.judge = .want t) (hlt : f.buffer.length + rest.length < t) :
    (absorb f rest).1.status = .needMoreData ∧ (absorb f rest).2 = rest.length := by
  by_cases hne : rest = []
  · subst hne
    exact ⟨hf, rfl⟩
  · have hrun := absorb_run f t rest [] hf h hne (by omega)
    rw [List.append_nil, judge_extend f t rest h hlt] at hrun
    rw [hrun]
    exact ⟨hf, Nat.zero_add _⟩

/-- The next stage ends at its target: with a verdict, or with the stage after it. -/
theorem absorb_stage (t : ℕ) (rest : Bytes) (hf : f.status = .needMoreData)
    (h : f.judge = .want t) (hle : t ≤ f.buffer.length + rest.length) :
    (∀ st, (f.extend (rest.take (t - f.buffer.length))).judge = .stop st →
      (absorb f rest).1.status = st ∧ (absorb f rest).2 = t - f.buffer.length) ∧
    (∀ t', (f.extend (rest.take (t - f.buffer.length))).judge = .want t' →
      (absorb f rest).1.status = (absorb (f.extend (rest.take (t - f.buffer.length)))
          (rest.drop (t - f.buffer.length))).1.status ∧
        (absorb f rest).2 = t - f.buffer.length +
          (absorb (f.extend (rest.take (t - f.buffer.length)))
            (rest.drop (t - f.buffer.length))).2) := by
  have hlt := (judge_want f t h).1
  have hlen : (rest.take (t - f.buffer.length)).length = t - f.buffer.length := by
    rw [List.length_take]
    omega
  have hne : rest.take (t - f.buffer.length) ≠ [] := List.length_pos_iff.mp (by omega)
  have hrun := absorb_run f t _ (rest.drop (t - f.buffer.length)) hf h hne (by omega)
  rw [List.take_append_drop, hlen] at hrun
  constructor
  · intro st hst
    rw [hrun, hst]
    exact ⟨rfl, rfl⟩
  · intro t' ht'
    rw [hrun, ht']
    exact ⟨rfl, Nat.add_comm _ _⟩

end Stages

section Reference

variable (expected alternate : MessageType) (s : Bytes)

/-- The framer after the bytes it has taken so far. -/
def upTo (n : ℕ) : Framer := (reset expected alternate).extend (s.take n)

theorem upTo_buffer (n : ℕ) : (upTo expected alternate s n).buffer = s.take n := rfl

theorem upTo_extend (n m : ℕ) (h : n ≤ m) :
    (upTo expected alternate s n).extend ((s.drop n).take (m - n)) =
      upTo expected alternate s m := by
  have hm : m = n + (m - n) := by omega
  rw [upTo, extend_extend, upTo]
  congr 1
  conv_rhs => rw [hm, List.take_add]

theorem upTo_typeExpected (n : ℕ) (h8 : 8 ≤ n) :
    (upTo expected alternate s n).typeExpected =
      allowed expected alternate (byteAt s kOffsetType) := by
  have hb : byteAt (s.take n) kOffsetType = byteAt s kOffsetType := by
    have h5 : (5 : ℕ) < n := by omega
    simp [byteAt, List.getD, kOffsetType, h5]
  unfold typeExpected messageType
  rw [upTo_buffer, hb]
  rfl

/-- How framing ends when the first `n` bytes have been taken. -/
def verdictFrom (n : ℕ) : DecodeStatus × ℕ :=
  ((absorb (upTo expected alternate s n) (s.drop n)).1.status,
    n + (absorb (upTo expected alternate s n) (s.drop n)).2)

variable {expected alternate : MessageType} {s : Bytes} {k t : ℕ}

theorem verdict_short (hk : k ≤ s.length)
    (h : (upTo expected alternate s k).judge = .want t) (hlt : s.length < t) :
    verdictFrom expected alternate s k = (.needMoreData, s.length) := by
  have hlen : (upTo expected alternate s k).buffer.length = k := by
    rw [upTo_buffer, List.length_take, Nat.min_eq_left hk]
  have hdrop : (s.drop k).length = s.length - k := List.length_drop
  obtain ⟨hst, hn⟩ := absorb_short _ t (s.drop k) rfl h (by omega)
  rw [verdictFrom, hst, hn, hdrop, Nat.add_sub_cancel' hk]

theorem verdict_stage (hk : k ≤ s.length)
    (h : (upTo expected alternate s k).judge = .want t) (hle : t ≤ s.length) :
    (∀ st, (upTo expected alternate s t).judge = .stop st →
      verdictFrom expected alternate s k = (st, t)) ∧
    (∀ t', (upTo expected alternate s t).judge = .want t' →
      verdictFrom expected alternate s k = verdictFrom expected alternate s t) := by
  have hlen : (upTo expected alternate s k).buffer.length = k := by
    rw [upTo_buffer, List.length_take, Nat.min_eq_left hk]
  have hlt := (judge_want _ t h).1
  rw [hlen] at hlt
  have hdrop : (s.drop k).length = s.length - k := List.length_drop
  obtain ⟨hstop, hwant⟩ := absorb_stage _ t (s.drop k) rfl h (by omega)
  rw [hlen, upTo_extend expected alternate s k t (by omega)] at hstop hwant
  constructor
  · intro st hst
    obtain ⟨h1, h2⟩ := hstop st hst
    rw [verdictFrom, h1, h2, Nat.add_sub_cancel' (by omega)]
  · intro t' ht'
    obtain ⟨h1, h2⟩ := hwant t' ht'
    rw [List.drop_drop, Nat.add_sub_cancel' (by omega)] at h1 h2
    rw [verdictFrom, verdictFrom, h1, h2]
    congr 1
    omega

theorem judge_known (hk : k ≤ s.length) {n : ℕ}
    (hn : expectedMessageSize (s.take k) = .ok n) (hkn : k ≤ n) :
    (upTo expected alternate s k).judge =
      if !allowed expected alternate (byteAt s kOffsetType) then .stop .badType
      else if n > kFramerBufferSize then .stop .badValue
      else if k = n then .stop .ok
      else .want n := by
  have hlen : (s.take k).length = k := by rw [List.length_take, Nat.min_eq_left hk]
  have h8 : 8 ≤ k := by
    have := (expected_ok (s.take k) [] n hn).1
    omega
  rw [judge, upTo_buffer, hn]
  simp only [upTo_typeExpected expected alternate s k h8, aim, upTo_buffer, hlen]
  split_ifs <;> first | rfl | omega

/-- From a point where the size is known, the message is taken to its end. -/
theorem verdict_known (hk : k ≤ s.length) {n : ℕ}
    (hn : expectedMessageSize (s.take k) = .ok n) (hkn : k < n)
    (ht : allowed expected alternate (byteAt s kOffsetType) = true)
    (hb : n ≤ kFramerBufferSize) :
    verdictFrom expected alternate s k =
      if s.length < n then (.needMoreData, s.length) else (.ok, n) := by
  have hj : (upTo expected alternate s k).judge = _ := judge_known hk hn (by omega)
  rw [ht, if_neg (by simp), if_neg (by omega), if_neg (by omega)] at hj
  split_ifs with hlt
  · exact verdict_short hk hj hlt
  · refine (verdict_stage hk hj (by omega)).1 .ok ?_
    have hsplit : s.take n = s.take k ++ (s.drop k).take (n - k) := by
      rw [← List.take_add]
      congr 1
      omega
    have hn' : expectedMessageSize (s.take n) = .ok n := by
      rw [hsplit]
      exact (expected_ok _ _ n hn).2
    rw [judge_known (by omega) hn' (le_refl n), ht, if_neg (by simp), if_neg (by omega),
      if_pos rfl]

theorem take_split (h : k ≤ t) : s.take t = s.take k ++ (s.drop k).take (t - k) := by
  rw [← List.take_add, Nat.add_sub_cancel' h]

theorem expected_at_preamble (a : Bytes) (n : ℕ) (h8 : a.length = 8)
    (h : expectedMessageSize a = .ok n) : n ≤ kFramerBufferSize := by
  unfold expectedMessageSize at h
  split_ifs at h
  rcases typedMessageSize_cases (byteAt a kOffsetType) with ⟨hfix, hs⟩ | ⟨k, -, hk, hs⟩ | hs
  · rw [hs, h8, if_pos hfix] at h
    cases h
  · rw [hs] at h
    cases h
    exact hk
  · rw [hs] at h
    cases h

theorem byteAt_take_type (h8 : 8 ≤ s.length) :
    byteAt (s.take 8) kOffsetType = byteAt s kOffsetType := by
  have hlen : (s.take 8).length = 8 := by rw [List.length_take, Nat.min_eq_left h8]
  have := byteAt_append (s.take 8) (s.drop 8) kOffsetType (by rw [hlen]; decide)
  rwa [List.take_append_drop, eq_comm] at this

theorem judge_named (h8 : 8 ≤ s.length)
    (hn : expectedMessageSize (s.take 8) = .error .needMoreData) :
    (upTo expected alternate s 8).judge =
      if !allowed expected alternate (byteAt s kOffsetType) then .stop .badType
      else .want (fixedSizeFor (byteAt s kOffsetType)) := by
  have hlen : (s.take 8).length = 8 := by rw [List.length_take, Nat.min_eq_left h8]
  have hte := upTo_typeExpected expected alternate s 8 (le_refl 8)
  have hmt : (upTo expected alternate s 8).messageType = byteAt s kOffsetType :=
    byteAt_take_type h8
  obtain ⟨hfix, -⟩ := expected_prefixed (s.take 8) [] (by omega) hn
  rw [byteAt_take_type h8, hlen] at hfix
  rw [judge, upTo_buffer, hn]
  simp only [hlen, hte, hmt, aim, upTo_buffer]
  rw [if_neg (by decide), if_neg (Nat.not_le.mpr hfix)]

/-- A type that is not allowed ends at the preamble, however long the stream. -/
theorem frameOnce_badType (h8 : 8 ≤ s.length)
    (hn : expectedMessageSize (s.take 8) = .error .needMoreData)
    (ht : allowed expected alternate (byteAt s kOffsetType) = false) :
    frameOnce expected alternate s = (.badType, kPreambleSize) := by
  have hlen : (s.take 8).length = 8 := by rw [List.length_take, Nat.min_eq_left h8]
  have hpre : ¬ s.length < kPreambleSize := Nat.not_lt.mpr h8
  rw [frameOnce, if_neg hpre]
  simp only [ht]
  by_cases hshort : s.length < fixedSizeFor (byteAt s kOffsetType)
  · have hs := expected_needMore (s.take 8) (by omega) hn (s.drop 8)
      (by rw [List.take_append_drop, byteAt_take_type h8]; exact hshort)
    rw [List.take_append_drop] at hs
    rw [hs]
    rfl
  · have hs := (expected_prefixed (s.take 8) (s.drop 8) (by omega) hn).2
    rw [List.take_append_drop, byteAt_take_type h8] at hs
    rw [hs (Nat.le_of_not_lt hshort)]
    rfl

/-- Behind the fixed part of a message with a name. -/
theorem verdict_named (h8 : 8 ≤ s.length)
    (hn : expectedMessageSize (s.take 8) = .error .needMoreData)
    (ht : allowed expected alternate (byteAt s kOffsetType) = true) :
    verdictFrom expected alternate s 8 = frameOnce expected alternate s := by
  have hlen : (s.take 8).length = 8 := by rw [List.length_take, Nat.min_eq_left h8]
  have hbyte := byteAt_take_type h8
  have hbounds := fixedSizeFor_bounds (byteAt s kOffsetType)
  have hj : (upTo expected alternate s 8).judge = _ := judge_named h8 hn
  rw [ht, if_neg (by simp)] at hj
  have hpre : ¬ s.length < kPreambleSize := Nat.not_lt.mpr h8
  rw [frameOnce, if_neg hpre]
  by_cases hshort : s.length < fixedSizeFor (byteAt s kOffsetType)
  · have hs : expectedMessageSize s = .error .needMoreData := by
      have := expected_needMore (s.take 8) (by omega) hn (s.drop 8)
        (by rw [List.take_append_drop, hbyte]; exact hshort)
      rwa [List.take_append_drop] at this
    rw [verdict_short h8 hj hshort, hs]
    simp [ht]
  · have hle : fixedSizeFor (byteAt s kOffsetType) ≤ s.length := Nat.le_of_not_lt hshort
    generalize hF : fixedSizeFor (byteAt s kOffsetType) = fixed at hj hle hbounds hshort
    have htake : expectedMessageSize (s.take fixed) =
        .ok (fixed + getU16 (s.take fixed) (fixed - 2)) := by
      have := (expected_prefixed (s.take 8) ((s.drop 8).take (fixed - 8)) (by omega) hn).2
      rw [hbyte, hF, ← take_split (by omega)] at this
      exact this (by rw [List.length_take]; omega)
    generalize fixed + getU16 (s.take fixed) (fixed - 2) = n at htake
    have hs : expectedMessageSize s = .ok n := by
      have := (expected_ok (s.take fixed) (s.drop fixed) n htake).2
      rwa [List.take_append_drop] at this
    have hfn : fixed ≤ n := by
      rw [← hF]
      exact expected_fixedSize s n hs
    obtain ⟨hstop, hwant⟩ := verdict_stage h8 hj hle
    have hknown : (upTo expected alternate s fixed).judge = _ := judge_known hle htake hfn
    rw [ht, if_neg (by simp)] at hknown
    rw [hs]
    simp only [ht, hF]
    rw [if_neg (by simp)]
    by_cases hbig : n > kFramerBufferSize
    · rw [if_pos hbig] at hknown ⊢
      exact hstop _ hknown
    · rw [if_neg hbig] at hknown ⊢
      by_cases heq : fixed = n
      · rw [if_pos heq] at hknown
        rw [hstop _ hknown, if_neg (by omega), heq]
      · rw [if_neg heq] at hknown
        rw [hwant _ hknown]
        exact verdict_known hle htake (by omega) ht (Nat.le_of_not_lt hbig)

/-- The byte machine ends as the reference says. -/
theorem verdict_reference (expected alternate : MessageType) (s : Bytes) :
    verdictFrom expected alternate s 0 = frameOnce expected alternate s := by
  have hj : (upTo expected alternate s 0).judge = .want 8 := rfl
  by_cases h8 : s.length < kPreambleSize
  · rw [verdict_short (Nat.zero_le _) hj h8, frameOnce, if_pos h8]
  · have hle : 8 ≤ s.length := Nat.le_of_not_lt h8
    have hlen : (s.take 8).length = 8 := by rw [List.length_take, Nat.min_eq_left hle]
    have hsplit : s.take 8 ++ s.drop 8 = s := List.take_append_drop 8 s
    obtain ⟨hstop, hwant⟩ := verdict_stage (Nat.zero_le _) hj hle
    cases hn : expectedMessageSize (s.take 8) with
    | ok n =>
      have hs : expectedMessageSize s = .ok n := by
        have := (expected_ok _ (s.drop 8) n hn).2
        rwa [hsplit] at this
      have h8n : 8 ≤ n := (fixedSizeFor_bounds _).1.trans (expected_fixedSize s n hs)
      have hknown : (upTo expected alternate s 8).judge = _ := judge_known hle hn h8n
      rw [frameOnce, if_neg h8, hs]
      dsimp only
      by_cases ht : allowed expected alternate (byteAt s kOffsetType) = true
      · rw [ht, if_neg (by simp)] at hknown ⊢
        have hsmall : ¬ n > kFramerBufferSize :=
          Nat.not_lt.mpr (expected_at_preamble (s.take 8) n hlen hn)
        rw [if_neg hsmall] at hknown ⊢
        by_cases heq : 8 = n
        · rw [if_pos heq] at hknown
          rw [hstop _ hknown, if_neg (by omega), heq]
        · rw [if_neg heq] at hknown
          rw [hwant _ hknown]
          exact verdict_known hle hn (by omega) ht (Nat.le_of_not_lt hsmall)
      · rw [if_pos (by simpa using ht)] at hknown ⊢
        exact hstop _ hknown
    | error st =>
      by_cases hst : st = .needMoreData
      · subst hst
        have hnamed : (upTo expected alternate s 8).judge = _ := judge_named hle hn
        by_cases ht : allowed expected alternate (byteAt s kOffsetType) = true
        · rw [ht, if_neg (by simp)] at hnamed
          rw [hwant _ hnamed]
          exact verdict_named hle hn ht
        · rw [if_pos (by simpa using ht)] at hnamed
          rw [hstop _ hnamed, frameOnce_badType hle hn (by simpa using ht)]
          rfl
      · have hs : expectedMessageSize s = .error st := by
          have := expected_refused _ (s.drop 8) st (by omega) hn hst
          rwa [hsplit] at this
        have hrefused : (upTo expected alternate s 8).judge = .stop st := by
          rw [judge, upTo_buffer, hn]
          cases st with
          | needMoreData => exact absurd rfl hst
          | _ => rfl
        rw [hstop _ hrefused, frameOnce, if_neg h8, hs]
        cases st with
        | needMoreData => exact absurd rfl hst
        | _ => rfl

end Reference

end Framer

end LogTransfer
