import LogTransfer.Crc32
import Mathlib.Data.List.TakeWhile

/-!
# Line reassembly

`feed` walks a chunk from newline to newline and keeps the unfinished tail.
`eat` is the same machine for one byte. The tail never grows past the limit,
so an over-long line is reported once and the rest of it is dropped.
-/

set_option autoImplicit false

namespace LogTransfer

def bytesOf (s : String) : Bytes := s.toList.map fun c => BitVec.ofNat 8 c.toNat

def newline : Byte := 0x0A#8
def carriageReturn : Byte := 0x0D#8

def kMaxLineLength : ℕ := 64 * 1024

structure Line where
  text : Bytes
  offset : ℕ
  tooLong : Bool
  deriving DecidableEq, Repr

structure LineReassembler where
  fragment : Bytes
  streamOffset : ℕ
  lineStart : ℕ
  discarding : Bool
  deriving DecidableEq, Repr

namespace LineReassembler

def reset : LineReassembler :=
  { fragment := [], streamOffset := 0, lineStart := 0, discarding := false }

def emitLine (text : Bytes) (offset : ℕ) (tooLong : Bool) : Line :=
  if !tooLong && text.getLast? = some carriageReturn then
    { text := text.dropLast, offset := offset, tooLong := tooLong }
  else { text := text, offset := offset, tooLong := tooLong }

def appendTail (maxLen : ℕ) (r : LineReassembler) (tail : Bytes) :
    LineReassembler × List Line :=
  if r.fragment.length + tail.length > maxLen then
    let keep := maxLen - r.fragment.length
    ({ r with fragment := [], discarding := true },
      [emitLine (r.fragment ++ tail.take keep) r.lineStart true])
  else ({ r with fragment := r.fragment ++ tail }, [])

/-- The branch of `feed` for a piece that ends at a newline. -/
def closeLine (maxLen : ℕ) (r : LineReassembler) (piece : Bytes) : Line :=
  if r.fragment.isEmpty then
    if piece.length > maxLen then emitLine (piece.take maxLen) r.lineStart true
    else emitLine piece r.lineStart false
  else if r.fragment.length + piece.length > maxLen then
    emitLine (r.fragment ++ piece.take (maxLen - r.fragment.length)) r.lineStart true
  else emitLine (r.fragment ++ piece) r.lineStart false

-- `base + pos` is the stream position of the first byte of `rest`; the fuel is
-- the number of bytes left plus one, as every pass drops at least a newline.
def feedLoop (maxLen : ℕ) : ℕ → LineReassembler → ℕ → Bytes → LineReassembler × List Line
  | 0, r, _, _ => (r, [])
  | fuel+1, r, pos, rest =>
    if rest.isEmpty then (r, [])
    else
      let piece := rest.takeWhile (· ≠ newline)
      let after := rest.dropWhile (· ≠ newline)
      if r.discarding then
        if after.isEmpty then (r, [])
        else feedLoop maxLen fuel
          { r with discarding := false, lineStart := pos + piece.length + 1 }
          (pos + piece.length + 1) after.tail
      else if after.isEmpty then appendTail maxLen r rest
      else
        let next := feedLoop maxLen fuel
          { r with fragment := [], lineStart := pos + piece.length + 1 }
          (pos + piece.length + 1) after.tail
        (next.1, closeLine maxLen r piece :: next.2)

def feed (maxLen : ℕ) (r : LineReassembler) (chunk : Bytes) : LineReassembler × List Line :=
  let next := feedLoop maxLen (chunk.length + 1) r r.streamOffset chunk
  ({ next.1 with streamOffset := r.streamOffset + chunk.length }, next.2)

def finish (r : LineReassembler) : LineReassembler × List Line :=
  ({ r with fragment := [], discarding := false },
    if !r.discarding && !r.fragment.isEmpty then [emitLine r.fragment r.lineStart false] else [])

def eat (maxLen : ℕ) (r : LineReassembler) (b : Byte) : LineReassembler × List Line :=
  if r.discarding then
    if b = newline then
      ({ r with discarding := false, streamOffset := r.streamOffset + 1,
                lineStart := r.streamOffset + 1 }, [])
    else ({ r with streamOffset := r.streamOffset + 1 }, [])
  else if b = newline then
    ({ r with fragment := [], streamOffset := r.streamOffset + 1,
              lineStart := r.streamOffset + 1 }, [emitLine r.fragment r.lineStart false])
  else if r.fragment.length < maxLen then
    ({ r with fragment := r.fragment ++ [b], streamOffset := r.streamOffset + 1 }, [])
  else
    ({ r with fragment := [], discarding := true, streamOffset := r.streamOffset + 1 },
      [emitLine r.fragment r.lineStart true])

def eatAll (maxLen : ℕ) : LineReassembler → Bytes → LineReassembler × List Line
  | r, [] => (r, [])
  | r, b::bs =>
    let first := eat maxLen r b
    let rest := eatAll maxLen first.1 bs
    (rest.1, first.2 ++ rest.2)

theorem eatAll_append (maxLen : ℕ) (r : LineReassembler) (a b : Bytes) :
    eatAll maxLen r (a ++ b) =
      ((eatAll maxLen (eatAll maxLen r a).1 b).1,
        (eatAll maxLen r a).2 ++ (eatAll maxLen (eatAll maxLen r a).1 b).2) := by
  induction a generalizing r with
  | nil => rfl
  | cons x a ih => simp [eatAll, ih]

def Bounded (maxLen : ℕ) (r : LineReassembler) : Prop :=
  r.fragment.length ≤ maxLen ∧ (r.discarding → r.fragment = [])

theorem bounded_reset (maxLen : ℕ) : Bounded maxLen reset := by
  simp [Bounded, reset]

theorem bounded_eat (maxLen : ℕ) (r : LineReassembler) (b : Byte) (h : Bounded maxLen r) :
    Bounded maxLen (eat maxLen r b).1 := by
  obtain ⟨hl, hd⟩ := h
  unfold eat
  split_ifs with h1 h2 h3 h4
  · exact ⟨hl, by simp⟩
  · exact ⟨hl, hd⟩
  · simp [Bounded]
  · refine ⟨by simp; omega, by simp [h1]⟩
  · simp [Bounded]

theorem bounded_eatAll (maxLen : ℕ) (r : LineReassembler) (bs : Bytes) (h : Bounded maxLen r) :
    Bounded maxLen (eatAll maxLen r bs).1 := by
  induction bs generalizing r with
  | nil => exact h
  | cons b bs ih => exact ih _ (bounded_eat maxLen r b h)

theorem eatAll_discarding (maxLen : ℕ) (r : LineReassembler) (piece : Bytes)
    (hd : r.discarding = true) (hp : ∀ b ∈ piece, b ≠ newline) :
    eatAll maxLen r piece = ({ r with streamOffset := r.streamOffset + piece.length }, []) := by
  induction piece generalizing r with
  | nil => rfl
  | cons b bs ih =>
    have hb : b ≠ newline := hp b (by simp)
    have he : eat maxLen r b = ({ r with streamOffset := r.streamOffset + 1 }, []) := by
      simp [eat, hd, hb]
    have ht := ih { r with streamOffset := r.streamOffset + 1 } hd
      (fun c hc => hp c (by simp [hc]))
    simp only [eatAll, he, ht, List.length_cons, List.append_nil]
    rw [Nat.add_assoc, Nat.add_comm 1 bs.length]

/-- A piece without a newline either extends the fragment or, past the limit,
is reported once as its first `maxLen` bytes. -/
theorem eatAll_piece (maxLen : ℕ) (r : LineReassembler) (piece : Bytes)
    (hd : r.discarding = false) (hl : r.fragment.length ≤ maxLen)
    (hp : ∀ b ∈ piece, b ≠ newline) :
    eatAll maxLen r piece =
      ({ (appendTail maxLen r piece).1 with streamOffset := r.streamOffset + piece.length },
        (appendTail maxLen r piece).2) := by
  induction piece generalizing r with
  | nil =>
    have h : ¬ r.fragment.length > maxLen := by omega
    simp only [eatAll, appendTail, List.length_nil, Nat.add_zero, if_neg h, List.append_nil]
  | cons b bs ih =>
    have hb : b ≠ newline := hp b (by simp)
    have hbs : ∀ c ∈ bs, c ≠ newline := fun c hc => hp c (by simp [hc])
    have hsum : r.streamOffset + (bs.length + 1) = r.streamOffset + 1 + bs.length := by omega
    by_cases hm : r.fragment.length < maxLen
    · have he : eat maxLen r b =
          ({ r with fragment := r.fragment ++ [b], streamOffset := r.streamOffset + 1 }, []) := by
        simp [eat, hd, hb, hm]
      have hk : maxLen - r.fragment.length = (maxLen - (r.fragment.length + 1)) + 1 := by omega
      have ht := ih { r with fragment := r.fragment ++ [b], streamOffset := r.streamOffset + 1 }
        hd (by simp; omega) hbs
      simp only [eatAll, he, ht, appendTail, List.length_append, List.length_cons,
        List.length_nil, List.nil_append, Nat.zero_add, hsum]
      by_cases ho : r.fragment.length + 1 + bs.length > maxLen
      · have ho' : r.fragment.length + (bs.length + 1) > maxLen := by omega
        simp only [if_pos ho, if_pos ho', hk, List.take_succ_cons, List.append_assoc,
          List.singleton_append]
      · have ho' : ¬ r.fragment.length + (bs.length + 1) > maxLen := by omega
        simp only [if_neg ho, if_neg ho', List.append_assoc, List.singleton_append]
    · have hk : maxLen - r.fragment.length = 0 := by omega
      have he : eat maxLen r b =
          ({ r with fragment := [], discarding := true, streamOffset := r.streamOffset + 1 },
            [emitLine r.fragment r.lineStart true]) := by
        simp [eat, hd, hb, hm]
      have ht := eatAll_discarding maxLen
        { r with fragment := [], discarding := true, streamOffset := r.streamOffset + 1 }
        bs rfl hbs
      have ho : r.fragment.length + (bs.length + 1) > maxLen := by omega
      simp only [eatAll, he, ht, appendTail, List.length_cons, if_pos ho, hk, List.take_zero,
        List.append_nil, hsum]

theorem eatAll_line (maxLen : ℕ) (r : LineReassembler) (piece : Bytes)
    (hd : r.discarding = false) (hl : r.fragment.length ≤ maxLen)
    (hp : ∀ b ∈ piece, b ≠ newline) :
    eatAll maxLen r (piece ++ [newline]) =
      ({ r with fragment := [], streamOffset := r.streamOffset + piece.length + 1,
                lineStart := r.streamOffset + piece.length + 1 },
        [closeLine maxLen r piece]) := by
  rw [eatAll_append, eatAll_piece maxLen r piece hd hl hp]
  by_cases ho : r.fragment.length + piece.length > maxLen
  · simp only [appendTail, if_pos ho, eatAll, eat, if_true, List.append_nil, closeLine]
    by_cases hf : r.fragment = []
    · simp only [hf, List.length_nil, Nat.zero_add] at ho
      simp [hf, ho, hd]
    · simp [List.isEmpty_iff, hf, hd]
  · simp only [appendTail, if_neg ho, eatAll, eat, hd, Bool.false_eq_true, if_false, if_true,
      List.nil_append, List.append_nil, closeLine]
    by_cases hf : r.fragment = []
    · simp only [hf, List.length_nil, Nat.zero_add] at ho
      simp [hf, ho]
    · simp [List.isEmpty_iff, hf]

theorem eatAll_skip (maxLen : ℕ) (r : LineReassembler) (piece : Bytes)
    (hd : r.discarding = true) (hp : ∀ b ∈ piece, b ≠ newline) :
    eatAll maxLen r (piece ++ [newline]) =
      ({ r with discarding := false, streamOffset := r.streamOffset + piece.length + 1,
                lineStart := r.streamOffset + piece.length + 1 }, []) := by
  rw [eatAll_append, eatAll_discarding maxLen r piece hd hp]
  simp [eatAll, eat, hd]

theorem takeWhile_ne_newline (rest : Bytes) :
    ∀ b ∈ rest.takeWhile (· ≠ newline), b ≠ newline := by
  intro b hb
  simpa using List.mem_takeWhile_imp hb

theorem rest_cut (rest : Bytes) (h : rest.dropWhile (· ≠ newline) ≠ []) :
    rest = (rest.takeWhile (· ≠ newline) ++ [newline]) ++
      (rest.dropWhile (· ≠ newline)).tail := by
  have hh : (rest.dropWhile (· ≠ newline)).head h = newline := by
    simpa using List.head_dropWhile_not (fun b => decide (b ≠ newline)) h
  have hc : rest.dropWhile (· ≠ newline) =
      newline :: (rest.dropWhile (· ≠ newline)).tail := by
    conv_lhs => rw [← List.cons_head_tail h, hh]
  rw [List.append_assoc, List.singleton_append, ← hc, List.takeWhile_append_dropWhile]

theorem takeWhile_whole (rest : Bytes) (h : rest.dropWhile (· ≠ newline) = []) :
    rest.takeWhile (· ≠ newline) = rest := by
  have hc := List.takeWhile_append_dropWhile (p := fun b => decide (b ≠ newline)) (l := rest)
  rwa [h, List.append_nil] at hc

theorem feedLoop_eatAll (maxLen fuel : ℕ) (r : LineReassembler) (pos : ℕ) (rest : Bytes)
    (hf : rest.length < fuel) (hb : Bounded maxLen r) :
    ({ (feedLoop maxLen fuel r pos rest).1 with streamOffset := pos + rest.length },
      (feedLoop maxLen fuel r pos rest).2) =
      eatAll maxLen { r with streamOffset := pos } rest := by
  induction fuel generalizing r pos rest with
  | zero => omega
  | succ fuel ih =>
    by_cases he : rest = []
    · subst he
      rfl
    have hne : rest.isEmpty = false := by simp [he]
    have hp := takeWhile_ne_newline rest
    by_cases ha : rest.dropWhile (· ≠ newline) = []
    · rw [takeWhile_whole rest ha] at hp
      by_cases hd : r.discarding = true
      · rw [eatAll_discarding maxLen { r with streamOffset := pos } rest hd hp]
        simp only [feedLoop, hne, ha, List.isEmpty_nil, hd, Bool.false_eq_true, if_false, if_true]
      · have hd' : r.discarding = false := by simpa using hd
        rw [eatAll_piece maxLen { r with streamOffset := pos } rest hd' hb.1 hp]
        simp only [feedLoop, hne, ha, List.isEmpty_nil, hd, Bool.false_eq_true, if_false, if_true,
          appendTail]
        split <;> rfl
    · have hcut := rest_cut rest ha
      have hae : (rest.dropWhile (· ≠ newline)).isEmpty = false := by simpa using ha
      have hlen := congrArg List.length hcut
      simp only [List.length_append, List.length_cons, List.length_nil, Nat.zero_add] at hlen
      have hsum : pos + rest.length = pos + (rest.takeWhile (· ≠ newline)).length + 1 +
        (rest.dropWhile (· ≠ newline)).tail.length := by omega
      conv_rhs => rw [hcut, eatAll_append]
      rw [hsum]
      by_cases hd : r.discarding = true
      · have hr := ih { r with discarding := false,
                               lineStart := pos + (rest.takeWhile (· ≠ newline)).length + 1 }
          (pos + (rest.takeWhile (· ≠ newline)).length + 1)
          (rest.dropWhile (· ≠ newline)).tail (by omega) ⟨hb.1, by simp⟩
        rw [eatAll_skip maxLen { r with streamOffset := pos } _ hd hp, ← hr]
        simp only [feedLoop, hne, hae, hd, Bool.false_eq_true, if_false, if_true, List.nil_append]
      · have hd' : r.discarding = false := by simpa using hd
        have hr := ih { r with fragment := [],
                               lineStart := pos + (rest.takeWhile (· ≠ newline)).length + 1 }
          (pos + (rest.takeWhile (· ≠ newline)).length + 1)
          (rest.dropWhile (· ≠ newline)).tail (by omega) ⟨by simp, by simp⟩
        rw [eatAll_line maxLen { r with streamOffset := pos } _ hd' hb.1 hp, ← hr]
        simp only [feedLoop, hne, hae, hd, Bool.false_eq_true, if_false, List.singleton_append]
        rfl

theorem feed_eq_eatAll (maxLen : ℕ) (r : LineReassembler) (chunk : Bytes)
    (hb : Bounded maxLen r) : feed maxLen r chunk = eatAll maxLen r chunk :=
  feedLoop_eatAll maxLen (chunk.length + 1) r r.streamOffset chunk (Nat.lt_succ_self _) hb

theorem bounded_feed (maxLen : ℕ) (r : LineReassembler) (chunk : Bytes)
    (hb : Bounded maxLen r) : Bounded maxLen (feed maxLen r chunk).1 := by
  rw [feed_eq_eatAll maxLen r chunk hb]
  exact bounded_eatAll maxLen r chunk hb

/-- The lines and the state do not depend on where the stream is cut. -/
theorem feed_append (maxLen : ℕ) (r : LineReassembler) (a b : Bytes)
    (hb : Bounded maxLen r) :
    feed maxLen r (a ++ b) =
      ((feed maxLen (feed maxLen r a).1 b).1,
        (feed maxLen r a).2 ++ (feed maxLen (feed maxLen r a).1 b).2) := by
  have ha := bounded_feed maxLen r a hb
  rw [feed_eq_eatAll maxLen r (a ++ b) hb, feed_eq_eatAll maxLen _ b ha,
    feed_eq_eatAll maxLen r a hb, eatAll_append]

end LineReassembler

end LogTransfer
