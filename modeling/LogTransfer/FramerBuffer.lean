import LogTransfer.FramerReference

/-!
# The framer over its fixed buffer

`FramerBuffer` is the framer with its array of 285 bytes: `reset` sets the
index back and leaves the bytes of the last message where they are. A copy
past the end of the array, or a loop that has not ended when every byte had a
pass of its own, has no result. The guard against a target that does not move
is kept apart from the other verdicts.
-/

set_option autoImplicit false

namespace LogTransfer

structure FramerBuffer where
  buffer : Bytes
  size : ℕ
  expected : MessageType
  alternate : MessageType
  status : DecodeStatus
  whole : buffer.length = kFramerBufferSize

namespace FramerBuffer

def init (expected alternate : MessageType) : FramerBuffer :=
  { buffer := List.replicate kFramerBufferSize 0#8, size := 0, expected := expected,
    alternate := alternate, status := .needMoreData, whole := List.length_replicate }

def reset (f : FramerBuffer) (expected alternate : MessageType) : FramerBuffer :=
  { f with size := 0, expected := expected, alternate := alternate, status := .needMoreData }

def current (f : FramerBuffer) : Bytes := f.buffer.take f.size

def message (f : FramerBuffer) : Bytes := f.current

def messageType (f : FramerBuffer) : Byte := byteAt f.buffer kOffsetType

inductive Turn where
  | stop (status : DecodeStatus)
  | guarded
  | want (target : ℕ)
  deriving DecidableEq, Repr

def aim (f : FramerBuffer) (target : ℕ) : Turn :=
  if target ≤ f.size then .guarded else .want target

def typeRefused (f : FramerBuffer) : Bool :=
  f.size ≥ kPreambleSize && f.messageType ≠ f.expected.code && f.messageType ≠ f.alternate.code

/-- One pass of the loop, up to the copy. -/
def turn (f : FramerBuffer) : Turn :=
  match expectedMessageSize f.current with
  | .ok total =>
    if f.typeRefused then .stop .badType
    else if total > f.buffer.length then .stop .badValue
    else if f.size = total then .stop .ok
    else f.aim total
  | .error .needMoreData =>
    if f.typeRefused then .stop .badType
    else f.aim (if f.size < kPreambleSize then kPreambleSize else Framer.fixedSizeFor f.messageType)
  | .error st => .stop st

theorem overwrite_length (buffer bs : Bytes) (size : ℕ) (h : size + bs.length ≤ buffer.length) :
    (buffer.take size ++ bs ++ buffer.drop (size + bs.length)).length = buffer.length := by
  simp only [List.length_append, List.length_take, List.length_drop]
  omega

/-- `copy_n` behind the bytes collected so far. -/
def copy (f : FramerBuffer) (bs : Bytes) : Option FramerBuffer :=
  if h : f.size + bs.length ≤ f.buffer.length then
    some { f with
      buffer := f.buffer.take f.size ++ bs ++ f.buffer.drop (f.size + bs.length)
      size := f.size + bs.length
      whole := (overwrite_length f.buffer bs f.size h).trans f.whole }
  else none

structure Fed where
  framer : FramerBuffer
  consumed : ℕ
  guarded : Bool

def feedLoop : ℕ → FramerBuffer → Bytes → ℕ → Option Fed
  | 0, _, _, _ => none
  | fuel+1, f, data, consumed =>
    match f.turn with
    | .stop st => some { framer := { f with status := st }, consumed := consumed, guarded := false }
    | .guarded =>
      some { framer := { f with status := .badValue }, consumed := consumed, guarded := true }
    | .want target =>
      if consumed = data.length then
        some { framer := f, consumed := consumed, guarded := false }
      else
        let take := min (target - f.size) (data.length - consumed)
        (f.copy ((data.drop consumed).take take)).bind fun f' =>
          feedLoop fuel f' data (consumed + take)

def feed (f : FramerBuffer) (data : Bytes) : Option Fed :=
  if f.status ≠ .needMoreData then some { framer := f, consumed := 0, guarded := false }
  else feedLoop (data.length + 1) f data 0

/-- A framer after any use: whatever was fed to it, and however it was reset. -/
inductive Used : FramerBuffer → Prop
  | init (expected alternate : MessageType) : Used (init expected alternate)
  | reset {f : FramerBuffer} (expected alternate : MessageType) (h : Used f) :
    Used (f.reset expected alternate)
  | feed {f : FramerBuffer} {r : Fed} (data : Bytes) (h : Used f) (hr : f.feed data = some r) :
    Used r.framer

/-- Chunk after chunk; the bytes consumed are counted together. -/
def feedAll : FramerBuffer → List Bytes → Option Fed
  | f, [] => some { framer := f, consumed := 0, guarded := false }
  | f, chunk::chunks =>
    (f.feed chunk).bind fun r =>
      (feedAll r.framer chunks).map fun rest =>
        { framer := rest.framer, consumed := r.consumed + rest.consumed,
          guarded := r.guarded || rest.guarded }

/-- What the framer holds, without the stale bytes behind it. -/
def live (f : FramerBuffer) : Framer :=
  { buffer := f.current, expected := f.expected, alternate := f.alternate, status := f.status }

section Live

variable {f f' : FramerBuffer}

theorem live_length (hs : f.size ≤ kFramerBufferSize) : f.live.buffer.length = f.size := by
  have hw := f.whole
  change (f.buffer.take f.size).length = f.size
  rw [List.length_take]
  omega

theorem live_reset (f : FramerBuffer) (expected alternate : MessageType) :
    (f.reset expected alternate).live = Framer.reset expected alternate := rfl

theorem live_type (h8 : kPreambleSize ≤ f.size) : f.live.messageType = f.messageType := by
  have h5 : (5 : ℕ) < f.size := lt_of_lt_of_le (by decide) h8
  change byteAt (f.buffer.take f.size) kOffsetType = byteAt f.buffer kOffsetType
  simp [byteAt, List.getD, kOffsetType, h5]

theorem live_refused (h8 : kPreambleSize ≤ f.size) : f.typeRefused = !f.live.typeExpected := by
  have hexp : f.live.expected = f.expected := rfl
  have halt : f.live.alternate = f.alternate := rfl
  unfold typeRefused Framer.typeExpected
  rw [live_type h8, hexp, halt, decide_eq_true h8]
  by_cases h1 : f.messageType = f.expected.code
  · simp [h1]
  · simp [h1]

def Turn.verdict : Turn → Framer.Verdict
  | .stop st => .stop st
  | .guarded => .stop .badValue
  | .want target => .want target

theorem aim_verdict (hs : f.size ≤ kFramerBufferSize) (target : ℕ) :
    (f.aim target).verdict = f.live.aim target := by
  unfold aim Framer.aim
  rw [live_length hs]
  split <;> rfl

/-- The stale bytes have no say in a pass. -/
theorem turn_verdict (hs : f.size ≤ kFramerBufferSize) : f.turn.verdict = f.live.judge := by
  have hlen := live_length hs
  have hw := f.whole
  have hcur : f.live.buffer = f.current := rfl
  unfold turn Framer.judge
  rw [hcur]
  cases he : expectedMessageSize f.current with
  | ok total =>
    have h8 : kPreambleSize ≤ f.size := by
      have := (Framer.expected_ok f.current [] total he).1
      rw [← hcur, hlen] at this
      exact this
    rw [← hcur, hlen, hw, live_refused h8]
    dsimp only
    split_ifs <;> first | rfl | exact aim_verdict hs total
  | error st =>
    cases st with
    | needMoreData =>
      rw [← hcur, hlen]
      dsimp only
      by_cases h8 : f.size < kPreambleSize
      · have hno : f.typeRefused = false := by
          unfold typeRefused
          rw [decide_eq_false (Nat.not_le.mpr h8)]
          rfl
        rw [hno, if_pos h8, if_pos h8]
        exact aim_verdict hs _
      · rw [live_refused (Nat.le_of_not_lt h8), if_neg h8, if_neg h8,
          live_type (Nat.le_of_not_lt h8)]
        split
        · rfl
        · exact aim_verdict hs _
    | _ => rfl

theorem turn_want (hs : f.size ≤ kFramerBufferSize) (t : ℕ) (h : f.turn = .want t) :
    f.live.judge = .want t := by
  rw [← turn_verdict hs, h]
  rfl

theorem copy_live (bs : Bytes) (h : f.copy bs = some f') :
    f'.live = f.live.extend bs ∧ f'.size = f.size + bs.length ∧ f'.size ≤ kFramerBufferSize := by
  unfold copy at h
  split at h
  · rename_i hfit
    cases h
    refine ⟨?_, rfl, by rw [← f.whole]; exact hfit⟩
    have hlen : (f.buffer.take f.size ++ bs).length = f.size + bs.length := by
      rw [List.length_append, List.length_take]
      omega
    have htake : (f.buffer.take f.size ++ bs ++ f.buffer.drop (f.size + bs.length)).take
        (f.size + bs.length) = f.buffer.take f.size ++ bs := List.take_left' hlen
    unfold live current Framer.extend
    rw [htake]
  · cases h

end Live

section Guard

variable {f f' : FramerBuffer}

/-- The guard needs a message that is already longer than its size. -/
theorem guarded_overfull (hs : f.size ≤ kFramerBufferSize) (h : f.turn = .guarded) :
    ∃ total, expectedMessageSize f.current = .ok total ∧ total < f.size := by
  have hlen := live_length hs
  have hcur : f.live.buffer = f.current := rfl
  unfold turn aim at h
  split at h
  · rename_i total he
    split_ifs at h with h1 h2 h3 h4
    exact ⟨total, he, by omega⟩
  · rename_i he
    split_ifs at h with h1 h2 h3 h4
    · omega
    · have h8 : 8 ≤ f.size := Nat.le_of_not_lt h2
      obtain ⟨hlt, -⟩ := Framer.expected_prefixed f.current [] (by rw [← hcur, hlen]; exact h8) he
      have ht : byteAt f.current kOffsetType = f.messageType := live_type h8
      rw [ht, ← hcur, hlen] at hlt
      omega
  · cases h

/-- Bytes up to the target never make a message overfull. -/
theorem copy_unguarded (hs : f.size ≤ kFramerBufferSize) (t : ℕ) (h : f.turn = .want t)
    (bs : Bytes) (hc : f.copy bs = some f') (hle : f.size + bs.length ≤ t) :
    f'.turn ≠ .guarded := by
  intro hg
  obtain ⟨hlive, hsize, hs'⟩ := copy_live bs hc
  obtain ⟨total, he, hgone⟩ := guarded_overfull hs' hg
  have hcur : f'.current = f.current ++ bs := congrArg Framer.buffer hlive
  have hmin := Framer.expected_fixedSize _ total he
  rw [hcur] at he hmin
  have hlen := live_length hs
  obtain ⟨hlt, ⟨h8, rfl⟩ | ⟨h8, -, ht, hn⟩ | ⟨-, -, hn⟩⟩ := Framer.judge_want _ t (turn_want hs t h)
  · have := (Framer.fixedSizeFor_bounds (byteAt (f.current ++ bs) kOffsetType)).1
    omega
  · have hty := (Framer.preamble_append f.live.buffer bs h8).2.2
    have hfix : t = Framer.fixedSizeFor (byteAt (f.current ++ bs) kOffsetType) := by
      rw [ht]
      exact congrArg Framer.fixedSizeFor hty.symm
    omega
  · have := (Framer.expected_ok _ bs t hn).2
    rw [show f.live.buffer = f.current from rfl, he] at this
    cases this
    omega

theorem want_bound (hs : f.size ≤ kFramerBufferSize) (t : ℕ) (h : f.turn = .want t) :
    t ≤ kFramerBufferSize := by
  obtain ⟨-, ⟨-, rfl⟩ | ⟨-, -, rfl, -⟩ | ⟨-, hb, -⟩⟩ := Framer.judge_want _ t (turn_want hs t h)
  · decide
  · exact (Framer.fixedSizeFor_bounds _).2.trans (by decide)
  · exact hb

end Guard

section Feed

variable {f : FramerBuffer}

/-- The index stays within the array, and a framer that still collects can
always name a target ahead of it. -/
structure Sound (f : FramerBuffer) : Prop where
  size : f.size ≤ kFramerBufferSize
  settled : f.live.Settled
  ahead : f.status = .needMoreData → f.turn ≠ .guarded

theorem sound_reset (f : FramerBuffer) (expected alternate : MessageType) :
    (f.reset expected alternate).Sound := by
  refine ⟨Nat.zero_le _, Framer.settled_reset expected alternate, ?_⟩
  intro _ hg
  obtain ⟨total, he, -⟩ := guarded_overfull (Nat.zero_le _) hg
  cases he

/-- What a feed of the array does to the bytes that count. -/
structure Simulates (g : Framer × ℕ) (r : Fed) : Prop where
  live : r.framer.live = g.1
  consumed : r.consumed = g.2
  unguarded : r.guarded = false
  size : r.framer.size ≤ kFramerBufferSize
  ahead : r.framer.status = .needMoreData → r.framer.turn ≠ .guarded

theorem feedLoop_live (fuel : ℕ) (f : FramerBuffer) (data : Bytes) (c : ℕ)
    (hs : f.size ≤ kFramerBufferSize) (hg : f.turn ≠ .guarded)
    (hc : c ≤ data.length) (hfuel : data.length - c < fuel) :
    ∃ r, feedLoop fuel f data c = some r ∧
      Simulates (Framer.feedLoop fuel f.live (data.drop c) c) r := by
  induction fuel generalizing f c with
  | zero => omega
  | succ fuel ih =>
    have hverdict := turn_verdict hs
    have hdrop : (data.drop c).length = data.length - c := List.length_drop
    rw [feedLoop, Framer.feedLoop, ← hverdict]
    cases ht : f.turn with
    | guarded => exact absurd ht hg
    | stop st =>
      refine ⟨_, rfl, rfl, rfl, rfl, hs, ?_⟩
      intro hst
      have hn := Framer.judge_stop_status f.live st (by rw [← hverdict, ht]; rfl)
      exact absurd hst hn
    | want t =>
      by_cases hend : c = data.length
      · have hempty : (data.drop c).isEmpty = true := by simp [hend]
        simp only [if_pos hend, Turn.verdict, hempty]
        exact ⟨_, rfl, rfl, rfl, rfl, hs, fun _ => by rw [ht]; exact Turn.noConfusion⟩
      · have hempty : (data.drop c).isEmpty = false := by simp; omega
        have hlt := (Framer.judge_want _ t (turn_want hs t ht)).1
        rw [live_length hs] at hlt
        have hbound := want_bound hs t ht
        simp only [if_neg hend, Turn.verdict, hempty, live_length hs, hdrop]
        generalize hk : min (t - f.size) (data.length - c) = k
        have hpos : 0 < k := by omega
        have hlen : ((data.drop c).take k).length = k := by
          rw [List.length_take, hdrop]
          omega
        have hw := f.whole
        obtain ⟨f', hf'⟩ : ∃ f', f.copy ((data.drop c).take k) = some f' := by
          unfold copy
          rw [dif_pos (by omega)]
          exact ⟨_, rfl⟩
        obtain ⟨hlive, hsize, hs'⟩ := copy_live _ hf'
        have hg' := copy_unguarded hs t ht _ hf' (by omega)
        obtain ⟨r, hr, hsim⟩ := ih f' (c + k) hs' hg' (by omega) (by omega)
        rw [hf', Option.bind_some]
        refine ⟨r, hr, ?_⟩
        rw [hlive, ← List.drop_drop] at hsim
        exact hsim

/-- The array framer does what the framer of the model does, and keeps sound. -/
theorem feed_live (f : FramerBuffer) (data : Bytes) (h : f.Sound) :
    ∃ r, f.feed data = some r ∧ r.framer.Sound ∧ Simulates (f.live.absorb data) r := by
  have hfeed := Framer.feed_eq_absorb f.live data h.settled
  have hset := Framer.settled_absorb f.live data h.settled
  by_cases hst : f.status = .needMoreData
  · obtain ⟨r, hr, hsim⟩ := feedLoop_live (data.length + 1) f data 0 h.size (h.ahead hst)
      (Nat.zero_le _) (by omega)
    have hloop : Framer.feedLoop (data.length + 1) f.live (data.drop 0) 0 = f.live.absorb data := by
      rw [← hfeed, Framer.feed, if_neg (by simp [live, hst])]
      rfl
    rw [hloop] at hsim
    refine ⟨r, by rw [feed, if_neg (by simp [hst]), hr], ⟨hsim.size, ?_, hsim.ahead⟩, hsim⟩
    rw [hsim.live]
    exact hset
  · have habs : f.live.absorb data = (f.live, 0) := Framer.absorb_settled f.live data hst
    refine ⟨_, by rw [feed, if_pos hst], h, ?_⟩
    rw [habs]
    exact ⟨rfl, rfl, rfl, h.size, fun h' => absurd h' hst⟩

theorem used_sound (h : Used f) : f.Sound := by
  induction h with
  | init expected alternate => exact sound_reset (init expected alternate) expected alternate
  | reset expected alternate _ _ => exact sound_reset _ expected alternate
  | feed data _ hr ih =>
    obtain ⟨r', hr', hs, -⟩ := feed_live _ data ih
    rw [hr] at hr'
    cases hr'
    exact hs

theorem feedAll_live (chunks : List Bytes) (f : FramerBuffer) (h : f.Sound) :
    ∃ r, f.feedAll chunks = some r ∧ Simulates (f.live.absorb chunks.flatten) r := by
  induction chunks generalizing f with
  | nil => exact ⟨_, rfl, rfl, rfl, rfl, h.size, h.ahead⟩
  | cons chunk chunks ih =>
    obtain ⟨r, hr, hs, hsim⟩ := feed_live f chunk h
    obtain ⟨r', hr', hsim'⟩ := ih r.framer hs
    rw [hsim.live] at hsim'
    rw [feedAll, hr, Option.bind_some, hr', Option.map_some]
    refine ⟨_, rfl, ?_, ?_, ?_, hsim'.size, hsim'.ahead⟩
    · rw [hsim'.live, List.flatten_cons, Framer.absorb_append]
      split_ifs with hst
      · rfl
      · rw [Framer.absorb_settled _ _ hst]
    · simp only [hsim.consumed, hsim'.consumed, List.flatten_cons, Framer.absorb_append]
      split_ifs with hst
      · rfl
      · rw [Framer.absorb_settled _ _ hst]
        rfl
    · simp only [hsim.unguarded, hsim'.unguarded, Bool.or_self]

end Feed

end FramerBuffer

end LogTransfer
