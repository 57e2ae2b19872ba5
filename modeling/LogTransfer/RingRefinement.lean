import LogTransfer.RingInvariant

/-!
# The ring refines a bounded FIFO queue

Beside the queue itself, every answer of the ring is right about it at the
access that decides the answer, and a call never waits for the other thread.
-/

set_option autoImplicit false

namespace LogTransfer

namespace SpscRingBuffer

section Answers

variable {k : ℕ} {s s' : SpscRingBuffer} {e : Event}

/-- A call under way can always make its next access. -/
theorem call_continues (hi : Inv k s) :
    (s.producer ≠ .idle → s.producerStep ≠ none) ∧
      (s.consumer ≠ .idle → s.consumerStep ≠ none) := by
  have hcall := hi.calling
  have hserve := hi.serving
  constructor
  · intro hp
    unfold producerStep
    cases hc : s.producer with
    | idle => exact absurd hc hp
    | tryAcquire tail =>
      dsimp only
      split_ifs <;> simp
    | publish tail size =>
      rw [hc] at hcall
      simpa using hcall.2.1
    | _ => simp
  · intro hp
    unfold consumerStep
    cases hc : s.consumer with
    | idle => exact absurd hc hp
    | tryPeek head =>
      dsimp only
      split_ifs <;> simp
    | release head =>
      rw [hc] at hserve
      simpa using hserve.2
    | _ => simp

/-- Every slot lies within the storage. -/
theorem slot_within (hi : Inv k s) (i : ℕ) : s.offset i + s.slotSize ≤ s.storage.length := by
  have hlt := Nat.mod_lt i hi.slots
  have := Nat.mul_le_mul_right s.slotSize hlt
  rw [Nat.succ_mul] at this
  rw [hi.storage, offset]
  exact this

theorem chunk_whole (hi : Inv k s) (i : ℕ) (hsize : s.sizeAt i ≤ s.slotSize) :
    (s.chunkAt i).1.length = (s.chunkAt i).2 := by
  have := slot_within hi i
  change ((s.storage.drop (s.offset i)).take (s.sizeAt i)).length = s.sizeAt i
  rw [List.length_take, List.length_drop]
  omega

theorem queue_head (h : s.head < s.tail) : s.queue.head? = some (s.chunkAt s.head) := by
  rw [queue_cons h]
  rfl

/-- What an answer says of the queue at the access that decides it. -/
def Answers (s : SpscRingBuffer) : Event → Prop
  | .quiet => True
  | .acquired none => s.queue.length = s.slotCount
  | .acquired (some _) => s.queue.length < s.slotCount
  | .committed chunk => chunk.1.length = chunk.2 ∧ chunk.2 ≤ s.slotSize
  | .full answer => answer = true ↔ s.queue.length = s.slotCount
  | .peeked none => s.queue = []
  | .peeked (some chunk) => s.queue.head? = some chunk
  | .read i b => ∃ chunk, s.queue.head? = some chunk ∧ chunk.1[i]? = some b
  | .released chunk => s.queue.head? = some chunk
  | .empty answer => answer = true ↔ s.queue = []

theorem queue_nil_iff (hi : Inv k s) : s.queue = [] ↔ s.tail = s.head := by
  have horder := hi.order
  rw [← List.length_eq_zero_iff, queue_length]
  omega

theorem producer_answers (hi : Inv k s) (h : s.producerStep = some (s', e)) : s.Answers e := by
  have hcall := hi.calling
  have hroom := hi.room
  have hdist : distance s.tail s.head = s.queue.length := by
    rw [queue_length, distance_eq _ _ hi.order (by rw [hi.tail]; exact hi.range)]
  unfold producerStep at h
  split at h
  · cases h
  · rename_i tail hp
    rw [hp] at hcall
    obtain ⟨rfl, -⟩ := hcall
    split_ifs at h with hfull
    · cases h
      exact hdist.symm.trans hfull
    · cases h
      rw [hdist] at hfull
      exact lt_of_le_of_ne (by rw [queue_length]; exact hroom) hfull
  · cases h
    trivial
  · rename_i tail size hp
    rw [hp] at hcall
    obtain ⟨rfl, -, hsize, hstored⟩ := hcall
    obtain ⟨slot, hslot, heq⟩ := Option.map_eq_some_iff.mp h
    cases heq
    obtain ⟨hdata, -, -⟩ := hi.writer slot hslot
    have hwhole := chunk_whole hi s.tail (hstored.trans_le hsize)
    rw [chunkAt, hstored, ← hdata] at hwhole
    exact ⟨hwhole, hsize⟩
  · rename_i tail hp
    rw [hp] at hcall
    cases hcall
    cases h
    change decide (distance s.tail s.head = s.slotCount) = true ↔ _
    rw [decide_eq_true_iff, hdist]

theorem consumer_answers (hi : Inv k s) (h : s.consumerStep = some (s', e)) : s.Answers e := by
  have hserve := hi.serving
  unfold consumerStep at h
  split at h
  · cases h
  · rename_i head hc
    rw [hc] at hserve
    cases hserve
    split_ifs at h with hempty
    · cases h
      exact (queue_nil_iff hi).mpr hempty
    · cases h
      trivial
  · rename_i head hc
    rw [hc] at hserve
    obtain ⟨rfl, hlt⟩ := hserve
    cases h
    exact queue_head hlt
  · rename_i head hc
    obtain ⟨view, hview, heq⟩ := Option.map_eq_some_iff.mp h
    cases heq
    obtain ⟨hlt, hdata, hsize⟩ := hi.reader view hview
    change s.queue.head? = some (s.bytes view.data view.size, view.size)
    rw [queue_head hlt, chunkAt, hdata, hsize]
  · rename_i head hc
    rw [hc] at hserve
    cases hserve
    cases h
    change decide (s.tail = s.head) = true ↔ _
    rw [decide_eq_true_iff, queue_nil_iff hi]

theorem step_answers (a : Action) (hi : Inv k s) (h : s.step a = some (s', e)) : s.Answers e := by
  cases a with
  | producer => exact producer_answers hi h
  | consumer => exact consumer_answers hi h
  | read i =>
    simp only [step] at h
    obtain ⟨view, hview, h⟩ := Option.bind_eq_some_iff.mp h
    split_ifs at h with hc
    obtain ⟨b, hb, heq⟩ := Option.map_eq_some_iff.mp h
    cases heq
    obtain ⟨hlt, hdata, hsize⟩ := hi.reader view hview
    refine ⟨_, queue_head hlt, ?_⟩
    change ((s.storage.drop (s.offset s.head)).take (s.sizeAt s.head))[i]? = some b
    rw [← hsize, ← hdata, List.getElem?_take, if_pos hc.2, List.getElem?_drop, hb]
  | write i b | commit size | release =>
    simp only [step] at h
    obtain ⟨_, _, h⟩ := Option.bind_eq_some_iff.mp h
    split_ifs at h with hc
    cases h
    trivial
  | tryAcquire | full | tryPeek | empty =>
    simp only [step] at h
    split_ifs at h with hc
    cases h
    trivial

end Answers

def commits (es : List Event) : List Chunk := BoundedFifo.pushed (es.map label)

def releases (es : List Event) : List Chunk := BoundedFifo.popped (es.map label)

/-- Every run of a producer and a consumer is a run of a bounded FIFO queue. -/
theorem ring_is_fifo (slotCount slotSize : ℕ) (hn : 1 ≤ slotCount) (acts : List Action)
    (s : SpscRingBuffer) (es : List Event)
    (hrun : BoundedFifo.run step (init slotCount slotSize) acts = some (s, es))
    (hfew : (commits es).length < 2 ^ 64) :
    BoundedFifo.Run slotCount [] (es.map label) s.queue ∧
      commits es = releases es ++ s.queue ∧
      s.tail = (commits es).length ∧ s.head = (releases es).length ∧
      s.head ≤ s.tail ∧ s.tail - s.head ≤ slotCount ∧
      (∀ slot, s.slot = some slot →
        slot.data + slot.capacity ≤ s.storage.length ∧
        ∀ i, s.head ≤ i → i < s.tail →
          slot.data + slot.capacity ≤ s.offset i ∨ s.offset i + s.slotSize ≤ slot.data) ∧
      (s.producer ≠ .idle → s.producerStep ≠ none) ∧
      (s.consumer ≠ .idle → s.consumerStep ≠ none) ∧
      ∀ a s' e, s.step a = some (s', e) → s.Answers e := by
  have hempty : (init slotCount slotSize).queue = [] := rfl
  obtain ⟨⟨hcount, hi⟩, hfifo⟩ := (ring_refines slotCount).run_fifo acts 0 _ s es
    ⟨rfl, inv_init slotCount slotSize hn⟩ hrun (by rw [Nat.zero_add]; exact hfew)
  rw [hempty] at hfifo
  rw [Nat.zero_add] at hi
  have horder := hfifo.order
  rw [List.nil_append] at horder
  have hlen := congrArg List.length horder
  rw [List.length_append, queue_length] at hlen
  have htail := hi.tail
  have hle := hi.order
  obtain ⟨hprod, hcons⟩ := call_continues hi
  refine ⟨hfifo, horder, htail, ?_, hle, hcount ▸ hi.room, ?_, hprod, hcons,
    fun a s' e => step_answers a hi⟩
  · change s.head = (BoundedFifo.popped (es.map label)).length
    omega
  · intro slot hslot
    obtain ⟨hdata, hcap, hroom⟩ := hi.writer slot hslot
    rw [hdata, hcap]
    refine ⟨slot_within hi s.tail, ?_⟩
    intro i h1 h2
    have hne := slot_ne s.slotCount i s.tail h2 (by omega)
    rcases Nat.lt_or_gt_of_ne hne with hlt | hlt
    · right
      have := Nat.mul_le_mul_right s.slotSize hlt
      rw [Nat.succ_mul] at this
      exact this
    · left
      have := Nat.mul_le_mul_right s.slotSize hlt
      rw [Nat.succ_mul] at this
      exact this

/-- A ring of three slots after one element went through and the next is asked for. -/
def passedOne : SpscRingBuffer :=
  { init 3 2 with storage := [7#8, 0#8, 0#8, 0#8, 0#8, 0#8], sizes := [1, 0, 0], head := 1,
                  tail := 1, producer := .tryAcquire 1 }

theorem three_slot_run :
    BoundedFifo.run step (init 3 2)
        [.tryAcquire, .producer, .write 0 7#8, .commit 1, .tryPeek, .producer, .producer, .consumer,
          .consumer, .read 0, .release, .tryAcquire, .consumer] =
        some (passedOne, [.quiet, .acquired (some ⟨0, 2⟩), .quiet, .quiet, .quiet, .quiet,
          .committed ([7#8], 1), .quiet, .peeked (some ([7#8], 1)), .read 0 7#8, .quiet, .quiet,
          .released ([7#8], 1)]) ∧
      passedOne.queue = [] := by
  have hrun : BoundedFifo.run step (init 3 2)
      [.tryAcquire, .producer, .write 0 7#8, .commit 1, .tryPeek, .producer, .producer, .consumer,
        .consumer, .read 0, .release, .tryAcquire, .consumer] =
      some (passedOne, [.quiet, .acquired (some ⟨0, 2⟩), .quiet, .quiet, .quiet, .quiet,
        .committed ([7#8], 1), .quiet, .peeked (some ([7#8], 1)), .read 0 7#8, .quiet, .quiet,
        .released ([7#8], 1)]) := by decide
  obtain ⟨-, horder, -⟩ := ring_is_fifo 3 2 (by decide) _ _ _ hrun (by decide)
  exact ⟨hrun, by simpa [commits, releases, BoundedFifo.pushed, BoundedFifo.popped, label]
    using horder⟩

end SpscRingBuffer

end LogTransfer
