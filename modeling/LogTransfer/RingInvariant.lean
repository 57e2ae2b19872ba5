import LogTransfer.SpscRing
import Mathlib.Data.Nat.ModEq
import Mathlib.Tactic.Ring

/-!
# The ring is a bounded FIFO queue

The queue of a ring is read off its shared state: the slots from `head` to
`tail`, each with the bytes and the size it holds. Two counters that lie less
than a turn apart name different slots, so what the producer writes is none of
them.
-/

set_option autoImplicit false

namespace LogTransfer

namespace SpscRingBuffer

section Slots

theorem distance_eq (a b : ℕ) (hb : b ≤ a) (ha : a < kCounterRange) : distance a b = a - b := by
  have h : a + kCounterRange - b = a - b + kCounterRange := by omega
  rw [distance, h, Nat.add_mod_right, Nat.mod_eq_of_lt (by omega)]

theorem bump_eq (a : ℕ) (h : a + 1 < kCounterRange) : bump a = a + 1 := Nat.mod_eq_of_lt h

/-- Within one turn of the ring, different counters name different slots. -/
theorem slot_ne (n i t : ℕ) (hi : i < t) (ht : t < i + n) : i % n ≠ t % n := by
  intro h
  have hmod : (t - i) % n = 0 := Nat.sub_mod_eq_zero_of_mod_eq h.symm
  rw [Nat.mod_eq_of_lt (by omega)] at hmod
  omega

theorem slot_disjoint (i t size : ℕ) (a b : ℕ) (hne : a ≠ b) (hsize : size ≤ t) (hi : i < t) :
    b * t + i < a * t ∨ a * t + size ≤ b * t + i := by
  rcases Nat.lt_or_gt_of_ne hne with hlt | hlt
  · have := Nat.mul_le_mul_right t hlt
    rw [Nat.succ_mul] at this
    omega
  · have := Nat.mul_le_mul_right t hlt
    rw [Nat.succ_mul] at this
    omega

/-- A write outside a region leaves its bytes alone. -/
theorem region_set (l : Bytes) (off size j : ℕ) (b : Byte) (h : j < off ∨ off + size ≤ j) :
    ((l.set j b).drop off).take size = (l.drop off).take size := by
  rcases h with h | h
  · rw [List.drop_set_of_lt h]
  · rw [List.drop_set, if_neg (by omega), List.take_set_of_le (by omega)]

end Slots

section Invariant

/-- What the producer knows of the shared state while its call is under way. -/
def ProducerKnows (s : SpscRingBuffer) : ProducerCall → Prop
  | .idle => True
  | .tryAcquire tail => tail = s.tail ∧ s.slot = none
  | .commit tail size => tail = s.tail ∧ s.slot ≠ none ∧ size ≤ s.slotSize
  | .publish tail size =>
    tail = s.tail ∧ s.slot ≠ none ∧ size ≤ s.slotSize ∧ s.sizeAt s.tail = size
  | .full tail => tail = s.tail

def ConsumerKnows (s : SpscRingBuffer) : ConsumerCall → Prop
  | .idle => True
  | .tryPeek head => head = s.head
  | .peekSize head => head = s.head ∧ s.head < s.tail
  | .release head => head = s.head ∧ s.view ≠ none
  | .empty head => head = s.head

/-- The slot that is out lies behind every slot that is not released. -/
def SlotFree (s : SpscRingBuffer) : Prop :=
  ∀ slot, s.slot = some slot →
    slot.data = s.offset s.tail ∧ slot.capacity = s.slotSize ∧ s.tail - s.head < s.slotCount

def ViewOldest (s : SpscRingBuffer) : Prop :=
  ∀ view, s.view = some view →
    s.head < s.tail ∧ view.data = s.offset s.head ∧ view.size = s.sizeAt s.head

/-- The invariant after `k` commits. -/
structure Inv (k : ℕ) (s : SpscRingBuffer) : Prop where
  slots : 1 ≤ s.slotCount
  storage : s.storage.length = s.slotCount * s.slotSize
  sizes : s.sizes.length = s.slotCount
  tail : s.tail = k
  range : k < kCounterRange
  order : s.head ≤ s.tail
  room : s.tail - s.head ≤ s.slotCount
  small : ∀ i, s.head ≤ i → i < s.tail → s.sizeAt i ≤ s.slotSize
  writer : s.SlotFree
  calling : s.ProducerKnows s.producer
  reader : s.ViewOldest
  serving : s.ConsumerKnows s.consumer

theorem inv_init (slotCount slotSize : ℕ) (hn : 1 ≤ slotCount) :
    Inv 0 (init slotCount slotSize) := by
  refine ⟨hn, List.length_replicate, List.length_replicate, rfl, by decide, le_refl _,
    Nat.zero_le _, ?_, ?_, trivial, ?_, trivial⟩
  · intro i _ hi
    exact absurd hi (Nat.not_lt_zero i)
  · intro slot h
    cases h
  · intro view h
    cases h

variable {k : ℕ} {s s' : SpscRingBuffer} {e : Event}

theorem queue_congr (hh : s'.head = s.head) (ht : s'.tail = s.tail)
    (hc : ∀ i, s.head ≤ i → i < s.tail → s'.chunkAt i = s.chunkAt i) : s'.queue = s.queue := by
  unfold queue
  rw [hh, ht]
  apply List.map_congr_left
  intro i hi
  rw [List.mem_range] at hi
  exact hc _ (Nat.le_add_right _ _) (by omega)

theorem queue_length (s : SpscRingBuffer) : s.queue.length = s.tail - s.head := by
  rw [queue, List.length_map, List.length_range]

theorem queue_cons (h : s.head < s.tail) :
    s.queue = s.chunkAt s.head ::
      (List.range (s.tail - (s.head + 1))).map fun i => s.chunkAt (s.head + 1 + i) := by
  have hn : s.tail - s.head = (s.tail - (s.head + 1)) + 1 := by omega
  rw [queue, hn, List.range_succ_eq_map, List.map_cons, List.map_map]
  congr 1
  apply List.map_congr_left
  intro i _
  simp only [Function.comp_apply, Nat.succ_eq_add_one]
  congr 1
  omega

theorem queue_snoc (h : s.head ≤ s.tail) :
    ((List.range (s.tail + 1 - s.head)).map fun i => s.chunkAt (s.head + i)) =
      s.queue ++ [s.chunkAt s.tail] := by
  have hn : s.tail + 1 - s.head = (s.tail - s.head) + 1 := by omega
  rw [hn, List.range_succ, List.map_append, List.map_singleton, Nat.add_sub_cancel' h]
  rfl

end Invariant

section Producer

variable {k : ℕ} {s s' : SpscRingBuffer} {e : Event}

/-- What every step of a ring does to its invariant and to its queue. -/
def Advances (k : ℕ) (s : SpscRingBuffer) (e : Event) (s' : SpscRingBuffer) : Prop :=
  Inv (k + BoundedFifo.weight (label e)) s' ∧ s'.slotCount = s.slotCount ∧
    BoundedFifo.Step s.slotCount s.queue (label e) s'.queue

/-- Steps that touch neither the counters nor what the slots hold. -/
theorem advances_quiet (he : label e = .silent) (hi : Inv k s') (hn : s'.slotCount = s.slotCount)
    (hq : s'.queue = s.queue) : Advances k s e s' := by
  rw [Advances, he, hq]
  exact ⟨hi, hn, .silent _⟩

theorem tryAcquire_advances (hi : Inv k s) (h : s.step .tryAcquire = some (s', e)) :
    Advances k s e s' := by
  simp only [step] at h
  split_ifs at h with hc
  cases h
  exact advances_quiet rfl { hi with calling := ⟨rfl, hc.2⟩ } rfl rfl

theorem full_advances (hi : Inv k s) (h : s.step .full = some (s', e)) : Advances k s e s' := by
  simp only [step] at h
  split_ifs at h with hc
  cases h
  exact advances_quiet rfl { hi with calling := rfl } rfl rfl

theorem commit_advances {size : ℕ} (hi : Inv k s) (h : s.step (.commit size) = some (s', e)) :
    Advances k s e s' := by
  simp only [step] at h
  obtain ⟨slot, hslot, h⟩ := Option.bind_eq_some_iff.mp h
  split_ifs at h with hc
  cases h
  have hout : s.slot ≠ none := by simp [hslot]
  exact advances_quiet rfl { hi with calling := ⟨rfl, hout, hc.2⟩ } rfl rfl

theorem write_advances {i : ℕ} {b : Byte} (hi : Inv k s)
    (h : s.step (.write i b) = some (s', e)) : Advances k s e s' := by
  simp only [step] at h
  obtain ⟨slot, hslot, h⟩ := Option.bind_eq_some_iff.mp h
  split_ifs at h with hc
  cases h
  obtain ⟨hdata, hcap, hroom⟩ := hi.writer slot hslot
  have hcall := hi.calling
  refine advances_quiet rfl { hi with storage := ?_, calling := ?_ } rfl ?_
  · rw [List.length_set]
    exact hi.storage
  · rw [hc.1]
    trivial
  · refine queue_congr rfl rfl ?_
    intro j hj hjt
    have hne := slot_ne s.slotCount j s.tail hjt (by omega)
    have hsmall := hi.small j hj hjt
    have hout := slot_disjoint i s.slotSize (s.sizeAt j) _ _ hne hsmall (by rw [← hcap]; exact hc.2)
    have hbytes := region_set s.storage (s.offset j) (s.sizeAt j) (slot.data + i) b
      (by rw [hdata]; exact hout)
    exact Prod.ext hbytes rfl

theorem getD_set_ne (l : List ℕ) (a b x : ℕ) (h : a ≠ b) : (l.set b x).getD a 0 = l.getD a 0 := by
  rw [List.getD_eq_getElem?_getD, List.getD_eq_getElem?_getD, List.getElem?_set_ne (Ne.symm h)]

theorem getD_set_self (l : List ℕ) (a x : ℕ) (h : a < l.length) : (l.set a x).getD a 0 = x := by
  rw [List.getD_eq_getElem?_getD, List.getElem?_set_self h]
  rfl

/-- The size goes into a slot that no counter of the queue names. -/
theorem storeSize_advances {tail size : ℕ} (hi : Inv k s) (hp : s.producer = .commit tail size) :
    Advances k s .quiet { s with sizes := s.sizes.set (tail % s.slotCount) size,
                                 producer := .publish tail size } := by
  have hcall := hi.calling
  rw [hp] at hcall
  obtain ⟨rfl, hout, hsize⟩ := hcall
  obtain ⟨slot, hslot⟩ := Option.ne_none_iff_exists'.mp hout
  obtain ⟨-, -, hroom⟩ := hi.writer slot hslot
  have hother (i : ℕ) (h1 : s.head ≤ i) (h2 : i < s.tail) :
      (s.sizes.set (s.tail % s.slotCount) size).getD (i % s.slotCount) 0 = s.sizeAt i :=
    getD_set_ne _ _ _ _ (slot_ne s.slotCount i s.tail h2 (by omega))
  have hpos := hi.slots
  have hself : (s.sizes.set (s.tail % s.slotCount) size).getD (s.tail % s.slotCount) 0 = size := by
    apply getD_set_self
    rw [hi.sizes]
    exact Nat.mod_lt _ hpos
  refine advances_quiet rfl
    { hi with sizes := ?_, small := ?_, calling := ⟨rfl, hout, hsize, hself⟩, reader := ?_ } rfl ?_
  · rw [List.length_set]
    exact hi.sizes
  · intro i h1 h2
    exact (hother i h1 h2).trans_le (hi.small i h1 h2)
  · intro view hview
    obtain ⟨hlt, hdata, hvsize⟩ := hi.reader view hview
    exact ⟨hlt, hdata, hvsize.trans (hother s.head (le_refl _) hlt).symm⟩
  · refine queue_congr rfl rfl ?_
    intro i h1 h2
    have hsz := hother i h1 h2
    unfold chunkAt sizeAt at *
    exact congrArg (fun n => ((s.bytes (s.offset i) n, n) : Chunk)) hsz

theorem publish_advances {tail size : ℕ} {slot : WriteSlot} (hi : Inv k s)
    (hp : s.producer = .publish tail size) (hslot : s.slot = some slot)
    (hlim : k + 1 < kCounterRange) :
    Advances k s (.committed (s.bytes slot.data size, size))
      { s with tail := bump tail, slot := none, producer := .idle } := by
  have hcall := hi.calling
  rw [hp] at hcall
  obtain ⟨rfl, -, hsize, hstored⟩ := hcall
  obtain ⟨hdata, -, hroom⟩ := hi.writer slot hslot
  have horder := hi.order
  have hbump : bump s.tail = s.tail + 1 := bump_eq s.tail (by rw [hi.tail]; exact hlim)
  have hchunk : (s.bytes slot.data size, size) = s.chunkAt s.tail := by
    rw [chunkAt, hstored, hdata]
  have hpush : BoundedFifo.Step s.slotCount s.queue (.push (s.chunkAt s.tail))
      (s.queue ++ [s.chunkAt s.tail]) := .push _ _ (by rw [queue_length]; exact hroom)
  rw [hbump, hchunk]
  constructor
  · refine { hi with
      tail := by rw [hi.tail]; rfl, range := hlim, order := Nat.le_succ_of_le horder, room := ?_,
      small := ?_, writer := ?_, calling := trivial, reader := ?_, serving := ?_ }
    · change s.tail + 1 - s.head ≤ s.slotCount
      omega
    · intro i h1 h2
      by_cases hlast : i = s.tail
      · subst hlast
        exact hstored.trans_le hsize
      · exact hi.small i h1 (by change i < s.tail + 1 at h2; omega)
    · intro slot' h
      cases h
    · intro view hview
      obtain ⟨hlt, hrest⟩ := hi.reader view hview
      exact ⟨Nat.lt_succ_of_lt hlt, hrest⟩
    · have hserve := hi.serving
      change ConsumerKnows _ s.consumer
      cases hc : s.consumer with
      | peekSize head =>
        rw [hc] at hserve
        exact ⟨hserve.1, Nat.lt_succ_of_lt hserve.2⟩
      | _ =>
        rw [hc] at hserve
        exact hserve
  · refine ⟨rfl, ?_⟩
    have hq := queue_snoc horder
    change BoundedFifo.Step s.slotCount s.queue (.push (s.chunkAt s.tail))
      ((List.range (s.tail + 1 - s.head)).map fun i => s.chunkAt (s.head + i))
    rw [hq]
    exact hpush

theorem producer_advances (hi : Inv k s) (h : s.step .producer = some (s', e))
    (hlim : k + BoundedFifo.weight (label e) < kCounterRange) : Advances k s e s' := by
  have hcall := hi.calling
  have horder := hi.order
  have hdist : distance s.tail s.head = s.tail - s.head :=
    distance_eq _ _ horder (by rw [hi.tail]; exact hi.range)
  simp only [step, producerStep] at h
  split at h
  · cases h
  · rename_i tail hp
    rw [hp] at hcall
    obtain ⟨rfl, hnone⟩ := hcall
    split_ifs at h with hfull
    · cases h
      exact advances_quiet rfl { hi with calling := trivial } rfl rfl
    · cases h
      have hroom := hi.room
      rw [hdist] at hfull
      refine advances_quiet rfl { hi with writer := ?_, calling := trivial } rfl rfl
      intro slot hslot
      cases hslot
      exact ⟨rfl, rfl, lt_of_le_of_ne hroom hfull⟩
  · rename_i tail size hp
    cases h
    exact storeSize_advances hi hp
  · rename_i tail size hp
    obtain ⟨slot, hslot, heq⟩ := Option.map_eq_some_iff.mp h
    cases heq
    exact publish_advances hi hp hslot hlim
  · cases h
    exact advances_quiet rfl { hi with calling := trivial } rfl rfl

end Producer

section Consumer

variable {k : ℕ} {s s' : SpscRingBuffer} {e : Event}

theorem tryPeek_advances (hi : Inv k s) (h : s.step .tryPeek = some (s', e)) :
    Advances k s e s' := by
  simp only [step] at h
  split_ifs at h with hc
  cases h
  exact advances_quiet rfl { hi with serving := rfl } rfl rfl

theorem empty_advances (hi : Inv k s) (h : s.step .empty = some (s', e)) : Advances k s e s' := by
  simp only [step] at h
  split_ifs at h with hc
  cases h
  exact advances_quiet rfl { hi with serving := rfl } rfl rfl

theorem read_advances {i : ℕ} (hi : Inv k s) (h : s.step (.read i) = some (s', e)) :
    Advances k s e s' := by
  simp only [step] at h
  obtain ⟨view, hview, h⟩ := Option.bind_eq_some_iff.mp h
  split_ifs at h with hc
  obtain ⟨b, hb, heq⟩ := Option.map_eq_some_iff.mp h
  cases heq
  exact advances_quiet rfl hi rfl rfl

theorem release_advances (hi : Inv k s) (h : s.step .release = some (s', e)) :
    Advances k s e s' := by
  simp only [step] at h
  obtain ⟨view, hview, h⟩ := Option.bind_eq_some_iff.mp h
  split_ifs at h with hc
  cases h
  have hout : s.view ≠ none := by simp [hview]
  exact advances_quiet rfl { hi with serving := ⟨rfl, hout⟩ } rfl rfl

/-- The view is the oldest element, so its release takes that one away. -/
theorem storeHead_advances {head : ℕ} {view : ReadView} (hi : Inv k s)
    (hc : s.consumer = .release head) (hview : s.view = some view) :
    Advances k s (.released (s.bytes view.data view.size, view.size))
      { s with head := bump head, view := none, consumer := .idle } := by
  have hserve := hi.serving
  rw [hc] at hserve
  obtain ⟨rfl, -⟩ := hserve
  obtain ⟨hlt, hdata, hsize⟩ := hi.reader view hview
  have hrange := hi.range
  have htail := hi.tail
  have hroom := hi.room
  have hbump : bump s.head = s.head + 1 := bump_eq s.head (by omega)
  have hchunk : (s.bytes view.data view.size, view.size) = s.chunkAt s.head := by
    rw [chunkAt, hsize, hdata]
  rw [hbump, hchunk]
  constructor
  · refine { hi with
      order := hlt, room := ?_, small := ?_, writer := ?_, calling := hi.calling,
      reader := ?_, serving := trivial }
    · change s.tail - (s.head + 1) ≤ s.slotCount
      omega
    · intro i h1 h2
      exact hi.small i (Nat.le_of_succ_le h1) h2
    · intro slot hslot
      obtain ⟨hd, hcap, hfree⟩ := hi.writer slot hslot
      exact ⟨hd, hcap, lt_of_le_of_lt (Nat.sub_le_sub_left (Nat.le_succ _) _) hfree⟩
    · intro view' h
      cases h
  · have hq := queue_cons hlt
    rw [hq]
    exact ⟨rfl, .pop _ _⟩

theorem consumer_advances (hi : Inv k s) (h : s.step .consumer = some (s', e)) :
    Advances k s e s' := by
  have hserve := hi.serving
  simp only [step, consumerStep] at h
  split at h
  · cases h
  · rename_i head hc
    rw [hc] at hserve
    cases hserve
    split_ifs at h with hempty
    · cases h
      exact advances_quiet rfl { hi with serving := trivial } rfl rfl
    · cases h
      exact advances_quiet rfl
        { hi with serving := ⟨rfl, lt_of_le_of_ne hi.order (Ne.symm hempty)⟩ } rfl rfl
  · rename_i head hc
    rw [hc] at hserve
    obtain ⟨rfl, hlt⟩ := hserve
    cases h
    refine advances_quiet rfl { hi with reader := ?_, serving := trivial } rfl rfl
    intro view hview
    cases hview
    exact ⟨hlt, rfl, rfl⟩
  · rename_i head hc
    obtain ⟨view, hview, heq⟩ := Option.map_eq_some_iff.mp h
    cases heq
    exact storeHead_advances hi hc hview
  · cases h
    exact advances_quiet rfl { hi with serving := trivial } rfl rfl

end Consumer

section Refinement

variable {k : ℕ} {s s' : SpscRingBuffer} {e : Event}

theorem step_advances (a : Action) (hi : Inv k s) (h : s.step a = some (s', e))
    (hlim : k + BoundedFifo.weight (label e) < kCounterRange) : Advances k s e s' := by
  cases a with
  | tryAcquire => exact tryAcquire_advances hi h
  | write i b => exact write_advances hi h
  | commit size => exact commit_advances hi h
  | full => exact full_advances hi h
  | producer => exact producer_advances hi h hlim
  | tryPeek => exact tryPeek_advances hi h
  | read i => exact read_advances hi h
  | release => exact release_advances hi h
  | empty => exact empty_advances hi h
  | consumer => exact consumer_advances hi h

theorem ring_refines (slotCount : ℕ) :
    BoundedFifo.Refines step slotCount kCounterRange label
      (fun k s => s.slotCount = slotCount ∧ Inv k s) queue where
  next := by
    rintro k s a s' e ⟨rfl, hi⟩ h hlim
    obtain ⟨hi', hn, hstep⟩ := step_advances a hi h hlim
    exact ⟨⟨hn, hi'⟩, hstep⟩

end Refinement

end SpscRingBuffer

end LogTransfer
