import LogTransfer.BoundedFifo
import LogTransfer.Crc32
import Mathlib.Algebra.Group.Nat.Defs

/-!
# The ring between two threads

Producer and consumer share the storage, the sizes and two counters. A call
loads its own counter first and then makes one access of the shared state a
step, so the other thread can come between any two of them. The counters are
64 bits wide; a slot is its counter modulo the number of slots. The contract is
the guard of the steps: at most one slot is out, no commit without it, no
release without a view.
-/

set_option autoImplicit false

namespace LogTransfer

structure WriteSlot where
  data : ℕ
  capacity : ℕ
  deriving DecidableEq, Repr

structure ReadView where
  data : ℕ
  size : ℕ
  deriving DecidableEq, Repr

inductive ProducerCall where
  | idle
  | tryAcquire (tail : ℕ)
  | commit (tail size : ℕ)
  | publish (tail size : ℕ)
  | full (tail : ℕ)
  deriving DecidableEq, Repr

inductive ConsumerCall where
  | idle
  | tryPeek (head : ℕ)
  | peekSize (head : ℕ)
  | release (head : ℕ)
  | empty (head : ℕ)
  deriving DecidableEq, Repr

structure SpscRingBuffer where
  slotCount : ℕ
  slotSize : ℕ
  storage : Bytes
  sizes : List ℕ
  head : ℕ
  tail : ℕ
  slot : Option WriteSlot
  producer : ProducerCall
  view : Option ReadView
  consumer : ConsumerCall
  deriving DecidableEq, Repr

namespace SpscRingBuffer

abbrev Chunk : Type := Bytes × ℕ

inductive Action where
  | tryAcquire
  | write (i : ℕ) (b : Byte)
  | commit (size : ℕ)
  | full
  | producer
  | tryPeek
  | read (i : ℕ)
  | release
  | empty
  | consumer
  deriving DecidableEq, Repr

inductive Event where
  | quiet
  | acquired (slot : Option WriteSlot)
  | committed (chunk : Chunk)
  | full (answer : Bool)
  | peeked (chunk : Option Chunk)
  | read (i : ℕ) (b : Byte)
  | released (chunk : Chunk)
  | empty (answer : Bool)
  deriving DecidableEq, Repr

def init (slotCount slotSize : ℕ) : SpscRingBuffer :=
  { slotCount := slotCount, slotSize := slotSize,
    storage := List.replicate (slotCount * slotSize) 0#8, sizes := List.replicate slotCount 0,
    head := 0, tail := 0, slot := none, producer := .idle, view := none, consumer := .idle }

def kCounterRange : ℕ := 2 ^ 64

/-- `a - b` of two counters. -/
def distance (a b : ℕ) : ℕ := (a + kCounterRange - b) % kCounterRange

def bump (counter : ℕ) : ℕ := (counter + 1) % kCounterRange

variable (s : SpscRingBuffer)

def bytes (data size : ℕ) : Bytes := (s.storage.drop data).take size

def offset (counter : ℕ) : ℕ := counter % s.slotCount * s.slotSize

def sizeAt (counter : ℕ) : ℕ := s.sizes.getD (counter % s.slotCount) 0

/-- The next access of the producer's call. -/
def producerStep : Option (SpscRingBuffer × Event) :=
  match s.producer with
  | .idle => none
  | .tryAcquire tail =>
    if distance tail s.head = s.slotCount then
      some ({ s with producer := .idle }, .acquired none)
    else
      let slot : WriteSlot := { data := s.offset tail, capacity := s.slotSize }
      some ({ s with slot := some slot, producer := .idle }, .acquired (some slot))
  | .commit tail size =>
    some ({ s with sizes := s.sizes.set (tail % s.slotCount) size,
                   producer := .publish tail size }, .quiet)
  | .publish tail size =>
    s.slot.map fun slot =>
      ({ s with tail := bump tail, slot := none, producer := .idle },
        .committed (s.bytes slot.data size, size))
  | .full tail =>
    some ({ s with producer := .idle }, .full (distance tail s.head = s.slotCount))

/-- The next access of the consumer's call. -/
def consumerStep : Option (SpscRingBuffer × Event) :=
  match s.consumer with
  | .idle => none
  | .tryPeek head =>
    if s.tail = head then some ({ s with consumer := .idle }, .peeked none)
    else some ({ s with consumer := .peekSize head }, .quiet)
  | .peekSize head =>
    let view : ReadView := { data := s.offset head, size := s.sizeAt head }
    some ({ s with view := some view, consumer := .idle },
      .peeked (some (s.bytes view.data view.size, view.size)))
  | .release head =>
    s.view.map fun view =>
      ({ s with head := bump head, view := none, consumer := .idle },
        .released (s.bytes view.data view.size, view.size))
  | .empty head => some ({ s with consumer := .idle }, .empty (s.tail = head))

def step : Action → Option (SpscRingBuffer × Event)
  | .tryAcquire =>
    if s.producer = .idle ∧ s.slot = none then
      some ({ s with producer := .tryAcquire s.tail }, .quiet)
    else none
  | .write i b =>
    s.slot.bind fun slot =>
      if s.producer = .idle ∧ i < slot.capacity then
        some ({ s with storage := s.storage.set (slot.data + i) b }, .quiet)
      else none
  | .commit size =>
    s.slot.bind fun _ =>
      if s.producer = .idle ∧ size ≤ s.slotSize then
        some ({ s with producer := .commit s.tail size }, .quiet)
      else none
  | .full =>
    if s.producer = .idle then some ({ s with producer := .full s.tail }, .quiet) else none
  | .producer => s.producerStep
  | .tryPeek =>
    if s.consumer = .idle then some ({ s with consumer := .tryPeek s.head }, .quiet) else none
  | .read i =>
    s.view.bind fun view =>
      if s.consumer = .idle ∧ i < view.size then
        (s.storage[view.data + i]?).map fun b => (s, .read i b)
      else none
  | .release =>
    s.view.bind fun _ =>
      if s.consumer = .idle then some ({ s with consumer := .release s.head }, .quiet) else none
  | .empty =>
    if s.consumer = .idle then some ({ s with consumer := .empty s.head }, .quiet) else none
  | .consumer => s.consumerStep

/-- Committed elements enter the queue, released ones leave it. -/
def label : Event → BoundedFifo.Label Chunk
  | .committed chunk => .push chunk
  | .released chunk => .pop chunk
  | _ => .silent

/-- What a slot holds. -/
def chunkAt (counter : ℕ) : Chunk :=
  (s.bytes (s.offset counter) (s.sizeAt counter), s.sizeAt counter)

def queue : List Chunk := (List.range (s.tail - s.head)).map fun i => s.chunkAt (s.head + i)

end SpscRingBuffer

end LogTransfer
