/-
# The event ring

The bounded queue between one producer and one consumer. Each side owns one index, reads
the other's only when its own stale copy of it says that the ring is full or empty, and
masks the free-running indices into the slots.

A call of either side is a sequence of accesses, and the accesses of the two sides
interleave as a schedule says, each of them atomic and seen by both sides at once. What the
source does not keep is a history: the values pushed and popped, in order, and for each push
that failed how many values the ring held when it re-read the consumer's index.
-/

import MmEngine.Lib.Circle
import MmEngine.Lib.Machine
import MmEngine.Lib.WrappingCounter

universe u

namespace MmEngine

/-- A number of slots: a power of two, so that an index can be masked, and at least two. -/
structure RingCapacity where
  value : Nat
  two_le : 2 ≤ value
  single_bit : ∃ bits < 64, value = 2 ^ bits

/-- A free-running index. -/
abbrev RingIndex := BitVec 64

namespace RingCapacity

variable (cap : RingCapacity)

def kMask : RingIndex := BitVec.ofNat 64 cap.value - 1

/-- The slot of an index. -/
def slotOf (index : RingIndex) : Nat := (index &&& cap.kMask).toNat

theorem pos : 0 < cap.value := Nat.lt_of_lt_of_le Nat.zero_lt_two cap.two_le

/-- The distances the two sides compute, up to one more than the capacity, fit a word. -/
theorem succ_lt_word : cap.value + 1 < 2 ^ 64 := by
  obtain ⟨bits, hbits, hvalue⟩ := cap.single_bit
  have hhalf : 2 ^ bits ≤ 2 ^ 63 := Nat.pow_le_pow_right (by decide) (by omega)
  omega

theorem slotOf_ofNat (count : Nat) : cap.slotOf (.ofNat 64 count) = count % cap.value := by
  obtain ⟨bits, hbits, hvalue⟩ := cap.single_bit
  rw [slotOf, kMask, hvalue]
  exact WrappingCounter.toNat_and_mask hbits

theorem slotOf_lt (index : RingIndex) : cap.slotOf index < cap.value := by
  have hmod := cap.slotOf_ofNat index.toNat
  rw [BitVec.ofNat_toNat, BitVec.setWidth_eq] at hmod
  rw [hmod]
  exact Nat.mod_lt _ cap.pos

end RingCapacity

/-- The indices, the stale copies and the slots. -/
structure SpscRing (α : Type u) (cap : RingCapacity) where
  head : RingIndex := 0
  tail : RingIndex := 0
  /-- The producer's copy of the head. -/
  cachedHead : RingIndex := 0
  /-- The consumer's copy of the tail. -/
  cachedTail : RingIndex := 0
  buffer : List α
  length_buffer : buffer.length = cap.value

/-- Where the producer stands in `emplace_with`. -/
inductive Producer (α : Type u)
  | idle
  | loaded (item : α) (tail : RingIndex)
  /-- The stale head says that the ring is full. -/
  | stale (item : α) (tail : RingIndex)
  /-- The head has been re-read. The ring held `held` values then. -/
  | reread (item : α) (tail : RingIndex) (held : Nat)
  | admitted (item : α) (tail : RingIndex)
  | written (item : α) (tail : RingIndex)

/-- Where the consumer stands in `try_pop`. -/
inductive Consumer (α : Type u)
  | idle
  | loaded (head : RingIndex)
  /-- The stale tail says that the ring is empty. -/
  | stale (head : RingIndex)
  | reread (head : RingIndex)
  | admitted (head : RingIndex)
  | taken (head : RingIndex) (value : α)

/-- The ring and its two sides, with the history of what they did. -/
structure RingSystem (α : Type u) (cap : RingCapacity) where
  ring : SpscRing α cap
  producer : Producer α := .idle
  consumer : Consumer α := .idle
  pushed : List α := []
  popped : List α := []
  /-- For each failed push, the values the ring held when it re-read the head. -/
  refusals : List Nat := []

namespace SpscRing

variable {α : Type u} {cap : RingCapacity}

/-- An empty ring, its slots value-initialised. -/
def init [Inhabited α] : SpscRing α cap where
  buffer := List.replicate cap.value default
  length_buffer := List.length_replicate

/-- The producer's test: behind the next tail the cached head leaves no slot free. -/
def looksFull (ring : SpscRing α cap) (tail : RingIndex) : Bool :=
  BitVec.ofNat 64 cap.value < tail + 1 - ring.cachedHead

/-- The consumer's test. -/
def looksEmpty (ring : SpscRing α cap) (head : RingIndex) : Bool := head = ring.cachedTail

def write (ring : SpscRing α cap) (index : RingIndex) (item : α) : SpscRing α cap :=
  { ring with
    buffer := ring.buffer.set (cap.slotOf index) item
    length_buffer := by rw [List.length_set, ring.length_buffer] }

def read (ring : SpscRing α cap) (index : RingIndex) : α :=
  ring.buffer.get ⟨cap.slotOf index, by
    rw [ring.length_buffer]
    exact cap.slotOf_lt index⟩

end SpscRing

namespace RingSystem

variable {α : Type u} {cap : RingCapacity}

def init [Inhabited α] : RingSystem α cap where
  ring := .init

/-- The values published and not yet given back by the consumer. -/
def held (s : RingSystem α cap) : Nat := s.pushed.length - s.popped.length

/-- The next access of `emplace_with`; a producer that is idle is called with `item`. -/
def produce (item : α) (s : RingSystem α cap) : RingSystem α cap :=
  match s.producer with
  | .idle => { s with producer := .loaded item s.ring.tail }
  | .loaded item tail =>
      if s.ring.looksFull tail then { s with producer := .stale item tail }
      else { s with producer := .admitted item tail }
  | .stale item tail =>
      { s with
        ring := { s.ring with cachedHead := s.ring.head }
        producer := .reread item tail s.held }
  | .reread item tail held =>
      if s.ring.looksFull tail then
        { s with producer := .idle, refusals := s.refusals ++ [held] }
      else { s with producer := .admitted item tail }
  | .admitted item tail =>
      { s with ring := s.ring.write tail item, producer := .written item tail }
  | .written item tail =>
      { s with
        ring := { s.ring with tail := tail + 1 }
        producer := .idle
        pushed := s.pushed ++ [item] }

/-- The next access of `try_pop`. -/
def consume (s : RingSystem α cap) : RingSystem α cap :=
  match s.consumer with
  | .idle => { s with consumer := .loaded s.ring.head }
  | .loaded head =>
      if s.ring.looksEmpty head then { s with consumer := .stale head }
      else { s with consumer := .admitted head }
  | .stale head =>
      { s with
        ring := { s.ring with cachedTail := s.ring.tail }
        consumer := .reread head }
  | .reread head =>
      if s.ring.looksEmpty head then { s with consumer := .idle }
      else { s with consumer := .admitted head }
  | .admitted head => { s with consumer := .taken head (s.ring.read head) }
  | .taken head value =>
      { s with
        ring := { s.ring with head := head + 1 }
        consumer := .idle
        popped := s.popped ++ [value] }

end RingSystem

/-- Whose access comes next. -/
inductive RingAccess (α : Type u)
  | producer (item : α)
  | consumer

/-- One access of one side. -/
def RingSystem.step {α : Type u} {cap : RingCapacity} :
    RingAccess α → RingSystem α cap → RingSystem α cap
  | .producer item, s => s.produce item
  | .consumer, s => s.consume

end MmEngine
