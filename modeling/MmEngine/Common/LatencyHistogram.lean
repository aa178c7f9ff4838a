/-
# The latency histogram

A latency is counted in one of the slots of a log-linear scale: sixty-four slots of width
one, then sixty-four for every power of two. The slot of a value comes from its leading
zeros and a shift, in 64 bits. A percentile is the upper end of the slot at which the running
total of the counts reaches its rank, or the greatest value if that is less.

Counts are numbers of calls and are not bounded here; the sum of the values wraps.
-/

import MmEngine.Common.Types
import MmEngine.Lib.LogLinear
import MmEngine.Lib.Quantile

namespace MmEngine

namespace LatencyHistogram

def kSubBits : Nat := 6

def kSubCount : Nat := 2 ^ kSubBits

def kBucketCount : Nat := 64 - kSubBits + 1

def kSlots : Nat := kBucketCount * kSubCount

def slotOf (v : BitVec 64) : Nat :=
  if v.toNat < kSubCount then v.toNat
  else
    let msb := 63 - v.clz.toNat
    let bucket := msb - kSubBits + 1
    let sub := (v >>> (bucket - 1)).toNat - kSubCount
    bucket * kSubCount + sub

def slotLowerBound (slot : Nat) : BitVec 64 :=
  let bucket := slot / kSubCount
  let sub := slot % kSubCount
  if bucket = 0 then BitVec.ofNat 64 sub
  else BitVec.ofNat 64 (sub + kSubCount) <<< (bucket - 1)

def slotUpperBound (slot : Nat) : BitVec 64 :=
  let bucket := slot / kSubCount
  if bucket = 0 then slotLowerBound slot
  else slotLowerBound slot + (1#64 <<< (bucket - 1)) - 1

end LatencyHistogram

/-- The counts of the slots, and what is kept of the values themselves. -/
@[ext]
structure LatencyHistogram where
  counts : List Nat
  count : Nat
  sum : BitVec 64
  min : BitVec 64
  max : BitVec 64
  length_counts : counts.length = LatencyHistogram.kSlots
  deriving DecidableEq

namespace LatencyHistogram

def kUnsetMin : BitVec 64 := ~~~0

def empty : LatencyHistogram where
  counts := List.replicate kSlots 0
  count := 0
  sum := 0
  min := kUnsetMin
  max := 0
  length_counts := List.length_replicate

/-- A latency as it is counted: one that is not positive counts as zero. -/
def sampleOf (value : Int64) : BitVec 64 := if 0 < value.toInt then value.toBitVec else 0

def record (h : LatencyHistogram) (value : Int64) : LatencyHistogram :=
  let v := sampleOf value
  { counts := h.counts.modify (slotOf v) (· + 1)
    count := h.count + 1
    sum := h.sum + v
    min := if v < h.min then v else h.min
    max := if h.max < v then v else h.max
    length_counts := by rw [List.length_modify, h.length_counts] }

/-- The slot at which the running total of the counts reaches the rank. -/
def slotAtRank (h : LatencyHistogram) (rank : Nat) : Option Nat :=
  Quantile.firstReaching rank h.counts 0 0

/-- The value reported for a rank between one and the count. -/
def valueAtRank (h : LatencyHistogram) (rank : Nat) : Nanos :=
  match h.slotAtRank rank with
  | some slot => (if h.max < slotUpperBound slot then h.max else slotUpperBound slot).toInt
  | none => h.max.toInt

/-- The percentile whose share of the count, rounded up, is `share`; the source computes the
share in doubles. -/
def percentile (h : LatencyHistogram) (share : Nat) : Nanos :=
  if h.count = 0 then 0
  else
    let rank := if share = 0 then 1 else share
    h.valueAtRank (if h.count < rank then h.count else rank)

def merge (h other : LatencyHistogram) : LatencyHistogram where
  counts := List.zipWith (· + ·) h.counts other.counts
  count := h.count + other.count
  sum := h.sum + other.sum
  min := if other.min < h.min then other.min else h.min
  max := if h.max < other.max then other.max else h.max
  length_counts := by
    rw [List.length_zipWith, h.length_counts, other.length_counts, Nat.min_self]

/-- The histogram after the latencies of a list. -/
def recordAll (values : List Int64) : LatencyHistogram := values.foldl record empty

end LatencyHistogram

end MmEngine
