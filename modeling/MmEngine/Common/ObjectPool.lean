/-
# The object pool

Slots for objects, all of them there from the start. The indices of the slots that can be
handed out are a stack, the first `freeCount` entries of the free list, and beside each
slot a flag says whether it is in use. The pool does not rely on its caller: a release is
refused unless the flag of the index is up.
-/

import MmEngine.Lib.Machine
import Mathlib.Algebra.Order.Ring.Nat

universe u

namespace MmEngine

/-- A number of slots: at least one, and fewer than there are indices, so that one index is
left over to say that there is no slot. -/
structure PoolCapacity where
  value : Nat
  pos : 0 < value
  le_max : value ≤ 2 ^ 32 - 1 - 1

/-- The index of a slot. -/
abbrev PoolIndex := BitVec 32

/-- What is returned in place of an index when every slot is in use. -/
def kInvalidIndex : PoolIndex := BitVec.allOnes 32

structure ObjectPool (α : Type u) (cap : PoolCapacity) where
  slots : List α
  freeList : List PoolIndex
  inUse : List Bool
  freeCount : Nat
  highWater : Nat := 0
  acquiredTotal : BitVec 64 := 0
  invalidReleases : BitVec 64 := 0
  length_slots : slots.length = cap.value
  length_freeList : freeList.length = cap.value
  length_inUse : inUse.length = cap.value

namespace ObjectPool

variable {α : Type u} {cap : PoolCapacity}

/-- A new pool hands out the first slot first. -/
def init [Inhabited α] : ObjectPool α cap where
  slots := List.replicate cap.value default
  freeList := (List.range cap.value).map fun i => .ofNat 32 (cap.value - 1 - i)
  inUse := List.replicate cap.value false
  freeCount := cap.value
  length_slots := List.length_replicate
  length_freeList := by rw [List.length_map, List.length_range]
  length_inUse := List.length_replicate

def isLive (pool : ObjectPool α cap) (idx : PoolIndex) : Bool :=
  idx.toNat < cap.value && pool.inUse.getD idx.toNat false

/-- The slots in use, as a number. -/
def inUseCount (pool : ObjectPool α cap) : Nat := cap.value - pool.freeCount

def available (pool : ObjectPool α cap) : Nat := pool.freeCount

/-- The object of an index that is live. -/
def get (pool : ObjectPool α cap) (idx : PoolIndex) : Option α :=
  if pool.isLive idx then pool.slots[idx.toNat]? else none

/-- Takes the top of the stack and clears its slot. -/
def acquire [Inhabited α] (pool : ObjectPool α cap) : PoolIndex × ObjectPool α cap :=
  if pool.freeCount = 0 then (kInvalidIndex, pool)
  else
    let freeCount := pool.freeCount - 1
    let idx := pool.freeList.getD freeCount 0
    (idx,
      { pool with
        freeCount := freeCount
        inUse := pool.inUse.set idx.toNat true
        slots := pool.slots.set idx.toNat default
        acquiredTotal := pool.acquiredTotal + 1
        highWater :=
          if pool.highWater < cap.value - freeCount then cap.value - freeCount else pool.highWater
        length_slots := by rw [List.length_set, pool.length_slots]
        length_inUse := by rw [List.length_set, pool.length_inUse] })

/-- Puts an index back on the stack, unless it is out of range or its flag is down. -/
def release (pool : ObjectPool α cap) (idx : PoolIndex) : Bool × ObjectPool α cap :=
  if cap.value ≤ idx.toNat || !pool.inUse.getD idx.toNat false then
    (false, { pool with invalidReleases := pool.invalidReleases + 1 })
  else
    (true,
      { pool with
        inUse := pool.inUse.set idx.toNat false
        freeList := pool.freeList.set pool.freeCount idx
        freeCount := pool.freeCount + 1
        length_freeList := by rw [List.length_set, pool.length_freeList]
        length_inUse := by rw [List.length_set, pool.length_inUse] })

/-- What an owner does with the object it got for an index. -/
def assign (pool : ObjectPool α cap) (idx : PoolIndex) (object : α) : ObjectPool α cap :=
  if pool.isLive idx then
    { pool with
      slots := pool.slots.set idx.toNat object
      length_slots := by rw [List.length_set, pool.length_slots] }
  else pool

end ObjectPool

/-- A call of the pool, or a write to an object it has handed out. -/
inductive PoolCall (α : Type u)
  | acquire
  | release (idx : PoolIndex)
  | assign (idx : PoolIndex) (object : α)

namespace ObjectPool

variable {α : Type u} {cap : PoolCapacity} [Inhabited α]

def step : PoolCall α → ObjectPool α cap → ObjectPool α cap
  | .acquire, pool => pool.acquire.2
  | .release idx, pool => (pool.release idx).2
  | .assign idx object, pool => pool.assign idx object

/-- The pool after calls in any order, with any indices. -/
def reached (cap : PoolCapacity) (calls : List (PoolCall α)) : ObjectPool α cap :=
  Machine.run step calls init

end ObjectPool

end MmEngine
