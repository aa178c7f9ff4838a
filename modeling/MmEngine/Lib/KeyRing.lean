/-
# A ring that remembers

A fixed number of slots holds the keys seen most recently. A key that is still
held is refused; a new one goes into the next slot, and once every slot is taken
it evicts the oldest. The ring carries its own well-formedness: as many slots as
its capacity, a count within it, and a next slot that exists.
-/

import Mathlib.Algebra.GroupWithZero.Nat

universe u

/-- A ring of at most `cap` keys. -/
structure KeyRing (α : Type u) (cap : Nat) where
  ids : List α
  count : Nat
  next : Nat
  /-- True once a key has been evicted. -/
  overflowed : Bool
  length_ids : ids.length = cap
  count_le : count ≤ cap
  next_lt : next < cap
  deriving DecidableEq

namespace KeyRing

variable {α : Type u} {cap : Nat}

/-- The empty ring: every slot holds the default key and none counts. -/
def empty [Inhabited α] [NeZero cap] : KeyRing α cap where
  ids := List.replicate cap default
  count := 0
  next := 0
  overflowed := false
  length_ids := List.length_replicate
  count_le := Nat.zero_le _
  next_lt := Nat.pos_of_ne_zero (NeZero.ne cap)

instance [Inhabited α] [NeZero cap] : Inhabited (KeyRing α cap) := ⟨empty⟩

variable [DecidableEq α]

def contains (ring : KeyRing α cap) (id : α) : Bool :=
  (ring.ids.take ring.count).any fun known => known = id

/-- Records a key unless it is still held. -/
def insert (ring : KeyRing α cap) (id : α) : KeyRing α cap :=
  if ring.contains id then ring
  else
    { ids := ring.ids.set ring.next id
      count := if ring.count < cap then ring.count + 1 else ring.count
      next := (ring.next + 1) % cap
      overflowed := ring.overflowed || ring.count = cap
      length_ids := by rw [List.length_set, ring.length_ids]
      count_le := by
        have hle := ring.count_le
        split <;> omega
      next_lt := Nat.mod_lt _ (Nat.lt_of_le_of_lt (Nat.zero_le _) ring.next_lt) }

end KeyRing
