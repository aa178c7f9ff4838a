/-
# Fixed-point scalars

Prices, quantities and notionals are signed 64-bit integers at a resolution of
`1e-8`. The raw integer and its range travel together, so a scalar outside the
machine range cannot be built and every overflow check of the engine is a test
on an exact integer. Intermediate products are exact: the engine computes them
in 128 bits, which no product of two raw values leaves.
-/

import Mathlib.Data.Int.Init
import Mathlib.Algebra.Order.Group.Int
import Mathlib.Order.Basic
import Mathlib.Tactic.NormNum
import Mathlib.Tactic.Ring

namespace MmEngine

/-- What a scalar measures. The tag keeps a price from being used as a quantity. -/
inductive FixedTag
  | px
  | qty
  | notional
  deriving DecidableEq

/-- The least raw value. -/
def rawMin : Int := -(2 ^ 63)

/-- The greatest raw value. -/
def rawMax : Int := 2 ^ 63 - 1

/-- A fixed-point scalar: a raw integer in the signed 64-bit range. -/
@[ext]
structure Fixed (tag : FixedTag) where
  /-- The scaled integer. -/
  raw : Int
  rawMin_le : rawMin ≤ raw
  raw_le : raw ≤ rawMax
  deriving DecidableEq

/-- Price in quote currency. -/
abbrev Px := Fixed .px

/-- Quantity in base currency. -/
abbrev Qty := Fixed .qty

/-- Price times quantity, in quote currency. -/
abbrev Notional := Fixed .notional

namespace Fixed

variable {tag : FixedTag}

/-- Raw units in one whole unit. -/
def kScale : Int := 100000000

/-- The scalar with the given raw value, when that value is representable. -/
def fromRaw? (raw : Int) : Option (Fixed tag) :=
  if h : rawMin ≤ raw ∧ raw ≤ rawMax then some ⟨raw, h.1, h.2⟩ else none

/-- Narrowing of a wide integer to 64 bits, as an unchecked cast performs it. -/
def narrow (raw : Int) : Fixed tag where
  raw := Int.bmod raw (2 ^ 64)
  rawMin_le := by
    have := Int.le_bmod (x := raw) (m := 2 ^ 64) (by decide)
    simp only [rawMin]
    omega
  raw_le := by
    have := Int.bmod_lt (x := raw) (m := 2 ^ 64) (by decide)
    simp only [rawMax]
    omega

/-- The zero scalar. -/
def zero : Fixed tag := ⟨0, by decide, by decide⟩

instance : Inhabited (Fixed tag) := ⟨zero⟩

def isZero (value : Fixed tag) : Bool := decide (value.raw = 0)

def isPositive (value : Fixed tag) : Bool := decide (0 < value.raw)

def isNegative (value : Fixed tag) : Bool := decide (value.raw < 0)

/-- Addition that reports overflow instead of wrapping. -/
def checkedAdd (a b : Fixed tag) : Option (Fixed tag) := fromRaw? (a.raw + b.raw)

/-- Subtraction that reports overflow instead of wrapping. -/
def checkedSub (a b : Fixed tag) : Option (Fixed tag) := fromRaw? (a.raw - b.raw)

/-- The greatest scalar. -/
def max : Fixed tag := ⟨rawMax, by decide, by decide⟩

/-- The operators are the machine's: they wrap. -/
instance : Add (Fixed tag) := ⟨fun a b => narrow (a.raw + b.raw)⟩

instance : Sub (Fixed tag) := ⟨fun a b => narrow (a.raw - b.raw)⟩

/-- Absolute value that saturates at the least scalar, whose negation is not
representable. -/
def saturatingAbs (value : Fixed tag) : Fixed tag :=
  if value.raw = rawMin then max
  else if value.raw < 0 then narrow (-value.raw)
  else value

@[simp]
theorem zero_raw : (zero : Fixed tag).raw = 0 := rfl

@[simp]
theorem isZero_iff (value : Fixed tag) : value.isZero = true ↔ value.raw = 0 := by
  simp [isZero]

@[simp]
theorem isPositive_iff (value : Fixed tag) : value.isPositive = true ↔ 0 < value.raw := by
  simp [isPositive]

@[simp]
theorem isPositive_eq_false_iff (value : Fixed tag) :
    value.isPositive = false ↔ value.raw ≤ 0 := by
  simp [isPositive]

@[simp]
theorem isNegative_iff (value : Fixed tag) : value.isNegative = true ↔ value.raw < 0 := by
  simp [isNegative]

/-- A representable raw value is exactly what `fromRaw?` returns. -/
theorem fromRaw?_eq_some_iff {raw : Int} {value : Fixed tag} :
    fromRaw? raw = some value ↔ value.raw = raw := by
  unfold fromRaw?
  constructor
  · intro h
    split at h
    · cases h
      rfl
    · cases h
  · intro h
    subst h
    rw [dif_pos ⟨value.rawMin_le, value.raw_le⟩]

theorem fromRaw?_eq_none_iff {raw : Int} :
    (fromRaw? raw : Option (Fixed tag)) = none ↔ raw < rawMin ∨ rawMax < raw := by
  unfold fromRaw?
  split
  · rename_i h
    simp only [reduceCtorEq, false_iff]
    omega
  · rename_i h
    simp only [true_iff]
    omega

theorem checkedAdd_eq_some_iff {a b sum : Fixed tag} :
    checkedAdd a b = some sum ↔ sum.raw = a.raw + b.raw :=
  fromRaw?_eq_some_iff

theorem checkedSub_eq_some_iff {a b difference : Fixed tag} :
    checkedSub a b = some difference ↔ difference.raw = a.raw - b.raw :=
  fromRaw?_eq_some_iff

/-- A sum between zero and a representable bound never overflows. -/
theorem exists_checkedAdd {a b bound : Fixed tag} (hlo : 0 ≤ a.raw + b.raw)
    (hhi : a.raw + b.raw ≤ bound.raw) : ∃ sum, checkedAdd a b = some sum := by
  have hmax := bound.raw_le
  refine ⟨⟨a.raw + b.raw, ?_, by omega⟩, checkedAdd_eq_some_iff.mpr rfl⟩
  simp only [rawMin]
  omega

/-- Narrowing keeps a value that is already representable. -/
theorem narrow_raw_of_inRange {raw : Int} (hlo : rawMin ≤ raw) (hhi : raw ≤ rawMax) :
    (narrow raw : Fixed tag).raw = raw := by
  simp only [rawMin, rawMax] at hlo hhi
  apply Int.bmod_eq_of_le <;> omega

@[simp]
theorem max_raw : (max : Fixed tag).raw = rawMax := rfl

/-- A difference that is representable is the difference. -/
theorem sub_raw {a b : Fixed tag} (hlo : rawMin ≤ a.raw - b.raw) (hhi : a.raw - b.raw ≤ rawMax) :
    (a - b).raw = a.raw - b.raw :=
  narrow_raw_of_inRange hlo hhi

theorem sub_self_eq_zero (value : Fixed tag) : value - value = zero := by
  ext1
  rw [sub_raw (by simp [rawMin]) (by simp [rawMax]), sub_self, zero_raw]

/-- Every scalar but the least has an opposite. -/
theorem zero_sub_raw {value : Fixed tag} (h : value.raw ≠ rawMin) :
    (zero - value).raw = -value.raw := by
  have hlo := value.rawMin_le
  have hhi := value.raw_le
  simp only [rawMin, rawMax] at *
  rw [sub_raw] <;> simp only [zero_raw, rawMin, rawMax] <;> omega

/-- Away from the least scalar the absolute value is exact. -/
theorem saturatingAbs_raw {value : Fixed tag} (h : value.raw ≠ rawMin) :
    (saturatingAbs value).raw = |value.raw| := by
  have hlo := value.rawMin_le
  have hhi := value.raw_le
  unfold saturatingAbs
  rw [if_neg h]
  split
  · rename_i hneg
    simp only [rawMin, rawMax] at h hlo hhi
    rw [narrow_raw_of_inRange (by simp only [rawMin]; omega) (by simp only [rawMax]; omega),
      abs_of_neg hneg]
  · rename_i hpos
    rw [abs_of_nonneg (by omega)]

/-- The least scalar saturates. -/
theorem saturatingAbs_raw_of_min {value : Fixed tag} (h : value.raw = rawMin) :
    (saturatingAbs value).raw = rawMax := by
  rw [saturatingAbs, if_pos h, max_raw]

theorem saturatingAbs_nonneg (value : Fixed tag) : 0 ≤ (saturatingAbs value).raw := by
  by_cases hmin : value.raw = rawMin
  · rw [saturatingAbs_raw_of_min hmin]
    decide
  · rw [saturatingAbs_raw hmin]
    exact abs_nonneg _

/-- Below the greatest scalar, a saturated absolute value bounds the exact one. -/
theorem abs_raw_le_of_saturatingAbs_le {value : Fixed tag} {bound : Int}
    (h : (saturatingAbs value).raw ≤ bound) (hbound : bound < rawMax) : |value.raw| ≤ bound := by
  by_cases hmin : value.raw = rawMin
  · rw [saturatingAbs_raw_of_min hmin] at h
    omega
  · rwa [saturatingAbs_raw hmin] at h

end Fixed

/-- Price times quantity, truncated toward zero, with an explicit range check. -/
def checkedNotionalOf (price : Px) (quantity : Qty) : Option Notional :=
  Fixed.fromRaw? ((price.raw * quantity.raw).tdiv Fixed.kScale)

/-- Price times quantity, truncated toward zero, narrowed without a check. -/
def notionalOf (price : Px) (quantity : Qty) : Notional :=
  Fixed.narrow ((price.raw * quantity.raw).tdiv Fixed.kScale)

end MmEngine
