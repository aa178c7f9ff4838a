/-
# Counters kept modulo a power of two

A counter that only goes up is kept in a machine word and wraps. As long as two counters
are less than a whole turn of the word apart, the words tell their distance and whether
they are equal, and the low bits of a word are the counter modulo a smaller power of two.
-/

import Mathlib.Algebra.Order.Ring.Nat
import Mathlib.Data.Nat.Basic

namespace WrappingCounter

variable {width first last count : Nat}

theorem ofNat_add_one : BitVec.ofNat width count + 1 = BitVec.ofNat width (count + 1) := by
  rw [BitVec.ofNat_add]
  rfl

/-- The words of two counters tell their distance. -/
theorem toNat_sub (hle : first ≤ last) (hturn : last < first + 2 ^ width) :
    (BitVec.ofNat width last - BitVec.ofNat width first).toNat = last - first := by
  have hsum : BitVec.ofNat width last =
      BitVec.ofNat width first + BitVec.ofNat width (last - first) := by
    rw [← BitVec.ofNat_add, Nat.add_sub_cancel' hle]
  rw [hsum, BitVec.add_comm, BitVec.add_sub_cancel, BitVec.toNat_ofNat, Nat.mod_eq_of_lt (by omega)]

/-- The words of two counters tell whether the counters are equal. -/
theorem ofNat_eq_iff (hle : first ≤ last) (hturn : last < first + 2 ^ width) :
    BitVec.ofNat width first = BitVec.ofNat width last ↔ first = last := by
  constructor
  · intro heq
    have hzero := toNat_sub hle hturn
    rw [heq, BitVec.sub_self] at hzero
    simp only [BitVec.toNat_zero] at hzero
    omega
  · rintro rfl
    rfl

/-- A counter's word masked with a smaller power of two less one is its low bits. -/
theorem toNat_and_mask {bits : Nat} (hbits : bits < width) :
    (BitVec.ofNat width count &&& (BitVec.ofNat width (2 ^ bits) - 1)).toNat =
      count % 2 ^ bits := by
  have hpow : 2 ^ bits < 2 ^ width := Nat.pow_lt_pow_right (by decide) hbits
  have hmask : (BitVec.ofNat width (2 ^ bits) - BitVec.ofNat width 1).toNat = 2 ^ bits - 1 :=
    toNat_sub Nat.one_le_two_pow (by omega)
  rw [BitVec.toNat_and, show (1 : BitVec width) = BitVec.ofNat width 1 from rfl, hmask,
    Nat.and_two_pow_sub_one_eq_mod, BitVec.toNat_ofNat,
    Nat.mod_mod_of_dvd _ (Nat.pow_dvd_pow 2 (Nat.le_of_lt hbits))]

/-- The lowest bit of a counter's word is its parity. -/
theorem toNat_and_one (hwidth : 1 < width) :
    (BitVec.ofNat width count &&& 1).toNat = count % 2 := by
  have hmask : BitVec.ofNat width (2 ^ 1) - 1 = 1 := by
    rw [Nat.pow_one, ← ofNat_add_one, BitVec.add_sub_cancel]
    rfl
  have hlow : (BitVec.ofNat width count &&& (BitVec.ofNat width (2 ^ 1) - 1)).toNat =
      count % 2 ^ 1 := toNat_and_mask hwidth
  rwa [hmask, Nat.pow_one] at hlow

end WrappingCounter
