/-
# Log-linear slots

The naturals are cut into slots: `sub` slots of width one, then `sub` slots for every power
of two, each scale twice as wide as the one before. A number of scale `e` lies `number / 2 ^ e`
slots of width `2 ^ e` from zero, and a slot's scale can be read off its position. Each slot
begins where the one before it ends, so a number is in one slot only, and a slot is never
wider than a `sub`-th of the numbers in it.
-/

import Mathlib.Algebra.Order.Group.Nat
import Mathlib.Order.Basic
import Mathlib.Tactic.Ring

namespace LogLinear

variable {sub slot scale number : Nat}

/-- The scale of a slot: the first `2 * sub` slots are of width one. -/
def scaleOf (sub slot : Nat) : Nat := slot / sub - 1

/-- How many slots of its own width lie before it. -/
def offsetOf (sub slot : Nat) : Nat := slot - sub * scaleOf sub slot

def lower (sub slot : Nat) : Nat := offsetOf sub slot * 2 ^ scaleOf sub slot

def upper (sub slot : Nat) : Nat := (offsetOf sub slot + 1) * 2 ^ scaleOf sub slot - 1

/-- The number belongs to the scale: it is below the next one, and not below this one. -/
structure InScale (sub scale number : Nat) : Prop where
  lt : number < 2 * sub * 2 ^ scale
  le : scale = 0 ∨ sub * 2 ^ scale ≤ number

/-- The slot of a number of the given scale. -/
def slotOf (sub scale number : Nat) : Nat := sub * scale + number / 2 ^ scale

theorem InScale.div_lt (h : InScale sub scale number) : number / 2 ^ scale < 2 * sub :=
  (Nat.div_lt_iff_lt_mul (Nat.two_pow_pos scale)).mpr h.lt

theorem InScale.le_div (h : InScale sub scale number) :
    scale = 0 ∨ sub ≤ number / 2 ^ scale :=
  h.le.imp_right (Nat.le_div_iff_mul_le (Nat.two_pow_pos scale)).mpr

/-- A slot's scale is that of its numbers. -/
theorem InScale.scaleOf_slotOf (h : InScale sub scale number) (hsub : 0 < sub) :
    scaleOf sub (slotOf sub scale number) = scale := by
  have hlt := h.div_lt
  rw [scaleOf, slotOf, Nat.mul_add_div hsub]
  rcases h.le_div with rfl | hle
  · have hquot : number / 2 ^ 0 / sub < 2 := (Nat.div_lt_iff_lt_mul hsub).mpr hlt
    omega
  · have hquot : number / 2 ^ scale / sub = 1 := Nat.div_eq_of_lt_le (by omega) (by omega)
    omega

theorem InScale.offsetOf_slotOf (h : InScale sub scale number) (hsub : 0 < sub) :
    offsetOf sub (slotOf sub scale number) = number / 2 ^ scale := by
  rw [offsetOf, h.scaleOf_slotOf hsub, slotOf, Nat.add_sub_cancel_left]

theorem InScale.lower_le (h : InScale sub scale number) (hsub : 0 < sub) :
    lower sub (slotOf sub scale number) ≤ number := by
  rw [lower, h.offsetOf_slotOf hsub, h.scaleOf_slotOf hsub]
  exact Nat.div_mul_le_self number _

theorem InScale.le_upper (h : InScale sub scale number) (hsub : 0 < sub) :
    number ≤ upper sub (slotOf sub scale number) := by
  rw [upper, h.offsetOf_slotOf hsub, h.scaleOf_slotOf hsub]
  have hlt := Nat.lt_mul_of_div_lt (Nat.lt_succ_self (number / 2 ^ scale)) (Nat.two_pow_pos scale)
  exact Nat.le_sub_one_of_lt hlt

/-- The end of its slot overshoots a number by a `sub`-th at most. -/
theorem InScale.overshoot (h : InScale sub scale number) (hsub : 0 < sub) :
    upper sub (slotOf sub scale number) - number ≤ number / sub := by
  have hsplit := Nat.div_add_mod number (2 ^ scale)
  have hupper : upper sub (slotOf sub scale number) =
      2 ^ scale * (number / 2 ^ scale) + (2 ^ scale - 1) := by
    rw [upper, h.offsetOf_slotOf hsub, h.scaleOf_slotOf hsub, Nat.add_mul, Nat.one_mul,
      Nat.mul_comm, Nat.add_sub_assoc (Nat.two_pow_pos scale)]
  rw [Nat.le_div_iff_mul_le hsub]
  rcases h.le with rfl | hle
  · rw [hupper]
    simp
  · have hwidth : upper sub (slotOf sub scale number) - number ≤ 2 ^ scale := by omega
    calc (upper sub (slotOf sub scale number) - number) * sub
        ≤ 2 ^ scale * sub := Nat.mul_le_mul_right sub hwidth
      _ = sub * 2 ^ scale := Nat.mul_comm _ _
      _ ≤ number := hle

section Position

variable {octave rest : Nat}

theorem scaleOf_eq (hrest : rest < sub) : scaleOf sub (sub * octave + rest) = octave - 1 := by
  rw [scaleOf, Nat.mul_add_div (by omega), Nat.div_eq_of_lt hrest, Nat.add_zero]

theorem offsetOf_first (hrest : rest < sub) : offsetOf sub (sub * 0 + rest) = rest := by
  rw [offsetOf, scaleOf_eq hrest]
  simp

theorem offsetOf_later (hrest : rest < sub) :
    offsetOf sub (sub * (octave + 1) + rest) = sub + rest := by
  rw [offsetOf, scaleOf_eq hrest, Nat.add_sub_cancel, Nat.mul_add]
  omega

/-- Where the next slot begins, be it of the same width or the first of the next. -/
theorem next_begin (hrest : rest < sub) :
    offsetOf sub (sub * octave + rest + 1) * 2 ^ scaleOf sub (sub * octave + rest + 1) =
      (offsetOf sub (sub * octave + rest) + 1) * 2 ^ scaleOf sub (sub * octave + rest) := by
  have hpos : 0 < sub := by omega
  by_cases hlast : rest + 1 = sub
  · have hnext : sub * octave + rest + 1 = sub * (octave + 1) + 0 := by
      rw [Nat.mul_add]
      omega
    rw [hnext, offsetOf_later hpos, scaleOf_eq hpos, scaleOf_eq hrest]
    cases octave with
    | zero =>
        rw [offsetOf_first hrest, hlast]
        rfl
    | succ octave =>
        have hdouble : sub + rest + 1 = 2 * sub := by omega
        rw [offsetOf_later hrest, hdouble]
        simp only [Nat.add_sub_cancel, Nat.add_zero]
        ring
  · have hmore : rest + 1 < sub := by omega
    rw [Nat.add_assoc, scaleOf_eq hmore, scaleOf_eq hrest]
    cases octave with
    | zero => rw [offsetOf_first hmore, offsetOf_first hrest]
    | succ octave => rw [offsetOf_later hmore, offsetOf_later hrest, Nat.add_assoc]

end Position

/-- A slot begins where the one before it ends. -/
theorem lower_succ (hsub : 0 < sub) (slot : Nat) : lower sub (slot + 1) = upper sub slot + 1 := by
  have hnext := @next_begin sub (slot / sub) _ (Nat.mod_lt slot hsub)
  rw [Nat.div_add_mod] at hnext
  rw [lower, hnext, upper, Nat.sub_add_cancel]
  exact Nat.mul_pos (Nat.succ_pos _) (Nat.two_pow_pos _)

theorem lower_le_upper (sub slot : Nat) : lower sub slot ≤ upper sub slot := by
  have hpos := Nat.two_pow_pos (scaleOf sub slot)
  rw [lower, upper, Nat.add_mul, Nat.one_mul]
  omega

/-- A slot ends before every later one begins. -/
theorem upper_lt_lower (hsub : 0 < sub) {earlier later : Nat} (h : earlier < later) :
    upper sub earlier < lower sub later := by
  induction later with
  | zero => exact absurd h (Nat.not_lt_zero _)
  | succ later ih =>
      rw [lower_succ hsub]
      rcases Nat.lt_succ_iff_lt_or_eq.mp h with hbefore | rfl
      · exact Nat.lt_succ_of_le ((ih hbefore).le.trans (lower_le_upper sub later))
      · exact Nat.lt_succ_self _

/-- A number is in one slot only. -/
theorem slot_unique (hsub : 0 < sub) {first second : Nat}
    (hfirst : lower sub first ≤ number ∧ number ≤ upper sub first)
    (hsecond : lower sub second ≤ number ∧ number ≤ upper sub second) : first = second := by
  rcases Nat.lt_trichotomy first second with hlt | heq | hgt
  · have hgap := upper_lt_lower hsub hlt
    omega
  · exact heq
  · have hgap := upper_lt_lower hsub hgt
    omega

end LogLinear
