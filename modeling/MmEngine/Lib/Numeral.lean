/-
# Numerals

A numeral is a list of digits, the most significant first. Reading one is a fold,
which is how a parser computes it one character at a time. Among the numerals of a
number exactly one has no leading zero, so a parser that accepts only that one can be
inverted.
-/

import Mathlib.Data.Nat.Digits.Lemmas
import Mathlib.Tactic.Ring

namespace Numeral

/-- One more digit at the end of a numeral that stands for `number`. -/
def push (base number digit : Nat) : Nat := number * base + digit

/-- The number a list of digits stands for. -/
def value (base : Nat) (digits : List Nat) : Nat := digits.foldl (push base) 0

/-- The digits of a number, without a leading zero. -/
def digits (base number : Nat) : List Nat :=
  if number = 0 then [0] else (Nat.digits base number).reverse

/-- Every digit is below the base. -/
def Digits (base : Nat) (ds : List Nat) : Prop := ∀ d ∈ ds, d < base

/-- No leading zero, except in the numeral of zero itself. -/
def Canonical (ds : List Nat) : Prop := ds ≠ [] ∧ (ds.head? = some 0 → ds = [0])

instance (ds : List Nat) : Decidable (Canonical ds) :=
  inferInstanceAs (Decidable (_ ∧ _))

variable {base : Nat} {ds xs ys : List Nat}

@[simp]
theorem value_nil : value base [] = 0 := rfl

@[simp]
theorem value_singleton (base d : Nat) : value base [d] = d := by
  simp [value, push]

theorem foldl_push (base : Nat) (ds : List Nat) (number : Nat) :
    ds.foldl (push base) number = number * base ^ ds.length + value base ds := by
  unfold value
  induction ds generalizing number with
  | nil => simp
  | cons d ds ih =>
      rw [List.foldl_cons, List.foldl_cons, ih, ih (push base 0 d), List.length_cons, pow_succ]
      simp only [push]
      ring

theorem value_append (base : Nat) (xs ys : List Nat) :
    value base (xs ++ ys) = value base xs * base ^ ys.length + value base ys := by
  rw [value, List.foldl_append, foldl_push]
  rfl

theorem value_cons (base d : Nat) (ds : List Nat) :
    value base (d :: ds) = d * base ^ ds.length + value base ds := by
  rw [← List.singleton_append, value_append, value_singleton]

theorem value_eq_ofDigits (base : Nat) (ds : List Nat) :
    value base ds = Nat.ofDigits base ds.reverse := by
  induction ds with
  | nil => rfl
  | cons d ds ih =>
      rw [value_cons, ih, List.reverse_cons, Nat.ofDigits_append, Nat.ofDigits_singleton,
        List.length_reverse]
      ring

theorem value_lt (hbase : 1 < base) (hds : Digits base ds) : value base ds < base ^ ds.length := by
  rw [value_eq_ofDigits, ← List.length_reverse]
  exact Nat.ofDigits_lt_base_pow_length hbase fun d hd => hds d (List.mem_reverse.mp hd)

/-- A number never falls while digits are pushed. -/
theorem le_foldl_push (hbase : 0 < base) (ds : List Nat) (number : Nat) :
    number ≤ ds.foldl (push base) number := by
  rw [foldl_push]
  exact (Nat.le_mul_of_pos_right _ (Nat.pow_pos hbase)).trans (Nat.le_add_right _ _)

theorem value_replicate_zero (base n : Nat) : value base (List.replicate n 0) = 0 := by
  rw [value_eq_ofDigits, List.reverse_replicate, Nat.ofDigits_replicate_zero]

/-- Digits that are all zero stand for zero. -/
theorem value_of_all_zero (h : ∀ d ∈ ds, d = 0) : value base ds = 0 := by
  rw [List.eq_replicate_of_mem h, value_replicate_zero]

theorem value_eq_zero_iff (hbase : 0 < base) : value base ds = 0 ↔ ∀ d ∈ ds, d = 0 := by
  constructor
  · induction ds with
    | nil => simp
    | cons d ds ih =>
        rw [value_cons]
        intro h
        have hpow : 0 < base ^ ds.length := Nat.pow_pos hbase
        rcases Nat.add_eq_zero_iff.mp h with ⟨hd, hrest⟩
        have hzero : d = 0 := (Nat.mul_eq_zero.mp hd).resolve_right hpow.ne'
        exact List.forall_mem_cons.mpr ⟨hzero, ih hrest⟩
  · exact value_of_all_zero

/-- The lowest digits of a number, as many as the width says, zeros in front included. -/
theorem value_lowest (base width number : Nat) :
    value base ((List.range width).map fun d => number / base ^ (width - 1 - d) % base) =
      number % base ^ width := by
  induction width with
  | zero => simp [Nat.mod_one]
  | succ width ih =>
      have hrest : ((fun d => number / base ^ (width + 1 - 1 - d) % base) ∘ Nat.succ) =
          fun d => number / base ^ (width - 1 - d) % base := by
        funext d
        rw [Function.comp_apply, show width + 1 - 1 - d.succ = width - 1 - d by omega]
      rw [List.range_succ_eq_map, List.map_cons, List.map_map, hrest, value_cons, ih,
        List.length_map, List.length_range, Nat.mod_pow_succ, Nat.add_sub_cancel, Nat.sub_zero]
      ring

theorem digits_ne_nil (base number : Nat) : digits base number ≠ [] := by
  unfold digits
  split
  · simp
  · rename_i hne
    simpa using Nat.digits_ne_nil_iff_ne_zero.mpr hne

theorem digits_lt (hbase : 1 < base) (number : Nat) : Digits base (digits base number) := by
  intro d hd
  unfold digits at hd
  split at hd
  · rw [List.mem_singleton.mp hd]
    omega
  · exact Nat.digits_lt_base hbase (List.mem_reverse.mp hd)

/-- Reading back the numeral of a number gives the number. -/
@[simp]
theorem value_digits (base number : Nat) : value base (digits base number) = number := by
  unfold digits
  split
  · rename_i hzero
    rw [hzero, value_singleton]
  · rw [value_eq_ofDigits, List.reverse_reverse, Nat.ofDigits_digits]

theorem length_digits_le (hbase : 1 < base) {number width : Nat} (hwidth : 0 < width)
    (hlt : number < base ^ width) : (digits base number).length ≤ width := by
  unfold digits
  split
  · exact hwidth
  · rw [List.length_reverse]
    exact (Nat.digits_length_le_iff hbase _).mpr hlt

theorem digits_canonical (base number : Nat) : Canonical (digits base number) := by
  refine ⟨digits_ne_nil base number, fun hhead => ?_⟩
  unfold digits at hhead ⊢
  split at hhead
  · rename_i hzero
    rw [if_pos hzero]
  · rename_i hne
    rw [List.head?_reverse] at hhead
    have hnil : Nat.digits base number ≠ [] := Nat.digits_ne_nil_iff_ne_zero.mpr hne
    have hlast := Nat.getLast_digit_ne_zero base hne
    rw [List.getLast?_eq_some_getLast hnil] at hhead
    exact absurd (Option.some.inj hhead) hlast

/-- A numeral without a leading zero is the numeral of its value. -/
theorem digits_value (hbase : 1 < base) (hds : Digits base ds) (hcanonical : Canonical ds) :
    digits base (value base ds) = ds := by
  obtain ⟨hne, hhead⟩ := hcanonical
  unfold digits
  split
  · rename_i hzero
    have hall := (value_eq_zero_iff (by omega)).mp hzero
    cases ds with
    | nil => exact absurd rfl hne
    | cons d ds =>
        rw [hall d List.mem_cons_self] at hhead ⊢
        exact (hhead rfl).symm
  · rename_i hpos
    rw [value_eq_ofDigits, Nat.digits_ofDigits base hbase _
      (fun d hd => hds d (List.mem_reverse.mp hd)), List.reverse_reverse]
    intro hreverse hzero
    rw [List.getLast_reverse] at hzero
    have hsingle := hhead ((List.head?_eq_some_head hne).trans (congrArg some hzero))
    rw [hsingle] at hpos
    exact hpos (value_singleton base 0)

end Numeral
