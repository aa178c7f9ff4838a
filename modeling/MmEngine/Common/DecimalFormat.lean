/-
# Formatting and back

The text of a raw value has the digits before the point, and after it the digits down to
the last one that is not zero. It is the text of a literal without an exponent, whose
value is the raw value, so the parser gives the raw value back.
-/

import MmEngine.Common.DecimalValue

namespace MmEngine

namespace Decimal

open Numeral

instance instNeZeroBase : NeZero 10 := ⟨by decide⟩

/-- The eight digits after the point. -/
def fractionOf (frac : Nat) : List (Fin 10) :=
  (List.range kDecimals).map fun d => Fin.ofNat 10 (frac / 10 ^ (kDecimals - 1 - d))

/-- The digits of a number below the base as decimal digits. -/
def wholeOf (number : Nat) : List (Fin 10) := (digits 10 number).map (Fin.ofNat 10)

theorem fracDigitsOf_eq (frac : Nat) : fracDigitsOf frac = digitText (fractionOf frac) := by
  rw [fracDigitsOf, digitText, fractionOf, List.map_map]
  rfl

theorem numbers_wholeOf (number : Nat) : numbers (wholeOf number) = digits 10 number := by
  rw [numbers, wholeOf, List.map_map]
  refine (List.map_congr_left fun d hd => ?_).trans (List.map_id _)
  exact Nat.mod_eq_of_lt (digits_lt (by decide) number d hd)

theorem digitText_wholeOf (number : Nat) :
    digitText (wholeOf number) = (digits 10 number).map Nat.digitChar := by
  rw [← numbers_wholeOf, numbers, List.map_map]
  rfl

theorem value_fractionOf {frac : Nat} (h : frac < 10 ^ kDecimals) :
    value 10 (numbers (fractionOf frac)) = frac := by
  have hnumbers : numbers (fractionOf frac) =
      (List.range kDecimals).map fun d => frac / 10 ^ (kDecimals - 1 - d) % 10 := by
    rw [numbers, fractionOf, List.map_map]
    rfl
  rw [hnumbers, value_lowest, Nat.mod_eq_of_lt h]

/-- The digits after the point that are written. -/
def keptOf (frac : Nat) : List (Fin 10) := (fractionOf frac).rdropWhile fun d => d = 0

/-- The digits after the point are those that are written and zeros. -/
theorem fractionOf_eq (frac : Nat) :
    ∃ n, fractionOf frac = keptOf frac ++ List.replicate n 0 := by
  set isZero := fun d : Fin 10 => decide (d = 0) with hisZero
  have hzeros : ∀ d ∈ (fractionOf frac).reverse.takeWhile isZero, d = 0 := by
    intro d hd
    exact of_decide_eq_true (List.mem_takeWhile_imp (p := isZero) hd)
  refine ⟨((fractionOf frac).reverse.takeWhile isZero).length, ?_⟩
  calc fractionOf frac
      = ((fractionOf frac).reverse.takeWhile isZero ++
          (fractionOf frac).reverse.dropWhile isZero).reverse := by
        rw [List.takeWhile_append_dropWhile, List.reverse_reverse]
    _ = keptOf frac ++ ((fractionOf frac).reverse.takeWhile isZero).reverse := by
        rw [List.reverse_append]
        rfl
    _ = keptOf frac ++ List.replicate ((fractionOf frac).reverse.takeWhile isZero).length 0 := by
        rw [← List.reverse_replicate, ← List.eq_replicate_of_mem hzeros]

theorem digitText_keptOf (frac : Nat) :
    digitText (keptOf frac) = (fracDigitsOf frac).rdropWhile fun c => c = '0' := by
  have hzero : ((fun c : Char => decide (c = '0')) ∘ fun d : Fin 10 => Nat.digitChar d) =
      fun d => decide (d = 0) := by
    funext d
    revert d
    decide
  rw [fracDigitsOf_eq, keptOf, digitText, digitText, List.rdropWhile, List.rdropWhile,
    ← List.map_reverse, List.dropWhile_map, List.map_reverse, hzero]

/-- The literal whose text is written for a raw value. -/
def formatted (raw : Int) : Literal where
  sign := if raw < 0 then some true else none
  whole := wholeOf (raw.natAbs / 10 ^ kDecimals)
  fraction :=
    if (keptOf (raw.natAbs % 10 ^ kDecimals)).isEmpty then none
    else some (keptOf (raw.natAbs % 10 ^ kDecimals))
  exponent := none
  hasDigit := by
    intro hnil
    have hwhole := (List.append_eq_nil_iff.mp hnil).1
    exact digits_ne_nil 10 _ (List.map_eq_nil_iff.mp hwhole)

theorem formatted_sign (raw : Int) :
    (formatted raw).sign.text = if raw < 0 then ['-'] else [] := by
  unfold formatted
  split <;> rfl

theorem formatFixedRaw_eq (raw : Int) : formatFixedRaw raw = (formatted raw).text := by
  have hpoint : Literal.pointText (formatted raw).fraction ++
      Literal.exponentText (formatted raw).exponent =
        if (keptOf (raw.natAbs % 10 ^ kDecimals)).isEmpty then []
        else '.' :: digitText (keptOf (raw.natAbs % 10 ^ kDecimals)) := by
    unfold formatted
    dsimp only
    split <;> simp [Literal.pointText, Literal.exponentText]
  have hempty : (digitText (keptOf (raw.natAbs % 10 ^ kDecimals))).isEmpty =
      (keptOf (raw.natAbs % 10 ^ kDecimals)).isEmpty := List.isEmpty_map
  unfold formatFixedRaw
  dsimp only
  rw [Literal.text, formatted_sign, hpoint, ← digitText_keptOf, hempty, ← digitText_wholeOf,
    List.append_assoc]
  rfl

theorem formatted_fractionDigits (raw : Int) :
    (formatted raw).fractionDigits = keptOf (raw.natAbs % 10 ^ kDecimals) := by
  unfold Literal.fractionDigits formatted
  dsimp only
  split
  · rename_i hempty
    rw [List.isEmpty_iff.mp hempty]
    rfl
  · rfl

/-- The digits that are written, with the zeros that are not, make up the raw value. -/
theorem formatted_digits (raw : Int) :
    ∃ n, (formatted raw).fractionDigits.length + n = 8 ∧
      value 10 (numbers ((formatted raw).whole ++ (formatted raw).fractionDigits)) * 10 ^ n =
        raw.natAbs := by
  rw [formatted_fractionDigits]
  have hlt : raw.natAbs % 10 ^ kDecimals < 10 ^ kDecimals := Nat.mod_lt _ (by decide)
  have hwhole : value 10 (numbers (formatted raw).whole) = raw.natAbs / 10 ^ kDecimals := by
    rw [← value_digits 10 (raw.natAbs / 10 ^ kDecimals), ← numbers_wholeOf]
    rfl
  have hdivide := Nat.div_add_mod' raw.natAbs (10 ^ kDecimals)
  generalize raw.natAbs % 10 ^ kDecimals = frac at hlt hdivide
  obtain ⟨n, hn⟩ := fractionOf_eq frac
  have hlength : (keptOf frac).length + n = 8 := by
    have height : (fractionOf frac).length = 8 := rfl
    rwa [hn, List.length_append, List.length_replicate] at height
  have hfraction : value 10 (numbers (keptOf frac)) * 10 ^ n = frac := by
    have hzeros : value 10 (numbers (List.replicate n (0 : Fin 10))) = 0 := by
      rw [numbers, List.map_replicate]
      exact value_replicate_zero 10 n
    have hall := value_fractionOf hlt
    rwa [hn, numbers_append, value_append, hzeros, length_numbers, List.length_replicate,
      Nat.add_zero] at hall
  refine ⟨n, hlength, ?_⟩
  rw [numbers_append, value_append, length_numbers, hwhole, Nat.add_mul, hfraction, Nat.mul_assoc,
    ← pow_add, hlength]
  exact hdivide

theorem formatted_value (raw : Int) : (raw : ℚ) = 10 ^ 8 * (formatted raw).value := by
  obtain ⟨n, hlength, hdigits⟩ := formatted_digits raw
  have hsign : (raw : ℚ) =
      (if (formatted raw).sign.isMinus then -1 else 1) * (raw.natAbs : ℚ) := by
    rw [Nat.cast_natAbs, Int.cast_abs]
    unfold formatted
    by_cases hneg : raw < 0
    · rw [if_pos hneg, abs_of_neg (by exact_mod_cast hneg)]
      simp [Sign.isMinus]
    · rw [if_neg hneg, abs_of_nonneg (by exact_mod_cast Int.not_lt.mp hneg)]
      simp [Sign.isMinus]
  have hten : (10 : ℚ) ^ 8 = 10 ^ (formatted raw).fractionDigits.length * 10 ^ n := by
    rw [← pow_add, hlength]
  have hexponent : (formatted raw).exponentValue = 0 := rfl
  have hcast : (raw.natAbs : ℚ) =
      value 10 (numbers ((formatted raw).whole ++ (formatted raw).fractionDigits)) * 10 ^ n := by
    exact_mod_cast hdigits.symm
  rw [hsign, hcast, Literal.value, hexponent, zpow_zero, mul_one, hten]
  field_simp

/-- The text ends in no zero and no point that could be left out. -/
def Trimmed (text : List Char) : Prop :=
  '.' ∈ text → ∀ c ∈ text.getLast?, c ≠ '0' ∧ c ≠ '.'

theorem point_notMem_digitText (ds : List (Fin 10)) : '.' ∉ digitText ds := by
  have hall : ∀ d : Fin 10, Nat.digitChar d ≠ '.' := by decide
  intro hmem
  obtain ⟨d, _, hd⟩ := List.mem_map.mp hmem
  exact hall d hd

theorem trimmed_formatFixedRaw (raw : Int) : Trimmed (formatFixedRaw raw) := by
  intro hpoint c hc
  rw [formatFixedRaw_eq, Literal.text] at hpoint hc
  have hexponent : (formatted raw).exponent = none := rfl
  rw [hexponent] at hpoint hc
  cases hfraction : (formatted raw).fraction with
  | none =>
      -- Without a fraction there is no point.
      rw [hfraction] at hpoint
      have hsign : '.' ∉ (formatted raw).sign.text := by
        rw [formatted_sign]
        split <;> decide
      simp [Literal.pointText, Literal.exponentText, hsign, point_notMem_digitText] at hpoint
  | some ds =>
      have hds : ds = keptOf (raw.natAbs % 10 ^ kDecimals) := by
        have hdigits := formatted_fractionDigits raw
        rwa [Literal.fractionDigits, hfraction] at hdigits
      have hne : ds ≠ [] := by
        rintro rfl
        unfold formatted at hfraction
        dsimp only at hfraction
        rw [← hds] at hfraction
        cases hfraction
      rw [hfraction] at hc
      have hlast : (digitText ds).getLast? = some (Nat.digitChar (ds.getLast hne)) := by
        rw [digitText, List.getLast?_map, List.getLast?_eq_some_getLast hne]
        rfl
      simp only [Literal.pointText, Literal.exponentText, List.append_nil] at hc
      rw [List.getLast?_append, List.getLast?_append, List.getLast?_cons, hlast] at hc
      cases hc
      have hzero : ds.getLast hne ≠ 0 := by
        subst hds
        exact fun hlast => List.rdropWhile_last_not _ _ hne (decide_eq_true hlast)
      have hall : ∀ d : Fin 10, d ≠ 0 → Nat.digitChar d ≠ '0' ∧ Nat.digitChar d ≠ '.' := by decide
      exact hall _ hzero

/-- The parser gives a raw value back from its text. -/
theorem parse_formatFixedRaw {raw : Int} (hfits : Fits raw) :
    parseFixedRaw (formatFixedRaw raw) = some raw := by
  rw [formatFixedRaw_eq]
  exact Literal.parse_of_value rfl (formatted_value raw) hfits

/-- On texts without an exponent the parser computes what they represent, and it gives
every raw value back from its text, which is trimmed. -/
theorem plain_decimals :
    (∀ text : List Char, 'e' ∉ text → 'E' ∉ text →
      ∀ raw, parseFixedRaw text = some raw ↔ Represents text raw) ∧
    ∀ raw, Fits raw →
      parseFixedRaw (formatFixedRaw raw) = some raw ∧ Trimmed (formatFixedRaw raw) := by
  refine ⟨fun text he hE raw => parse_iff_represents he hE raw, fun raw hfits => ⟨?_, ?_⟩⟩
  · exact parse_formatFixedRaw hfits
  · exact trimmed_formatFixedRaw raw

end Decimal

end MmEngine
