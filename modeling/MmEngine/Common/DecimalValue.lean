/-
# What the decimal parser returns

Scaling is exact while the product with the power of ten stays within 128 bits. The guard
on the mantissa leaves room for the eight digits of the scale, and a literal without an
exponent needs no more, so on plain decimals the parser returns the value whenever it is
representable and nothing else. An exponent may ask for up to thirty-eight digits. Then
the product wraps, and when what is left of it looks like a raw value it is returned.
-/

import MmEngine.Common.DecimalText

namespace MmEngine

namespace Decimal

open Numeral

/-- A number under a sign. -/
def signed (negative : Bool) (number : Int) : Int := if negative then -number else number

/-- The raw value is representable. -/
def Fits (raw : Int) : Prop := rawMin ≤ raw ∧ raw ≤ rawMax

instance (raw : Int) : Decidable (Fits raw) := inferInstanceAs (Decidable (_ ∧ _))

theorem wrap128_of_lt {number : Int} (hlo : -(2 ^ 127) ≤ number) (hhi : number < 2 ^ 127) :
    wrap128 number = number := by
  apply Int.bmod_eq_of_le <;> omega

/-- The residue looks like a raw value when the number is that close to a whole number of
turns. -/
theorem fits_wrap128_iff {number : Int} :
    Fits (wrap128 number) ↔ ∃ turns : Int, Fits (number - 2 ^ 128 * turns) := by
  constructor
  · intro h
    refine ⟨number.bdiv (2 ^ 128), ?_⟩
    rwa [wrap128, Int.bmod_eq_self_sub_mul_bdiv] at h
  · rintro ⟨turns, h⟩
    have hlarge : rawMin = -(2 ^ 63) ∧ rawMax = 2 ^ 63 - 1 := ⟨rfl, rfl⟩
    have hresidue : wrap128 (number - 2 ^ 128 * turns) = number - 2 ^ 128 * turns := by
      obtain ⟨hlo, hhi⟩ := h
      exact wrap128_of_lt (by omega) (by omega)
    have hturns : wrap128 (number - 2 ^ 128 * turns) = wrap128 number :=
      Int.sub_mul_bmod_self_left number (2 ^ 128) turns
    rwa [← hturns, hresidue]

theorem finish_eq_some {negative : Bool} {number raw : Int} :
    finish negative number = some raw ↔
      raw = (if negative then wrap128 (-number) else number) ∧ Fits raw := by
  unfold finish Fits
  dsimp only
  generalize (if negative then wrap128 (-number) else number) = result
  split
  · rename_i hout
    constructor
    · intro h
      cases h
    · rintro ⟨rfl, hlo, hhi⟩
      omega
  · rename_i hin
    rw [Option.some.injEq]
    constructor
    · rintro rfl
      exact ⟨rfl, by omega⟩
    · exact fun h => h.1.symm

/-- Within 128 bits the sign is applied as it is. -/
theorem finish_eq_some_iff {negative : Bool} {number raw : Int} (hlo : -(2 ^ 127) < number)
    (hhi : number < 2 ^ 127) :
    finish negative number = some raw ↔ raw = signed negative number ∧ Fits raw := by
  have hsigned : (if negative then wrap128 (-number) else number) = signed negative number := by
    unfold signed
    split
    · exact wrap128_of_lt (by omega) (by omega)
    · rfl
  rw [finish_eq_some, hsigned]

/-- The sign of a residue is the residue of the signed number. -/
theorem finish_wrap128 (negative : Bool) (number raw : Int) :
    finish negative (wrap128 number) = some raw ↔
      raw = wrap128 (signed negative number) ∧ Fits raw := by
  have hsigned : (if negative then wrap128 (-(wrap128 number)) else wrap128 number) =
      wrap128 (signed negative number) := by
    unfold signed wrap128
    split
    · exact Int.bmod_neg_bmod
    · rfl
  rw [finish_eq_some, hsigned]

theorem signed_mul (negative : Bool) (a b : Int) :
    signed negative (a * b) = signed negative a * b := by
  unfold signed
  split
  · exact (Int.neg_mul a b).symm
  · rfl

theorem fits_zero : Fits 0 := by decide

/-- Where the product stays within 128 bits, what scaling returns is exact. Scaling down
is a division that leaves nothing. -/
theorem scale_eq_some {negative : Bool} {mantissa : Nat} {shift raw : Int}
    (hmantissa : mantissa ≤ kMantissaCeiling)
    (hroom : 0 < shift → mantissa * 10 ^ shift.toNat < 2 ^ 127)
    (h : scale negative mantissa shift = some raw) :
    raw * 10 ^ (-shift).toNat = signed negative mantissa * 10 ^ shift.toNat ∧ Fits raw := by
  have hceiling : kMantissaCeiling = 2 ^ 100 := rfl
  unfold scale at h
  split at h
  · rename_i hup
    split at h
    · cases h
    have hproduct : ((mantissa * 10 ^ shift.toNat : Nat) : Int) < 2 ^ 127 := by
      exact_mod_cast hroom hup
    push_cast at hproduct
    have hnonneg : (0 : Int) ≤ mantissa * 10 ^ shift.toNat := by positivity
    rw [wrap128_of_lt (by omega) hproduct, finish_eq_some_iff (by omega) hproduct] at h
    have hzero : (-shift).toNat = 0 := by omega
    rw [hzero, pow_zero, mul_one, h.1, signed_mul]
    exact ⟨rfl, by rw [← signed_mul, ← h.1]; exact h.2⟩
  · split at h
    · rename_i hdown
      have hzero : shift.toNat = 0 := by omega
      rw [hzero, pow_zero, mul_one]
      split at h
      · split at h
        · rename_i hm
          cases h
          subst hm
          exact ⟨by cases negative <;> simp [signed], fits_zero⟩
        · cases h
      · split at h
        · cases h
        rename_i hdivides
        have hle : mantissa / 10 ^ (-shift).toNat ≤ mantissa := Nat.div_le_self _ _
        have hexact : mantissa / 10 ^ (-shift).toNat * 10 ^ (-shift).toNat = mantissa :=
          Nat.div_mul_cancel (Nat.dvd_of_mod_eq_zero (not_not.mp hdivides))
        generalize mantissa / 10 ^ (-shift).toNat = quotient at h hle hexact
        rw [finish_eq_some_iff (by omega) (by omega)] at h
        refine ⟨?_, h.2⟩
        rw [h.1, ← signed_mul]
        congr 1
        exact_mod_cast hexact
    · rename_i hup hdown
      have hzero : shift = 0 := by omega
      subst hzero
      rw [finish_eq_some_iff (by omega) (by omega)] at h
      refine ⟨?_, h.2⟩
      rw [h.1]
      rfl

/-- Scaling up returns the product when it is representable. -/
theorem scale_of_fits {negative : Bool} {mantissa : Nat} {shift : Int} (hlo : 0 ≤ shift)
    (hhi : shift < kPow10Size) (hroom : mantissa * 10 ^ shift.toNat < 2 ^ 127)
    (hfits : Fits (signed negative (mantissa * 10 ^ shift.toNat))) :
    scale negative mantissa shift = some (signed negative (mantissa * 10 ^ shift.toNat)) := by
  have hproduct : ((mantissa * 10 ^ shift.toNat : Nat) : Int) < 2 ^ 127 := by
    exact_mod_cast hroom
  push_cast at hproduct
  have hnonneg : (0 : Int) ≤ mantissa * 10 ^ shift.toNat := by positivity
  unfold scale
  split
  · rw [if_neg (by omega), wrap128_of_lt (by omega) hproduct]
    exact (finish_eq_some_iff (by omega) hproduct).mpr ⟨rfl, hfits⟩
  · have hzero : shift = 0 := by omega
    subst hzero
    rw [if_neg (by omega)]
    rw [Int.toNat_zero, pow_zero, mul_one] at hfits hproduct ⊢
    exact (finish_eq_some_iff (by omega) hproduct).mpr ⟨rfl, hfits⟩

namespace Literal

/-- The digits of a literal are those of the mantissa and the others. -/
theorem value_split (l : Literal) :
    Numeral.value 10 (numbers (l.whole ++ l.fractionDigits)) =
      l.mantissa * 10 ^ (l.fractionDigits.drop kDecimals).length +
        Numeral.value 10 (numbers (l.fractionDigits.drop kDecimals)) := by
  have hlist : numbers (l.whole ++ l.fractionDigits) =
      numbers (l.whole ++ l.fractionDigits.take kDecimals) ++
        numbers (l.fractionDigits.drop kDecimals) := by
    rw [← numbers_append, List.append_assoc, List.take_append_drop]
  rw [hlist, value_append, mantissa, length_numbers]

/-- The value on the scale of raw values is the mantissa times the power of ten left. -/
theorem value_eq {l : Literal} (h : ∀ d ∈ numbers (l.fractionDigits.drop kDecimals), d = 0) :
    10 ^ 8 * l.value = (signed l.sign.isMinus l.mantissa : ℚ) * 10 ^ l.shift := by
  have hlength : l.fractionDigits.length =
      (l.fractionDigits.take kDecimals).length + (l.fractionDigits.drop kDecimals).length := by
    rw [← List.length_append, List.take_append_drop]
  have hsign : ((signed l.sign.isMinus l.mantissa : Int) : ℚ) =
      (if l.sign.isMinus then -1 else 1) * (l.mantissa : ℚ) := by
    unfold signed
    split <;> simp
  have hshift : (10 : ℚ) ^ l.shift =
      10 ^ 8 / 10 ^ (l.fractionDigits.take kDecimals).length * 10 ^ l.exponentValue := by
    rw [shift, zpow_add₀ (by norm_num), zpow_sub₀ (by norm_num), zpow_natCast, zpow_natCast]
    rfl
  rw [value, l.value_split, value_of_all_zero h, Nat.add_zero, hsign, hshift, hlength, pow_add]
  push_cast
  field_simp

/-- The product of the mantissa with the power of ten leaves 128 bits, and it is as close
to a whole number of turns of the register as a raw value is to zero. -/
structure Wraps (l : Literal) : Prop where
  guarded : l.Guarded
  shift_pos : 0 < l.shift
  shift_lt : l.shift < kPow10Size
  exceeds : 2 ^ 127 ≤ l.mantissa * 10 ^ l.shift.toNat
  near : ∃ turns : Int,
    Fits (signed l.sign.isMinus (l.mantissa * 10 ^ l.shift.toNat) - 2 ^ 128 * turns)

theorem scale_of_wraps {l : Literal} (h : l.Wraps) :
    scale l.sign.isMinus l.mantissa l.shift =
      some (wrap128 (signed l.sign.isMinus (l.mantissa * 10 ^ l.shift.toNat))) := by
  rw [scale, if_pos h.shift_pos, if_neg (Int.not_le.mpr h.shift_lt)]
  exact (finish_wrap128 _ _ _).mpr ⟨rfl, fits_wrap128_iff.mpr h.near⟩

theorem ten_zpow (k : Int) : (10 : ℚ) ^ k = 10 ^ k.toNat / 10 ^ (-k).toNat := by
  have hk : k = (k.toNat : Int) - ((-k).toNat : Int) := by omega
  conv_lhs => rw [hk]
  rw [zpow_sub₀ (by norm_num), zpow_natCast, zpow_natCast]

/-- What is returned without a wrap is the value. -/
theorem eq_value_of_scale {l : Literal} (hguarded : l.Guarded) (hwraps : ¬ l.Wraps) {raw : Int}
    (h : scale l.sign.isMinus l.mantissa l.shift = some raw) :
    (raw : ℚ) = 10 ^ 8 * l.value ∧ Fits raw := by
  have hroom : 0 < l.shift → l.mantissa * 10 ^ l.shift.toNat < 2 ^ 127 := by
    intro hpos
    by_contra hover
    rw [scale, if_pos hpos] at h
    split at h
    · cases h
    rename_i hshift
    obtain ⟨hraw, hfits⟩ := (finish_wrap128 _ _ _).mp h
    exact hwraps ⟨hguarded, hpos, Int.not_le.mp hshift, Nat.le_of_not_lt hover,
      fits_wrap128_iff.mp (hraw ▸ hfits)⟩
  obtain ⟨hexact, hfits⟩ := scale_eq_some hguarded.mantissa_le hroom h
  refine ⟨?_, hfits⟩
  have hcast : (raw : ℚ) * 10 ^ (-l.shift).toNat =
      (signed l.sign.isMinus l.mantissa : Int) * 10 ^ l.shift.toNat := by
    exact_mod_cast hexact
  rw [value_eq hguarded.dropped, ten_zpow, ← mul_div_assoc, ← hcast, mul_div_assoc,
    div_self (by positivity), mul_one]

end Literal

/-- Accepted texts are literals, and what is returned is the value. -/
def Sound (text : List Char) : Prop :=
  ∀ raw, parseFixedRaw text = some raw →
    (∃ l : Literal, l.text = text) ∧
      ∀ l : Literal, l.text = text → (raw : ℚ) = 10 ^ 8 * l.value

/-- The parser is sound on the texts that do not wrap. -/
theorem parseFixedRaw_sound_iff (text : List Char) :
    Sound text ↔ ∀ l : Literal, l.text = text → ¬ l.Wraps := by
  constructor
  · rintro h l rfl hwraps
    have hparse := (l.parseFixedRaw_text _).mpr ⟨hwraps.guarded, l.scale_of_wraps hwraps⟩
    have hvalue := (h _ hparse).2 l rfl
    have hdown : (-l.shift).toNat = 0 := by
      have hpos := hwraps.shift_pos
      omega
    rw [Literal.value_eq hwraps.guarded.dropped, Literal.ten_zpow, hdown, pow_zero, div_one]
      at hvalue
    -- The product is far outside the range that its residue is in.
    have hresidue : wrap128 (signed l.sign.isMinus (l.mantissa * 10 ^ l.shift.toNat)) =
        signed l.sign.isMinus (l.mantissa * 10 ^ l.shift.toNat) := by
      rw [signed_mul]
      rw [signed_mul] at hvalue
      exact_mod_cast hvalue
    have hover : (2 : Int) ^ 127 ≤ l.mantissa * 10 ^ l.shift.toNat := by
      exact_mod_cast hwraps.exceeds
    obtain ⟨hlo, hhi⟩ := fits_wrap128_iff.mpr hwraps.near
    rw [hresidue] at hlo hhi
    unfold signed rawMin at hlo
    unfold signed rawMax at hhi
    cases hminus : l.sign.isMinus <;> simp only [hminus, if_true] at hlo hhi <;> omega
  · intro h raw hparse
    refine ⟨exists_literal hparse, ?_⟩
    rintro l rfl
    obtain ⟨hguarded, hscale⟩ := (l.parseFixedRaw_text raw).mp hparse
    exact (Literal.eq_value_of_scale hguarded (h l rfl) hscale).1

/-- `2 ^ 90` with thirty zeros behind it. -/
def roundLiteral : Literal where
  sign := none
  whole := [1, 2, 3, 7, 9, 4, 0, 0, 3, 9, 2, 8, 5, 3, 8, 0, 2, 7, 4, 8, 9, 9, 1, 2, 4, 2, 2, 4]
  fraction := none
  exponent := some ⟨false, none, [3, 0], by decide⟩
  hasDigit := by decide

/-- `2 ^ 90` times `10 ^ 38` is a multiple of `2 ^ 128`: a positive number is read as
zero. -/
theorem wrapped_to_zero :
    roundLiteral.text = "1237940039285380274899124224e30".toList ∧
      parseFixedRaw roundLiteral.text = some 0 ∧ ¬ Sound roundLiteral.text := by
  have hparse : parseFixedRaw roundLiteral.text = some 0 := by decide
  refine ⟨by decide, hparse, fun hsound => ?_⟩
  have hvalue := (hsound 0 hparse).2 roundLiteral rfl
  have hdigits : Numeral.value 10 (numbers (roundLiteral.whole ++ roundLiteral.fractionDigits)) =
      2 ^ 90 := by decide
  have hminus : roundLiteral.sign.isMinus = false := rfl
  have hpos : 0 < roundLiteral.value := by
    rw [Literal.value, hdigits, hminus, if_neg Bool.false_ne_true]
    exact mul_pos (div_pos (by norm_num) (by positivity)) (zpow_pos (by norm_num) _)
  rw [Int.cast_zero] at hvalue
  linarith

/-! ## Plain decimals -/

/-- A text that the decimal notation without an exponent allows, with a value that the
raw values represent exactly. -/
def Represents (text : List Char) (raw : Int) : Prop :=
  ∃ l : Literal, l.text = text ∧ l.exponent = none ∧ (raw : ℚ) = 10 ^ 8 * l.value ∧ Fits raw

namespace Literal

theorem shift_of_plain {l : Literal} (h : l.exponent = none) :
    0 ≤ l.shift ∧ l.shift ≤ kDecimals := by
  have hexponent : l.exponentValue = 0 := by
    rw [exponentValue, h]
    rfl
  have hlength : (l.fractionDigits.take kDecimals).length ≤ kDecimals := List.length_take_le _ _
  rw [shift, hexponent]
  omega

/-- Without an exponent nothing wraps: the guard leaves room for the scale. -/
theorem not_wraps {l : Literal} (h : l.exponent = none) : ¬ l.Wraps := by
  intro hwraps
  obtain ⟨_, hle⟩ := shift_of_plain h
  have hten : 10 ^ l.shift.toNat ≤ 10 ^ 8 :=
    Nat.pow_le_pow_right (by decide) (Int.toNat_le.mpr hle)
  have hproduct : l.mantissa * 10 ^ l.shift.toNat ≤ 2 ^ 100 * 10 ^ 8 :=
    Nat.mul_le_mul hwraps.guarded.mantissa_le hten
  exact absurd (hwraps.exceeds.trans hproduct) (by decide)

/-- What a value that is a raw value leaves out of the mantissa is zeros. -/
theorem dropped_of_value {l : Literal} (h : l.exponent = none) {raw : Int}
    (hvalue : (raw : ℚ) = 10 ^ 8 * l.value) :
    ∀ d ∈ numbers (l.fractionDigits.drop kDecimals), d = 0 := by
  by_cases hlong : l.fractionDigits.length ≤ kDecimals
  · rw [List.drop_eq_nil_of_le hlong]
    simp [numbers]
  set tail := l.fractionDigits.drop kDecimals with htail
  have hlength : l.fractionDigits.length = kDecimals + tail.length := by
    rw [htail, List.length_drop]
    omega
  have hexponent : l.exponentValue = 0 := by
    rw [exponentValue, h]
    rfl
  have hsplit : Numeral.value 10 (numbers (l.whole ++ l.fractionDigits)) =
      l.mantissa * 10 ^ tail.length + Numeral.value 10 (numbers tail) := l.value_split
  -- The raw value moves the digits of the tail in front of the point.
  have hcast : (raw : ℚ) * 10 ^ tail.length =
      (signed l.sign.isMinus
        (l.mantissa * 10 ^ tail.length + Numeral.value 10 (numbers tail)) : Int) := by
    have hsigned : (signed l.sign.isMinus
        (l.mantissa * 10 ^ tail.length + Numeral.value 10 (numbers tail)) : Int) =
          (if l.sign.isMinus then (-1 : ℚ) else 1) *
            ((l.mantissa * 10 ^ tail.length + Numeral.value 10 (numbers tail) : ℕ) : ℚ) := by
      unfold signed
      split <;> push_cast <;> ring
    rw [hsigned, hvalue, value, hsplit, hexponent, zpow_zero, mul_one, hlength, pow_add, kDecimals]
    field_simp
  have hexact : raw * 10 ^ tail.length = signed l.sign.isMinus
      (l.mantissa * 10 ^ tail.length + Numeral.value 10 (numbers tail)) := by
    exact_mod_cast hcast
  have hdvd : ((10 ^ tail.length : Nat) : Int) ∣
      ((l.mantissa * 10 ^ tail.length + Numeral.value 10 (numbers tail) : Nat) : Int) := by
    push_cast
    unfold signed at hexact
    split at hexact
    · exact ⟨-raw, by linarith⟩
    · exact ⟨raw, by linarith⟩
  have hzero : 10 ^ tail.length ∣ Numeral.value 10 (numbers tail) :=
    (Nat.dvd_add_right (Nat.dvd_mul_left _ _)).mp (Int.natCast_dvd_natCast.mp hdvd)
  have hlt : Numeral.value 10 (numbers tail) < 10 ^ tail.length := by
    have hvalueLt := value_lt (by decide) (numbers_lt tail)
    rwa [length_numbers] at hvalueLt
  exact (value_eq_zero_iff (by decide)).mp (Nat.eq_zero_of_dvd_of_lt hzero hlt)

/-- A literal without an exponent is accepted when its value is a raw value. -/
theorem parse_of_value {l : Literal} (h : l.exponent = none) {raw : Int}
    (hvalue : (raw : ℚ) = 10 ^ 8 * l.value) (hfits : Fits raw) :
    parseFixedRaw l.text = some raw := by
  have hdropped := dropped_of_value h hvalue
  obtain ⟨hlo, hhi⟩ := shift_of_plain h
  have hraw : raw = signed l.sign.isMinus (l.mantissa * 10 ^ l.shift.toNat) := by
    have hdown : (-l.shift).toNat = 0 := by omega
    rw [value_eq hdropped, ten_zpow, hdown, pow_zero, div_one] at hvalue
    rw [signed_mul]
    exact_mod_cast hvalue
  have hproduct : l.mantissa * 10 ^ l.shift.toNat ≤ 2 ^ 63 := by
    have hcast : ((l.mantissa * 10 ^ l.shift.toNat : Nat) : Int) ≤ 2 ^ 63 := by
      push_cast
      obtain ⟨hrawLo, hrawHi⟩ := hfits
      rw [hraw] at hrawLo hrawHi
      unfold signed rawMin at hrawLo
      unfold signed rawMax at hrawHi
      cases hminus : l.sign.isMinus <;> simp only [hminus, if_true] at hrawLo hrawHi <;> omega
    exact_mod_cast hcast
  have hmantissa : l.mantissa ≤ l.mantissa * 10 ^ l.shift.toNat :=
    Nat.le_mul_of_pos_right _ (Nat.pow_pos (by decide))
  have hexponent : l.exponentValue.natAbs ≤ 4096 := by
    rw [exponentValue, h]
    decide
  refine (l.parseFixedRaw_text raw).mpr ⟨⟨?_, hdropped, hexponent⟩, ?_⟩
  · exact (hmantissa.trans hproduct).trans (by decide)
  · rw [hraw] at hfits ⊢
    exact scale_of_fits hlo (hhi.trans_lt (by decide)) (hproduct.trans_lt (by decide)) hfits

end Literal

/-- On texts without an exponent the parser computes what they represent. -/
theorem parse_iff_represents {text : List Char} (he : 'e' ∉ text) (hE : 'E' ∉ text) (raw : Int) :
    parseFixedRaw text = some raw ↔ Represents text raw := by
  constructor
  · intro h
    obtain ⟨l, rfl⟩ := exists_literal h
    have hexponent : l.exponent = none := by
      cases hsome : l.exponent with
      | none => rfl
      | some exponent =>
          exfalso
          rw [Literal.text, hsome, Literal.exponentText, Exponent.text] at he hE
          cases hupper : exponent.upper <;> simp [hupper] at he hE
    obtain ⟨hguarded, hscale⟩ := (l.parseFixedRaw_text raw).mp h
    exact ⟨l, rfl, hexponent, Literal.eq_value_of_scale hguarded
        (Literal.not_wraps hexponent) hscale⟩
  · rintro ⟨l, rfl, hexponent, hvalue, hfits⟩
    exact Literal.parse_of_value hexponent hvalue hfits

end Decimal

end MmEngine
