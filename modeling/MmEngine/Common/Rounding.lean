/-
# Snapping onto a venue grid

A price or a quantity is snapped to a multiple of the tick or of the lot before it leaves
the engine. The quotient is the machine's, toward zero, and the remainder decides whether
the mode moves it by one. The doubled remainder of the nearest mode is a 64-bit number,
so a remainder of half that range or more compares as a negative one.
-/

import MmEngine.Common.Instrument
import MmEngine.Lib.Grid

namespace MmEngine

/-- Where a value between two multiples goes. -/
inductive Rounding
  /-- Toward negative infinity. -/
  | down
  /-- Toward positive infinity. -/
  | up
  /-- Half away from zero. -/
  | nearest
  deriving DecidableEq

variable {tag : FixedTag}

/-- The remainder's size doubled, in 64 bits. -/
def twice (rem : Int) : Int :=
  (Fixed.narrow ((if rem < 0 then -rem else rem) * 2) : Fixed .px).raw

/-- The quotient after the mode has looked at a remainder that is not zero. -/
def adjustedQuotient (step quotient rem : Int) : Rounding → Int
  | .down => if rem < 0 then quotient - 1 else quotient
  | .up => if 0 < rem then quotient + 1 else quotient
  | .nearest =>
    if step ≤ twice rem then quotient + (if 0 < rem then 1 else -1) else quotient

/-- The quotient the value is snapped to. -/
def snappedQuotient (step number : Int) (mode : Rounding) : Int :=
  let quotient := number.tdiv step
  let rem := number - quotient * step
  if rem ≠ 0 then adjustedQuotient step quotient rem mode else quotient

/-- Snap a value onto the grid of a step. A step that is not positive leaves it as it is. -/
def roundToStep (value step : Fixed tag) (mode : Rounding) : Fixed tag :=
  if step.raw ≤ 0 then value
  else Fixed.narrow (snappedQuotient step.raw value.raw mode * step.raw)

/-- The multiple a mode asks for, in exact arithmetic. -/
def Rounding.Rounded : Rounding → (step number multiple : Int) → Prop
  | .down => Grid.IsDown
  | .up => Grid.IsUp
  | .nearest => Grid.IsNearest

/-- The value is snapped to the multiple, which is on the grid and stays where it is under
every mode. -/
structure SnapsTo (value step : Fixed tag) (mode : Rounding) (multiple : Int) : Prop where
  exact : (roundToStep value step mode).raw = multiple
  onStep : isOnStep (roundToStep value step mode) step = true
  stable : ∀ again,
    roundToStep (roundToStep value step mode) step again = roundToStep value step mode

/-- The nearest multiple is asked of a value that is less than a step from zero and whose
doubled size is not a signed 64-bit number. -/
def DoublingWraps (value step : Fixed tag) (mode : Rounding) : Prop :=
  mode = .nearest ∧ 2 ^ 62 ≤ |value.raw| ∧ |value.raw| < step.raw

theorem twice_of_small {rem : Int} (h : rem.natAbs < 2 ^ 62) : twice rem = 2 * rem.natAbs := by
  have hsize : (if rem < 0 then -rem else rem) = rem.natAbs := by
    split <;> omega
  rw [twice, hsize, Fixed.narrow_raw_of_inRange]
  · omega
  · simp only [rawMin]
    omega
  · simp only [rawMax]
    omega

theorem twice_neg {rem : Int} (h : 2 ^ 62 ≤ rem.natAbs) (hrem : rem.natAbs < 2 ^ 63) :
    twice rem < 0 := by
  have hsize : (if rem < 0 then -rem else rem) = rem.natAbs := by
    split <;> omega
  rw [twice, hsize]
  simp only [Fixed.narrow, Int.bmod]
  omega

section Exact

variable {number step : Int}

/-- The remainder is smaller than the step. -/
theorem natAbs_rem_lt (number : Int) (hstep : 0 < step) :
    (number - number.tdiv step * step).natAbs < step.natAbs := by
  have htrunc := Grid.isTruncated_tdiv number hstep
  rcases Int.le_total 0 number with hnonneg | hnonpos
  · have hbounds := htrunc.of_nonneg hnonneg
    omega
  · have hbounds := htrunc.of_nonpos hnonpos
    omega

/-- Without a remainder every mode asks for the number itself. -/
theorem rounded_of_rem_eq_zero (hstep : 0 < step) (mode : Rounding)
    (hrem : number - number.tdiv step * step = 0) :
    mode.Rounded step number (number.tdiv step * step) := by
  have htrunc := Grid.isTruncated_tdiv number hstep
  cases mode with
  | down => exact htrunc.isDown hstep (by omega)
  | up => exact htrunc.isUp hstep (by omega)
  | nearest => exact htrunc.isNearest hstep (by omega)

/-- The quotients give the multiple the mode asks for, unless the nearest mode doubles a
remainder whose double is not representable. -/
theorem rounded_snapped (hstep : 0 < step) (mode : Rounding)
    (hsmall : mode = .nearest → (number - number.tdiv step * step).natAbs < 2 ^ 62) :
    mode.Rounded step number (snappedQuotient step number mode * step) := by
  have htrunc := Grid.isTruncated_tdiv number hstep
  simp only [snappedQuotient]
  split
  · rename_i hrem
    cases mode with
    | down =>
      simp only [adjustedQuotient]
      split
      · rw [Int.sub_mul, Int.one_mul]
        exact htrunc.isDown_sub hstep (by omega)
      · exact htrunc.isDown hstep (by omega)
    | up =>
      simp only [adjustedQuotient]
      split
      · rw [Int.add_mul, Int.one_mul]
        exact htrunc.isUp_add hstep (by omega)
      · exact htrunc.isUp hstep (by omega)
    | nearest =>
      simp only [adjustedQuotient, twice_of_small (hsmall rfl)]
      split
      · split
        · rw [Int.add_mul, Int.one_mul]
          exact htrunc.isNearest_add hstep (by omega) (by omega)
        · rw [Int.add_mul, Int.neg_one_mul]
          exact htrunc.isNearest_sub hstep (by omega) (by omega)
      · exact htrunc.isNearest hstep (by omega)
  · rename_i hrem
    exact rounded_of_rem_eq_zero hstep mode (by omega)

/-- A doubling that wraps leaves the quotient as the machine's division gave it. -/
theorem snappedQuotient_of_wraps
    (hwraps : 2 ^ 62 ≤ (number - number.tdiv step * step).natAbs)
    (hrange : (number - number.tdiv step * step).natAbs < 2 ^ 63) (hstep : 0 < step) :
    snappedQuotient step number .nearest = number.tdiv step := by
  have hneg := twice_neg hwraps hrange
  simp only [snappedQuotient, adjustedQuotient]
  rw [if_neg (show ¬ step ≤ _ by omega), ite_self]

/-- The multiple every mode asks for exists. -/
theorem exists_rounded (number : Int) (hstep : 0 < step) (mode : Rounding) :
    ∃ multiple, mode.Rounded step number multiple := by
  have htrunc := Grid.isTruncated_tdiv number hstep
  cases mode with
  | down => exact ⟨_, rounded_snapped hstep .down (fun h => by cases h)⟩
  | up => exact ⟨_, rounded_snapped hstep .up (fun h => by cases h)⟩
  | nearest =>
    by_cases hhalf : step.natAbs ≤ 2 * (number - number.tdiv step * step).natAbs
    · rcases Int.lt_or_gt_of_ne
        (show number ≠ number.tdiv step * step by omega) with hbelow | habove
      · exact ⟨_, htrunc.isNearest_sub hstep hhalf hbelow⟩
      · exact ⟨_, htrunc.isNearest_add hstep hhalf habove⟩
    · exact ⟨_, htrunc.isNearest hstep (by omega)⟩

theorem Rounding.Rounded.dvd {mode : Rounding} {multiple : Int}
    (h : mode.Rounded step number multiple) : step ∣ multiple := by
  cases mode with
  | down => exact Grid.IsDown.dvd h
  | up => exact Grid.IsUp.dvd h
  | nearest => exact Grid.IsNearest.dvd h

theorem Rounding.Rounded.unique {mode : Rounding} {multiple multiple' : Int}
    (h : mode.Rounded step number multiple) (h' : mode.Rounded step number multiple') :
    multiple = multiple' := by
  cases mode with
  | down => exact Grid.IsDown.unique h h'
  | up => exact Grid.IsUp.unique h h'
  | nearest => exact Grid.IsNearest.unique h h'

theorem Rounding.Rounded.mono {mode : Rounding} {other multiple multiple' : Int}
    (h : mode.Rounded step number multiple)
    (h' : mode.Rounded step other multiple') (hle : number ≤ other) : multiple ≤ multiple' := by
  cases mode with
  | down => exact Grid.IsDown.mono h h' hle
  | up => exact Grid.IsUp.mono h h' hle
  | nearest => exact Grid.IsNearest.mono h h' hle

end Exact

section Snapped

variable {value step : Fixed tag} {mode : Rounding} {multiple : Int}

theorem roundToStep_of_pos (hstep : 0 < step.raw) :
    roundToStep value step mode =
      Fixed.narrow (snappedQuotient step.raw value.raw mode * step.raw) := by
  rw [roundToStep, if_neg (by omega)]

/-- The doubling wraps exactly for a remainder of half the signed range or more, as long as
the nearest multiple is representable. -/
theorem doublingWraps_iff (hstep : 0 < step.raw)
    (hround : Rounding.Rounded .nearest step.raw value.raw multiple)
    (hfits : rawMin ≤ multiple ∧ multiple ≤ rawMax) :
    DoublingWraps value step .nearest ↔
      2 ^ 62 ≤ (value.raw - value.raw.tdiv step.raw * step.raw).natAbs := by
  have htrunc := Grid.isTruncated_tdiv value.raw hstep
  have hrem := natAbs_rem_lt value.raw hstep
  have hmax := step.raw_le
  obtain ⟨hdvd, hhalf, -⟩ := (Grid.isNearest_iff hstep).mp hround
  have hbase := Grid.eq_or_le_natAbs_sub htrunc.dvd (Int.dvd_zero step.raw)
  have hsame := Grid.eq_or_le_natAbs_sub hdvd htrunc.dvd
  simp only [rawMin, rawMax] at hfits hmax
  simp only [DoublingWraps, true_and]
  rw [Int.abs_eq_natAbs]
  rcases Int.le_total 0 value.raw with hnonneg | hnonpos
  · have hbounds := htrunc.of_nonneg hnonneg
    omega
  · have hbounds := htrunc.of_nonpos hnonpos
    omega

/-- Where the rounded multiple is representable it is the result, except where the doubling
wraps. -/
theorem roundToStep_raw_eq_iff (hstep : 0 < step.raw)
    (hround : mode.Rounded step.raw value.raw multiple)
    (hfits : rawMin ≤ multiple ∧ multiple ≤ rawMax) :
    (roundToStep value step mode).raw = multiple ↔ ¬ DoublingWraps value step mode := by
  by_cases hsmall : mode = .nearest →
      (value.raw - value.raw.tdiv step.raw * step.raw).natAbs < 2 ^ 62
  · have hexact := (rounded_snapped hstep mode hsmall).unique hround
    have hclear : ¬ DoublingWraps value step mode := by
      rintro ⟨rfl, hwraps⟩
      have hlarge := (doublingWraps_iff hstep hround hfits).mp ⟨rfl, hwraps⟩
      have := hsmall rfl
      omega
    rw [roundToStep_of_pos hstep, hexact, Fixed.narrow_raw_of_inRange hfits.1 hfits.2]
    exact iff_of_true rfl hclear
  · obtain ⟨rfl, hlarge⟩ := Classical.not_imp.mp hsmall
    have hwraps := (doublingWraps_iff hstep hround hfits).mpr (by omega)
    refine iff_of_false ?_ (not_not.mpr hwraps)
    have htrunc := Grid.isTruncated_tdiv value.raw hstep
    have hrem := natAbs_rem_lt value.raw hstep
    have hmax := step.raw_le
    have hlo := value.rawMin_le
    have hhi := value.raw_le
    have hbetween := htrunc.between
    obtain ⟨-, hhalf, -⟩ := (Grid.isNearest_iff hstep).mp hround
    simp only [rawMin, rawMax] at hlo hhi hmax
    rw [roundToStep_of_pos hstep, snappedQuotient_of_wraps (by omega) (by omega) hstep,
      Fixed.narrow_raw_of_inRange]
    · intro heq
      rw [heq] at hlarge
      omega
    · simp only [rawMin]
      omega
    · simp only [rawMax]
      omega

/-- A value on the grid is where every mode leaves it. -/
theorem roundToStep_of_dvd (hdvd : step.raw ∣ value.raw) : roundToStep value step mode = value := by
  by_cases hstep : 0 < step.raw
  · have hsplit := Int.tdiv_mul_cancel hdvd
    have hsnapped : snappedQuotient step.raw value.raw mode = value.raw.tdiv step.raw := by
      simp only [snappedQuotient]
      rw [if_neg (by omega)]
    rw [roundToStep_of_pos hstep, hsnapped, hsplit]
    ext1
    exact Fixed.narrow_raw_of_inRange value.rawMin_le value.raw_le
  · rw [roundToStep, if_pos (by omega)]

theorem isOnStep_of_dvd (hdvd : step.raw ∣ value.raw) : isOnStep value step = true := by
  rw [isOnStep, Int.tmod_eq_zero_of_dvd hdvd]
  simp

/-- A representable multiple is snapped to exactly when the doubling does not wrap. -/
theorem snapsTo_iff (hstep : 0 < step.raw) (hround : mode.Rounded step.raw value.raw multiple)
    (hfits : rawMin ≤ multiple ∧ multiple ≤ rawMax) :
    SnapsTo value step mode multiple ↔ ¬ DoublingWraps value step mode := by
  have hexact := roundToStep_raw_eq_iff hstep hround hfits
  constructor
  · exact fun h => hexact.mp h.exact
  · intro hclear
    have hraw := hexact.mpr hclear
    have hdvd : step.raw ∣ (roundToStep value step mode).raw := by
      rw [hraw]
      exact hround.dvd
    exact ⟨hraw, isOnStep_of_dvd hdvd, fun again => roundToStep_of_dvd hdvd⟩

/-- Every mode asks for a multiple of each of two values. Where both are representable the
two values are snapped to them, in their order, exactly when neither doubling wraps. -/
theorem roundToStep_exact_iff (value value' : Fixed tag) {step : Fixed tag} (mode : Rounding)
    (hstep : 0 < step.raw) :
    ∃ multiple multiple',
      mode.Rounded step.raw value.raw multiple ∧ mode.Rounded step.raw value'.raw multiple' ∧
      (rawMin ≤ multiple ∧ multiple ≤ rawMax → rawMin ≤ multiple' ∧ multiple' ≤ rawMax →
        ((SnapsTo value step mode multiple ∧ SnapsTo value' step mode multiple' ∧
            (value.raw ≤ value'.raw →
              (roundToStep value step mode).raw ≤ (roundToStep value' step mode).raw)) ↔
          ¬ DoublingWraps value step mode ∧ ¬ DoublingWraps value' step mode)) := by
  obtain ⟨multiple, hround⟩ := exists_rounded value.raw hstep mode
  obtain ⟨multiple', hround'⟩ := exists_rounded value'.raw hstep mode
  refine ⟨multiple, multiple', hround, hround', fun hfits hfits' => ?_⟩
  have hsnaps := snapsTo_iff hstep hround hfits
  have hsnaps' := snapsTo_iff hstep hround' hfits'
  constructor
  · exact fun h => ⟨hsnaps.mp h.1, hsnaps'.mp h.2.1⟩
  · intro hclear
    have hto := hsnaps.mpr hclear.1
    have hto' := hsnaps'.mpr hclear.2
    refine ⟨hto, hto', fun hle => ?_⟩
    rw [hto.exact, hto'.exact]
    exact hround.mono hround' hle

/-- A negative price between two cents and a positive one on a cent. -/
theorem roundToStep_exact_iff_cents :
    ∃ value value' step : Px,
      value.raw = -6012345600000 ∧ value'.raw = 6012345000000 ∧ step.raw = 1000000 ∧
      ∃ multiple multiple',
        Rounding.Rounded .nearest step.raw value.raw multiple ∧
        Rounding.Rounded .nearest step.raw value'.raw multiple' ∧
        (rawMin ≤ multiple ∧ multiple ≤ rawMax → rawMin ≤ multiple' ∧ multiple' ≤ rawMax →
          ((SnapsTo value step .nearest multiple ∧ SnapsTo value' step .nearest multiple' ∧
              (value.raw ≤ value'.raw →
                (roundToStep value step .nearest).raw ≤
                  (roundToStep value' step .nearest).raw)) ↔
            ¬ DoublingWraps value step .nearest ∧ ¬ DoublingWraps value' step .nearest)) :=
  ⟨Fixed.narrow (-6012345600000), Fixed.narrow 6012345000000, Fixed.narrow 1000000,
    by decide, by decide, by decide, roundToStep_exact_iff _ _ .nearest (by decide)⟩

/-- A value above half of a step of more than a quarter of the whole range goes to zero, and
the value just below it goes up to the step. -/
theorem half_step_goes_to_zero :
    ∃ below value step : Px, ∃ multiple,
      0 < step.raw ∧ Rounding.Rounded .nearest step.raw value.raw multiple ∧
      rawMin ≤ multiple ∧ multiple ≤ rawMax ∧
      (roundToStep value step .nearest).raw ≠ multiple ∧
      below.raw ≤ value.raw ∧
      (roundToStep value step .nearest).raw < (roundToStep below step .nearest).raw := by
  refine ⟨Fixed.narrow (2 ^ 62 - 1), Fixed.narrow (2 ^ 62), Fixed.narrow (2 ^ 62 + 1), 2 ^ 62 + 1,
    by decide, ?_, by decide, by decide, by decide, by decide, by decide⟩
  exact (Grid.isNearest_iff (by decide)).mpr ⟨by decide, by decide, by decide⟩

end Snapped

end MmEngine
