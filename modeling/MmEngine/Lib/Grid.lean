/-
# Rounding to a grid

The multiples of a positive step are a grid on the integers. The greatest multiple below
a number, the least above it and the nearest, the farther from zero of two equally near
ones, are described by what they are best at among all multiples. How far from the number
a multiple is decides which of them it is, so each is unique, and rounding is monotone.
-/

import Mathlib.Algebra.Ring.Int.Defs
import Mathlib.Data.Int.Basic

namespace Grid

/-- The greatest multiple of the step that is not above the number. -/
structure IsDown (step number multiple : Int) : Prop where
  dvd : step ∣ multiple
  le : multiple ≤ number
  greatest : ∀ other, step ∣ other → other ≤ number → other ≤ multiple

/-- The least multiple of the step that is not below the number. -/
structure IsUp (step number multiple : Int) : Prop where
  dvd : step ∣ multiple
  le : number ≤ multiple
  least : ∀ other, step ∣ other → number ≤ other → multiple ≤ other

/-- The closest multiple of the step; of two equally close ones the farther from zero. -/
structure IsNearest (step number multiple : Int) : Prop where
  dvd : step ∣ multiple
  nearest : ∀ other, step ∣ other → (number - multiple).natAbs ≤ (number - other).natAbs
  away : ∀ other, step ∣ other → (number - multiple).natAbs = (number - other).natAbs →
    other.natAbs ≤ multiple.natAbs

/-- The multiple next to the number on the side of zero, which dividing toward zero gives. -/
structure IsTruncated (step number multiple : Int) : Prop where
  dvd : step ∣ multiple
  of_nonneg : 0 ≤ number → 0 ≤ multiple ∧ multiple ≤ number ∧ number < multiple + step
  of_nonpos : number ≤ 0 → multiple ≤ 0 ∧ number ≤ multiple ∧ multiple < number + step

variable {step number other multiple multiple' : Int}

/-- Two multiples are equal, or a step apart at least. -/
theorem eq_or_le_natAbs_sub (h : step ∣ multiple) (h' : step ∣ multiple') :
    multiple = multiple' ∨ step.natAbs ≤ (multiple - multiple').natAbs := by
  by_cases heq : multiple = multiple'
  · exact .inl heq
  · have hdvd := Int.natAbs_dvd_natAbs.mpr (Int.dvd_sub h h')
    exact .inr (Nat.le_of_dvd (Int.natAbs_pos.mpr (sub_ne_zero.mpr heq)) hdvd)

theorem isDown_iff (hstep : 0 < step) :
    IsDown step number multiple ↔
      step ∣ multiple ∧ multiple ≤ number ∧ number < multiple + step := by
  constructor
  · rintro ⟨hdvd, hle, hgreatest⟩
    refine ⟨hdvd, hle, ?_⟩
    by_contra hlt
    have hnext := hgreatest (multiple + step) (Int.dvd_add hdvd (Int.dvd_refl step)) (by omega)
    omega
  · rintro ⟨hdvd, hle, hlt⟩
    refine ⟨hdvd, hle, fun other hother hle' => ?_⟩
    rcases eq_or_le_natAbs_sub hother hdvd with rfl | hfar <;> omega

theorem isUp_iff (hstep : 0 < step) :
    IsUp step number multiple ↔
      step ∣ multiple ∧ number ≤ multiple ∧ multiple < number + step := by
  constructor
  · rintro ⟨hdvd, hle, hleast⟩
    refine ⟨hdvd, hle, ?_⟩
    by_contra hlt
    have hnext := hleast (multiple - step) (Int.dvd_sub hdvd (Int.dvd_refl step)) (by omega)
    omega
  · rintro ⟨hdvd, hle, hlt⟩
    refine ⟨hdvd, hle, fun other hother hle' => ?_⟩
    rcases eq_or_le_natAbs_sub hother hdvd with rfl | hfar <;> omega

theorem isNearest_iff (hstep : 0 < step) :
    IsNearest step number multiple ↔
      step ∣ multiple ∧ 2 * (number - multiple).natAbs ≤ step.natAbs ∧
        (2 * (number - multiple).natAbs = step.natAbs → number.natAbs ≤ multiple.natAbs) := by
  constructor
  · rintro ⟨hdvd, hnearest, haway⟩
    have hup := hnearest (multiple + step) (Int.dvd_add hdvd (Int.dvd_refl step))
    have hdown := hnearest (multiple - step) (Int.dvd_sub hdvd (Int.dvd_refl step))
    have hupAway := haway (multiple + step) (Int.dvd_add hdvd (Int.dvd_refl step))
    have hdownAway := haway (multiple - step) (Int.dvd_sub hdvd (Int.dvd_refl step))
    exact ⟨hdvd, by omega, fun htie => by omega⟩
  · rintro ⟨hdvd, hhalf, htie⟩
    have hzero := eq_or_le_natAbs_sub hdvd (Int.dvd_zero step)
    refine ⟨hdvd, fun other hother => ?_, fun other hother heq => ?_⟩
    · rcases eq_or_le_natAbs_sub hother hdvd with rfl | hfar <;> omega
    · rcases eq_or_le_natAbs_sub hother hdvd with rfl | hfar <;> omega

theorem IsDown.unique (h : IsDown step number multiple) (h' : IsDown step number multiple') :
    multiple = multiple' :=
  Int.le_antisymm (h'.greatest _ h.dvd h.le) (h.greatest _ h'.dvd h'.le)

theorem IsUp.unique (h : IsUp step number multiple) (h' : IsUp step number multiple') :
    multiple = multiple' :=
  Int.le_antisymm (h.least _ h'.dvd h'.le) (h'.least _ h.dvd h.le)

theorem IsNearest.unique (h : IsNearest step number multiple)
    (h' : IsNearest step number multiple') : multiple = multiple' := by
  have hdist := Nat.le_antisymm (h.nearest _ h'.dvd) (h'.nearest _ h.dvd)
  have hsize := Nat.le_antisymm (h'.away _ h.dvd hdist.symm) (h.away _ h'.dvd hdist)
  rcases Int.natAbs_eq_natAbs_iff.mp hsize with heq | hopposite
  · exact heq
  · -- Opposite multiples are equally close to zero only, and zero is a multiple itself.
    have hzero := h.nearest 0 (Int.dvd_zero step)
    omega

theorem IsDown.mono (h : IsDown step number multiple) (h' : IsDown step other multiple')
    (hle : number ≤ other) : multiple ≤ multiple' :=
  h'.greatest _ h.dvd (Int.le_trans h.le hle)

theorem IsUp.mono (h : IsUp step number multiple) (h' : IsUp step other multiple')
    (hle : number ≤ other) : multiple ≤ multiple' :=
  h.least _ h'.dvd (Int.le_trans hle h'.le)

theorem IsNearest.mono (h : IsNearest step number multiple)
    (h' : IsNearest step other multiple') (hle : number ≤ other) : multiple ≤ multiple' := by
  by_cases heq : number = other
  · subst heq
    exact Int.le_of_eq (h.unique h')
  · have hnear := h.nearest _ h'.dvd
    have hnear' := h'.nearest _ h.dvd
    omega

theorem isTruncated_tdiv (number : Int) (hstep : 0 < step) :
    IsTruncated step number (number.tdiv step * step) := by
  have hsplit := Int.mul_tdiv_add_tmod number step
  rw [Int.mul_comm] at hsplit
  refine ⟨Int.dvd_mul_left _ _, fun hnonneg => ?_, fun hnonpos => ?_⟩
  · have hquot := Int.mul_nonneg (Int.tdiv_nonneg hnonneg (Int.le_of_lt hstep))
      (Int.le_of_lt hstep)
    have hrem := Int.tmod_nonneg step hnonneg
    have hlt := Int.tmod_lt_of_pos number hstep
    omega
  · have hopposite : 0 ≤ -number := by omega
    have hquot := Int.mul_nonneg (Int.tdiv_nonneg hopposite (Int.le_of_lt hstep))
      (Int.le_of_lt hstep)
    have hrem := Int.tmod_nonneg step hopposite
    have hlt := Int.tmod_lt_of_pos (-number) hstep
    rw [Int.neg_tdiv, Int.neg_mul] at hquot
    rw [Int.neg_tmod] at hrem hlt
    omega

namespace IsTruncated

theorem between (h : IsTruncated step number multiple) :
    min 0 number ≤ multiple ∧ multiple ≤ max 0 number := by
  rcases Int.le_total 0 number with hnonneg | hnonpos
  · have hbounds := h.of_nonneg hnonneg
    omega
  · have hbounds := h.of_nonpos hnonpos
    omega

theorem isDown (h : IsTruncated step number multiple) (hstep : 0 < step)
    (hle : multiple ≤ number) : IsDown step number multiple := by
  refine (isDown_iff hstep).mpr ⟨h.dvd, hle, ?_⟩
  rcases Int.le_total 0 number with hnonneg | hnonpos
  · exact (h.of_nonneg hnonneg).2.2
  · have hbounds := h.of_nonpos hnonpos
    omega

theorem isDown_sub (h : IsTruncated step number multiple) (hstep : 0 < step)
    (hlt : number < multiple) : IsDown step number (multiple - step) := by
  refine (isDown_iff hstep).mpr ⟨Int.dvd_sub h.dvd (Int.dvd_refl step), ?_, by omega⟩
  rcases Int.le_total 0 number with hnonneg | hnonpos
  · have hbounds := h.of_nonneg hnonneg
    omega
  · have hbounds := h.of_nonpos hnonpos
    omega

theorem isUp (h : IsTruncated step number multiple) (hstep : 0 < step)
    (hle : number ≤ multiple) : IsUp step number multiple := by
  refine (isUp_iff hstep).mpr ⟨h.dvd, hle, ?_⟩
  rcases Int.le_total 0 number with hnonneg | hnonpos
  · have hbounds := h.of_nonneg hnonneg
    omega
  · exact (h.of_nonpos hnonpos).2.2

theorem isUp_add (h : IsTruncated step number multiple) (hstep : 0 < step)
    (hlt : multiple < number) : IsUp step number (multiple + step) := by
  refine (isUp_iff hstep).mpr ⟨Int.dvd_add h.dvd (Int.dvd_refl step), ?_, by omega⟩
  rcases Int.le_total 0 number with hnonneg | hnonpos
  · have hbounds := h.of_nonneg hnonneg
    omega
  · have hbounds := h.of_nonpos hnonpos
    omega

theorem isNearest (h : IsTruncated step number multiple) (hstep : 0 < step)
    (hhalf : 2 * (number - multiple).natAbs < step.natAbs) : IsNearest step number multiple :=
  (isNearest_iff hstep).mpr ⟨h.dvd, by omega, fun htie => by omega⟩

theorem isNearest_add (h : IsTruncated step number multiple) (hstep : 0 < step)
    (hhalf : step.natAbs ≤ 2 * (number - multiple).natAbs) (hlt : multiple < number) :
    IsNearest step number (multiple + step) := by
  have hpos : 0 ≤ number := by
    by_contra hneg
    have hbounds := h.of_nonpos (by omega)
    omega
  have hbounds := h.of_nonneg hpos
  exact (isNearest_iff hstep).mpr
    ⟨Int.dvd_add h.dvd (Int.dvd_refl step), by omega, fun _ => by omega⟩

theorem isNearest_sub (h : IsTruncated step number multiple) (hstep : 0 < step)
    (hhalf : step.natAbs ≤ 2 * (number - multiple).natAbs) (hlt : number < multiple) :
    IsNearest step number (multiple - step) := by
  have hneg : number ≤ 0 := by
    by_contra hpos
    have hbounds := h.of_nonneg (by omega)
    omega
  have hbounds := h.of_nonpos hneg
  exact (isNearest_iff hstep).mpr
    ⟨Int.dvd_sub h.dvd (Int.dvd_refl step), by omega, fun _ => by omega⟩

end IsTruncated

end Grid
