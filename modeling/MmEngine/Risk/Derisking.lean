/-
# Trading out of a position

The position limit is compared with the larger of the two worst cases. An order
against the position leaves one of them where the position is, whatever its size: once
the position is beyond a limit, the way out of it is refused, and no smaller order is
found in its place.
-/

import MmEngine.Risk.ReduceOnly

namespace MmEngine.Risk

open MmEngine.Quote

/-- The two limits on the position itself. -/
def isPositionLimit (reason : RiskReason) : Bool :=
  reason = .maxPosition || reason = .maxPositionNotional

/-- An order of no more than the position, against it, with nothing else at work. -/
structure Unwinds (action : OrderAction) (input : RiskInput) (quantity : Qty) : Prop where
  positive : 0 < quantity.raw
  within : quantity.raw ≤ |input.position.quantity.raw|
  against : increasesAbsolutePosition input.position action.side quantity = false
  noBids : input.exposure.workingBuy.raw = 0
  noAsks : input.exposure.workingSell.raw = 0
  noOrders : input.exposure.openOrderCount = 0

/-- A position within both limits. One whose value has no representation is refused for
that. -/
structure WithinPositionLimits (input : RiskInput) (limits : SymbolLimits) : Prop where
  quantity : 0 < limits.maxPosition.raw →
    input.position.quantity.saturatingAbs.raw ≤ limits.maxPosition.raw
  notional : 0 < limits.maxPositionNotional.raw →
    ∀ value, checkedNotionalOf input.bbo.mid input.position.quantity.saturatingAbs = some value →
      value.raw ≤ limits.maxPositionNotional.raw

variable {action : OrderAction} {input : RiskInput} {limits : SymbolLimits} {quantity : Qty}

theorem Unwinds.smaller {less : Qty} (h : Unwinds action input quantity) (hpositive : 0 < less.raw)
    (hle : less.raw ≤ quantity.raw) : Unwinds action input less where
  positive := hpositive
  within := hle.trans h.within
  against := by
    rw [increasesAbsolutePosition_eq_false_iff hpositive,
      ← increasesAbsolutePosition_eq_false_iff h.positive]
    exact h.against
  noBids := h.noBids
  noAsks := h.noAsks
  noOrders := h.noOrders

/-- One worst case of an unwinding order is the position as it stands, and the other one
is no further from zero. -/
theorem Unwinds.ends (h : Unwinds action input quantity) :
    (rawMin ≤ longWith input.position input.exposure action.side quantity ∧
        longWith input.position input.exposure action.side quantity ≤ rawMax) ∧
      (rawMin ≤ shortWith input.position input.exposure action.side quantity ∧
        shortWith input.position input.exposure action.side quantity ≤ rawMax) ∧
      max |longWith input.position input.exposure action.side quantity|
          |shortWith input.position input.exposure action.side quantity| =
        |input.position.quantity.raw| := by
  have hmin := input.position.quantity.rawMin_le
  have hmax := input.position.quantity.raw_le
  have hpositive := h.positive
  have hwithin := h.within
  have hbids : (input.exposure.working .buy).raw = 0 := h.noBids
  have hasks : (input.exposure.working .sell).raw = 0 := h.noAsks
  have hrange : rawMin ≤ 0 ∧ (0 : Int) ≤ rawMax := by decide
  rcases (increasesAbsolutePosition_eq_false_iff hpositive).mp h.against with
    ⟨hside, hshort⟩ | ⟨hside, hlong⟩
  · rw [abs_of_neg hshort] at hwithin
    simp only [longWith, shortWith, hside, hbids, hasks, reduceIte, reduceCtorEq, add_zero,
      zero_add, sub_zero]
    refine ⟨by omega, ⟨hmin, hmax⟩, max_eq_right ?_⟩
    exact abs_le_abs_of_nonpos (by omega) (by omega)
  · rw [abs_of_pos hlong] at hwithin
    simp only [longWith, shortWith, hside, hbids, hasks, reduceIte, reduceCtorEq, add_zero,
      zero_add]
    refine ⟨⟨hmin, hmax⟩, by omega, max_eq_left ?_⟩
    exact abs_le_abs_of_nonneg (by omega) (by omega)

/-- The peak of an unwinding order is the position as it stands. -/
theorem Unwinds.worstCase (h : Unwinds action input quantity)
    (hvalid : input.position.valid = true) (hdeterminate : input.exposure.determinate = true) :
    ∃ worst, computeWorstCaseWith input.position input.exposure action.side quantity =
        some worst ∧
      worst.peakAbsolute = input.position.quantity.saturatingAbs := by
  obtain ⟨hlong, hshort, hpeak⟩ := h.ends
  have htotal : (input.exposure.working action.side).raw + quantity.raw ≤ rawMax := by
    have hworking : (input.exposure.working action.side).raw = 0 := by
      cases action.side
      · exact h.noBids
      · exact h.noAsks
    rw [hworking, zero_add]
    exact quantity.raw_le
  obtain ⟨worst, hworst, hlongEq, hshortEq⟩ := exists_computeWorstCaseWith hvalid hdeterminate
    h.positive htotal hlong hshort
  refine ⟨worst, hworst, Fixed.ext ?_⟩
  rw [worst.peakAbsolute_raw, saturatingAbs_raw_eq_min, hlongEq, hshortEq, hpeak]

namespace RiskEngine

theorem checkPositionNotional_eq_maxPositionNotional_iff {peak : Qty} :
    checkPositionNotional input limits peak = .maxPositionNotional ↔
      0 < limits.maxPositionNotional.raw ∧
        ∃ value, checkedNotionalOf input.bbo.mid peak = some value ∧
          limits.maxPositionNotional.raw < value.raw := by
  rw [checkPositionNotional]
  by_cases hset : 0 < limits.maxPositionNotional.raw
  · rw [if_neg (by simp [hset])]
    cases hvalue : checkedNotionalOf input.bbo.mid peak with
    | none => simp
    | some value => simp [hset]
  · rw [if_pos (by simpa using hset)]
    simp [hset]

theorem checkPositionNotional_ne_maxPosition {peak : Qty} :
    checkPositionNotional input limits peak ≠ .maxPosition := by
  rw [checkPositionNotional]
  split
  · decide
  · split
    · decide
    · split
      · decide
      · decide

theorem isPositionLimit_checkWorking {projected : ExposureSnapshot} :
    isPositionLimit (checkWorking action quantity projected limits) = false := by
  rw [checkWorking]
  split
  · rfl
  split
  · rfl
  split
  · rfl
  split
  · rfl
  · split
    · rfl
    · rfl

/-- The position is beyond a limit when the first of the two is passed, or the second
one is. -/
theorem not_withinPositionLimits_iff :
    ¬WithinPositionLimits input limits ↔
      (0 < limits.maxPosition.raw ∧
          limits.maxPosition.raw < input.position.quantity.saturatingAbs.raw) ∨
        checkPositionNotional input limits input.position.quantity.saturatingAbs =
          .maxPositionNotional := by
  rw [checkPositionNotional_eq_maxPositionNotional_iff, ← not_iff_not, not_not, not_or]
  constructor
  · rintro ⟨hquantity, hnotional⟩
    refine ⟨fun h => (hquantity h.1).not_gt h.2, ?_⟩
    rintro ⟨hset, value, hvalue, hover⟩
    exact (hnotional hset value hvalue).not_gt hover
  · rintro ⟨hquantity, hnotional⟩
    refine ⟨fun hset => not_lt.mp fun hover => hquantity ⟨hset, hover⟩, ?_⟩
    exact fun hset value hvalue => not_lt.mp fun hover => hnotional ⟨hset, value, hvalue, hover⟩

variable {D : Type} {engine : RiskEngine D} {context : LimitContext}

/-- The exposure check of an unwinding order looks at the position first. -/
theorem checkExposure_of_unwinds (h : Unwinds action input quantity) (htype : action.type = .new)
    (hvalid : input.position.valid = true) (hdeterminate : input.exposure.determinate = true) :
    (¬WithinPositionLimits input limits → ∃ reason, isPositionLimit reason = true ∧
        engine.checkExposure action quantity input limits context = .error reason) ∧
      (WithinPositionLimits input limits → ∀ reason,
        engine.checkExposure action quantity input limits context = .error reason →
        isPositionLimit reason = false) := by
  obtain ⟨worst, hworst, hpeak⟩ := h.worstCase hvalid hdeterminate
  have hprojected : projectedExposure action input = some input.exposure := by
    rw [projectedExposure, if_neg (by simp [htype])]
  have hopen : ¬(0 < limits.maxOpenOrders && limits.maxOpenOrders ≤ input.exposure.openOrderCount &&
      action.type = .new) = true := by
    simp only [h.noOrders, Bool.and_eq_true, decide_eq_true_eq]
    omega
  rw [checkExposure, if_neg hopen, hprojected]
  dsimp only
  rw [hworst]
  dsimp only
  rw [hpeak]
  simp only [Bool.and_eq_true, Fixed.isPositive_iff, decide_eq_true_eq]
  constructor
  · intro hbeyond
    by_cases hquantity : 0 < limits.maxPosition.raw ∧
        limits.maxPosition.raw < input.position.quantity.saturatingAbs.raw
    · exact ⟨.maxPosition, rfl, if_pos hquantity⟩
    · have hnotional := (not_withinPositionLimits_iff.mp hbeyond).resolve_left hquantity
      rw [if_neg hquantity, hnotional]
      exact ⟨.maxPositionNotional, rfl, rfl⟩
  · intro hwithin reason
    have hneither := mt not_withinPositionLimits_iff.mpr (not_not_intro hwithin)
    rw [not_or] at hneither
    rw [if_neg hneither.1]
    split
    · intro hreason
      cases hreason
      simp [isPositionLimit, hneither.2, checkPositionNotional_ne_maxPosition]
    split
    · intro hreason
      cases hreason
      exact isPositionLimit_checkWorking
    split
    · intro hreason
      cases hreason
      rfl
    · intro hreason
      cases hreason

variable [Double D] {spec : InstrumentSpec} {now : Nanos}

/-- The bounds on one order say nothing of the position. -/
theorem isPositionLimit_checkOrderBounds {reason : RiskReason}
    (h : engine.checkOrderBounds action quantity input spec limits context = .error reason) :
    isPositionLimit reason = false := by
  have hband : isPositionLimit (checkPriceBand action input limits engine) = false := by
    rw [checkPriceBand]
    split
    · rfl
    split
    · rfl
    split
    · rfl
    · rfl
  revert h
  rw [checkOrderBounds]
  split
  · rintro ⟨⟩
    rfl
  split
  · rintro ⟨⟩
    rfl
  split
  · rintro ⟨⟩
    rfl
  split
  · rintro ⟨⟩
    rfl
  split
  · rintro ⟨⟩
    rfl
  split
  · rintro ⟨⟩
    exact hband
  split
  · rintro ⟨⟩
    rfl
  · rintro ⟨⟩

/-- Within the position limits neither check of an unwinding order names one. -/
theorem isPositionLimit_checkBoth (h : Unwinds action input quantity) (htype : action.type = .new)
    (hvalid : input.position.valid = true) (hdeterminate : input.exposure.determinate = true)
    (hwithin : WithinPositionLimits input limits) {reason : RiskReason}
    (hreason : engine.checkBoth action quantity input spec limits context = .error reason) :
    isPositionLimit reason = false := by
  rw [checkBoth] at hreason
  cases hbounds : engine.checkOrderBounds action quantity input spec limits context with
  | error failure =>
      rw [hbounds] at hreason
      cases hreason
      exact isPositionLimit_checkOrderBounds hbounds
  | ok checked =>
      rw [hbounds] at hreason
      exact (checkExposure_of_unwinds h htype hvalid hdeterminate).2 hwithin reason hreason

/-- Beyond a position limit no unwinding order fits. -/
theorem not_fits_of_unwinds (h : Unwinds action input quantity) (htype : action.type = .new)
    (hvalid : input.position.valid = true) (hdeterminate : input.exposure.determinate = true)
    (hbeyond : ¬WithinPositionLimits input limits) :
    engine.fits action quantity input spec limits = false := by
  obtain ⟨reason, -, hreason⟩ : ∃ reason, isPositionLimit reason = true ∧
      engine.checkExposure action quantity input limits {} = .error reason :=
    (checkExposure_of_unwinds h htype hvalid hdeterminate).1 hbeyond
  rw [Bool.eq_false_iff]
  intro hfits
  have hexposure := ((fits_iff quantity).mp hfits).2
  rw [hreason] at hexposure
  cases hexposure

/-- Beyond a position limit no smaller unwinding order is found either. -/
theorem largestPermittedQuantity_of_unwinds (h : Unwinds action input action.quantity)
    (htype : action.type = .new) (hvalid : input.position.valid = true)
    (hdeterminate : input.exposure.determinate = true)
    (hbeyond : ¬WithinPositionLimits input limits) (hlotSize : 0 < spec.lotSize.raw) :
    engine.largestPermittedQuantity action input spec limits = .zero := by
  apply largestPermittedQuantity_eq_zero hlotSize
  by_cases hle : spec.lotSize.raw ≤ action.quantity.raw
  · exact .inl (not_fits_of_unwinds (h.smaller hlotSize hle) htype hvalid hdeterminate hbeyond)
  · exact .inr (not_le.mp hle)

theorem reducible_of_isPositionLimit {reason : RiskReason} (h : isPositionLimit reason = true) :
    reducible reason = true := by
  simp only [isPositionLimit, Bool.or_eq_true, decide_eq_true_eq] at h
  rcases h with rfl | rfl
  · rfl
  · rfl

/-- A refused reduction names what failed, or what failed of a smaller order. -/
theorem reduceAction_reason {failure : RiskReason}
    (hverdict : (engine.reduceAction action input spec limits context failure now).1.verdict =
      .reject) :
    (engine.reduceAction action input spec limits context failure now).1.reason = failure ∨
      ∃ permitted : Qty, 0 < permitted.raw ∧ permitted.raw < action.quantity.raw ∧
        engine.checkBoth { action with quantity := permitted } permitted input spec limits
          context = .error
            (engine.reduceAction action input spec limits context failure now).1.reason := by
  revert hverdict
  rw [reduceAction]
  dsimp only
  split
  · exact fun _ => .inl rfl
  split
  · exact fun _ => .inl rfl
  rename_i hpermitted
  rw [Bool.or_eq_true, not_or, Bool.not_eq_true', Bool.not_eq_false, Fixed.isPositive_iff,
    decide_eq_true_eq, not_le] at hpermitted
  split
  · rename_i recheck hrecheck
    exact fun _ => .inr ⟨_, hpermitted.1, hpermitted.2, hrecheck⟩
  · rintro ⟨⟩

/-- The judgement of an unwinding order names a position limit exactly beyond one. -/
theorem measure_unwinds (h : Unwinds action input action.quantity) (htype : action.type = .new)
    (hvalid : input.position.valid = true) (hdeterminate : input.exposure.determinate = true)
    (hlotSize : 0 < spec.lotSize.raw)
    (hbounds : (engine.checkOrderBounds action action.quantity input spec limits {}).toBool =
      true) :
    ((engine.measure action input spec limits now).1.verdict = .reject ∧
        isPositionLimit (engine.measure action input spec limits now).1.reason = true) ↔
      ¬WithinPositionLimits input limits := by
  rw [measure]
  generalize ({ maxPosition := limits.maxPosition
                openOrders := input.exposure.openOrderCount } : LimitContext) = context
  constructor
  · rintro ⟨hverdict, hreason⟩ hwithin
    cases hchecked : engine.checkBoth action action.quantity input spec limits context with
    | ok checked =>
        rw [hchecked] at hverdict
        cases hverdict
    | error failure =>
        rw [hchecked] at hverdict hreason
        rcases reduceAction_reason hverdict with heq | ⟨permitted, hpositive, hless, hrecheck⟩
        · rw [heq, isPositionLimit_checkBoth h htype hvalid hdeterminate hwithin hchecked]
            at hreason
          cases hreason
        · have hsmaller : Unwinds { action with quantity := permitted } input permitted :=
            { h.smaller hpositive hless.le with }
          rw [isPositionLimit_checkBoth hsmaller htype hvalid hdeterminate hwithin hrecheck]
            at hreason
          cases hreason
  · intro hbeyond
    obtain ⟨reason, hlimit, hreason⟩ :
        ∃ reason, isPositionLimit reason = true ∧
          engine.checkBoth action action.quantity input spec limits context = .error reason := by
      rw [checkBoth, checkOrderBounds_context]
      cases hchecked : engine.checkOrderBounds action action.quantity input spec limits {} with
      | error failure =>
          rw [hchecked] at hbounds
          cases hbounds
      | ok checked =>
          exact (checkExposure_of_unwinds h htype hvalid hdeterminate).1 hbeyond
    rw [hreason]
    dsimp only
    rw [reduceAction, if_neg (by simp [reducible_of_isPositionLimit hlimit]),
      largestPermittedQuantity_of_unwinds h htype hvalid hdeterminate hbeyond hlotSize]
    exact ⟨rfl, hlimit⟩

/-- An order that only unwinds the position, and that passes everything but the exposure
check, is refused for a position limit exactly when the position is beyond one. -/
theorem derisking_iff (hcleared : engine.Cleared action input spec limits now)
    (htype : action.type = .new)
    (hbounds : (engine.checkOrderBounds action action.quantity input spec limits {}).toBool = true)
    (hunwinds : Unwinds action input action.quantity) :
    ¬((engine.evaluate action input now).1.verdict = .reject ∧
        ((engine.evaluate action input now).1.reason = .maxPosition ∨
          (engine.evaluate action input now).1.reason = .maxPositionNotional)) ↔
      WithinPositionLimits input limits := by
  have hscreened := screened_of_screen_eq_none hcleared.screened
  have hlimit : ∀ reason : RiskReason,
      (reason = .maxPosition ∨ reason = .maxPositionNotional) ↔ isPositionLimit reason = true := by
    intro reason
    simp [isPositionLimit]
  rw [evaluate_of_addsExposure (.inl htype), hcleared.evaluateExposure_eq, hlimit, ← not_iff_not,
    not_not]
  exact measure_unwinds hunwinds htype hscreened.position hscreened.determinate hcleared.lot_pos
    hbounds

/-- Long twenty units against a limit of ten. -/
def beyondInput (quantity : Int) : RiskInput :=
  { sampleInput 0 with
    position := { valid := true, symbol := sampleSymbol, quantity := units quantity } }

theorem cleared_sampleOffer (quantity : Int)
    (hscreen : sampleEngine.screen (sampleOffer 1) (beyondInput quantity) 1 = .none) :
    sampleEngine.Cleared (sampleOffer 1) (beyondInput quantity) (sampleSpec 0) sampleLimits 1 where
  screened := hscreen
  instrument := rfl
  configured := by
    have hfind : sampleEngine.limits.find sampleSymbol = some sampleLimits := by decide +kernel
    exact hfind
  budget := by decide +kernel

/-- Selling one unit out of twenty is refused for the limit of ten. -/
theorem derisking_blocked_sample :
    sampleEngine.Cleared (sampleOffer 1) (beyondInput 20) (sampleSpec 0) sampleLimits 1 ∧
      (sampleEngine.checkOrderBounds (sampleOffer 1) (sampleOffer 1).quantity (beyondInput 20)
        (sampleSpec 0) sampleLimits {}).toBool = true ∧
      Unwinds (sampleOffer 1) (beyondInput 20) (sampleOffer 1).quantity ∧
      (sampleEngine.evaluate (sampleOffer 1) (beyondInput 20) 1).1.verdict = .reject ∧
      (sampleEngine.evaluate (sampleOffer 1) (beyondInput 20) 1).1.reason = .maxPosition := by
  refine ⟨cleared_sampleOffer 20 (by decide +kernel), by decide +kernel, ?_, by decide +kernel,
    by decide +kernel⟩
  exact ⟨by decide, by decide, by decide, by decide, by decide, by decide⟩

/-- Selling one unit out of eight is not. -/
theorem derisking_sample :
    ¬((sampleEngine.evaluate (sampleOffer 1) (beyondInput 8) 1).1.verdict = .reject ∧
        ((sampleEngine.evaluate (sampleOffer 1) (beyondInput 8) 1).1.reason = .maxPosition ∨
          (sampleEngine.evaluate (sampleOffer 1) (beyondInput 8) 1).1.reason =
            .maxPositionNotional)) := by
  refine (derisking_iff (cleared_sampleOffer 8 (by decide +kernel)) rfl (by decide +kernel)
    ⟨by decide, by decide, by decide, by decide, by decide, by decide⟩).mpr ⟨?_, ?_⟩
  · exact fun _ => by decide
  · exact fun hset => absurd hset (by decide)

end RiskEngine

end MmEngine.Risk
