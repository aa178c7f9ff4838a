/-
# The largest size that fits

A reduction searches the lot grid by halving. Every bound but the venue's minimum
quantity and minimum notional is met by a smaller order once it is met by a larger
one, so the sizes that fit form an interval. The search finds its upper end from a
single lot, and gives up when a single lot does not fit: it misses the interval
exactly when that begins above one lot.
-/

import MmEngine.Risk.KillLatch
import MmEngine.Risk.Soundness

namespace MmEngine.Risk

open MmEngine.Exchange MmEngine.Quote RiskEngine

/-- Where what fits is downward closed, the search returns the greatest number that
fits, or zero. -/
theorem searchLots_spec {fit : Int → Bool} {top : Int}
    (hdown : ∀ m n, 0 < m → m ≤ n → n ≤ top → fit n = true → fit m = true) (fuel : Nat) :
    ∀ low high : Int, 0 ≤ low → low ≤ high → high ≤ top → high - low ≤ fuel →
      (0 < low → fit low = true) → (∀ n, high < n → n ≤ top → fit n = false) →
      0 ≤ searchLots fit fuel low high ∧ searchLots fit fuel low high ≤ top ∧
        (0 < searchLots fit fuel low high →
          fit (searchLots fit fuel low high) = true) ∧
        ∀ n, searchLots fit fuel low high < n → n ≤ top → fit n = false := by
  induction fuel with
  | zero =>
      intro low high hlow hle htop hfuel hfits habove
      obtain rfl : low = high := by omega
      exact ⟨hlow, htop, hfits, habove⟩
  | succ fuel ih =>
      intro low high hlow hle htop hfuel hfits habove
      rw [searchLots]
      by_cases hlt : low < high
      · rw [if_pos hlt]
        have hhalf : (high - low + 1).tdiv 2 = (high - low + 1) / 2 :=
          Int.tdiv_eq_ediv_of_nonneg (by omega)
        dsimp only
        rw [hhalf]
        by_cases hmid : fit (low + (high - low + 1) / 2) = true
        · rw [if_pos hmid]
          exact ih _ _ (by omega) (by omega) htop (by omega) (fun _ => hmid) habove
        · rw [if_neg hmid]
          refine ih _ _ hlow (by omega) (by omega) (by omega) hfits fun n hn hntop => ?_
          by_contra hfit
          exact hmid (hdown _ n (by omega) (by omega) hntop (by simpa using hfit))
      · rw [if_neg hlt]
        obtain rfl : low = high := by omega
        exact ⟨hlow, htop, hfits, habove⟩

/-- A quotient lies between zero and that of a number further from zero. -/
theorem tdiv_kScale_mono {a b : Int} (h : a ≤ b) : a.tdiv Fixed.kScale ≤ b.tdiv Fixed.kScale :=
  Int.tdiv_le_tdiv (by decide) h

/-- A notional that can be represented can be represented for a smaller quantity. -/
theorem checkedNotionalOf_of_le {price : Px} {small large : Qty} {notional : Notional}
    (h : checkedNotionalOf price large = some notional) (hprice : 0 ≤ price.raw)
    (hsmall : 0 ≤ small.raw) (hle : small.raw ≤ large.raw) :
    ∃ smaller, checkedNotionalOf price small = some smaller ∧ 0 ≤ smaller.raw ∧
      smaller.raw ≤ notional.raw := by
  rw [checkedNotionalOf, Fixed.fromRaw?_eq_some_iff] at h
  have hlower : 0 ≤ (price.raw * small.raw).tdiv Fixed.kScale :=
    Int.tdiv_nonneg (mul_nonneg hprice hsmall) (by decide)
  have hupper : (price.raw * small.raw).tdiv Fixed.kScale ≤ notional.raw :=
    h ▸ tdiv_kScale_mono (mul_le_mul_of_nonneg_left hle hprice)
  have hmax := notional.raw_le
  have hmin : rawMin ≤ 0 := by decide
  exact ⟨⟨_, hmin.trans hlower, hupper.trans hmax⟩, Fixed.fromRaw?_eq_some_iff.mpr rfl, hlower,
    hupper⟩

theorem notionalOf_of_checked {price : Px} {quantity : Qty} {notional : Notional}
    (h : checkedNotionalOf price quantity = some notional) :
    notionalOf price quantity = notional := by
  rw [checkedNotionalOf, Fixed.fromRaw?_eq_some_iff] at h
  ext1
  rw [notionalOf, Fixed.narrow_raw_of_inRange]
  · exact h.symm
  · rw [← h]
    exact notional.rawMin_le
  · rw [← h]
    exact notional.raw_le

/-- A sum that can be represented can be represented with a smaller positive part. -/
theorem exists_checkedAdd_of_le {base quantity most total : Qty}
    (h : Fixed.checkedAdd base most = some total) (hpositive : 0 < quantity.raw)
    (hle : quantity.raw ≤ most.raw) :
    ∃ smaller, Fixed.checkedAdd base quantity = some smaller ∧ smaller.raw ≤ total.raw := by
  rw [Fixed.checkedAdd_eq_some_iff] at h
  have hmin := base.rawMin_le
  have hmax := total.raw_le
  exact ⟨⟨base.raw + quantity.raw, by omega, by omega⟩, Fixed.checkedAdd_eq_some_iff.mpr rfl, by
    dsimp only
    omega⟩

/-- The absolute value saturates one unit below the exact one. -/
theorem saturatingAbs_raw_eq_min (value : Qty) :
    value.saturatingAbs.raw = min |value.raw| rawMax := by
  have hlo := value.rawMin_le
  have hhi := value.raw_le
  by_cases hmin : value.raw = rawMin
  · rw [Fixed.saturatingAbs_raw_of_min hmin, hmin]
    decide
  · rw [Fixed.saturatingAbs_raw hmin, min_eq_left]
    simp only [rawMin, rawMax] at *
    rw [abs_le]
    omega

theorem WorstCaseExposure.peakAbsolute_raw (worst : WorstCaseExposure) :
    worst.peakAbsolute.raw =
      min (max |worst.worstCaseLong.raw| |worst.worstCaseShort.raw|) rawMax := by
  have hlong := saturatingAbs_raw_eq_min worst.worstCaseLong
  have hshort := saturatingAbs_raw_eq_min worst.worstCaseShort
  unfold peakAbsolute
  dsimp only
  split
  · omega
  · omega

/-- A peak that is no higher is within the limit on its value. -/
theorem checkPositionNotional_of_le {input : RiskInput} {limits : SymbolLimits} {low high : Qty}
    (h : checkPositionNotional input limits high = .none) (hlow : 0 ≤ low.raw)
    (hle : low.raw ≤ high.raw) : checkPositionNotional input limits low = .none := by
  unfold checkPositionNotional at h ⊢
  by_cases hset : limits.maxPositionNotional.isPositive = true
  · rw [if_neg (by simp [hset])] at h ⊢
    cases hhigh : checkedNotionalOf input.bbo.mid high with
    | none =>
        rw [hhigh] at h
        cases h
    | some notional =>
        rw [hhigh] at h
        dsimp only at h
        have hwithin : ¬limits.maxPositionNotional.raw < notional.raw := by
          intro hover
          rw [if_pos hover] at h
          cases h
        rw [Fixed.isPositive_iff] at hset
        by_cases hmid : 0 ≤ input.bbo.mid.raw
        · obtain ⟨smaller, hsmaller, -, hnotional⟩ := checkedNotionalOf_of_le hhigh hmid hlow hle
          rw [hsmaller]
          exact if_neg (by omega)
        · -- A price below zero values every peak below zero.
          rw [checkedNotionalOf, Fixed.fromRaw?_eq_some_iff] at hhigh
          have hproduct : input.bbo.mid.raw * high.raw ≤ input.bbo.mid.raw * low.raw :=
            mul_le_mul_of_nonpos_left hle (by omega)
          have hlower := hhigh ▸ tdiv_kScale_mono hproduct
          have hnegative : input.bbo.mid.raw * low.raw ≤ 0 :=
            mul_nonpos_of_nonpos_of_nonneg (by omega) hlow
          have hupper := tdiv_kScale_mono hnegative
          rw [Int.zero_tdiv] at hupper
          have hmin := notional.rawMin_le
          have hmax : (0 : Int) ≤ rawMax := by decide
          have hsmaller : checkedNotionalOf input.bbo.mid low =
              some ⟨_, hmin.trans hlower, hupper.trans hmax⟩ := Fixed.fromRaw?_eq_some_iff.mpr rfl
          rw [hsmaller]
          exact if_neg (by dsimp only; omega)
  · rw [if_pos (by simpa using hset)]

/-- A smaller order stays within the limits on what works. -/
theorem checkWorking_of_le {action : OrderAction} {projected : ExposureSnapshot}
    {limits : SymbolLimits} {quantity most : Qty}
    (h : checkWorking action most projected limits = .none) (hpositive : 0 < quantity.raw)
    (hle : quantity.raw ≤ most.raw) : checkWorking action quantity projected limits = .none := by
  unfold checkWorking at h ⊢
  cases hmost : Fixed.checkedAdd (projected.working action.side) most with
  | none =>
      rw [hmost] at h
      cases h
  | some side =>
      rw [hmost] at h
      obtain ⟨smaller, hsmaller, hside⟩ := exists_checkedAdd_of_le hmost hpositive hle
      rw [hsmaller]
      dsimp only at h ⊢
      split at h
      · cases h
      rename_i hbound
      have hwithin : ¬(limits.maxSideExposure.isPositive &&
          decide (limits.maxSideExposure.raw < smaller.raw)) = true := by
        simp only [Bool.and_eq_true, decide_eq_true_eq, not_and, Int.not_lt] at hbound ⊢
        exact fun hset => hside.trans (hbound hset)
      rw [if_neg hwithin]
      split at h
      · rename_i hunset
        rw [if_pos hunset]
      rename_i hset
      rw [if_neg hset]
      cases hboth : Fixed.checkedAdd projected.workingBuy projected.workingSell with
      | none =>
          rw [hboth] at h
          cases h
      | some both =>
          rw [hboth, Option.bind_some] at h
          rw [Option.bind_some]
          cases hgross : Fixed.checkedAdd both most with
          | none =>
              rw [hgross] at h
              cases h
          | some gross =>
              rw [hgross] at h
              obtain ⟨less, hless, hlessLe⟩ := exists_checkedAdd_of_le hgross hpositive hle
              rw [hless]
              dsimp only at h ⊢
              split at h
              · cases h
              · exact if_neg (by omega)

/-- A worst case that can be established has these two ends. -/
theorem computeWorstCaseWith_iff {position : PositionSnapshot} {exposure : ExposureSnapshot}
    {side : Side} {quantity : Qty} {worst : WorstCaseExposure} :
    computeWorstCaseWith position exposure side quantity = some worst ↔
      position.valid = true ∧ exposure.determinate = true ∧
      (∃ total, Fixed.checkedAdd (exposure.working side) quantity = some total) ∧
      worst.worstCaseLong.raw = position.quantity.raw + ((exposure.working .buy).raw +
        if Side.buy = side then quantity.raw else 0) ∧
      worst.worstCaseShort.raw = position.quantity.raw - ((exposure.working .sell).raw +
        if Side.sell = side then quantity.raw else 0) := by
  constructor
  · intro h
    obtain ⟨hlong, hshort⟩ := computeWorstCaseWith_eq_some h
    simp only [computeWorstCaseWith, Option.bind_eq_bind, Option.bind_eq_some_iff] at h
    obtain ⟨total, htotal, h⟩ := h
    rw [computeWorstCase] at h
    split at h
    · cases h
    rename_i hknown
    simp only [ExposureSnapshot.withWorking_determinate, Bool.or_eq_true, Bool.not_eq_true',
      not_or, Bool.not_eq_false] at hknown
    exact ⟨hknown.1, hknown.2, ⟨total, htotal⟩, hlong, hshort⟩
  · rintro ⟨hvalid, hdeterminate, ⟨total, htotal⟩, hlong, hshort⟩
    have hraw := Fixed.checkedAdd_eq_some_iff.mp htotal
    simp only [computeWorstCaseWith, Option.bind_eq_bind, Option.bind_eq_some_iff]
    refine ⟨total, htotal, ?_⟩
    rw [computeWorstCase, if_neg (by simp [hvalid, hdeterminate])]
    simp only [Option.bind_eq_bind, Option.bind_eq_some_iff]
    refine ⟨worst.worstCaseLong, Fixed.checkedAdd_eq_some_iff.mpr ?_, worst.worstCaseShort,
      Fixed.checkedSub_eq_some_iff.mpr ?_, rfl⟩
    · cases side with
      | buy => simpa [ExposureSnapshot.withWorking, ExposureSnapshot.working, hraw] using hlong
      | sell => simpa [ExposureSnapshot.withWorking, ExposureSnapshot.working] using hlong
    · cases side with
      | buy => simpa [ExposureSnapshot.withWorking, ExposureSnapshot.working] using hshort
      | sell => simpa [ExposureSnapshot.withWorking, ExposureSnapshot.working, hraw] using hshort

section Between

variable {position : PositionSnapshot} {exposure : ExposureSnapshot} {side : Side}
  {least quantity most : Qty} {worstLeast worstMost : WorstCaseExposure}

/-- The two ends as integers: the side of the order moves with its quantity. -/
def longWith (position : PositionSnapshot) (exposure : ExposureSnapshot) (side : Side)
    (quantity : Qty) : Int :=
  position.quantity.raw + ((exposure.working .buy).raw +
    if Side.buy = side then quantity.raw else 0)

def shortWith (position : PositionSnapshot) (exposure : ExposureSnapshot) (side : Side)
    (quantity : Qty) : Int :=
  position.quantity.raw - ((exposure.working .sell).raw +
    if Side.sell = side then quantity.raw else 0)

/-- A worst case within the machine range can be established. -/
theorem exists_computeWorstCaseWith (hvalid : position.valid = true)
    (hdeterminate : exposure.determinate = true)
    (hpositive : 0 < quantity.raw)
    (htotal : (exposure.working side).raw + quantity.raw ≤ rawMax)
    (hlong : rawMin ≤ longWith position exposure side quantity ∧
      longWith position exposure side quantity ≤ rawMax)
    (hshort : rawMin ≤ shortWith position exposure side quantity ∧
      shortWith position exposure side quantity ≤ rawMax) :
    ∃ worst, computeWorstCaseWith position exposure side quantity = some worst ∧
      worst.worstCaseLong.raw = longWith position exposure side quantity ∧
      worst.worstCaseShort.raw = shortWith position exposure side quantity := by
  have hlower := (exposure.working side).rawMin_le
  refine ⟨⟨⟨_, hlong.1, hlong.2⟩, ⟨_, hshort.1, hshort.2⟩⟩, ?_, rfl, rfl⟩
  exact computeWorstCaseWith_iff.mpr ⟨hvalid, hdeterminate,
    ⟨⟨(exposure.working side).raw + quantity.raw, by omega, htotal⟩,
      Fixed.checkedAdd_eq_some_iff.mpr rfl⟩, rfl, rfl⟩

/-- Between two quantities the worst case is no worse than at one of them. -/
theorem worstCase_between
    (hleast : computeWorstCaseWith position exposure side least = some worstLeast)
    (hmost : computeWorstCaseWith position exposure side most = some worstMost)
    (hpositive : 0 < quantity.raw) (hle : least.raw ≤ quantity.raw)
    (hge : quantity.raw ≤ most.raw) :
    ∃ worst, computeWorstCaseWith position exposure side quantity = some worst ∧
      (worst.peakAbsolute.raw ≤ worstLeast.peakAbsolute.raw ∨
        worst.peakAbsolute.raw ≤ worstMost.peakAbsolute.raw) := by
  obtain ⟨hvalid, hdeterminate, -, hlongLeast, hshortLeast⟩ := computeWorstCaseWith_iff.mp hleast
  obtain ⟨-, -, ⟨total, htotal⟩, hlongMost, hshortMost⟩ := computeWorstCaseWith_iff.mp hmost
  rw [Fixed.checkedAdd_eq_some_iff] at htotal
  have htotalMax := total.raw_le
  have hlongRange := And.intro worstLeast.worstCaseLong.rawMin_le worstMost.worstCaseLong.raw_le
  have hshortRange := And.intro worstMost.worstCaseShort.rawMin_le worstLeast.worstCaseShort.raw_le
  rw [hlongLeast, hlongMost] at hlongRange
  rw [hshortLeast, hshortMost] at hshortRange
  -- Both ends move one way with the quantity, or not at all.
  have hlong : longWith position exposure side least ≤ longWith position exposure side quantity ∧
      longWith position exposure side quantity ≤ longWith position exposure side most := by
    unfold longWith
    cases side
    · simpa using And.intro hle hge
    · simp
  have hshort : shortWith position exposure side most ≤ shortWith position exposure side quantity ∧
      shortWith position exposure side quantity ≤ shortWith position exposure side least := by
    unfold shortWith
    cases side
    · simp
    · simp only [reduceIte]
      omega
  obtain ⟨worst, hworst, hlongEq, hshortEq⟩ := exists_computeWorstCaseWith hvalid hdeterminate
    hpositive (by omega) ⟨hlongRange.1.trans hlong.1, hlong.2.trans hlongRange.2⟩
    ⟨hshortRange.1.trans hshort.1, hshort.2.trans hshortRange.2⟩
  refine ⟨worst, hworst, ?_⟩
  rw [worst.peakAbsolute_raw, worstLeast.peakAbsolute_raw, worstMost.peakAbsolute_raw, hlongEq,
    hshortEq, hlongLeast, hshortLeast, hlongMost, hshortMost]
  cases side with
  | buy =>
      refine (le_max_iff.mp (abs_le_max_abs_abs hlong.1 hlong.2)).imp ?_ ?_
      · exact fun h => min_le_min_right _ (max_le_max h le_rfl)
      · exact fun h => min_le_min_right _ (max_le_max h le_rfl)
  | sell =>
      refine (le_max_iff.mp (abs_le_max_abs_abs hshort.1 hshort.2)).symm.imp ?_ ?_
      · exact fun h => min_le_min_right _ (max_le_max le_rfl h)
      · exact fun h => min_le_min_right _ (max_le_max le_rfl h)

/-- With nothing negative at work, a smaller order has no worse a worst case. -/
theorem worstCase_of_le (hbuy : 0 ≤ (exposure.working .buy).raw)
    (hsell : 0 ≤ (exposure.working .sell).raw)
    (hmost : computeWorstCaseWith position exposure side most = some worstMost)
    (hpositive : 0 < quantity.raw) (hle : quantity.raw ≤ most.raw) :
    ∃ worst, computeWorstCaseWith position exposure side quantity = some worst ∧
      worst.peakAbsolute.raw ≤ worstMost.peakAbsolute.raw := by
  obtain ⟨hvalid, hdeterminate, ⟨total, htotal⟩, hlongMost, hshortMost⟩ :=
    computeWorstCaseWith_iff.mp hmost
  rw [Fixed.checkedAdd_eq_some_iff] at htotal
  have htotalMax := total.raw_le
  have hlongMax := worstMost.worstCaseLong.raw_le
  have hshortMin := worstMost.worstCaseShort.rawMin_le
  rw [hlongMost] at hlongMax
  rw [hshortMost] at hshortMin
  -- The ends of the smaller order lie between those of the larger one.
  have hshort : shortWith position exposure side most ≤
      shortWith position exposure side quantity := by
    unfold shortWith
    cases side
    · simp
    · simp only [reduceIte]
      omega
  have hacross : shortWith position exposure side quantity ≤
      longWith position exposure side quantity := by
    unfold shortWith longWith
    split
    · split <;> omega
    · split <;> omega
  have hlong : longWith position exposure side quantity ≤
      longWith position exposure side most := by
    unfold longWith
    cases side
    · simpa using hle
    · simp
  obtain ⟨worst, hworst, hlongEq, hshortEq⟩ := exists_computeWorstCaseWith hvalid hdeterminate
    hpositive (by omega) ⟨hshortMin.trans (hshort.trans hacross), hlong.trans hlongMax⟩
    ⟨hshortMin.trans hshort, hacross.trans (hlong.trans hlongMax)⟩
  refine ⟨worst, hworst, ?_⟩
  rw [worst.peakAbsolute_raw, worstMost.peakAbsolute_raw, hlongEq, hshortEq, hlongMost, hshortMost]
  refine min_le_min_right _ (max_le ?_ ?_)
  · exact (abs_le_max_abs_abs (hshort.trans hacross) hlong).trans (max_comm _ _).le
  · exact (abs_le_max_abs_abs hshort (hacross.trans hlong)).trans (max_comm _ _).le

end Between

/-! ## The venue's own rules -/

theorem ite_invalid_eq_none_of {refused refused' : Prop} [Decidable refused] [Decidable refused']
    {reason : RejectReason} {detail : String} {rest rest' : Option Refusal}
    (h : (if refused then invalid reason detail else rest) = none)
    (hpassed : ¬refused → ¬refused') (hrest : rest = none → rest' = none) :
    (if refused' then invalid reason detail else rest') = none := by
  obtain ⟨hnot, h⟩ := of_ite_invalid_eq_none h
  rw [if_neg (hpassed hnot), hrest h]

/-- The least the venue takes of an instrument. -/
structure MeetsMinimum (spec : InstrumentSpec) (price : Px) (quantity : Qty) : Prop where
  minQty : 0 < spec.minQty.raw → spec.minQty.raw ≤ quantity.raw
  minNotional : 0 < spec.minNotional.raw → spec.minNotional.raw ≤ (notionalOf price quantity).raw

/-- A valid order stays valid with a smaller quantity, on the grid and not below the
venue's minimum. -/
theorem validateOrder_resized {request : OrderRequest} {spec : InstrumentSpec}
    {caps : ExchangeCapabilities} (h : validateOrder request spec caps = none) {quantity : Qty}
    (hpositive : 0 < quantity.raw) (hstep : isOnStep quantity spec.lotSize = true)
    (hminimum : MeetsMinimum spec request.price quantity)
    (hle : quantity.raw ≤ request.quantity.raw) :
    validateOrder { request with quantity := quantity } spec caps = none := by
  rw [validateOrder] at h ⊢
  iterate 6 refine ite_invalid_eq_none_of h id fun h => ?_
  refine ite_invalid_eq_none_of h (fun _ => by simpa using hpositive) fun h => ?_
  refine ite_invalid_eq_none_of h (fun _ => by simpa using hstep) fun h => ?_
  refine ite_invalid_eq_none_of h (fun _ => by simpa using hminimum.minQty) fun h => ?_
  refine ite_invalid_eq_none_of h (fun hmax => ?_) fun h => ?_
  · simp only [Bool.and_eq_true, Fixed.isPositive_iff, decide_eq_true_eq, not_and, Int.not_lt]
      at hmax ⊢
    exact fun hset => hle.trans (hmax hset)
  iterate 4 refine ite_invalid_eq_none_of h id fun h => ?_
  refine ite_invalid_eq_none_of h (fun _ => ?_) fun h => h
  simp only [Bool.and_eq_true, Fixed.isPositive_iff, decide_eq_true_eq, not_and, Int.not_lt]
  exact fun hset => hminimum.minNotional hset.2

/-- A valid limit order is on the grid and not below the venue's minimum. -/
theorem of_validateOrder_limit {request : OrderRequest} {spec : InstrumentSpec}
    {caps : ExchangeCapabilities} (h : validateOrder request spec caps = none)
    (hlimit : request.type = .limit) :
    isOnStep request.quantity spec.lotSize = true ∧
      MeetsMinimum spec request.price request.quantity := by
  rw [validateOrder] at h
  iterate 7 replace h := (of_ite_invalid_eq_none h).2
  obtain ⟨hstep, h⟩ := of_ite_invalid_eq_none h
  obtain ⟨hquantity, h⟩ := of_ite_invalid_eq_none h
  iterate 5 replace h := (of_ite_invalid_eq_none h).2
  have hnotional := (of_ite_invalid_eq_none h).1
  refine ⟨by simpa using hstep, ⟨by simpa using hquantity, ?_⟩⟩
  simp only [OrderRequest.requiresPrice, hlimit, Bool.and_eq_true, Fixed.isPositive_iff,
    decide_eq_true_eq, not_and, Int.not_lt] at hnotional
  exact fun hset => hnotional ⟨by decide, hset⟩

namespace RiskEngine

variable {D : Type} [Double D] {engine : RiskEngine D} {action : OrderAction} {input : RiskInput}
  {spec : InstrumentSpec} {limits : SymbolLimits}

/-- A quantity on the lot grid, no larger than the one asked for, that passes both
checks. -/
structure Admissible (engine : RiskEngine D) (action : OrderAction) (input : RiskInput)
    (spec : InstrumentSpec) (limits : SymbolLimits) (quantity : Qty) : Prop where
  positive : 0 < quantity.raw
  requested : quantity.raw ≤ action.quantity.raw
  onGrid : spec.lotSize.raw ∣ quantity.raw
  fits : engine.fits action quantity input spec limits = true

theorem toBool_ite_error {α ε : Type} {refused : Prop} [Decidable refused] {reason : ε}
    {rest : Except ε α} :
    (if refused then .error reason else rest : Except ε α).toBool = true ↔
      ¬refused ∧ rest.toBool = true := by
  by_cases hrefused : refused
  · simp [hrefused, Except.toBool]
  · simp [hrefused]

theorem checkOrderBounds_toBool_iff (quantity : Qty) (context : LimitContext) :
    (engine.checkOrderBounds action quantity input spec limits context).toBool = true ↔
      0 < quantity.raw ∧ 0 < action.price.raw ∧
        (0 < limits.maxOrderQuantity.raw → quantity.raw ≤ limits.maxOrderQuantity.raw) ∧
        (∃ notional, checkedNotionalOf action.price quantity = some notional ∧
          (0 < limits.maxOrderNotional.raw → notional.raw ≤ limits.maxOrderNotional.raw)) ∧
        checkPriceBand action input limits engine = .none ∧
        passesVenueRules action quantity spec = true := by
  rw [checkOrderBounds, toBool_ite_error, toBool_ite_error, toBool_ite_error]
  cases hnotional : checkedNotionalOf action.price quantity with
  | none => simp [Except.toBool]
  | some notional =>
      simp only [toBool_ite_error, Bool.and_eq_true, Bool.not_eq_true', Fixed.isPositive_iff,
        Fixed.isPositive_eq_false_iff, decide_eq_true_eq, not_and, Int.not_lt, Int.not_le, not_not,
        Option.some.injEq, exists_eq_left', Bool.not_eq_false]
      simp [Except.toBool]

omit [Double D] in
theorem checkExposure_toBool_iff (quantity : Qty) (context : LimitContext) :
    (engine.checkExposure action quantity input limits context).toBool = true ↔
      ¬(0 < limits.maxOpenOrders && limits.maxOpenOrders ≤ input.exposure.openOrderCount &&
          action.type = .new) = true ∧
        ∃ projected, projectedExposure action input = some projected ∧
          (∃ worst, computeWorstCaseWith input.position projected action.side quantity =
              some worst ∧
            (0 < limits.maxPosition.raw → worst.peakAbsolute.raw ≤ limits.maxPosition.raw) ∧
            checkPositionNotional input limits worst.peakAbsolute = .none) ∧
          checkWorking action quantity projected limits = .none ∧
          ¬(isReduceOnly engine.state &&
            increasesAbsolutePosition input.position action.side quantity) = true := by
  rw [checkExposure, toBool_ite_error]
  apply and_congr_right fun _ => ?_
  cases hprojected : projectedExposure action input with
  | none => simp [Except.toBool]
  | some projected =>
      simp only [Option.some.injEq, exists_eq_left']
      cases hworst : computeWorstCaseWith input.position projected action.side quantity with
      | none => simp [Except.toBool]
      | some worst =>
          simp only [toBool_ite_error, Bool.and_eq_true, Fixed.isPositive_iff, decide_eq_true_eq,
            not_and, Int.not_lt, not_not, Option.some.injEq, exists_eq_left']
          simp [Except.toBool, and_assoc]

/-- A quantity passes when it passes each check on its own, whatever is recorded about
it. -/
theorem checkBoth_toBool_iff (quantity : Qty) (context : LimitContext) :
    (engine.checkBoth action quantity input spec limits context).toBool = true ↔
      (engine.checkOrderBounds action quantity input spec limits {}).toBool = true ∧
        (engine.checkExposure action quantity input limits {}).toBool = true := by
  rw [checkOrderBounds_toBool_iff _ {}, ← checkOrderBounds_toBool_iff _ context, checkBoth]
  cases hbounds : engine.checkOrderBounds action quantity input spec limits context with
  | error reason => simp [Except.bind, Except.toBool]
  | ok recorded =>
      rw [checkExposure_toBool_iff _ {}, ← checkExposure_toBool_iff _ recorded]
      simp [Except.bind, Except.toBool]

theorem fits_iff (quantity : Qty) :
    engine.fits action quantity input spec limits = true ↔
      (engine.checkOrderBounds action quantity input spec limits {}).toBool = true ∧
        (engine.checkExposure action quantity input limits {}).toBool = true :=
  checkBoth_toBool_iff quantity {}

theorem passesVenueRules_resized {most quantity : Qty}
    (h : passesVenueRules action most spec = true) (hpositive : 0 < quantity.raw)
    (hstep : isOnStep quantity spec.lotSize = true)
    (hminimum : MeetsMinimum spec action.price quantity) (hle : quantity.raw ≤ most.raw) :
    passesVenueRules action quantity spec = true := by
  unfold passesVenueRules at h ⊢
  rw [Option.isNone_iff_eq_none] at h ⊢
  exact validateOrder_resized h hpositive hstep hminimum hle

/-- A quantity that fits is on the grid and not below the venue's minimum. -/
theorem meetsMinimum_of_fits {quantity : Qty}
    (h : engine.fits action quantity input spec limits = true) :
    isOnStep quantity spec.lotSize = true ∧ MeetsMinimum spec action.price quantity := by
  rw [fits_iff, checkOrderBounds_toBool_iff] at h
  obtain ⟨-, -, -, -, -, hvenue⟩ := h.1
  unfold passesVenueRules at hvenue
  rw [Option.isNone_iff_eq_none] at hvenue
  exact of_validateOrder_limit hvenue rfl

/-- A smaller quantity fits when the venue takes it and its worst case can be
established and is within the limits. -/
theorem fits_resized {most quantity : Qty} (h : engine.fits action most input spec limits = true)
    (hpositive : 0 < quantity.raw) (hle : quantity.raw ≤ most.raw)
    (hstep : isOnStep quantity spec.lotSize = true)
    (hminimum : MeetsMinimum spec action.price quantity)
    (hworst : ∀ projected, projectedExposure action input = some projected →
      ∃ worst, computeWorstCaseWith input.position projected action.side quantity = some worst ∧
        (0 < limits.maxPosition.raw → worst.peakAbsolute.raw ≤ limits.maxPosition.raw) ∧
        checkPositionNotional input limits worst.peakAbsolute = .none) :
    engine.fits action quantity input spec limits = true := by
  rw [fits_iff, checkOrderBounds_toBool_iff, checkExposure_toBool_iff] at h ⊢
  obtain ⟨⟨hmost, hprice, horder, ⟨notional, hnotional, hbound⟩, hband, hvenue⟩, hopen, projected,
    hprojected, -, hworking, hreduce⟩ := h
  obtain ⟨smaller, hsmaller, -, hsmallerLe⟩ :=
    checkedNotionalOf_of_le hnotional hprice.le hpositive.le hle
  have hsame : increasesAbsolutePosition input.position action.side quantity =
      increasesAbsolutePosition input.position action.side most := by
    unfold increasesAbsolutePosition
    rw [(Fixed.isPositive_iff quantity).mpr hpositive, (Fixed.isPositive_iff most).mpr hmost]
  exact ⟨⟨hpositive, hprice, fun hset => hle.trans (horder hset),
    ⟨smaller, hsmaller, fun hset => hsmallerLe.trans (hbound hset)⟩, hband,
    passesVenueRules_resized hvenue hpositive hstep hminimum hle⟩, hopen, projected, hprojected,
    hworst projected hprojected, checkWorking_of_le hworking hpositive hle, hsame ▸ hreduce⟩

theorem peakAbsolute_nonneg (worst : WorstCaseExposure) : 0 ≤ worst.peakAbsolute.raw := by
  rw [worst.peakAbsolute_raw]
  exact le_min (le_max_of_le_left (abs_nonneg _)) (by decide)

/-- What fits on the grid is an interval. -/
theorem fits_between {least quantity most : Qty}
    (hleast : engine.fits action least input spec limits = true)
    (hmost : engine.fits action most input spec limits = true) (hle : least.raw ≤ quantity.raw)
    (hge : quantity.raw ≤ most.raw) (hstep : isOnStep quantity spec.lotSize = true) :
    engine.fits action quantity input spec limits = true := by
  have hleast' := hleast
  have hmost' := hmost
  rw [fits_iff, checkOrderBounds_toBool_iff, checkExposure_toBool_iff] at hleast' hmost'
  obtain ⟨⟨hleastPos, hprice, -⟩, -, projected, hprojected,
    ⟨worstLeast, hworstLeast, hpeakLeast, hvalueLeast⟩, -⟩ := hleast'
  obtain ⟨⟨-, -, -, ⟨notional, hnotional, -⟩, -⟩, -, other, hother,
    ⟨worstMost, hworstMost, hpeakMost, hvalueMost⟩, -⟩ := hmost'
  obtain rfl : projected = other := Option.some.inj (hprojected.symm.trans hother)
  have hpositive : 0 < quantity.raw := by omega
  obtain ⟨-, hminimum⟩ := meetsMinimum_of_fits hleast
  -- A larger order is worth no less.
  have hvalue : (notionalOf action.price least).raw ≤ (notionalOf action.price quantity).raw := by
    obtain ⟨larger, hlarger, -, -⟩ := checkedNotionalOf_of_le hnotional hprice.le hpositive.le hge
    obtain ⟨smaller, hsmaller, -, hnotionals⟩ :=
      checkedNotionalOf_of_le hlarger hprice.le hleastPos.le hle
    rw [notionalOf_of_checked hlarger, notionalOf_of_checked hsmaller]
    exact hnotionals
  refine fits_resized hmost hpositive hge hstep ⟨fun hset => (hminimum.minQty hset).trans hle,
    fun hset => (hminimum.minNotional hset).trans hvalue⟩ fun found hfound => ?_
  obtain rfl : projected = found := Option.some.inj (hprojected.symm.trans hfound)
  obtain ⟨worst, hworst, hpeak⟩ := worstCase_between hworstLeast hworstMost hpositive hle hge
  refine ⟨worst, hworst, ?_⟩
  rcases hpeak with hpeak | hpeak
  · exact ⟨fun hset => hpeak.trans (hpeakLeast hset),
      checkPositionNotional_of_le hvalueLeast (peakAbsolute_nonneg worst) hpeak⟩
  · exact ⟨fun hset => hpeak.trans (hpeakMost hset),
      checkPositionNotional_of_le hvalueMost (peakAbsolute_nonneg worst) hpeak⟩

/-- With nothing negative at work, a size the venue takes fits once a larger one
does. -/
theorem fits_of_le (hbuy : 0 ≤ input.exposure.workingBuy.raw)
    (hsell : 0 ≤ input.exposure.workingSell.raw) {quantity most : Qty}
    (hmost : engine.fits action most input spec limits = true) (hpositive : 0 < quantity.raw)
    (hle : quantity.raw ≤ most.raw) (hstep : isOnStep quantity spec.lotSize = true)
    (hminimum : MeetsMinimum spec action.price quantity) :
    engine.fits action quantity input spec limits = true := by
  have hmost' := hmost
  rw [fits_iff, checkOrderBounds_toBool_iff, checkExposure_toBool_iff] at hmost'
  obtain ⟨-, -, other, hother, ⟨worstMost, hworstMost, hpeakMost, hvalueMost⟩, -⟩ := hmost'
  refine fits_resized hmost hpositive hle hstep hminimum fun projected hprojected => ?_
  obtain rfl : projected = other := Option.some.inj (hprojected.symm.trans hother)
  have hworking : ∀ side, 0 ≤ (projected.working side).raw := by
    intro side
    have hafter := projectedExposure_working hprojected .zero side
    have hside : 0 ≤ (input.exposure.working side).raw := by
      cases side
      · exact hbuy
      · exact hsell
    rw [Fixed.zero_raw, ite_self, add_zero] at hafter
    rw [hafter, workingAfter, Fixed.zero_raw, add_zero]
    split
    · split
      · exact le_max_left _ _
      · exact hside
    · exact hside
  obtain ⟨worst, hworst, hpeak⟩ :=
    worstCase_of_le (hworking .buy) (hworking .sell) hworstMost hpositive hle
  exact ⟨worst, hworst, fun hset => hpeak.trans (hpeakMost hset),
    checkPositionNotional_of_le hvalueMost (peakAbsolute_nonneg worst) hpeak⟩

/-- The reduction finds the largest size that fits, and zero only where none does; so
an action is refused for a reason that a smaller order may avoid only where no smaller
order fits. -/
structure FindsLargest (engine : RiskEngine D) (action : OrderAction) (input : RiskInput)
    (spec : InstrumentSpec) (limits : SymbolLimits) : Prop where
  largest :
    (engine.largestPermittedQuantity action input spec limits = .zero ∧
      ∀ quantity, ¬engine.Admissible action input spec limits quantity) ∨
    (engine.Admissible action input spec limits
        (engine.largestPermittedQuantity action input spec limits) ∧
      ∀ quantity, engine.Admissible action input spec limits quantity →
        quantity.raw ≤ (engine.largestPermittedQuantity action input spec limits).raw)
  refused : input.instrument = some spec → engine.limits.find input.symbol = some limits →
    action.type = .new ∨ action.type = .replace →
    ∀ now, (engine.evaluate action input now).1.verdict = .reject →
      reducible (engine.evaluate action input now).1.reason = true →
      ∀ quantity, ¬engine.Admissible action input spec limits quantity

theorem isOnStep_iff {quantity : Qty} (hlot : 0 < spec.lotSize.raw) :
    isOnStep quantity spec.lotSize = true ↔ spec.lotSize.raw ∣ quantity.raw := by
  simp only [isOnStep, Bool.or_eq_true, decide_eq_true_eq]
  rw [or_iff_right (by omega), Int.dvd_iff_tmod_eq_zero]

/-- A number of lots up to the quantity asked for, as a quantity. -/
theorem narrow_lots {lots : Int} (hlot : 0 < spec.lotSize.raw) (hlots : 0 ≤ lots)
    (hle : lots ≤ action.quantity.raw / spec.lotSize.raw) :
    (Fixed.narrow (lots * spec.lotSize.raw) : Qty).raw = lots * spec.lotSize.raw ∧
      lots * spec.lotSize.raw ≤ action.quantity.raw := by
  have hproduct : lots * spec.lotSize.raw ≤ action.quantity.raw :=
    (mul_le_mul_of_nonneg_right hle hlot.le).trans (Int.ediv_mul_le _ hlot.ne')
  have hnonneg : 0 ≤ lots * spec.lotSize.raw := mul_nonneg hlots hlot.le
  have hmin : rawMin ≤ 0 := by decide
  exact ⟨Fixed.narrow_raw_of_inRange (hmin.trans hnonneg)
    (hproduct.trans action.quantity.raw_le), hproduct⟩

/-- Where a single lot fits, the search returns the largest size that does. -/
theorem largestPermittedQuantity_of_fits_lot (hlot : 0 < spec.lotSize.raw)
    (hfits : engine.fits action spec.lotSize input spec limits = true)
    (hle : spec.lotSize.raw ≤ action.quantity.raw) :
    engine.Admissible action input spec limits
        (engine.largestPermittedQuantity action input spec limits) ∧
      ∀ quantity, engine.Admissible action input spec limits quantity →
        quantity.raw ≤ (engine.largestPermittedQuantity action input spec limits).raw := by
  have hhigh : action.quantity.raw.tdiv spec.lotSize.raw =
      action.quantity.raw / spec.lotSize.raw := Int.tdiv_eq_ediv_of_nonneg (by omega)
  have hone : 1 ≤ action.quantity.raw / spec.lotSize.raw :=
    (Int.le_ediv_iff_mul_le hlot).mpr (by omega)
  generalize htop : action.quantity.raw / spec.lotSize.raw = top at hhigh hone
  generalize hfit : (fun lots : Int =>
    engine.fits action (.narrow (lots * spec.lotSize.raw)) input spec limits) = fit
  have hresult : engine.largestPermittedQuantity action input spec limits =
      .narrow (searchLots fit top.toNat 0 top * spec.lotSize.raw) := by
    unfold largestPermittedQuantity
    rw [if_pos ((Fixed.isPositive_iff _).mpr hlot)]
    dsimp only
    rw [hhigh, hfit, if_neg (by omega), if_neg (by simp [hfits])]
  have hlots := fun lots hlots hle => @narrow_lots action spec lots hlot hlots (htop ▸ hle)
  have hdown : ∀ m n, 0 < m → m ≤ n → n ≤ top → fit n = true → fit m = true := by
    intro m n hm hmn hn hfitn
    rw [← hfit] at hfitn ⊢
    have hrawm := (hlots m (by omega) (by omega)).1
    have hrawn := (hlots n (by omega) hn).1
    refine fits_between hfits hfitn ?_ ?_ ((isOnStep_iff hlot).mpr ?_)
    · rw [hrawm]
      exact le_mul_of_one_le_left hlot.le hm
    · rw [hrawm, hrawn]
      exact mul_le_mul_of_nonneg_right hmn hlot.le
    · rw [hrawm]
      exact Int.dvd_mul_left _ _
  obtain ⟨hnonneg, hletop, hfound, habove⟩ := searchLots_spec hdown top.toNat 0 top le_rfl
    (by omega) le_rfl (by omega) (fun h => absurd h (lt_irrefl _)) fun n h h' => absurd h h'.not_gt
  generalize searchLots fit top.toNat 0 top = found at hresult hnonneg hletop hfound habove
  have hnarrow : ∀ {quantity : Qty} {lots : Int}, quantity.raw = lots * spec.lotSize.raw →
      .narrow (lots * spec.lotSize.raw) = quantity := by
    intro quantity lots heq
    ext1
    rw [← heq]
    exact Fixed.narrow_raw_of_inRange quantity.rawMin_le quantity.raw_le
  -- The lot itself is a size that fits, so the search does not end at zero.
  have hpositive : 0 < found := by
    by_contra hzero
    have hmissed := habove 1 (by omega) hone
    rw [← hfit] at hmissed
    dsimp only at hmissed
    rw [hnarrow (one_mul _).symm, hfits] at hmissed
    cases hmissed
  obtain ⟨hraw, hrequested⟩ := hlots found hnonneg hletop
  rw [hresult]
  refine ⟨⟨?_, ?_, ?_, ?_⟩, fun quantity hadmissible => ?_⟩
  · rw [hraw]
    exact mul_pos hpositive hlot
  · rw [hraw]
    exact hrequested
  · rw [hraw]
    exact Int.dvd_mul_left _ _
  · have := hfound hpositive
    rwa [← hfit] at this
  · obtain ⟨lots, hquantity⟩ := hadmissible.onGrid
    rw [mul_comm] at hquantity
    rw [hraw, hquantity]
    refine mul_le_mul_of_nonneg_right ?_ hlot.le
    by_contra hmore
    have hwithin : lots ≤ top := by
      rw [← htop, Int.le_ediv_iff_mul_le hlot, ← hquantity]
      exact hadmissible.requested
    have hmissed := habove lots (by omega) hwithin
    rw [← hfit] at hmissed
    dsimp only at hmissed
    rw [hnarrow hquantity, hadmissible.fits] at hmissed
    cases hmissed

/-- Where a single lot does not fit, or is more than was asked for, the search gives
up. -/
theorem largestPermittedQuantity_eq_zero (hlot : 0 < spec.lotSize.raw)
    (h : engine.fits action spec.lotSize input spec limits = false ∨
      action.quantity.raw < spec.lotSize.raw) :
    engine.largestPermittedQuantity action input spec limits = .zero := by
  unfold largestPermittedQuantity
  rw [if_pos ((Fixed.isPositive_iff _).mpr hlot)]
  dsimp only
  split
  · rfl
  rename_i hhigh
  rcases h with hfits | hless
  · rw [if_pos (by simp [hfits])]
  · refine absurd ?_ hhigh
    by_cases hnegative : action.quantity.raw < 0
    · exact (Int.tdiv_le_tdiv hlot hnegative.le).trans (Int.zero_tdiv _).le
    · rw [Int.tdiv_eq_zero_of_lt (by omega) hless]

/-- No size on the grid fits an order for less than a lot. -/
theorem not_admissible_of_lt_lot (h : action.quantity.raw < spec.lotSize.raw) (quantity : Qty) :
    ¬engine.Admissible action input spec limits quantity := by
  intro hadmissible
  have hle := Int.le_of_dvd hadmissible.positive hadmissible.onGrid
  exact absurd (hle.trans hadmissible.requested) (not_le.mpr h)

/-- The result of the search, in both directions. -/
theorem largest_iff (hlot : 0 < spec.lotSize.raw) :
    ((engine.largestPermittedQuantity action input spec limits = .zero ∧
        ∀ quantity, ¬engine.Admissible action input spec limits quantity) ∨
      (engine.Admissible action input spec limits
          (engine.largestPermittedQuantity action input spec limits) ∧
        ∀ quantity, engine.Admissible action input spec limits quantity →
          quantity.raw ≤ (engine.largestPermittedQuantity action input spec limits).raw)) ↔
      (engine.fits action spec.lotSize input spec limits = true ∨
        ∀ quantity, ¬engine.Admissible action input spec limits quantity) := by
  by_cases hless : action.quantity.raw < spec.lotSize.raw
  · exact iff_of_true
      (.inl ⟨largestPermittedQuantity_eq_zero hlot (.inr hless), not_admissible_of_lt_lot hless⟩)
      (.inr (not_admissible_of_lt_lot hless))
  · rw [not_lt] at hless
    by_cases hfits : engine.fits action spec.lotSize input spec limits = true
    · exact iff_of_true (.inr (largestPermittedQuantity_of_fits_lot hlot hfits hless)) (.inl hfits)
    · have hzero : engine.largestPermittedQuantity action input spec limits = .zero :=
        largestPermittedQuantity_eq_zero hlot (.inl (by simpa using hfits))
      rw [hzero, or_iff_right hfits]
      constructor
      · rintro (⟨-, hnone⟩ | ⟨hadmissible, -⟩)
        · exact hnone
        · exact absurd hadmissible.positive (lt_irrefl 0)
      · exact fun hnone => .inl ⟨rfl, hnone⟩

/-- The checks read nothing of the engine but its state. -/
theorem checkBoth_congr {other : RiskEngine D} (h : other.state = engine.state) (quantity : Qty)
    (context : LimitContext) :
    other.checkBoth action quantity input spec limits context =
      engine.checkBoth action quantity input spec limits context := by
  unfold checkBoth checkExposure
  rw [h]
  rfl

theorem admissible_congr {other : RiskEngine D} (h : other.state = engine.state)
    {quantity : Qty} (hadmissible : engine.Admissible action input spec limits quantity) :
    other.Admissible action input spec limits quantity :=
  { hadmissible with
    fits := by
      rw [fits, checkBoth_congr h]
      exact hadmissible.fits }

theorem fits_eq_toBool_checkBoth (quantity : Qty) (context : LimitContext) :
    engine.fits action quantity input spec limits =
      (engine.checkBoth action quantity input spec limits context).toBool := by
  rw [Bool.eq_iff_iff, fits_iff, checkBoth_toBool_iff]

/-- What fits passes the checks that are made again of it. -/
theorem exists_checkBoth_of_fits {permitted : Qty}
    (hfits : engine.fits action permitted input spec limits = true) (context : LimitContext) :
    ∃ revalidated, engine.checkBoth { action with quantity := permitted } permitted input spec
      limits context = .ok revalidated := by
  have hpasses : (engine.checkBoth { action with quantity := permitted } permitted input spec limits
      context).toBool = true := by
    rw [← hfits, fits_eq_toBool_checkBoth permitted context]
    rfl
  cases hrecheck : engine.checkBoth { action with quantity := permitted } permitted input spec
      limits context with
  | error recheck =>
      rw [hrecheck] at hpasses
      cases hpasses
  | ok revalidated => exact ⟨revalidated, rfl⟩

theorem not_reducible_ite {c : Prop} [Decidable c] {a b : RiskReason} (ha : reducible a = false)
    (hb : reducible b = false) : reducible (if c then a else b) = false := by
  split
  · exact ha
  · exact hb

omit [Double D] in
/-- The checks that do not look at the size do not ask for a smaller one. -/
theorem not_reducible_screen (now : Nanos) :
    reducible (engine.screen action input now) = false := by
  unfold screen screenPortfolio screenLosses
  dsimp only
  repeat' first | rfl | apply not_reducible_ite

/-- A reduction refused for a reason that a smaller order may avoid found no smaller
order. -/
theorem reduceAction_refused {context : LimitContext} {failure : RiskReason} {now : Nanos}
    (hlargest :
      (engine.largestPermittedQuantity action input spec limits = .zero ∧
        ∀ quantity, ¬engine.Admissible action input spec limits quantity) ∨
      engine.Admissible action input spec limits
        (engine.largestPermittedQuantity action input spec limits))
    (hfailed : engine.fits action action.quantity input spec limits = false)
    (hverdict : (engine.reduceAction action input spec limits context failure now).1.verdict =
      .reject)
    (hreducible : reducible
      (engine.reduceAction action input spec limits context failure now).1.reason = true)
    (quantity : Qty) : ¬engine.Admissible action input spec limits quantity := by
  rcases hlargest with ⟨-, hnone⟩ | hadmissible
  · exact hnone quantity
  exfalso
  generalize hpermitted : engine.largestPermittedQuantity action input spec limits = permitted
    at hadmissible
  -- The action itself does not fit, so what fits is less.
  have hless : permitted.raw < action.quantity.raw := by
    rcases hadmissible.requested.lt_or_eq with hlt | heq
    · exact hlt
    · have hsame : permitted = action.quantity := Fixed.ext heq
      rw [hsame] at hadmissible
      rw [hadmissible.fits] at hfailed
      cases hfailed
  have hpositive := (Fixed.isPositive_iff _).mpr hadmissible.positive
  rw [reduceAction, hpermitted] at hverdict hreducible
  by_cases hfailure : reducible failure = true
  · have hgoes :
        ¬(!permitted.isPositive || decide (action.quantity.raw ≤ permitted.raw)) = true := by
      simp [hpositive, hless]
    rw [if_neg (by simp [hfailure])] at hverdict
    dsimp only at hverdict
    rw [if_neg hgoes] at hverdict
    obtain ⟨revalidated, hrecheck⟩ := exists_checkBoth_of_fits hadmissible.fits context
    rw [hrecheck] at hverdict
    cases hverdict
  · rw [if_pos (by simp [hfailure])] at hreducible
    exact hfailure hreducible

/-- Where the search finds the largest size, no action is refused that a smaller order
on the grid would have served. -/
theorem evaluate_refused {now : Nanos} (hinstrument : input.instrument = some spec)
    (hlimits : engine.limits.find input.symbol = some limits)
    (htype : action.type = .new ∨ action.type = .replace)
    (hlargest : ∀ other : RiskEngine D, other.state = engine.state →
      (other.largestPermittedQuantity action input spec limits = .zero ∧
        ∀ quantity, ¬other.Admissible action input spec limits quantity) ∨
      other.Admissible action input spec limits
        (other.largestPermittedQuantity action input spec limits))
    (hverdict : (engine.evaluate action input now).1.verdict = .reject)
    (hreducible : reducible (engine.evaluate action input now).1.reason = true)
    (quantity : Qty) : ¬engine.Admissible action input spec limits quantity := by
  rw [evaluate_of_addsExposure htype, evaluateExposure, hinstrument, hlimits] at hverdict hreducible
  have hscreen := @not_reducible_screen D engine action input now
  cases hscreened : engine.screen action input now with
  | none =>
      rw [hscreened] at hverdict hreducible
      have hstate := engine.acquireBudget_state action now
      generalize engine.acquireBudget action now = budget at hstate hverdict hreducible
      obtain ⟨granted, other⟩ := budget
      dsimp only at hstate hverdict hreducible
      cases granted with
      | false =>
          replace hreducible : reducible .rateLimit = true := hreducible
          exact absurd hreducible (by decide)
      | true =>
          rw [if_neg (by decide), measure] at hverdict hreducible
          intro hadmissible
          have hother := admissible_congr hstate hadmissible
          cases hchecked : other.checkBoth action action.quantity input spec limits
              { maxPosition := limits.maxPosition
                openOrders := input.exposure.openOrderCount } with
          | ok context =>
              rw [hchecked] at hverdict
              cases hverdict
          | error failure =>
              rw [hchecked] at hverdict hreducible
              have hfailed : other.fits action action.quantity input spec limits = false := by
                rw [fits_eq_toBool_checkBoth, hchecked]
                rfl
              exact reduceAction_refused (hlargest other hstate) hfailed hverdict hreducible
                quantity hother
  | _ =>
      rw [hscreened] at hreducible hscreen
      exact absurd (hscreen.symm.trans hreducible) (by decide)

/-- The instrument of the small market, with a minimum quantity. -/
def sampleSpec (minQty : Int) : InstrumentSpec where
  symbol := sampleSymbol
  tickSize := units 1
  lotSize := units 1
  minQty := units minQty
  status := .trading

/-- A bid for twelve units against a limit of ten. -/
def sampleBid : OrderAction := { sampleAction .new with quantity := units 12 }

end RiskEngine

end MmEngine.Risk
