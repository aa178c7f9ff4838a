/-
# Where a limit wraps

The exposure arithmetic is checked, and three operators on the way to it are not: the
negation of the profit, the sum behind the midpoint, and the absolute value of a worst
case, which saturates. Everywhere else a permitted order meets the loss limits and the
limit on the position's value in exact integers.
-/

import MmEngine.Risk.Permission

namespace MmEngine.Risk

open MmEngine.Quote

/-- A loss limit is set. -/
def LossLimited (global : GlobalLimits) : Prop :=
  0 < global.emergencyLoss.raw ∨ 0 < global.maxDailyLoss.raw ∨ 0 < global.maxSessionLoss.raw

/-- The loss is below every loss limit that is set. -/
structure WithinLosses (global : GlobalLimits) (netPnl : Int) : Prop where
  emergency : 0 < global.emergencyLoss.raw → -netPnl < global.emergencyLoss.raw
  daily : 0 < global.maxDailyLoss.raw → -netPnl < global.maxDailyLoss.raw
  session : 0 < global.maxSessionLoss.raw → -netPnl < global.maxSessionLoss.raw

/-- The midpoint, rounded down. -/
def exactMid (bbo : BestBidAsk) : Int := (bbo.bidPx.raw + bbo.askPx.raw) / 2

/-- The worst cases with an order at work. -/
def exactLong (action : OrderAction) (input : RiskInput) (quantity : Qty) : Int :=
  input.position.quantity.raw + workingAfter action input quantity .buy

def exactShort (action : OrderAction) (input : RiskInput) (quantity : Qty) : Int :=
  input.position.quantity.raw - workingAfter action input quantity .sell

/-- The larger of the two worst cases, valued at the midpoint. -/
def exactValue (action : OrderAction) (input : RiskInput) (quantity : Qty) : Int :=
  (exactMid input.bbo *
    max |exactLong action input quantity| |exactShort action input quantity|).tdiv Fixed.kScale

/-- One of the unchecked operators of the value leaves the exact integers. -/
def ValueInexact (action : OrderAction) (input : RiskInput) (quantity : Qty) : Prop :=
  rawMax < input.bbo.bidPx.raw + input.bbo.askPx.raw ∨
    exactLong action input quantity = rawMin ∨ exactShort action input quantity = rawMin

variable {action : OrderAction} {input : RiskInput} {limits : SymbolLimits} {quantity : Qty}

/-- The midpoint of a sane book is exact while the sum is representable. -/
theorem mid_raw {bbo : BestBidAsk} (hsane : bbo.isSane = true)
    (hsum : bbo.bidPx.raw + bbo.askPx.raw ≤ rawMax) : bbo.mid.raw = exactMid bbo := by
  simp only [BestBidAsk.isSane, BestBidAsk.isTwoSided, Bool.and_eq_true, Fixed.isPositive_iff]
    at hsane
  obtain ⟨⟨⟨⟨hbid, hask⟩, -⟩, -⟩, -⟩ := hsane
  have hmin : rawMin ≤ 0 := by decide
  have hwide : (bbo.bidPx + bbo.askPx).raw = bbo.bidPx.raw + bbo.askPx.raw :=
    Fixed.narrow_raw_of_inRange (by omega) hsum
  have hhalf : (bbo.bidPx.raw + bbo.askPx.raw).tdiv 2 = exactMid bbo :=
    Int.tdiv_eq_ediv_of_nonneg (by omega)
  have hnonneg : 0 ≤ exactMid bbo := Int.ediv_nonneg (by omega) (by decide)
  have hle : exactMid bbo ≤ bbo.bidPx.raw + bbo.askPx.raw := Int.ediv_le_self _ (by omega)
  rw [BestBidAsk.mid, hwide, hhalf]
  exact Fixed.narrow_raw_of_inRange (hmin.trans hnonneg) (hle.trans hsum)

/-- The worst cases are exact, since their sums are checked. -/
theorem worstCase_exact {projected : ExposureSnapshot} {worst : WorstCaseExposure}
    (hprojected : projectedExposure action input = some projected)
    (hworst : computeWorstCaseWith input.position projected action.side quantity = some worst) :
    worst.worstCaseLong.raw = exactLong action input quantity ∧
      worst.worstCaseShort.raw = exactShort action input quantity := by
  obtain ⟨hlong, hshort⟩ := computeWorstCaseWith_eq_some hworst
  rw [projectedExposure_working hprojected] at hlong hshort
  exact ⟨hlong, hshort⟩

/-- A peak is exact unless a worst case is the least scalar. -/
theorem peakAbsolute_exact {worst : WorstCaseExposure} (hlong : worst.worstCaseLong.raw ≠ rawMin)
    (hshort : worst.worstCaseShort.raw ≠ rawMin) :
    worst.peakAbsolute.raw = max |worst.worstCaseLong.raw| |worst.worstCaseShort.raw| := by
  have habs : ∀ value : Qty, value.raw ≠ rawMin → |value.raw| ≤ rawMax := by
    intro value hvalue
    have hlo := value.rawMin_le
    have hhi := value.raw_le
    simp only [rawMin, rawMax] at *
    rw [abs_le]
    omega
  rw [worst.peakAbsolute_raw]
  exact min_eq_left (max_le (habs _ hlong) (habs _ hshort))

/-- Where every operator is exact the checked value is the exact one. -/
theorem exactValue_le_of_checkPositionNotional {worst : WorstCaseExposure}
    {projected : ExposureSnapshot} (hsane : input.bbo.isSane = true)
    (hprojected : projectedExposure action input = some projected)
    (hworst : computeWorstCaseWith input.position projected action.side quantity = some worst)
    (hexact : ¬ValueInexact action input quantity)
    (hcheck : RiskEngine.checkPositionNotional input limits worst.peakAbsolute = .none)
    (hset : 0 < limits.maxPositionNotional.raw) :
    exactValue action input quantity ≤ limits.maxPositionNotional.raw := by
  obtain ⟨hlong, hshort⟩ := worstCase_exact hprojected hworst
  rw [ValueInexact, not_or, not_or, not_lt] at hexact
  have hpeak := peakAbsolute_exact (hlong ▸ hexact.2.1) (hshort ▸ hexact.2.2)
  rw [RiskEngine.checkPositionNotional, if_neg (by simp [hset])] at hcheck
  split at hcheck
  · cases hcheck
  rename_i value hvalue
  obtain ⟨hwithin, -⟩ := RiskEngine.of_ite_reason_eq_none hcheck (by decide)
  rw [checkedNotionalOf, Fixed.fromRaw?_eq_some_iff, mid_raw hsane hexact.1, hpeak, hlong, hshort]
    at hvalue
  rw [exactValue, ← hvalue]
  exact not_lt.mp hwithin

/-- The negated profit is below a limit that it has passed, unless it has no negation. -/
theorem neg_lt_of_passed {limit netPnl : Notional}
    (h : ¬(limit.isPositive && decide (limit.raw ≤ (Fixed.zero - netPnl).raw)) = true)
    (hexact : netPnl.raw ≠ rawMin) (hset : 0 < limit.raw) : -netPnl.raw < limit.raw := by
  rw [Bool.and_eq_true, Fixed.isPositive_iff, decide_eq_true_eq, Fixed.zero_sub_raw hexact] at h
  exact not_le.mp fun hle => h ⟨hset, hle⟩

/-- No limit is above the opposite of the least scalar. -/
theorem not_neg_rawMin_lt (limit : Notional) : ¬-rawMin < limit.raw := by
  have hmax := limit.raw_le
  simp only [rawMin, rawMax] at *
  omega

namespace RiskEngine

variable {D : Type} {engine : RiskEngine D} {spec : InstrumentSpec} {now : Nanos}

/-- A screened loss is within its limits, unless the profit is the least scalar. -/
theorem withinLosses_iff (h : engine.screenPortfolio input now = .none) :
    WithinLosses engine.limits.global input.portfolio.netPnl.raw ↔
      ¬(LossLimited engine.limits.global ∧ input.portfolio.netPnl.raw = rawMin) := by
  constructor
  · rintro hwithin ⟨hlimited, hleast⟩
    rw [hleast] at hwithin
    rcases hlimited with hset | hset | hset
    · exact not_neg_rawMin_lt _ (hwithin.emergency hset)
    · exact not_neg_rawMin_lt _ (hwithin.daily hset)
    · exact not_neg_rawMin_lt _ (hwithin.session hset)
  · intro hexact
    by_cases hlimited : LossLimited engine.limits.global
    · have hleast : input.portfolio.netPnl.raw ≠ rawMin := fun hleast => hexact ⟨hlimited, hleast⟩
      rw [screenPortfolio] at h
      iterate 3 replace h := (of_ite_reason_eq_none h (by decide)).2
      rw [if_pos (by simpa [LossLimited, or_assoc, or_comm, or_left_comm] using hlimited),
        screenLosses] at h
      obtain ⟨-, h⟩ := of_ite_reason_eq_none h (by decide)
      obtain ⟨hemergency, h⟩ := of_ite_reason_eq_none h (by decide)
      obtain ⟨hdaily, h⟩ := of_ite_reason_eq_none h (by decide)
      obtain ⟨hsession, -⟩ := of_ite_reason_eq_none h (by decide)
      exact ⟨neg_lt_of_passed hemergency hleast, neg_lt_of_passed hdaily hleast,
        neg_lt_of_passed hsession hleast⟩
    · rw [LossLimited, not_or, not_or] at hlimited
      exact ⟨fun hset => absurd hset hlimited.1, fun hset => absurd hset hlimited.2.1,
        fun hset => absurd hset hlimited.2.2⟩

variable [Double D]

/-- What fits is within the limit on its value, where that is exact. -/
theorem exactValue_le_of_fits (hsane : input.bbo.isSane = true)
    (hfits : engine.fits action quantity input spec limits = true)
    (hexact : ¬ValueInexact action input quantity) (hset : 0 < limits.maxPositionNotional.raw) :
    exactValue action input quantity ≤ limits.maxPositionNotional.raw := by
  rw [fits_iff, checkExposure_toBool_iff] at hfits
  obtain ⟨-, -, projected, hprojected, ⟨worst, hworst, -, hcheck⟩, -⟩ := hfits
  exact exactValue_le_of_checkPositionNotional hsane hprojected hworst hexact hcheck hset

/-- The loss limits and the limit on the position's value, in exact integers. -/
def MeetsExactly (engine : RiskEngine D) (action : OrderAction) (input : RiskInput)
    (limits : SymbolLimits) (quantity : Qty) : Prop :=
  WithinLosses engine.limits.global input.portfolio.netPnl.raw ∧
    (0 < limits.maxPositionNotional.raw →
      exactValue action input quantity ≤ limits.maxPositionNotional.raw)

/-- The profit has no opposite where a loss limit is set, or the value is inexact and above
its limit. -/
def Wraps (engine : RiskEngine D) (action : OrderAction) (input : RiskInput)
    (limits : SymbolLimits) (quantity : Qty) : Prop :=
  (LossLimited engine.limits.global ∧ input.portfolio.netPnl.raw = rawMin) ∨
    (0 < limits.maxPositionNotional.raw ∧ ValueInexact action input quantity ∧
      limits.maxPositionNotional.raw < exactValue action input quantity)

theorem meetsExactly_iff (hcleared : engine.Cleared action input spec limits now)
    (hfits : engine.fits action quantity input spec limits = true) :
    engine.MeetsExactly action input limits quantity ↔
      ¬engine.Wraps action input limits quantity := by
  have hscreened := screened_of_screen_eq_none hcleared.screened
  rw [MeetsExactly, Wraps, not_or, withinLosses_iff hscreened.portfolio]
  apply and_congr_right fun _ => ?_
  constructor
  · rintro hvalue ⟨hset, -, hover⟩
    exact (hvalue hset).not_gt hover
  · intro hnone hset
    by_cases hexact : ValueInexact action input quantity
    · exact not_lt.mp fun hover => hnone ⟨hset, hexact, hover⟩
    · exact exactValue_le_of_fits hscreened.sane hfits hexact hset

/-- The small market with a loss limit and a limit on the position's value. -/
def lossEngine : RiskEngine ℚ :=
  (RiskEngine.new
    { global := { emergencyLoss := units 500 }
      symbols := [{ sampleLimits with maxPositionNotional := units 1000 }] }).arm.2

/-- The small market with a profit and the two best prices. -/
def pricedInput (netPnl bid ask : Int) : RiskInput :=
  { sampleInput 0 with
    portfolio := { valid := true, pnlDeterminate := true, netPnl := units netPnl }
    bbo := { bidPx := units bid, bidQty := units 1, askPx := units ask, askQty := units 1 } }

end RiskEngine

end MmEngine.Risk
