/-
# Reduce-only

In the warning state an order passes when its direction is against the position. Its
size is not looked at: an order of more than twice the position crosses zero and
leaves a larger position on the other side. So the state is reduce-only exactly as
long as no size above twice the position is granted.
-/

import MmEngine.Risk.Permission

namespace MmEngine.Risk

open MmEngine.Quote

/-- The position once an order has filled completely. -/
def positionAfter (position : Int) (side : Side) (quantity : Int) : Int :=
  match side with
  | .buy => position + quantity
  | .sell => position - quantity

/-- An order does not add to the position when it is against it. -/
theorem increasesAbsolutePosition_eq_false_iff {position : PositionSnapshot} {side : Side}
    {quantity : Qty} (hpositive : 0 < quantity.raw) :
    increasesAbsolutePosition position side quantity = false ↔
      (side = .buy ∧ position.quantity.raw < 0) ∨ (side = .sell ∧ 0 < position.quantity.raw) := by
  rw [increasesAbsolutePosition, if_neg (by simp [hpositive])]
  by_cases hflat : position.isFlat = true
  · rw [if_pos hflat]
    rw [PositionSnapshot.isFlat, Fixed.isZero_iff] at hflat
    simp [hflat]
  · rw [if_neg hflat]
    rw [PositionSnapshot.isFlat, Fixed.isZero_iff] at hflat
    cases side with
    | buy =>
        simp only [PositionSnapshot.isLong, Fixed.isPositive, decide_eq_decide, true_iff, true_and,
          decide_eq_false_iff_not, reduceCtorEq, false_and, or_false]
        omega
    | sell =>
        simp only [PositionSnapshot.isLong, Fixed.isPositive, decide_eq_decide, true_and,
          decide_eq_false_iff_not, reduceCtorEq, false_and, false_or, false_iff, not_not]

/-- An order against the position leaves no more of it exactly up to twice its size. -/
theorem abs_positionAfter_le_iff {position : PositionSnapshot} {side : Side} {quantity : Qty}
    (hpositive : 0 < quantity.raw)
    (hagainst : increasesAbsolutePosition position side quantity = false) :
    |positionAfter position.quantity.raw side quantity.raw| ≤ |position.quantity.raw| ↔
      quantity.raw ≤ 2 * |position.quantity.raw| := by
  rw [increasesAbsolutePosition_eq_false_iff hpositive] at hagainst
  rcases hagainst with ⟨rfl, hshort⟩ | ⟨rfl, hlong⟩
  · rw [positionAfter, abs_of_neg hshort, abs_le]
    omega
  · rw [positionAfter, abs_of_pos hlong, abs_le]
    omega

namespace RiskEngine

variable {D : Type} [Double D] {engine : RiskEngine D} {action : OrderAction} {input : RiskInput}
  {spec : InstrumentSpec} {limits : SymbolLimits} {now : Nanos}

/-- What fits a reduce-only engine is against the position. -/
theorem against_of_fits (hwarning : engine.state = .warning) {quantity : Qty}
    (h : engine.fits action quantity input spec limits = true) :
    0 < quantity.raw ∧ increasesAbsolutePosition input.position action.side quantity = false := by
  rw [fits_iff, checkOrderBounds_toBool_iff, checkExposure_toBool_iff] at h
  obtain ⟨⟨hpositive, -⟩, -, -, -, -, -, hreduce⟩ := h
  refine ⟨hpositive, ?_⟩
  simpa [hwarning, isReduceOnly] using hreduce

/-- A size that an evaluation may let through: the one asked for, or in place of one that
can be reduced any smaller size on the lot grid. -/
def Offered (engine : RiskEngine D) (action : OrderAction) (input : RiskInput)
    (spec : InstrumentSpec) (limits : SymbolLimits) (quantity : Qty) : Prop :=
  engine.fits action action.quantity input spec limits = true ∧ quantity = action.quantity ∨
    engine.Reducible action input spec limits ∧
      engine.Admissible action input spec limits quantity

theorem Granted.offered {quantity : Qty} (h : engine.Granted action input spec limits quantity) :
    engine.Offered action input spec limits quantity :=
  h.imp id fun h => ⟨h.1, h.2.1⟩

/-- The size granted is the largest on offer. -/
theorem Offered.exists_granted (hlotSize : 0 < spec.lotSize.raw) {quantity : Qty}
    (h : engine.Offered action input spec limits quantity) :
    ∃ granted, engine.Granted action input spec limits granted ∧ quantity.raw ≤ granted.raw := by
  rcases h with ⟨hfits, rfl⟩ | ⟨hreducible, hadmissible⟩
  · exact ⟨action.quantity, .inl ⟨hfits, rfl⟩, le_rfl⟩
  · have hle := Int.le_of_dvd hadmissible.positive hadmissible.onGrid
    obtain ⟨hlargest, hgreatest⟩ := largestPermittedQuantity_of_fits_lot hlotSize hreducible.lot
      (hle.trans hadmissible.requested)
    exact ⟨_, .inr ⟨hreducible, hlargest, hgreatest⟩, hgreatest quantity hadmissible⟩

/-- The small market, long one unit, in the warning state. -/
def warnedEngine : RiskEngine ℚ := sampleEngine.warn .none

def longInput : RiskInput :=
  { sampleInput 0 with
    position := { valid := true, symbol := sampleSymbol, quantity := units 1 } }

def sampleOffer (quantity : Int) : OrderAction :=
  { sampleAction .new with side := .sell, quantity := units quantity }

end RiskEngine

end MmEngine.Risk
