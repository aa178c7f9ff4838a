/-
# Position and exposure, as risk sees them

Risk keeps no position of its own: it is handed the authoritative one, the
exposure of the working orders, and the view of the portfolio. A maker rests on
both sides and nothing says that the two fill together, so a position limit is
measured against the worst case of each side.
-/

import MmEngine.Common.Types

namespace MmEngine.Risk

/-- The authoritative position, as its owner reports it. -/
structure PositionSnapshot where
  valid : Bool := false
  symbol : Symbol := .empty
  quantity : Qty := .zero
  notional : Notional := .zero
  averagePrice : Px := .zero
  asOfNs : Nanos := 0
  sequence : Nat := 0
  deriving DecidableEq

namespace PositionSnapshot

def isLong (position : PositionSnapshot) : Bool := position.quantity.isPositive

def isFlat (position : PositionSnapshot) : Bool := position.quantity.isZero

end PositionSnapshot

/-- The exposure of the working orders on a symbol, per side. -/
structure ExposureSnapshot where
  determinate : Bool := true
  workingBuy : Qty := .zero
  workingSell : Qty := .zero
  workingBuyNotional : Notional := .zero
  workingSellNotional : Notional := .zero
  openOrderCount : Nat := 0
  indeterminateOrderCount : Nat := 0
  deriving DecidableEq

namespace ExposureSnapshot

/-- The working quantity of a side. -/
def working (snapshot : ExposureSnapshot) : Side → Qty
  | .buy => snapshot.workingBuy
  | .sell => snapshot.workingSell

def withWorking (snapshot : ExposureSnapshot) (side : Side) (total : Qty) : ExposureSnapshot :=
  match side with
  | .buy => { snapshot with workingBuy := total }
  | .sell => { snapshot with workingSell := total }

@[simp]
theorem withWorking_determinate (snapshot : ExposureSnapshot) (side : Side) (total : Qty) :
    (snapshot.withWorking side total).determinate = snapshot.determinate := by
  cases side <;> rfl

theorem withWorking_working (snapshot : ExposureSnapshot) (side side' : Side) (total : Qty) :
    (snapshot.withWorking side' total).working side =
      if side' = side then total else snapshot.working side := by
  cases side <;> cases side' <;> rfl

end ExposureSnapshot

/-- The view of the portfolio that accounting supplies. -/
structure PortfolioState where
  valid : Bool := false
  pnlDeterminate : Bool := false
  grossNotional : Notional := .zero
  netNotional : Notional := .zero
  realized : Notional := .zero
  unrealized : Notional := .zero
  fees : Notional := .zero
  netPnl : Notional := .zero
  asOfNs : Nanos := 0
  sequence : Nat := 0
  deriving DecidableEq

/-- The two worst-case positions. -/
structure WorstCaseExposure where
  worstCaseLong : Qty
  worstCaseShort : Qty
  deriving DecidableEq

/-- The larger of the two in absolute terms. -/
def WorstCaseExposure.peakAbsolute (worst : WorstCaseExposure) : Qty :=
  let a := worst.worstCaseLong.saturatingAbs
  let b := worst.worstCaseShort.saturatingAbs
  if b.raw < a.raw then a else b

/-- The worst cases, unless they cannot be established. -/
def computeWorstCase (position : PositionSnapshot) (exposure : ExposureSnapshot) :
    Option WorstCaseExposure :=
  if !position.valid || !exposure.determinate then none
  else do
    let long ← Fixed.checkedAdd position.quantity exposure.workingBuy
    let short ← Fixed.checkedSub position.quantity exposure.workingSell
    some ⟨long, short⟩

/-- The worst cases as if an order were already working on its side. -/
def computeWorstCaseWith (position : PositionSnapshot) (exposure : ExposureSnapshot) (side : Side)
    (quantity : Qty) : Option WorstCaseExposure := do
  let total ← Fixed.checkedAdd (exposure.working side) quantity
  computeWorstCase position (exposure.withWorking side total)

/-- True when a fill on the side would add to the position held. -/
def increasesAbsolutePosition (position : PositionSnapshot) (side : Side) (quantity : Qty) : Bool :=
  if !quantity.isPositive then false
  else if position.isFlat then true
  else decide (side = .buy) = position.isLong

end MmEngine.Risk
