/-
# One symbol's account

Position, weighted-average cost basis, realized PnL and fees of one symbol, fed
by confirmed fills and by marks. A fill is computed in full before anything is
written: a step that would leave the 64-bit range refuses the fill and leaves
the account as it was.

The products and sums the engine forms in 128 bits are exact integers here; the
operators it applies to 64-bit values are the wrapping ones.
-/

import MmEngine.Exchange.ExecutionEvents
import MmEngine.Lib.KeyRing

namespace MmEngine.Portfolio

open MmEngine.Exchange

/-- Why an accounting operation was refused. -/
inductive AccountingError
  | none
  | invalidQuantity
  | invalidPrice
  | duplicateFill
  | missingTradeId
  | arithmeticOverflow
  | unknownSymbol
  | capacityExhausted
  | invalidMark
  | staleMark
  | sequenceRegression
  | corruptSnapshot
  | faulted
  deriving DecidableEq

/-- Whether an error means that a fill was not incorporated. -/
def corruptsLedger (e : AccountingError) : Bool := e ≠ .none && e ≠ .duplicateFill

/-- What one fill did to an account. -/
structure FillOutcome where
  error : AccountingError := .none
  appliedQuantity : Qty := .zero
  realizedDelta : Notional := .zero
  fee : Notional := .zero
  flipped : Bool := false
  closed : Bool := false
  deriving DecidableEq

structure PnlBreakdown where
  realized : Notional := .zero
  unrealized : Notional := .zero
  fees : Notional := .zero
  funding : Notional := .zero
  unrealizedValid : Bool := true
  deriving DecidableEq

/-- What is left after costs, when it can be represented. -/
def PnlBreakdown.checkedNet (pnl : PnlBreakdown) : Option Notional := do
  let gross ← Fixed.checkedAdd pnl.realized pnl.unrealized
  let total ← Fixed.checkedAdd gross pnl.funding
  Fixed.checkedSub total pnl.fees

/-- The two prices a position can be got out at. -/
structure MarkPrice where
  symbol : Symbol := .empty
  bid : Px := .zero
  ask : Px := .zero
  asOfNs : Nanos := 0
  sequence : Nat := 0
  deriving DecidableEq

namespace MarkPrice

def usable (mark : MarkPrice) : Bool :=
  mark.bid.isPositive && mark.ask.isPositive && decide (mark.bid.raw ≤ mark.ask.raw)

/-- Longs mark at the bid and shorts at the ask. -/
def forPosition (mark : MarkPrice) (position : Qty) : Px :=
  if position.isNegative then mark.ask else mark.bid

end MarkPrice

/-- The trade identifiers already applied to an account. -/
abbrev SeenTrades := KeyRing TradeId 64

instance instNeZeroSeenTrades : NeZero 64 := ⟨by decide⟩

structure PositionAccount where
  symbol : Symbol := .empty
  position : Qty := .zero
  averagePrice : Px := .zero
  realized : Notional := .zero
  unrealized : Notional := .zero
  fees : Notional := .zero
  lastMark : Px := .zero
  fillCount : Nat := 0
  unrealizedValid : Bool := true
  faulted : Bool := false
  seen : SeenTrades := .empty
  deriving DecidableEq

/-- Average of two prices weighted by absolute quantity. -/
def weightedAverage (a : Px) (qa : Qty) (b : Px) (qb : Qty) : Option Px := do
  let wa := qa.saturatingAbs
  let wb := qb.saturatingAbs
  let total ← Fixed.checkedAdd wa wb
  if !total.isPositive then none
  else Fixed.fromRaw? ((a.raw * wa.raw + b.raw * wb.raw).tdiv total.raw)

/-- Gross result of closing a quantity, signed by the direction being closed. -/
def realizedOf (entry exitPrice : Px) (closed : Qty) (longPosition : Bool) : Option Notional := do
  let move ← Fixed.checkedSub exitPrice entry
  let move := if longPosition then move else Fixed.zero - move
  checkedNotionalOf move closed.saturatingAbs

/-- The quantity of a fill, positive for a buy. -/
def signedFill (side : Side) (quantity : Qty) : Qty :=
  match side with
  | .buy => quantity
  | .sell => Fixed.zero - quantity

/-- What a fill does to the basis of a position. -/
structure BasisChange where
  newAverage : Px
  realizedDelta : Notional
  flipped : Bool
  deriving DecidableEq

namespace PositionAccount

def isFlat (account : PositionAccount) : Bool := account.position.isZero

/-- The fill opens a position, increases it, or trades against it; trading against
it reduces it, closes it or flips it. -/
def basisChange (account : PositionAccount) (price : Px) (fill newPosition : Qty) :
    Option BasisChange :=
  if account.position.isZero then some ⟨price, .zero, false⟩
  else if account.position.isNegative = fill.isNegative then
    (weightedAverage account.averagePrice account.position price fill).map fun average =>
      ⟨average, .zero, false⟩
  else
    let held := account.position.saturatingAbs
    let incoming := fill.saturatingAbs
    let closed := if incoming.raw < held.raw then incoming else held
    (realizedOf account.averagePrice price closed account.position.isPositive).map fun delta =>
      if held.raw < incoming.raw then ⟨price, delta, true⟩
      else if newPosition.isZero then ⟨.zero, delta, false⟩
      else ⟨account.averagePrice, delta, false⟩

/-- A fill whose input has been accepted: the outcome and the account after it, or
nothing when a step would leave the representable range. -/
def commitFill (account : PositionAccount) (tradeId : TradeId) (side : Side) (price : Px)
    (quantity : Qty) (fee : Notional) : Option (FillOutcome × PositionAccount) := do
  let fill := signedFill side quantity
  let newPosition ← Fixed.checkedAdd account.position fill
  let change ← account.basisChange price fill newPosition
  -- The position must be valuable: its cost basis has to be representable.
  let _ ← checkedNotionalOf change.newAverage newPosition
  let newRealized ← Fixed.checkedAdd account.realized change.realizedDelta
  let newFees ← Fixed.checkedAdd account.fees fee
  some
    ({ appliedQuantity := fill
       realizedDelta := change.realizedDelta
       fee := fee
       flipped := change.flipped
       closed := newPosition.isZero },
     { account with
       position := newPosition
       averagePrice := change.newAverage
       realized := newRealized
       fees := newFees
       fillCount := account.fillCount + 1
       seen := account.seen.insert tradeId
       unrealized := .zero
       unrealizedValid := newPosition.isZero })

/-- What a booked fill has computed, and the account it leaves. -/
theorem commitFill_eq_some {account : PositionAccount} {tradeId : TradeId} {side : Side}
    {price : Px} {quantity : Qty} {fee : Notional} {result : FillOutcome × PositionAccount}
    (h : account.commitFill tradeId side price quantity fee = some result) :
    ∃ (newPosition : Qty) (change : BasisChange) (cost newRealized newFees : Notional),
      newPosition.raw = account.position.raw + (signedFill side quantity).raw ∧
        account.basisChange price (signedFill side quantity) newPosition = some change ∧
        checkedNotionalOf change.newAverage newPosition = some cost ∧
        newRealized.raw = account.realized.raw + change.realizedDelta.raw ∧
        newFees.raw = account.fees.raw + fee.raw ∧
        result =
          ({ appliedQuantity := signedFill side quantity
             realizedDelta := change.realizedDelta
             fee := fee
             flipped := change.flipped
             closed := newPosition.isZero },
           { account with
             position := newPosition
             averagePrice := change.newAverage
             realized := newRealized
             fees := newFees
             fillCount := account.fillCount + 1
             seen := account.seen.insert tradeId
             unrealized := .zero
             unrealizedValid := newPosition.isZero }) := by
  simp only [commitFill, Option.bind_eq_bind, Option.bind_eq_some_iff,
    Fixed.checkedAdd_eq_some_iff] at h
  obtain ⟨newPosition, hposition, change, hchange, cost, hcost, newRealized, hrealized, newFees,
    hfees, hresult⟩ := h
  exact ⟨newPosition, change, cost, newRealized, newFees, hposition, hchange, hcost, hrealized,
    hfees, (Option.some.inj hresult).symm⟩

/-- What is wrong with a fill before anything is computed from it. -/
def screenFill (account : PositionAccount) (tradeId : TradeId) (price : Px) (quantity : Qty)
    (fee : Notional) : AccountingError :=
  if account.faulted then .faulted
  else if tradeId.isEmpty then .missingTradeId
  else if !quantity.isPositive then .invalidQuantity
  else if !price.isPositive then .invalidPrice
  -- A negative fee is a rebate, which the engine does not book.
  else if fee.isNegative then .invalidQuantity
  else if account.seen.contains tradeId then .duplicateFill
  else .none

/-- Applies a confirmed fill, or refuses it and leaves the account untouched. -/
def applyFill (account : PositionAccount) (tradeId : TradeId) (side : Side) (price : Px)
    (quantity : Qty) (fee : Notional) : FillOutcome × PositionAccount :=
  match account.screenFill tradeId price quantity fee with
  | .none =>
      match account.commitFill tradeId side price quantity fee with
      | none => ({ error := .arithmeticOverflow }, account)
      | some result => result
  | error => ({ error := error }, account)

/-- The account without a usable valuation: only a flat position is worth a known
amount then. -/
def unvalued (account : PositionAccount) : PositionAccount :=
  { account with unrealizedValid := account.position.isZero, unrealized := .zero }

/-- Values the open position at a mark. -/
def applyMark (account : PositionAccount) (mark : MarkPrice) (nowNs maxAgeNs : Nanos) :
    AccountingError × PositionAccount :=
  if !mark.usable then (.invalidMark, account.unvalued)
  else if 0 < maxAgeNs && mark.asOfNs ≠ 0 && decide (maxAgeNs < nowNs - mark.asOfNs) then
    (.staleMark, account.unvalued)
  else
    let markPrice := mark.forPosition account.position
    let account := { account with lastMark := markPrice }
    if account.position.isZero then
      (.none, { account with unrealized := .zero, unrealizedValid := true })
    else
      match realizedOf account.averagePrice markPrice account.position
          account.position.isPositive with
      | none =>
          (.arithmeticOverflow, { account with unrealizedValid := false, unrealized := .zero })
      | some value => (.none, { account with unrealized := value, unrealizedValid := true })

/-- Signed notional of the open position at its own average price. -/
def checkedCostBasis (account : PositionAccount) : Option Notional :=
  checkedNotionalOf account.averagePrice account.position

/-- The price the open position is valued at: the last mark, or cost without one. -/
def valuationPrice (account : PositionAccount) : Px :=
  if account.lastMark.isPositive then account.lastMark else account.averagePrice

/-- Absolute value of the open position. -/
def checkedGrossExposure (account : PositionAccount) : Option Notional :=
  if account.position.isZero then some .zero
  else if !account.valuationPrice.isPositive then none
  else checkedNotionalOf account.valuationPrice account.position.saturatingAbs

def pnl (account : PositionAccount) : PnlBreakdown :=
  { realized := account.realized
    unrealized := account.unrealized
    fees := account.fees
    unrealizedValid := account.unrealizedValid }

def fault (account : PositionAccount) : PositionAccount := { account with faulted := true }

def clearFault (account : PositionAccount) : PositionAccount := { account with faulted := false }

/-- Everything needed to rebuild an account. -/
structure State where
  symbol : Symbol
  position : Qty
  averagePrice : Px
  realized : Notional
  fees : Notional
  fillCount : Nat
  seen : SeenTrades
  faulted : Bool
  deriving DecidableEq

def save (account : PositionAccount) : State :=
  { symbol := account.symbol
    position := account.position
    averagePrice := account.averagePrice
    realized := account.realized
    fees := account.fees
    fillCount := account.fillCount
    seen := account.seen
    faulted := account.faulted }

/-- Adopts a saved state, or refuses one that contradicts itself. The valuation is
never restored. -/
def restore (account : PositionAccount) (state : State) : AccountingError × PositionAccount :=
  if state.fees.isNegative then (.corruptSnapshot, account)
  else if !state.position.isZero && !state.averagePrice.isPositive then (.corruptSnapshot, account)
  else if state.position.isZero && state.averagePrice.isPositive then (.corruptSnapshot, account)
  else
    (.none,
      { symbol := state.symbol
        position := state.position
        averagePrice := state.averagePrice
        realized := state.realized
        unrealized := .zero
        fees := state.fees
        lastMark := .zero
        fillCount := state.fillCount
        unrealizedValid := state.position.isZero
        faulted := state.faulted
        seen := state.seen })

end PositionAccount

end MmEngine.Portfolio
