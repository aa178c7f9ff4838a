/-
# Working quotes

What the quote manager is told currently rests at the venue: at most one order
in each of its two slots, and how many orders on the symbol belong to somebody
else. The order manager supplies this view; the quote manager keeps no order
state of its own.
-/

import MmEngine.Exchange.ExecutionEvents
import MmEngine.Quote.OrderAction

namespace MmEngine.Quote

open MmEngine.Exchange

/-- Which logical quote an order represents, and whose it is. An order without a
strategy is foreign. -/
structure QuoteOwner where
  strategy : StrategyName := .empty
  slot : QuoteSlot := .bid
  deriving DecidableEq

namespace QuoteOwner

def isManaged (owner : QuoteOwner) : Bool := !owner.strategy.isEmpty

/-- True when the order represents this slot of this strategy. -/
def matchesSlot (owner : QuoteOwner) (strategy : StrategyName) (which : QuoteSlot) : Bool :=
  owner.isManaged && decide (owner.strategy = strategy) && decide (owner.slot = which)

end QuoteOwner

/-- A request that has been issued and not been resolved. -/
inductive PendingOperation
  | none
  | new
  | cancel
  | replace
  deriving DecidableEq

/-- One order as the quote manager sees it. -/
structure WorkingOrder where
  present : Bool := false
  owner : QuoteOwner := {}
  side : Side := .buy
  price : Px := .zero
  originalQuantity : Qty := .zero
  cumulativeQuantity : Qty := .zero
  status : OrderStatus := .unknown
  pending : PendingOperation := .none
  clientOrderId : ClientOrderId := .empty
  exchangeOrderId : ExchangeOrderId := .empty
  generation : Nat := 0
  lastActionNs : Nanos := 0
  deriving DecidableEq

namespace WorkingOrder

/-- What still rests. The difference is the machine's. -/
def remaining (order : WorkingOrder) : Qty :=
  let left := order.originalQuantity - order.cumulativeQuantity
  if left.isPositive then left else .zero

def isPartiallyFilled (order : WorkingOrder) : Bool :=
  order.cumulativeQuantity.isPositive && order.remaining.isPositive

/-- True when the venue can still say something further about the order. -/
def isLive (order : WorkingOrder) : Bool := order.present && !order.status.isTerminal

/-- True when it is not known whether the order exists. -/
def isUncertain (order : WorkingOrder) : Bool :=
  order.present && decide (order.status = .unknown)

def hasPendingRequest (order : WorkingOrder) : Bool := decide (order.pending ≠ .none)

end WorkingOrder

/-- Everything resting for one symbol, as one quote manager sees it. -/
structure WorkingQuoteState where
  bid : WorkingOrder := {}
  ask : WorkingOrder := {}
  foreignOrderCount : Nat := 0
  deriving DecidableEq

namespace WorkingQuoteState

def slot (state : WorkingQuoteState) : QuoteSlot → WorkingOrder
  | .bid => state.bid
  | .ask => state.ask

def withSlot (state : WorkingQuoteState) (which : QuoteSlot) (order : WorkingOrder) :
    WorkingQuoteState :=
  match which with
  | .bid => { state with bid := order }
  | .ask => { state with ask := order }

end WorkingQuoteState

end MmEngine.Quote
