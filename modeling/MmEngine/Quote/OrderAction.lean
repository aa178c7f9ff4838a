/-
# Requested state changes

What the quote manager asks for, and the token the risk engine turns it into.
An action names a slot of a strategy, never a venue identifier it made up
itself; the order manager accepts it only inside a valid approval.
-/

import MmEngine.Common.Types

namespace MmEngine

namespace Quote

/-- The two logical quotes of a strategy on a symbol. -/
inductive QuoteSlot
  | bid
  | ask
  deriving DecidableEq

/-- The side a slot quotes on. -/
def sideOf : QuoteSlot → Side
  | .bid => .buy
  | .ask => .sell

inductive OrderActionType
  | noop
  | new
  | cancel
  | replace
  deriving DecidableEq

/-- Why an action exists. Diagnostic only. -/
inductive ActionReason
  | none
  | noQuoteResting
  | priceChanged
  | quantityChanged
  | partialFillReplenish
  | quoteDisabled
  | intentExpired
  | marketDataStale
  | strategyNotRunning
  | operatorDisabled
  | generationSuperseded
  | replaceUnsupported
  deriving DecidableEq

/-- The strategy build an intent came from. -/
structure StrategyIdentity where
  name : StrategyName := .empty
  version : Int := 0
  configGeneration : Nat := 0
  deriving DecidableEq

/-- One requested state change. -/
structure OrderAction where
  type : OrderActionType := .noop
  slot : QuoteSlot := .bid
  reason : ActionReason := .none
  symbol : Symbol := .empty
  side : Side := .buy
  price : Px := .zero
  quantity : Qty := .zero
  targetClientOrderId : ClientOrderId := .empty
  targetExchangeOrderId : ExchangeOrderId := .empty
  identity : StrategyIdentity := {}
  generation : Nat := 0
  marketSequence : Seq := kNoSeq
  issuedNs : Nanos := 0
  deriving DecidableEq

/-- True when the action would create or move a resting order. -/
def OrderAction.addsExposure (action : OrderAction) : Bool :=
  action.type = .new || action.type = .replace

end Quote

namespace Risk

/-- Proof that an action passed risk. Only the risk engine sets `valid`. -/
structure ApprovedAction where
  action : Quote.OrderAction := {}
  sequence : Nat := 0
  valid : Bool := false
  deriving DecidableEq

end Risk

end MmEngine
