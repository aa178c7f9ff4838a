/-
# Quote intents

What a strategy may say: quote these prices and sizes, stand down, or leave
everything as it is. The runtime stamps who said it, in which order and from which
book; a strategy cannot set these itself.
-/

import MmEngine.Quote.OrderAction

namespace MmEngine.Strategy

open MmEngine.Quote

/-- What the strategy wants to happen to its quotes. -/
inductive QuoteAction
  | quote
  | pull
  | noChange
  deriving DecidableEq

/-- Why the strategy decided what it decided. Diagnostic only. -/
inductive IntentReason
  | none
  | normal
  | inventoryLimit
  | spreadTooTight
  | spreadTooWide
  | insufficientDepth
  | warmup
  | strategyDisabled
  | custom
  deriving DecidableEq

/-- The strategy's output. -/
structure QuoteIntent where
  action : QuoteAction := .pull
  quoteBid : Bool := false
  quoteAsk : Bool := false
  bidPrice : Px := .zero
  askPrice : Px := .zero
  bidQuantity : Qty := .zero
  askQuantity : Qty := .zero
  reason : IntentReason := .none
  identity : StrategyIdentity := {}
  /-- Orders the intents of one runtime. -/
  generation : Nat := 0
  /-- The book sequence the intent was computed from. -/
  marketSequence : Seq := kNoSeq
  computedNs : Nanos := 0
  deriving DecidableEq

namespace QuoteIntent

/-- Stand down. Everything else keeps its default, the generation included. -/
def pull (reason : IntentReason) : QuoteIntent := { action := .pull, reason := reason }

/-- True when the intent asks for at least one live quote. -/
def wantsQuotes (intent : QuoteIntent) : Bool :=
  decide (intent.action = .quote) && (intent.quoteBid || intent.quoteAsk)

end QuoteIntent

end MmEngine.Strategy
