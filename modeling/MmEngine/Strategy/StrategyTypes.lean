/-
# The strategy boundary

A strategy is a plug-in. It keeps a state of its own, is handed a context and answers
with an intent, and any of its calls may throw; the runtime is written for every such
strategy, so the model takes the strategy as a parameter and asks nothing of it.
-/

import MmEngine.Common.Instrument
import MmEngine.Strategy.QuoteIntent

namespace MmEngine

namespace Quote.StrategyIdentity

def isValid (identity : StrategyIdentity) : Bool :=
  !identity.name.isEmpty && decide (0 < identity.version)

end Quote.StrategyIdentity

namespace Strategy

open MmEngine.Quote

/-- Whether a strategy instance is willing and able to produce intent. -/
inductive StrategyState
  | created
  | initialized
  | running
  | paused
  | stopped
  | faulted
  deriving DecidableEq

def isLegalTransition (source target : StrategyState) : Bool :=
  if source = target then true
  -- A strategy can fault from anywhere.
  else if target = .faulted then true
  else
    match source with
    | .created => target = .initialized
    | .initialized => target = .running || target = .stopped
    | .running => target = .paused || target = .stopped
    | .paused => target = .running || target = .stopped
    | .stopped => target = .initialized
    | .faulted => target = .initialized

/-- When the runtime asks the strategy for intent. -/
inductive EvaluationMode
  | onBookUpdate
  | onBboChange
  | onTimer
  | onBboChangeAndTimer
  deriving DecidableEq

/-- Why an evaluation is happening. -/
inductive TriggerReason
  | none
  | bookUpdate
  | bboChange
  | trade
  | timer
  | inventoryChange
  | orderStateChange
  deriving DecidableEq

def modeAccepts : EvaluationMode → TriggerReason → Bool
  | .onBookUpdate, reason => reason = .bookUpdate || reason = .bboChange
  | .onBboChange, reason => reason = .bboChange
  | .onTimer, reason => reason = .timer
  | .onBboChangeAndTimer, reason => reason = .bboChange || reason = .timer

/-- State of the market data session. -/
inductive SessionState
  | disconnected
  | connecting
  | connected
  | authenticated
  | subscribed
  | syncing
  | ready
  | stale
  | resyncRequired
  | backoff
  | error
  deriving DecidableEq

def isQuotable (state : SessionState) : Bool := state = .ready

/-- The input to one evaluation. What only the strategy reads (depth, inventory,
working quotes, times) is its `view`. -/
structure StrategyContext (V : Type) where
  bbo : BestBidAsk := {}
  sequence : Seq := kNoSeq
  dataAgeNs : Nanos := 0
  instrument : Option InstrumentSpec := none
  sessionState : SessionState := .disconnected
  trigger : TriggerReason := .none
  /-- False when the operator has quoting switched off. -/
  quotingEnabled : Bool := true
  configGeneration : Nat := 0
  view : V

namespace StrategyContext

variable {V : Type}

def hasTwoSidedMarket (context : StrategyContext V) : Bool := context.bbo.isSane

def isBookQuotable (context : StrategyContext V) : Bool := isQuotable context.sessionState

end StrategyContext

/-- What a strategy is initialized with; its parameters are its own. -/
structure StrategyInit (P : Type) where
  symbol : Symbol := .empty
  instrument : InstrumentSpec := {}
  identity : StrategyIdentity := {}
  params : P

/-- What a call of a strategy may throw. -/
inductive Thrown
  | exception (what : String)
  | nonStandard
  deriving DecidableEq

/-- One of the strategy's quotes traded. -/
structure StrategyFill where
  symbol : Symbol := .empty
  side : Side := .buy
  price : Px := .zero
  quantity : Qty := .zero
  liquidity : Liquidity := .unknown
  resultingPosition : Qty := .zero
  recvNs : Nanos := 0

/-- What happened to one of the strategy's quotes. -/
inductive QuoteLifecycle
  | none
  | placed
  | amended
  | cancelled
  | rejected
  | unknown
  deriving DecidableEq

structure StrategyOrderEvent where
  symbol : Symbol := .empty
  side : Side := .buy
  event : QuoteLifecycle := .none
  price : Px := .zero
  remainingQuantity : Qty := .zero
  recvNs : Nanos := 0

/-- A strategy with its own state `τ`, views `V` and parameters `P`. -/
structure IStrategy (τ V P : Type) where
  identity : τ → Except Thrown StrategyIdentity
  initializeWith : StrategyInit P → τ → Except Thrown Status × τ
  onMarketUpdate : StrategyContext V → τ → Except Thrown QuoteIntent × τ
  onTimer : StrategyContext V → τ → Except Thrown QuoteIntent × τ
  onFill : StrategyFill → τ → Except Thrown Unit × τ
  onOrderEvent : StrategyOrderEvent → τ → Except Thrown Unit × τ
  reset : τ → Except Thrown Unit × τ

/-- Why an intent was refused. -/
inductive IntentRejection
  | none
  | unknownAction
  | nonPositivePrice
  | nonPositiveQuantity
  | negativeQuantity
  | tickMisaligned
  | lotMisaligned
  | notionalTooSmall
  | quantityAboveVenueMax
  | crossedQuote
  | quoteTooFarFromTouch
  | staleSequence
  | identityMissing
  | identityMismatch
  | symbolMismatch
  | instrumentNotLoaded
  deriving DecidableEq

/-- Bounds applied to every intent. -/
structure IntentLimits where
  maxDistanceFromTouchBps : Int := 500
  requireMatchingSequence : Bool := true
  deriving DecidableEq

end Strategy

end MmEngine
