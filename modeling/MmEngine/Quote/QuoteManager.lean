/-
# The quote manager

Translates a strategy's intent into the orders that should exist. Each call reads one
intent and one snapshot of the working orders, decides each slot on its own, and
returns the requested changes; the manager keeps a watermark of the generations it
has seen and a memory of what it last asked of each slot. The clock does not move
during a call.
-/

import Mathlib.Logic.Function.Basic
import MmEngine.Common.Double
import MmEngine.Exchange.OrderRequest
import MmEngine.Quote.WorkingQuoteState
import MmEngine.Strategy.QuoteIntent

namespace MmEngine.Quote

open MmEngine.Exchange
open MmEngine.Strategy

/-- What the manager decided for one slot. -/
inductive SlotOutcome
  | idle
  | keep
  | new
  | cancel
  | replace
  | cancelThenNew
  | awaitingPending
  | frozenUnknown
  | suppressedByChurnControl
  | blockedInvalid
  deriving DecidableEq

/-- Why an intent was refused before any slot was considered. -/
inductive QuoteRejection
  | none
  | generationRegression
  | identityMismatch
  | symbolMismatch
  | intentExpired
  | marketDataStale
  | instrumentNotLoaded
  | notRunning
  deriving DecidableEq

/-- True when the quotes are withdrawn and the intent not merely ignored. -/
def impliesWithdraw (rejection : QuoteRejection) : Bool :=
  rejection = .intentExpired || rejection = .marketDataStale || rejection = .notRunning

structure SlotDecision where
  outcome : SlotOutcome := .idle
  reason : ActionReason := .none
  /-- The venue rule a blocked quote failed. -/
  invalidReason : RejectReason := .none
  deriving DecidableEq

/-- Two slots, at most two actions each. -/
def kMaxActionsPerEvaluation : Nat := 4

/-- The result of one evaluation. -/
structure QuoteManagerResult where
  intentAccepted : Bool := false
  rejection : QuoteRejection := .none
  actions : List OrderAction := []
  bid : SlotDecision := {}
  ask : SlotDecision := {}
  generation : Nat := 0
  deriving DecidableEq

namespace QuoteManagerResult

def decision (result : QuoteManagerResult) : QuoteSlot → SlotDecision
  | .bid => result.bid
  | .ask => result.ask

def hasActions (result : QuoteManagerResult) : Bool := !result.actions.isEmpty

end QuoteManagerResult

/-- Infrastructure controls. They bound how often an order is rewritten. -/
structure QuoteManagerConfig (D : Type) where
  maxIntentAgeNs : Nanos := 250000000
  maxMarketDataAgeNs : Nanos := 500000000
  /-- Smallest price difference, in ticks, that justifies a replacement. -/
  minPriceMoveTicks : Int := 1
  /-- Smallest quantity difference, as a fraction of the desired quantity, that
  justifies a replacement. -/
  minQuantityMoveFraction : D
  minReplaceIntervalNs : Nanos := 0
  cooldownAfterCancelNs : Nanos := 0
  /-- How long the working orders may lag behind a request of the manager. -/
  assumeRequestLostAfterNs : Nanos := 1000000000
  /-- Replace a partially filled order to restore the intended resting size. -/
  replenishPartialFills : Bool := true

structure QuoteManagerMetrics where
  intentsReceived : Nat := 0
  intentsRejected : Nat := 0
  staleIntents : Nat := 0
  duplicateIntents : Nat := 0
  generationRegressions : Nat := 0
  newActions : Nat := 0
  cancelActions : Nat := 0
  replaceActions : Nat := 0
  noopEvaluations : Nat := 0
  keeps : Nat := 0
  ownershipViolations : Nat := 0
  unknownOrderStates : Nat := 0
  churnSuppressions : Nat := 0
  invalidQuotesBlocked : Nat := 0
  pendingWaits : Nat := 0
  foreignOrdersSeen : Nat := 0
  deriving DecidableEq

/-- Everything the manager needs about the world besides the intent. -/
structure QuoteManagerInput where
  symbol : Symbol := .empty
  instrument : Option InstrumentSpec := none
  capabilities : Option ExchangeCapabilities := none
  working : WorkingQuoteState := {}
  marketDataAgeNs : Nanos := 0
  systemReady : Bool := true
  deriving DecidableEq

/-- What the manager last asked of a slot. -/
structure SlotMemory where
  lastAction : OrderActionType := .noop
  lastActionGeneration : Nat := 0
  lastActionNs : Nanos := 0
  lastCancelNs : Nanos := 0
  deriving DecidableEq

/-- What a slot should show. -/
structure DesiredQuote where
  wanted : Bool := false
  price : Px := .zero
  quantity : Qty := .zero
  deriving DecidableEq

structure QuoteManager (D : Type) where
  owner : StrategyName
  config : QuoteManagerConfig D
  /-- The watermark: the newest generation processed. -/
  lastGeneration : Nat := 0
  memory : QuoteSlot → SlotMemory := fun _ => {}
  metrics : QuoteManagerMetrics := {}

/-- Absolute price difference in ticks. -/
def ticksBetween (a b tick : Px) : Int :=
  if !tick.isPositive then if a = b then 0 else 1
  else
    let diff := a - b
    let magnitude := if diff.raw < 0 then (.zero - diff : Px) else diff
    magnitude.raw.tdiv tick.raw

/-- What a venue is assumed to support when nothing is known about it. -/
def kPermissive : ExchangeCapabilities := { supportsClientOrderId := true }

/-- The order a desired quote would become, under a placeholder identity. -/
def probe (slot : QuoteSlot) (desired : DesiredQuote) (input : QuoteManagerInput) (now : Nanos) :
    OrderRequest where
  clientOrderId := (InlineString.assign "quote-manager-probe".toList).1
  symbol := input.symbol
  side := sideOf slot
  type := .limit
  tif := .gtc
  price := desired.price
  quantity := desired.quantity
  postOnly := false
  createdNs := now

namespace SlotMemory

/-- The memory after a request of the given kind. -/
def requested (memory : SlotMemory) (type : OrderActionType) (generation : Nat) (now : Nanos) :
    SlotMemory :=
  { memory with lastAction := type, lastActionGeneration := generation, lastActionNs := now }

end SlotMemory

namespace QuoteManager

variable {D : Type}

/-- Counts something. -/
def tally (manager : QuoteManager D) (count : QuoteManagerMetrics → QuoteManagerMetrics) :
    QuoteManager D :=
  { manager with metrics := count manager.metrics }

def setMemory (manager : QuoteManager D) (slot : QuoteSlot) (memory : SlotMemory) :
    QuoteManager D :=
  { manager with memory := Function.update manager.memory slot memory }

/-- Advances the watermark, never back. -/
def raiseGeneration (manager : QuoteManager D) (generation : Nat) : QuoteManager D :=
  if manager.lastGeneration < generation then { manager with lastGeneration := generation }
  else manager

/-! ## Screening and validation -/

/-- Decides whether an intent is acted on at all. The generation comes first: an
intent delayed behind a newer one changes nothing. -/
def screen (manager : QuoteManager D) (intent : QuoteIntent) (input : QuoteManagerInput)
    (now : Nanos) : QuoteRejection :=
  if intent.generation < manager.lastGeneration then .generationRegression
  else if intent.identity.name ≠ manager.owner then .identityMismatch
  else if !input.systemReady then .notRunning
  else if !input.instrument.any InstrumentSpec.isValid then .instrumentNotLoaded
  else if manager.config.maxMarketDataAgeNs < input.marketDataAgeNs then .marketDataStale
  else if 0 < manager.config.maxIntentAgeNs && 0 < intent.computedNs &&
      manager.config.maxIntentAgeNs < now - intent.computedNs then
    .intentExpired
  else .none

/-- The venue's objection to a desired quote, as a refusal of the probe order. -/
def objection (slot : QuoteSlot) (desired : DesiredQuote) (input : QuoteManagerInput)
    (now : Nanos) : Option Refusal :=
  validateOrder (probe slot desired input now) (input.instrument.getD {})
    (input.capabilities.getD kPermissive)

/-- The venue rule a desired quote fails. -/
def validate (slot : QuoteSlot) (desired : DesiredQuote) (input : QuoteManagerInput)
    (now : Nanos) : RejectReason :=
  if !desired.wanted then .none
  else
    match objection slot desired input now with
    | none => .none
    | some refusal =>
        if refusal.error.reason ≠ .none then refusal.error.reason else .unknown

/-- True when the resting order already represents the desired quote. -/
def represents [Double D] (manager : QuoteManager D) (order : WorkingOrder)
    (desired : DesiredQuote) (spec : InstrumentSpec) : Bool :=
  if !order.isLive || !desired.wanted then false
  else if manager.config.minPriceMoveTicks ≤ ticksBetween order.price desired.price
      spec.tickSize then
    false
  else
    -- Compared with what rests, not with what was submitted.
    let resting := order.remaining
    if !manager.config.replenishPartialFills && order.isPartiallyFilled then true
    else
      let difference :=
        if desired.quantity.raw < resting.raw then resting - desired.quantity
        else desired.quantity - resting
      if difference.isZero then true
      else if Double.le manager.config.minQuantityMoveFraction (Double.ofInt 0) then false
      else Double.lt (ratio D difference desired.quantity) manager.config.minQuantityMoveFraction

def makeAction (type : OrderActionType) (slot : QuoteSlot) (reason : ActionReason)
    (intent : QuoteIntent) (input : QuoteManagerInput) (now : Nanos) : OrderAction where
  type := type
  slot := slot
  reason := reason
  symbol := input.symbol
  side := sideOf slot
  identity := intent.identity
  generation := intent.generation
  marketSequence := intent.marketSequence
  issuedNs := now

/-- Addresses the action to an order. -/
def addressed (action : OrderAction) (order : WorkingOrder) : OrderAction :=
  { action with
    targetClientOrderId := order.clientOrderId
    targetExchangeOrderId := order.exchangeOrderId }

/-- Gives the action the price and the size to quote. -/
def quoting (action : OrderAction) (desired : DesiredQuote) : OrderAction :=
  { action with price := desired.price, quantity := desired.quantity }

def countAction (metrics : QuoteManagerMetrics) : OrderActionType → QuoteManagerMetrics
  | .new => { metrics with newActions := metrics.newActions + 1 }
  | .cancel => { metrics with cancelActions := metrics.cancelActions + 1 }
  | .replace => { metrics with replaceActions := metrics.replaceActions + 1 }
  | .noop => metrics

/-- Adds an action to the result; one beyond the capacity is dropped. -/
def push (manager : QuoteManager D) (result : QuoteManagerResult) (action : OrderAction) :
    QuoteManager D × QuoteManagerResult :=
  if kMaxActionsPerEvaluation ≤ result.actions.length then (manager, result)
  else
    (manager.tally (countAction · action.type),
      { result with actions := result.actions ++ [action] })

/-- What a slot's resolution returns: the decision, and the state and the result with
its effects. -/
abbrev SlotResult (D : Type) := SlotDecision × QuoteManager D × QuoteManagerResult

/-- Withdraws the slot's order because no quote is wanted. -/
def cancelSlot (manager : QuoteManager D) (slot : QuoteSlot) (intent : QuoteIntent)
    (input : QuoteManagerInput) (result : QuoteManagerResult) (now : Nanos) : SlotResult D :=
  let action :=
    addressed (makeAction .cancel slot .quoteDisabled intent input now) (input.working.slot slot)
  let pushed := manager.push result action
  let memory := (manager.memory slot).requested .cancel intent.generation now
  ({ outcome := .cancel, reason := .quoteDisabled },
    pushed.1.setMemory slot { memory with lastCancelNs := now }, pushed.2)

/-- Puts a quote into a slot where nothing rests. -/
def createSlot (manager : QuoteManager D) (slot : QuoteSlot) (desired : DesiredQuote)
    (intent : QuoteIntent) (input : QuoteManagerInput) (result : QuoteManagerResult)
    (now : Nanos) : SlotResult D :=
  let memory := manager.memory slot
  if 0 < manager.config.cooldownAfterCancelNs && 0 < memory.lastCancelNs &&
      now - memory.lastCancelNs < manager.config.cooldownAfterCancelNs then
    ({ outcome := .suppressedByChurnControl },
      manager.tally fun m => { m with churnSuppressions := m.churnSuppressions + 1 }, result)
  else
    let action := quoting (makeAction .new slot .noQuoteResting intent input now) desired
    let pushed := manager.push result action
    ({ outcome := .new, reason := .noQuoteResting },
      pushed.1.setMemory slot (memory.requested .new intent.generation now), pushed.2)

/-- Why the resting order is rewritten. -/
def rewriteReason (manager : QuoteManager D) (order : WorkingOrder) (desired : DesiredQuote)
    (spec : InstrumentSpec) : ActionReason :=
  if ticksBetween order.price desired.price spec.tickSize < manager.config.minPriceMoveTicks then
    if order.isPartiallyFilled then .partialFillReplenish else .quantityChanged
  else .priceChanged

/-- Rewrites a resting order that differs from the desired quote: with one request
where the venue replaces atomically, and with a cancel and a new order elsewhere. -/
def rewriteSlot (manager : QuoteManager D) (slot : QuoteSlot) (desired : DesiredQuote)
    (intent : QuoteIntent) (input : QuoteManagerInput) (result : QuoteManagerResult)
    (now : Nanos) : SlotResult D :=
  let order := input.working.slot slot
  let memory := manager.memory slot
  let reason := manager.rewriteReason order desired (input.instrument.getD {})
  if 0 < manager.config.minReplaceIntervalNs && 0 < memory.lastActionNs &&
      now - memory.lastActionNs < manager.config.minReplaceIntervalNs then
    ({ outcome := .suppressedByChurnControl, reason := reason },
      manager.tally fun m => { m with churnSuppressions := m.churnSuppressions + 1 }, result)
  else if input.capabilities.any ExchangeCapabilities.supportsReplace then
    let action := addressed (quoting (makeAction .replace slot reason intent input now) desired)
        order
    let pushed := manager.push result action
    ({ outcome := .replace, reason := reason },
      pushed.1.setMemory slot (memory.requested .replace intent.generation now), pushed.2)
  else
    let cancel := addressed (makeAction .cancel slot .replaceUnsupported intent input now) order
    let canceled := manager.push result cancel
    let create := quoting (makeAction .new slot .replaceUnsupported intent input now) desired
    let created := canceled.1.push canceled.2 create
    let memory := memory.requested .new intent.generation now
    ({ outcome := .cancelThenNew, reason := reason },
      created.1.setMemory slot { memory with lastCancelNs := now }, created.2)

/-- Resolves a slot that should show a quote and has no request outstanding. -/
def quoteSlot [Double D] (manager : QuoteManager D) (slot : QuoteSlot) (desired : DesiredQuote)
    (intent : QuoteIntent) (input : QuoteManagerInput) (result : QuoteManagerResult)
    (now : Nanos) : SlotResult D :=
  let order := input.working.slot slot
  let invalid := validate slot desired input now
  if invalid ≠ .none then
    ({ outcome := .blockedInvalid, invalidReason := invalid },
      manager.tally fun m => { m with invalidQuotesBlocked := m.invalidQuotesBlocked + 1 }, result)
  else if !order.isLive then manager.createSlot slot desired intent input result now
  else if manager.represents order desired (input.instrument.getD {}) then
    ({ outcome := .keep }, manager.tally fun m => { m with keeps := m.keeps + 1 }, result)
  else manager.rewriteSlot slot desired intent input result now

/-- True when the manager asked for an order that the working state does not show
yet, and has not waited long enough to call the request lost. -/
def awaitsOwnRequest (manager : QuoteManager D) (slot : QuoteSlot) (order : WorkingOrder)
    (now : Nanos) : Bool :=
  let memory := manager.memory slot
  (memory.lastAction = .new || memory.lastAction = .replace) && !order.isLive &&
    decide (0 < manager.config.assumeRequestLostAfterNs) &&
    decide (now - memory.lastActionNs < manager.config.assumeRequestLostAfterNs)

/-- Decides one slot. -/
def resolveSlot [Double D] (manager : QuoteManager D) (slot : QuoteSlot) (desired : DesiredQuote)
    (intent : QuoteIntent) (input : QuoteManagerInput) (result : QuoteManagerResult)
    (now : Nanos) : SlotResult D :=
  let order := input.working.slot slot
  -- An order in the slot that is not the manager's freezes it.
  if order.present && !order.owner.matchesSlot manager.owner slot then
    ({ outcome := .frozenUnknown },
      manager.tally fun m => { m with ownershipViolations := m.ownershipViolations + 1 }, result)
  -- An order that may or may not exist: the one thing allowed is to cancel it, once.
  else if order.isUncertain then
    let counted := manager.tally fun m => { m with unknownOrderStates := m.unknownOrderStates + 1 }
    if !desired.wanted && !order.hasPendingRequest then
      counted.cancelSlot slot intent input result now
    else ({ outcome := .frozenUnknown }, counted, result)
  else if order.hasPendingRequest || manager.awaitsOwnRequest slot order now then
    ({ outcome := .awaitingPending },
      manager.tally fun m => { m with pendingWaits := m.pendingWaits + 1 }, result)
  else if !desired.wanted then
    if !order.isLive then ({ outcome := .idle }, manager, result)
    else manager.cancelSlot slot intent input result now
  else manager.quoteSlot slot desired intent input result now

/-- What an intent wants a slot to show. Leaving the quotes alone means wanting what
rests. -/
def desiredQuote (intent : QuoteIntent) (working : WorkingQuoteState) (slot : QuoteSlot) :
    DesiredQuote :=
  match intent.action, slot with
  | .quote, .bid => ⟨intent.quoteBid, intent.bidPrice, intent.bidQuantity⟩
  | .quote, .ask => ⟨intent.quoteAsk, intent.askPrice, intent.askQuantity⟩
  | .noChange, slot =>
      let resting := working.slot slot
      ⟨resting.isLive, resting.price, resting.remaining⟩
  | .pull, _ => {}

/-- The manager's own voice when it withdraws without an intent. -/
def syntheticIntent (manager : QuoteManager D) : QuoteIntent where
  identity := { name := manager.owner, version := 1 }
  generation := manager.lastGeneration

/-- Withdraws one slot, whatever was last intended for it. -/
def disableSlot (manager : QuoteManager D) (slot : QuoteSlot) (input : QuoteManagerInput)
    (reason : ActionReason) (result : QuoteManagerResult) (now : Nanos) : SlotResult D :=
  let order := input.working.slot slot
  if order.present && !order.owner.matchesSlot manager.owner slot then
    ({ outcome := .frozenUnknown },
      manager.tally fun m => { m with ownershipViolations := m.ownershipViolations + 1 }, result)
  else if !order.present || !order.isLive then ({ outcome := .idle }, manager, result)
  else if order.pending = .cancel then
    ({ outcome := .awaitingPending },
      manager.tally fun m => { m with pendingWaits := m.pendingWaits + 1 }, result)
  else
    let action := addressed (makeAction .cancel slot reason manager.syntheticIntent input now) order
    let pushed := manager.push result action
    -- The memory keeps the generation of the last intent that acted.
    let memory :=
      { manager.memory slot with lastAction := .cancel, lastActionNs := now, lastCancelNs := now }
    ({ outcome := .cancel, reason := reason }, pushed.1.setMemory slot memory, pushed.2)

/-- Withdraws every quote the manager owns. -/
def disableAllQuotes (manager : QuoteManager D) (input : QuoteManagerInput)
    (reason : ActionReason) (now : Nanos) : QuoteManagerResult × QuoteManager D :=
  let start : QuoteManagerResult := { intentAccepted := true, generation := manager.lastGeneration }
  let bid := manager.disableSlot .bid input reason start now
  let ask := bid.2.1.disableSlot .ask input reason bid.2.2 now
  ({ ask.2.2 with bid := bid.1, ask := ask.1 }, ask.2.1)

/-- Why quotes are withdrawn when an intent is refused. -/
def withdrawReason : QuoteRejection → ActionReason
  | .intentExpired => .intentExpired
  | .marketDataStale => .marketDataStale
  | _ => .strategyNotRunning

def countRejection (metrics : QuoteManagerMetrics) (rejection : QuoteRejection) :
    QuoteManagerMetrics :=
  let regressed := if rejection = .generationRegression then 1 else 0
  let stale := if rejection = .intentExpired ∨ rejection = .marketDataStale then 1 else 0
  { metrics with
    intentsRejected := metrics.intentsRejected + 1
    generationRegressions := metrics.generationRegressions + regressed
    staleIntents := metrics.staleIntents + stale }

/-- Counts the arrival of an intent. A repeated one is counted and evaluated again. -/
def receive (manager : QuoteManager D) (intent : QuoteIntent) (input : QuoteManagerInput) :
    QuoteManager D :=
  let duplicate :=
    if intent.generation = manager.lastGeneration ∧ manager.lastGeneration ≠ 0 then 1 else 0
  manager.tally fun m =>
    { m with
      intentsReceived := m.intentsReceived + 1
      foreignOrdersSeen := m.foreignOrdersSeen + input.working.foreignOrderCount
      duplicateIntents := m.duplicateIntents + duplicate }

/-- Answers an intent the screen refused: a superseded or misaddressed one changes
nothing, an outdated one withdraws the quotes. -/
def refuse (manager : QuoteManager D) (rejection : QuoteRejection) (intent : QuoteIntent)
    (input : QuoteManagerInput) (now : Nanos) : QuoteManagerResult × QuoteManager D :=
  let counted := manager.tally (countRejection · rejection)
  if impliesWithdraw rejection then
    let withdrawn := counted.disableAllQuotes input (withdrawReason rejection) now
    ({ withdrawn.1 with rejection := rejection, generation := intent.generation },
      withdrawn.2.raiseGeneration intent.generation)
  else ({ rejection := rejection, generation := intent.generation }, counted)

/-- Turns an accepted intent into actions, the bid's first. -/
def accept [Double D] (manager : QuoteManager D) (intent : QuoteIntent)
    (input : QuoteManagerInput) (now : Nanos) : QuoteManagerResult × QuoteManager D :=
  let start : QuoteManagerResult := { intentAccepted := true, generation := intent.generation }
  let bid :=
    manager.resolveSlot .bid (desiredQuote intent input.working .bid) intent input start now
  let ask :=
    bid.2.1.resolveSlot .ask (desiredQuote intent input.working .ask) intent input bid.2.2 now
  let result := { ask.2.2 with bid := bid.1, ask := ask.1 }
  let raised := ask.2.1.raiseGeneration intent.generation
  (result,
    if result.hasActions then raised
    else raised.tally fun m => { m with noopEvaluations := m.noopEvaluations + 1 })

/-- The single entry point for intents. -/
def evaluate [Double D] (manager : QuoteManager D) (intent : QuoteIntent)
    (input : QuoteManagerInput) (now : Nanos) : QuoteManagerResult × QuoteManager D :=
  let received := manager.receive intent input
  let rejection := received.screen intent input now
  if rejection ≠ .none then received.refuse rejection intent input now
  else received.accept intent input now

end QuoteManager

end MmEngine.Quote
