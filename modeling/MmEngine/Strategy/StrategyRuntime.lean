/-
# The strategy runtime

The container a strategy runs inside. It decides whether the strategy may be called,
times the call, catches what it throws, stamps the intent with who said it and in
which order, and refuses what does not survive the check. Everything it hands on is
an intent: where there is nothing to quote, one that stands down.
-/

import MmEngine.Common.Double
import MmEngine.Strategy.StrategyTypes

namespace MmEngine.Strategy

open MmEngine.Quote

/-- Why an evaluation did not happen. -/
inductive SkipReason
  | none
  | notInitialized
  | paused
  | stopped
  | faulted
  | bookNotQuotable
  | marketDataStale
  | noTwoSidedMarket
  | instrumentNotLoaded
  | triggerNotWanted
  | quotingDisabled
  deriving DecidableEq

/-- Runtime parameters, independent of any particular strategy. -/
structure StrategyRuntimeConfig where
  enabled : Bool := true
  /-- Operator switch. The strategy is still evaluated when it is off. -/
  quotingEnabled : Bool := true
  evaluationMode : EvaluationMode := .onBboChangeAndTimer
  maxEvaluationLatencyNs : Nanos := 50000
  maxConsecutiveBudgetViolations : Int := 5
  maxConsecutiveInvalidOutputs : Int := 3
  maxDataAgeNs : Nanos := 500000000
  limits : IntentLimits := {}
  deriving DecidableEq

/-- What an evaluation hands on. -/
structure EvaluationResult where
  accepted : Bool := false
  intent : QuoteIntent := {}
  skip : SkipReason := .none
  rejection : IntentRejection := .none
  evaluationNs : Nanos := 0
  deriving DecidableEq

structure StrategyMetrics where
  evaluations : Nat := 0
  skipped : Nat := 0
  intentsAccepted : Nat := 0
  intentsRejected : Nat := 0
  quoteIntents : Nat := 0
  pullIntents : Nat := 0
  exceptions : Nat := 0
  budgetViolations : Nat := 0
  maxEvaluationNs : Nanos := 0
  skipsByReason : SkipReason → Nat := fun _ => 0
  rejectionsByCause : IntentRejection → Nat := fun _ => 0

/-- The readings of the clock during one evaluation: before the strategy is called,
after it returned, and when the intent is stamped. -/
structure Readings where
  started : Nanos
  finished : Nanos
  stamped : Nanos

/-- Signed distance from a reference price, in basis points. -/
def distanceBps (D : Type) [Double D] (price reference : Px) : D :=
  if !reference.isPositive then Double.ofInt 0
  else
    let diff : D := Double.ofInt (price - reference).raw
    Double.ofInt 10000 * diff / Double.ofInt reference.raw

/-- True when a price is further from the touch than the bound. -/
def isTooFar (D : Type) [Double D] (price touch : Px) (limits : IntentLimits) : Bool :=
  decide (0 < limits.maxDistanceFromTouchBps) && touch.isPositive &&
    let away := distanceBps D price touch
    let magnitude := if Double.lt away (Double.ofInt 0) then -away else away
    Double.lt (Double.ofInt limits.maxDistanceFromTouchBps) magnitude

/-- Checks one side of a quote against the venue's rules. -/
def validateSide (D : Type) [Double D] (price : Px) (quantity : Qty) (spec : InstrumentSpec)
    (touch : Px) (limits : IntentLimits) : IntentRejection :=
  if !price.isPositive then .nonPositivePrice
  else if quantity.isNegative then .negativeQuantity
  else if !quantity.isPositive then .nonPositiveQuantity
  else if !isOnStep price spec.tickSize then .tickMisaligned
  else if !isOnStep quantity spec.lotSize then .lotMisaligned
  else if spec.maxQty.isPositive && spec.maxQty.raw < quantity.raw then .quantityAboveVenueMax
  else if spec.minNotional.isPositive && (notionalOf price quantity).raw < spec.minNotional.raw then
    .notionalTooSmall
  else if isTooFar D price touch limits then .quoteTooFarFromTouch
  else .none

/-- Checks the prices and sizes of a quote. -/
def validateQuote (D : Type) [Double D] (intent : QuoteIntent) (bbo : BestBidAsk)
    (spec : InstrumentSpec) (limits : IntentLimits) : IntentRejection :=
  let bid :=
    if intent.quoteBid then
      validateSide D intent.bidPrice intent.bidQuantity spec bbo.bidPx limits
    else .none
  let ask :=
    if intent.quoteAsk then
      validateSide D intent.askPrice intent.askQuantity spec bbo.askPx limits
    else .none
  if !intent.quoteBid && !intent.quoteAsk then .unknownAction
  else if bid ≠ .none then bid
  else if ask ≠ .none then ask
  else if intent.quoteBid && intent.quoteAsk && intent.askPrice.raw ≤ intent.bidPrice.raw then
    .crossedQuote
  else .none

/-- Validates an intent against the context that produced it. Only a quote carries
anything to check. -/
def validateIntent (D : Type) [Double D] {V : Type} (intent : QuoteIntent)
    (context : StrategyContext V) (expected : StrategyIdentity) (limits : IntentLimits) :
    IntentRejection :=
  match intent.action with
  | .pull => .none
  | .noChange => .none
  | .quote =>
      if !intent.identity.isValid then .identityMissing
      else if intent.identity.name ≠ expected.name ∨ intent.identity.version ≠ expected.version then
        .identityMismatch
      else if limits.requireMatchingSequence && intent.marketSequence ≠ context.sequence then
        .staleSequence
      else
        match context.instrument with
        | none => .instrumentNotLoaded
        | some spec =>
            if !spec.isValid then .instrumentNotLoaded
            else validateQuote D intent context.bbo spec limits

/-- The runtime of a strategy whose state is in `τ`. -/
structure StrategyRuntime (τ : Type) where
  config : StrategyRuntimeConfig
  /-- The instance's state, when there is an instance. -/
  strategy : Option τ
  state : StrategyState := .created
  identity : StrategyIdentity := {}
  generation : Nat := 0
  consecutiveBudgetViolations : Int := 0
  consecutiveInvalidOutputs : Int := 0
  faultReason : InlineString 160 := .empty
  metrics : StrategyMetrics := {}

namespace StrategyRuntime

variable {τ V P : Type}

def transition (runtime : StrategyRuntime τ) (target : StrategyState) : StrategyRuntime τ :=
  if isLegalTransition runtime.state target then { runtime with state := target } else runtime

def fault (runtime : StrategyRuntime τ) (reason : String) : StrategyRuntime τ :=
  { runtime with state := .faulted, faultReason := (InlineString.assign reason.toList).1 }

def tally (runtime : StrategyRuntime τ) (count : StrategyMetrics → StrategyMetrics) :
    StrategyRuntime τ :=
  { runtime with metrics := count runtime.metrics }

def recordSkip (runtime : StrategyRuntime τ) (reason : SkipReason) : StrategyRuntime τ :=
  runtime.tally fun m =>
    { m with
      skipped := m.skipped + 1
      skipsByReason := fun r => if r = reason then m.skipsByReason r + 1 else m.skipsByReason r }

def recordRejection (runtime : StrategyRuntime τ) (cause : IntentRejection) : StrategyRuntime τ :=
  runtime.tally fun m =>
    { m with
      intentsRejected := m.intentsRejected + 1
      rejectionsByCause := fun r =>
        if r = cause then m.rejectionsByCause r + 1 else m.rejectionsByCause r }

def countException (runtime : StrategyRuntime τ) : StrategyRuntime τ :=
  runtime.tally fun m => { m with exceptions := m.exceptions + 1 }

/-- Stands down because the strategy cannot be evaluated. The intent is stamped after
it is built: downstream, one left at generation zero would be ignored. -/
def skipped (runtime : StrategyRuntime τ) (reason : SkipReason) (now : Nanos) :
    EvaluationResult × StrategyRuntime τ :=
  let recorded := runtime.recordSkip reason
  let generation := recorded.generation + 1
  ({ skip := reason
     intent :=
      { QuoteIntent.pull .normal with
        identity := recorded.identity
        generation := generation
        computedNs := now } },
    { recorded with generation := generation })

/-- The text of a fault, by what was thrown. -/
def faultText (call : String) : Thrown → String
  | .exception what => call ++ " threw: " ++ what
  | .nonStandard => call ++ " threw a non-standard exception"

/-- How an identity is printed. -/
def describe (identity : StrategyIdentity) : String :=
  String.ofList identity.name.chars ++ " v" ++ toString identity.version

/-! ## Lifecycle -/

/-- Validates the identity and initializes the strategy. What the strategy throws when
it is asked for its identity is not caught. -/
def initializeWith (plugin : IStrategy τ V P) (runtime : StrategyRuntime τ)
    (init : StrategyInit P) : Except Thrown Status × StrategyRuntime τ :=
  match runtime.strategy with
  | none => (.ok (.error .failedPrecondition "no strategy instance"), runtime)
  | some inner =>
      if !init.identity.isValid then
        (.ok (.error .invalidArgument "strategy identity is incomplete"), runtime)
      else
        match plugin.identity inner with
        | .error thrown => (.error thrown, runtime)
        | .ok self =>
            if self.name ≠ init.identity.name ∨ self.version ≠ init.identity.version then
              (.ok (.error .failedPrecondition
                ("strategy identity mismatch: binary reports '" ++ describe self ++
                  "', configuration selected '" ++ describe init.identity ++ "'")), runtime)
            else if !init.instrument.isValid then
              (.ok (.error .failedPrecondition
                "instrument specification is not loaded; cannot initialize a strategy"), runtime)
            else
              let called := plugin.initializeWith init inner
              let after := { runtime with strategy := some called.2 }
              match called.1 with
              | .error thrown =>
                  let faulted := (after.fault (faultText "initialize" thrown)).countException
                  (.ok (.error .internal (String.ofList faulted.faultReason.chars)), faulted)
              | .ok status =>
                  if status.isError then (.ok status, after)
                  else
                    (.ok .ok,
                      { after with
                        identity := init.identity
                        consecutiveBudgetViolations := 0
                        consecutiveInvalidOutputs := 0
                        faultReason := .empty
                        state := .initialized })

def start (runtime : StrategyRuntime τ) : StrategyRuntime τ := runtime.transition .running

def pause (runtime : StrategyRuntime τ) : StrategyRuntime τ := runtime.transition .paused

def resume (runtime : StrategyRuntime τ) : StrategyRuntime τ := runtime.transition .running

def stop (runtime : StrategyRuntime τ) : StrategyRuntime τ := runtime.transition .stopped

/-- Clears the strategy's state without destroying it. -/
def resetStrategy (plugin : IStrategy τ V P) (runtime : StrategyRuntime τ) : StrategyRuntime τ :=
  match runtime.strategy with
  | none => runtime
  | some inner =>
      let called := plugin.reset inner
      let after := { runtime with strategy := some called.2 }
      let answered :=
        match called.1 with
        | .error _ => after.countException.fault "reset threw"
        | .ok _ => after
      { answered with consecutiveInvalidOutputs := 0 }

def clearFault (plugin : IStrategy τ V P) (runtime : StrategyRuntime τ) :
    Status × StrategyRuntime τ :=
  if runtime.state ≠ .faulted then
    (.error .failedPrecondition "strategy is not faulted", runtime)
  else
    -- Cleared before the reset, so that a fault raised by the reset shows.
    let cleared := { runtime with state := .initialized, faultReason := .empty }
    let reset := cleared.resetStrategy plugin
    if reset.state = .faulted then
      (.error .internal "strategy faulted again while clearing the fault", reset)
    else (.ok, { reset with consecutiveBudgetViolations := 0, consecutiveInvalidOutputs := 0 })

/-- Forwards a notification. A strategy that throws on it is faulted. -/
def notify (runtime : StrategyRuntime τ) (call : τ → Except Thrown Unit × τ) (text : String) :
    StrategyRuntime τ :=
  match runtime.strategy with
  | none => runtime
  | some inner =>
      if runtime.state = .faulted || runtime.state = .created then runtime
      else
        let called := call inner
        let after := { runtime with strategy := some called.2 }
        match called.1 with
        | .error _ => after.countException.fault text
        | .ok _ => after

def onFill (plugin : IStrategy τ V P) (runtime : StrategyRuntime τ) (fill : StrategyFill) :
    StrategyRuntime τ :=
  runtime.notify (plugin.onFill fill) "on_fill threw"

def onOrderEvent (plugin : IStrategy τ V P) (runtime : StrategyRuntime τ)
    (event : StrategyOrderEvent) : StrategyRuntime τ :=
  runtime.notify (plugin.onOrderEvent event) "on_order_event threw"

/-- The gates in front of the strategy. -/
def gate (runtime : StrategyRuntime τ) (context : StrategyContext V) : SkipReason :=
  if !runtime.config.enabled then .quotingDisabled
  else
    match runtime.state with
    | .created => .notInitialized
    | .initialized => .notInitialized
    | .paused => .paused
    | .stopped => .stopped
    | .faulted => .faulted
    | .running =>
        if !modeAccepts runtime.config.evaluationMode context.trigger then .triggerNotWanted
        else if !context.isBookQuotable then .bookNotQuotable
        else if runtime.config.maxDataAgeNs < context.dataAgeNs then .marketDataStale
        else if !context.instrument.any InstrumentSpec.isValid then .instrumentNotLoaded
        else if !context.hasTwoSidedMarket then .noTwoSidedMarket
        else .none

/-- Asks the strategy for its intent. -/
def ask (plugin : IStrategy τ V P) (context : StrategyContext V) (inner : τ) :
    Except Thrown QuoteIntent × τ :=
  if context.trigger = .timer then plugin.onTimer context inner
  else plugin.onMarketUpdate context inner

/-- Counts a completed call of the strategy. -/
def recordCall (runtime : StrategyRuntime τ) (elapsed : Nanos) : StrategyRuntime τ :=
  runtime.tally fun m =>
    { m with
      evaluations := m.evaluations + 1
      maxEvaluationNs := if m.maxEvaluationNs < elapsed then elapsed else m.maxEvaluationNs }

/-- True when the call overran its budget once too often. -/
def overrun (runtime : StrategyRuntime τ) (elapsed : Nanos) : Bool :=
  decide (runtime.config.maxEvaluationLatencyNs < elapsed) &&
    decide (runtime.config.maxConsecutiveBudgetViolations ≤ runtime.consecutiveBudgetViolations + 1)

/-- Books the time the call took. -/
def chargeBudget (runtime : StrategyRuntime τ) (elapsed : Nanos) : StrategyRuntime τ :=
  if runtime.config.maxEvaluationLatencyNs < elapsed then
    { runtime.tally fun m => { m with budgetViolations := m.budgetViolations + 1 } with
      consecutiveBudgetViolations := runtime.consecutiveBudgetViolations + 1 }
  else { runtime with consecutiveBudgetViolations := 0 }

/-- The intent with its provenance: who said it, in which order, and when. -/
def stamp (runtime : StrategyRuntime τ) (intent : QuoteIntent) (context : StrategyContext V)
    (now : Nanos) : QuoteIntent :=
  { intent with
    identity := { runtime.identity with configGeneration := context.configGeneration }
    generation := runtime.generation + 1
    computedNs := now
    marketSequence :=
      if intent.marketSequence = kNoSeq then context.sequence else intent.marketSequence }

/-- Answers an intent that failed validation. The intent that stands down is built
anew, and only the identity is put on it. -/
def rejectIntent (runtime : StrategyRuntime τ) (rejection : IntentRejection) (elapsed : Nanos) :
    EvaluationResult × StrategyRuntime τ :=
  let recorded := runtime.recordRejection rejection
  let invalid := recorded.consecutiveInvalidOutputs + 1
  let counted := { recorded with consecutiveInvalidOutputs := invalid }
  ({ rejection := rejection
     intent := { QuoteIntent.pull .normal with identity := runtime.identity }
     evaluationNs := elapsed },
    if runtime.config.maxConsecutiveInvalidOutputs ≤ invalid then
      counted.fault "strategy produced invalid output repeatedly"
    else counted)

/-- True when the operator has quoting switched off. -/
def switchedOff (runtime : StrategyRuntime τ) (context : StrategyContext V) : Bool :=
  !runtime.config.quotingEnabled || !context.quotingEnabled

/-- Answers an intent that passed validation. With quoting switched off, a quote is
replaced by an intent that stands down, built anew with identity and sequence. -/
def acceptIntent (runtime : StrategyRuntime τ) (intent : QuoteIntent)
    (context : StrategyContext V) (elapsed : Nanos) : EvaluationResult × StrategyRuntime τ :=
  let handed :=
    if runtime.switchedOff context && intent.action = .quote then
      { QuoteIntent.pull .strategyDisabled with
        identity := runtime.identity
        marketSequence := context.sequence }
    else intent
  let counted := { runtime with consecutiveInvalidOutputs := 0 }.tally fun m =>
    if handed.wantsQuotes then
      { m with intentsAccepted := m.intentsAccepted + 1, quoteIntents := m.quoteIntents + 1 }
    else { m with intentsAccepted := m.intentsAccepted + 1, pullIntents := m.pullIntents + 1 }
  ({ accepted := true, intent := handed, evaluationNs := elapsed }, counted)

/-- Checks what the strategy returned. -/
def judge (D : Type) [Double D] (runtime : StrategyRuntime τ) (returned : QuoteIntent)
    (context : StrategyContext V) (readings : Readings) : EvaluationResult × StrategyRuntime τ :=
  let elapsed := readings.finished - readings.started
  let charged := (runtime.recordCall elapsed).chargeBudget elapsed
  if runtime.overrun elapsed then
    (charged.fault "evaluation exceeded its latency budget repeatedly").skipped .faulted
      readings.stamped
  else
    let intent := charged.stamp returned context readings.stamped
    let stamped := { charged with generation := charged.generation + 1 }
    let rejection := validateIntent D intent context stamped.identity stamped.config.limits
    if rejection ≠ .none then stamped.rejectIntent rejection elapsed
    else stamped.acceptIntent intent context elapsed

/-- The single entry point. -/
def evaluate (D : Type) [Double D] (plugin : IStrategy τ V P) (runtime : StrategyRuntime τ)
    (context : StrategyContext V) (readings : Readings) : EvaluationResult × StrategyRuntime τ :=
  let skip := runtime.gate context
  if skip ≠ .none then runtime.skipped skip readings.stamped
  else
    match runtime.strategy with
    -- Without an instance the runtime is never initialized, so the gate holds.
    | none => runtime.skipped .notInitialized readings.stamped
    | some inner =>
        let called := ask plugin context inner
        let after := { runtime with strategy := some called.2 }
        match called.1 with
        | .error thrown =>
            (after.countException.fault (faultText "evaluation" thrown)).skipped .faulted
              readings.stamped
        | .ok returned => after.judge D returned context readings

end StrategyRuntime

end MmEngine.Strategy
