/-
# The risk engine

Every order-changing action passes here. An action that adds exposure is screened,
rate limited and measured against the bounds of its symbol, reduced where a smaller
order would fit, and measured again; a cancel is available in every state.

A call makes one reading of the steady clock, which it is handed. Latency counters
and trace identifiers are left out.
-/

import MmEngine.Exchange.OrderRequest
import MmEngine.Risk.RiskTypes

namespace MmEngine.Risk

open MmEngine.Exchange MmEngine.Quote

/-- Everything the engine needs besides the action. -/
structure RiskInput where
  symbol : Symbol := .empty
  instrument : Option InstrumentSpec := none
  position : PositionSnapshot := {}
  exposure : ExposureSnapshot := {}
  portfolio : PortfolioState := {}
  bbo : BestBidAsk := {}
  marketDataAgeNs : Nanos := 0
  systemReady : Bool := true
  /-- Whether the venue swaps an order for its replacement at one instant. -/
  atomicReplace : Bool := false
  /-- Remaining size of the order being replaced. -/
  replacedOrderRemaining : Qty := .zero
  expectedOwner : StrategyName := .empty
  deriving DecidableEq

structure RiskMetrics where
  evaluations : Nat := 0
  approvals : Nat := 0
  reductions : Nat := 0
  rejections : Nat := 0
  cancelsPermittedWhileBlocked : Nat := 0
  kills : Nat := 0
  /-- Tallies of the first thirty-two reasons; the last two are not counted. -/
  rejectionsByReason : List Nat := List.replicate 32 0
  deriving DecidableEq

structure RiskEngine (D : Type) where
  limits : RiskLimits
  state : RiskState
  stateReason : RiskReason
  newOrders : RateLimiter D
  cancels : RateLimiter D
  replaces : RateLimiter D
  allActions : RateLimiter D
  approvalSequence : Nat
  metrics : RiskMetrics
  deriving DecidableEq

/-- The venue's own rules, applied again before an order is approved. -/
def passesVenueRules (action : OrderAction) (quantity : Qty) (spec : InstrumentSpec) : Bool :=
  let probe : OrderRequest :=
    { clientOrderId := ⟨"risk-venue-probe".toList, by decide⟩
      symbol := spec.symbol
      side := action.side
      type := .limit
      tif := .gtc
      price := action.price
      quantity := quantity
      postOnly := false
      createdNs := 0 }
  (validateOrder probe spec { supportsClientOrderId := true }).isNone

/-- Whether the action claims to come from somebody else. -/
def ownershipViolated (action : OrderAction) (input : RiskInput) : Bool :=
  !input.expectedOwner.isEmpty && !action.identity.name.isEmpty &&
    action.identity.name ≠ input.expectedOwner

/-- The exposure once the order being replaced is gone: on a venue that swaps
atomically its remaining size leaves the side, which is floored at zero. -/
def projectedExposure (action : OrderAction) (input : RiskInput) : Option ExposureSnapshot :=
  if action.type = .replace && input.atomicReplace && input.replacedOrderRemaining.isPositive then
    (Fixed.checkedSub (input.exposure.working action.side) input.replacedOrderRemaining).map
      fun reduced =>
        input.exposure.withWorking action.side (if reduced.isPositive then reduced else .zero)
  else some input.exposure

/-- Failures that a smaller order may avoid. -/
def reducible (failure : RiskReason) : Bool :=
  failure = .maxPosition || failure = .maxPositionNotional || failure = .maxOrderQuantity ||
    failure = .maxOrderNotional || failure = .maxSideExposure || failure = .maxWorkingExposure

namespace RiskEngine

variable {D : Type} [Double D]

/-- Absolute distance from a reference price, in basis points. -/
def distanceBps (D : Type) [Double D] (price reference : Px) : D :=
  if !reference.isPositive then Double.ofInt 0
  else
    let diff : D := Double.ofInt (price - reference).raw
    let away := Double.ofInt 10000 * diff / Double.ofInt reference.raw
    if Double.lt away (Double.ofInt 0) then -away else away

/-- The bucket of a rate: its burst allowance is the configured one, or the rate. -/
def bucket (global : GlobalLimits) (rate : Int) : RateLimiter D :=
  .new (if 0 < global.burstCapacity then global.burstCapacity else rate) rate

def new (limits : RiskLimits) : RiskEngine D where
  limits := limits
  state := .disarmed
  stateReason := .none
  newOrders := bucket limits.global limits.global.maxNewOrdersPerSecond
  cancels := bucket limits.global limits.global.maxCancelsPerSecond
  replaces := bucket limits.global limits.global.maxReplacesPerSecond
  allActions := bucket limits.global limits.global.maxActionsPerSecond
  approvalSequence := 0
  metrics := {}

def transition (engine : RiskEngine D) (target : RiskState) (reason : RiskReason) : RiskEngine D :=
  if isLegalTransition engine.state target then
    { engine with state := target, stateReason := reason }
  else engine

def arm (engine : RiskEngine D) : Status × RiskEngine D :=
  if needsOperatorRecovery engine.state then
    (.error .failedPrecondition "risk is killed or faulted; rearm explicitly before arming", engine)
  else
    match engine.limits.validateForArming with
    | .ok => (.ok, engine.transition .armed .none)
    | error => (error, engine)

def warn (engine : RiskEngine D) (reason : RiskReason) : RiskEngine D :=
  engine.transition .warning reason

def kill (engine : RiskEngine D) (reason : RiskReason) : RiskEngine D :=
  { engine with metrics := { engine.metrics with kills := engine.metrics.kills + 1 } }.transition
    .killed reason

def fault (engine : RiskEngine D) (reason : RiskReason) : RiskEngine D :=
  engine.transition .faulted reason

def rearm (engine : RiskEngine D) : Status × RiskEngine D :=
  if !needsOperatorRecovery engine.state then
    (.error .failedPrecondition "risk is not killed or faulted", engine)
  else (.ok, { engine with state := .disarmed, stateReason := .none })

/-- Makes the token of an approving decision valid. -/
def stampApproval (engine : RiskEngine D) (decision : RiskDecision) :
    RiskDecision × RiskEngine D :=
  if !decision.isApproved then (decision, engine)
  else
    ({ decision with approval := ⟨decision.approved, engine.approvalSequence + 1, true⟩ },
      { engine with approvalSequence := engine.approvalSequence + 1 })

def record (engine : RiskEngine D) (decision : RiskDecision) : RiskEngine D :=
  let metrics := { engine.metrics with evaluations := engine.metrics.evaluations + 1 }
  { engine with
    metrics :=
      match decision.verdict with
      | .approve => { metrics with approvals := metrics.approvals + 1 }
      | .reduce => { metrics with reductions := metrics.reductions + 1 }
      | .reject =>
          { metrics with
            rejections := metrics.rejections + 1
            rejectionsByReason :=
              metrics.rejectionsByReason.modify decision.reason.ctorIdx (· + 1) } }

/-! ## Checks -/

/-- The limits on what the whole portfolio has lost. -/
def screenLosses (engine : RiskEngine D) (input : RiskInput) : RiskReason :=
  let global := engine.limits.global
  -- The negation is the machine's.
  let loss := Fixed.zero - input.portfolio.netPnl
  if !input.portfolio.pnlDeterminate then .pnlIndeterminate
  else if global.emergencyLoss.isPositive && decide (global.emergencyLoss.raw ≤ loss.raw) then
    .emergencyLoss
  else if global.maxDailyLoss.isPositive && decide (global.maxDailyLoss.raw ≤ loss.raw) then
    .maxDailyLoss
  else if global.maxSessionLoss.isPositive && decide (global.maxSessionLoss.raw ≤ loss.raw) then
    .maxSessionLoss
  else .none

/-- The portfolio and loss limits. -/
def screenPortfolio (engine : RiskEngine D) (input : RiskInput) (now : Nanos) : RiskReason :=
  let global := engine.limits.global
  let portfolioLimits := global.maxPortfolioNotional.isPositive
  let lossLimits := global.maxDailyLoss.isPositive || global.maxSessionLoss.isPositive ||
    global.emergencyLoss.isPositive
  if (portfolioLimits || lossLimits) && !input.portfolio.valid then .portfolioUnavailable
  else if (portfolioLimits || lossLimits) && 0 < input.portfolio.asOfNs &&
      global.maxPositionAgeNs < now - input.portfolio.asOfNs then .portfolioStale
  else if portfolioLimits &&
      global.maxPortfolioNotional.raw < input.portfolio.grossNotional.raw then
    .maxPortfolioNotional
  else if lossLimits then engine.screenLosses input
  else .none

/-- Checks that do not depend on the size of the action. -/
def screen (engine : RiskEngine D) (action : OrderAction) (input : RiskInput) (now : Nanos) :
    RiskReason :=
  if ownershipViolated action input then .ownershipViolation
  else if engine.state = .disarmed then .riskDisarmed
  else if engine.state = .killed then .riskKilled
  else if engine.state = .faulted then .riskFaulted
  else if !input.systemReady then .systemNotReady
  else if !(input.instrument.any InstrumentSpec.isValid) then .instrumentInvalid
  else if engine.limits.global.maxMarketDataAgeNs < input.marketDataAgeNs then .staleMarket
  else if !input.bbo.isSane then .referencePriceUnavailable
  else if !input.position.valid then .positionUnavailable
  else if 0 < input.position.asOfNs &&
      engine.limits.global.maxPositionAgeNs < now - input.position.asOfNs then .positionStale
  else if !input.exposure.determinate then .unknownExposure
  else engine.screenPortfolio input now

/-- The price band around the midpoint. -/
def checkPriceBand (action : OrderAction) (input : RiskInput) (limits : SymbolLimits)
    (_engine : RiskEngine D) : RiskReason :=
  if limits.priceBandBps ≤ 0 then .none
  else if !input.bbo.mid.isPositive then .referencePriceUnavailable
  else if Double.lt (Double.ofInt limits.priceBandBps)
      (distanceBps D action.price input.bbo.mid) then
    .priceOutsideBand
  else .none

/-- Bounds on one order. -/
def checkOrderBounds (engine : RiskEngine D) (action : OrderAction) (quantity : Qty)
    (input : RiskInput) (spec : InstrumentSpec) (limits : SymbolLimits) (context : LimitContext) :
    Except RiskReason LimitContext :=
  if !quantity.isPositive then .error .invalidQuantity
  else if !action.price.isPositive then .error .invalidPrice
  else if limits.maxOrderQuantity.isPositive && limits.maxOrderQuantity.raw < quantity.raw then
    .error .maxOrderQuantity
  else
    match checkedNotionalOf action.price quantity with
    | none => .error .arithmeticOverflow
    | some orderNotional =>
        if limits.maxOrderNotional.isPositive &&
            limits.maxOrderNotional.raw < orderNotional.raw then
          .error .maxOrderNotional
        else if checkPriceBand action input limits engine ≠ .none then
          .error (checkPriceBand action input limits engine)
        else if !passesVenueRules action quantity spec then .error .reductionInvalid
        else .ok { context with orderNotional := orderNotional }

/-- The worst case valued at the midpoint. -/
def checkPositionNotional (input : RiskInput) (limits : SymbolLimits) (peak : Qty) : RiskReason :=
  if !limits.maxPositionNotional.isPositive then .none
  else
    match checkedNotionalOf input.bbo.mid peak with
    | none => .arithmeticOverflow
    | some peakNotional =>
        if limits.maxPositionNotional.raw < peakNotional.raw then .maxPositionNotional else .none

/-- Side and gross working exposure, with the prospective order included. -/
def checkWorking (action : OrderAction) (quantity : Qty) (projected : ExposureSnapshot)
    (limits : SymbolLimits) : RiskReason :=
  match Fixed.checkedAdd (projected.working action.side) quantity with
  | none => .arithmeticOverflow
  | some projectedSide =>
      if limits.maxSideExposure.isPositive && limits.maxSideExposure.raw < projectedSide.raw then
        .maxSideExposure
      else if !limits.maxWorkingExposure.isPositive then .none
      else
        match (Fixed.checkedAdd projected.workingBuy projected.workingSell).bind fun gross =>
            Fixed.checkedAdd gross quantity with
        | none => .arithmeticOverflow
        | some gross =>
            if limits.maxWorkingExposure.raw < gross.raw then .maxWorkingExposure else .none

/-- Exposure arithmetic. -/
def checkExposure (engine : RiskEngine D) (action : OrderAction) (quantity : Qty)
    (input : RiskInput) (limits : SymbolLimits) (context : LimitContext) :
    Except RiskReason LimitContext :=
  -- A replace does not add an order, so it is exempt from the count.
  if 0 < limits.maxOpenOrders && limits.maxOpenOrders ≤ input.exposure.openOrderCount &&
      action.type = .new then .error .maxOpenOrders
  else
    match projectedExposure action input with
    | none => .error .arithmeticOverflow
    | some projected =>
        match computeWorstCaseWith input.position projected action.side quantity with
        | none => .error .arithmeticOverflow
        | some worst =>
            if limits.maxPosition.isPositive && limits.maxPosition.raw < worst.peakAbsolute.raw then
              .error .maxPosition
            else if checkPositionNotional input limits worst.peakAbsolute ≠ .none then
              .error (checkPositionNotional input limits worst.peakAbsolute)
            else if checkWorking action quantity projected limits ≠ .none then
              .error (checkWorking action quantity projected limits)
            else if isReduceOnly engine.state &&
                increasesAbsolutePosition input.position action.side quantity then
              .error .reduceOnly
            else
              .ok
                { context with
                  peakAbsoluteExposure := worst.peakAbsolute
                  workingBuy := projected.workingBuy
                  workingSell := projected.workingSell }

/-- Both checks, one after the other. -/
def checkBoth (engine : RiskEngine D) (action : OrderAction) (quantity : Qty) (input : RiskInput)
    (spec : InstrumentSpec) (limits : SymbolLimits) (context : LimitContext) :
    Except RiskReason LimitContext :=
  (engine.checkOrderBounds action quantity input spec limits context).bind fun context =>
    engine.checkExposure action quantity input limits context

/-- True when a quantity passes both checks. -/
def fits (engine : RiskEngine D) (action : OrderAction) (quantity : Qty) (input : RiskInput)
    (spec : InstrumentSpec) (limits : SymbolLimits) : Bool :=
  (engine.checkBoth action quantity input spec limits {}).toBool

/-- Binary search for the greatest number of lots that fits. Every round narrows the
interval, so its width is fuel enough. -/
def searchLots (fit : Int → Bool) : Nat → Int → Int → Int
  | 0, low, _ => low
  | fuel + 1, low, high =>
      if low < high then
        let mid := low + (high - low + 1).tdiv 2
        if fit mid then searchLots fit fuel mid high else searchLots fit fuel low (mid - 1)
      else low

/-- The largest quantity on the lot grid that satisfies every bound, or zero. -/
def largestPermittedQuantity (engine : RiskEngine D) (action : OrderAction) (input : RiskInput)
    (spec : InstrumentSpec) (limits : SymbolLimits) : Qty :=
  let step : Qty := if spec.lotSize.isPositive then spec.lotSize else ⟨1, by decide, by decide⟩
  let high := action.quantity.raw.tdiv step.raw
  if high ≤ 0 then .zero
  -- When a single lot does not fit, nothing does.
  else if !engine.fits action step input spec limits then .zero
  else
    .narrow (searchLots
      (fun lots => engine.fits action (.narrow (lots * step.raw)) input spec limits)
      high.toNat 0 high * step.raw)

/-- A decision that lets an action through, not yet stamped. -/
def approving (engine : RiskEngine D) (requested approved : OrderAction) (verdict : RiskVerdict)
    (reason : RiskReason) (limits : LimitContext) (now : Nanos) : RiskDecision where
  verdict := verdict
  reason := reason
  state := engine.state
  requested := requested
  approved := approved
  limits := limits
  decidedNs := now
  generation := requested.generation

/-- Stamps a decision and counts it. -/
def approveWith (engine : RiskEngine D) (decision : RiskDecision) : RiskDecision × RiskEngine D :=
  let (decision, engine) := engine.stampApproval decision
  (decision, engine.record decision)

/-- Refuses an action and counts the refusal. -/
def rejectWith (engine : RiskEngine D) (action : OrderAction) (reason : RiskReason) (now : Nanos) :
    RiskDecision × RiskEngine D :=
  let decision := RiskDecision.rejected action reason engine.state now
  (decision, engine.record decision)

/-- Cancels are approved in every state. The stamp is drawn before the ownership is
looked at, so a refused cancel still uses up a sequence. -/
def approveCancel (engine : RiskEngine D) (cancel : OrderAction) (input : RiskInput) (now : Nanos) :
    RiskDecision × RiskEngine D :=
  let (decision, engine) := engine.stampApproval
    (engine.approving cancel cancel .approve .none {} now)
  if ownershipViolated cancel input then engine.rejectWith cancel .ownershipViolation now
  else
    -- Counted against its bucket, never refused by it.
    let engine := { engine with cancels := (engine.cancels.tryAcquire now).2 }
    let engine :=
      if permitsNewExposure engine.state then engine
      else
        { engine with
          metrics := { engine.metrics with
            cancelsPermittedWhileBlocked := engine.metrics.cancelsPermittedWhileBlocked + 1 } }
    (decision, engine.record decision)

/-- Draws on the bucket of the action and, if that grants, on the bucket of all
actions. -/
def acquireBudget (engine : RiskEngine D) (action : OrderAction) (now : Nanos) :
    Bool × RiskEngine D :=
  let (granted, engine) :=
    if action.type = .new then
      let (granted, limiter) := engine.newOrders.tryAcquire now
      (granted, { engine with newOrders := limiter })
    else
      let (granted, limiter) := engine.replaces.tryAcquire now
      (granted, { engine with replaces := limiter })
  if !granted then (false, engine)
  else
    let (granted, limiter) := engine.allActions.tryAcquire now
    (granted, { engine with allActions := limiter })

/-- Judges a smaller order in place of one that failed. -/
def reduceAction (engine : RiskEngine D) (action : OrderAction) (input : RiskInput)
    (spec : InstrumentSpec) (limits : SymbolLimits) (context : LimitContext) (failure : RiskReason)
    (now : Nanos) : RiskDecision × RiskEngine D :=
  if !reducible failure then engine.rejectWith action failure now
  else
    let permitted := engine.largestPermittedQuantity action input spec limits
    if !permitted.isPositive || decide (action.quantity.raw ≤ permitted.raw) then
      engine.rejectWith action failure now
    else
      let reduced := { action with quantity := permitted }
      -- The reduced action goes through the checks again.
      match engine.checkBoth reduced permitted input spec limits context with
      | .error recheck => engine.rejectWith action recheck now
      | .ok revalidated =>
          engine.approveWith (engine.approving action reduced .reduce failure revalidated now)

/-- Measures an action against the bounds of its symbol. -/
def measure (engine : RiskEngine D) (action : OrderAction) (input : RiskInput)
    (spec : InstrumentSpec) (limits : SymbolLimits) (now : Nanos) : RiskDecision × RiskEngine D :=
  let context : LimitContext :=
    { maxPosition := limits.maxPosition, openOrders := input.exposure.openOrderCount }
  match engine.checkBoth action action.quantity input spec limits context with
  | .ok context => engine.approveWith (engine.approving action action .approve .none context now)
  | .error failure => engine.reduceAction action input spec limits context failure now

/-- Judges an action that adds exposure. A screened action has an instrument. -/
def evaluateExposure (engine : RiskEngine D) (action : OrderAction) (input : RiskInput)
    (now : Nanos) : RiskDecision × RiskEngine D :=
  match engine.screen action input now, input.instrument, engine.limits.find input.symbol with
  | .none, some spec, some limits =>
      let (granted, engine) := engine.acquireBudget action now
      if !granted then engine.rejectWith action .rateLimit now
      else engine.measure action input spec limits now
  | .none, some _, none => engine.rejectWith action .configurationMissing now
  | .none, none, _ => engine.rejectWith action .instrumentInvalid now
  | screened, _, _ => engine.rejectWith action screened now

/-- The single entry point. -/
def evaluate (engine : RiskEngine D) (action : OrderAction) (input : RiskInput) (now : Nanos) :
    RiskDecision × RiskEngine D :=
  match action.type with
  | .noop => engine.approveWith (engine.approving action action .approve .none {} now)
  | .cancel => engine.approveCancel action input now
  | .new => engine.evaluateExposure action input now
  | .replace => engine.evaluateExposure action input now

end RiskEngine

end MmEngine.Risk
