/-
# The vocabulary of the risk boundary

States of the engine and the moves between them, the reasons of a refusal, the
configured bounds, the token bucket, and the record of one decision. A limit that is
not positive is unset and not enforced; arming refuses to leave an essential one
unset.
-/

import MmEngine.Common.Double
import MmEngine.Quote.OrderAction
import MmEngine.Risk.PositionState

namespace MmEngine.Risk

open MmEngine.Quote

inductive RiskState
  | disarmed
  | armed
  /-- Only actions that reduce the position pass. -/
  | warning
  | killed
  | faulted
  deriving DecidableEq

def permitsNewExposure (s : RiskState) : Bool := s = .armed

def isReduceOnly (s : RiskState) : Bool := s = .warning

def needsOperatorRecovery (s : RiskState) : Bool := s = .killed || s = .faulted

/-- A kill or a fault is reached from anywhere; a killed or faulted engine only goes
back to disarmed. -/
def isLegalTransition (source target : RiskState) : Bool :=
  if source = target then true
  else if target = .killed || target = .faulted then true
  else
    match source with
    | .disarmed => target = .armed
    | .armed => target = .warning
    | .warning => target = .armed
    | .killed => target = .disarmed
    | .faulted => target = .disarmed

inductive RiskVerdict
  | approve
  | reduce
  | reject
  deriving DecidableEq

/-- Why an action was refused, in the order the engine numbers the causes. -/
inductive RiskReason
  | none
  | maxPosition
  | maxPositionNotional
  | maxOrderQuantity
  | maxOrderNotional
  | maxWorkingExposure
  | maxSideExposure
  | maxOpenOrders
  | maxPortfolioNotional
  | staleMarket
  | invalidPrice
  | invalidQuantity
  | priceOutsideBand
  | referencePriceUnavailable
  | instrumentInvalid
  | riskDisarmed
  | riskKilled
  | riskFaulted
  | reduceOnly
  | systemNotReady
  | positionUnavailable
  | positionStale
  | portfolioUnavailable
  | portfolioStale
  | pnlIndeterminate
  | unknownExposure
  | rateLimit
  | ownershipViolation
  | arithmeticOverflow
  | configurationMissing
  | reductionInvalid
  | maxDailyLoss
  | maxSessionLoss
  | emergencyLoss
  deriving DecidableEq

/-- Bounds for one instrument. -/
structure SymbolLimits where
  symbol : Symbol := .empty
  maxPosition : Qty := .zero
  maxPositionNotional : Notional := .zero
  maxOrderQuantity : Qty := .zero
  maxOrderNotional : Notional := .zero
  maxWorkingExposure : Qty := .zero
  maxSideExposure : Qty := .zero
  maxOpenOrders : Int := 0
  priceBandBps : Int := 0
  deriving DecidableEq

/-- Bounds across every instrument. -/
structure GlobalLimits where
  maxPortfolioNotional : Notional := .zero
  maxDailyLoss : Notional := .zero
  maxSessionLoss : Notional := .zero
  emergencyLoss : Notional := .zero
  maxNewOrdersPerSecond : Int := 0
  maxCancelsPerSecond : Int := 0
  maxReplacesPerSecond : Int := 0
  maxActionsPerSecond : Int := 0
  burstCapacity : Int := 0
  maxMarketDataAgeNs : Nanos := 500000000
  maxPositionAgeNs : Nanos := 5000000000
  deriving DecidableEq

/-- The configured bounds, for at most thirty-two symbols. -/
structure RiskLimits where
  global : GlobalLimits := {}
  symbols : List SymbolLimits := []
  length_le : symbols.length ≤ 32 := by decide
  deriving DecidableEq

namespace RiskLimits

def find (limits : RiskLimits) (symbol : Symbol) : Option SymbolLimits :=
  limits.symbols.find? fun known => known.symbol = symbol

/-- What is missing from the bounds of one symbol. -/
def unsetLimit (s : SymbolLimits) : Option String :=
  if !s.maxPosition.isPositive then some ".max_position must be set before arming"
  else if !s.maxOrderQuantity.isPositive then some ".max_order_quantity must be set before arming"
  else if !s.maxOrderNotional.isPositive then some ".max_order_notional must be set before arming"
  else if s.maxOpenOrders ≤ 0 then some ".max_open_orders must be set before arming"
  else none

/-- Refuses to arm when an essential bound is missing. -/
def validateForArming (limits : RiskLimits) : Status :=
  if limits.symbols.isEmpty then .error .failedPrecondition "risk has no configured symbols"
  else
    match limits.symbols.findSome? fun s => (unsetLimit s).map fun text => (s.symbol, text) with
    | some (symbol, text) =>
        .error .failedPrecondition ("risk.symbols." ++ String.ofList symbol.chars ++ text)
    | none =>
        if limits.global.maxMarketDataAgeNs ≤ 0 || limits.global.maxPositionAgeNs ≤ 0 then
          .error .failedPrecondition "risk freshness limits must be positive"
        else .ok

end RiskLimits

structure RateLimiter (D : Type) where
  capacity : Int
  perSecond : Int
  tokens : D
  lastRefillNs : Nanos
  grants : Nat
  denials : Nat
  deriving DecidableEq

namespace RateLimiter

variable {D : Type} [Double D]

def new (capacity perSecond : Int) : RateLimiter D where
  capacity := capacity
  perSecond := perSecond
  tokens := Double.ofInt capacity
  lastRefillNs := 0
  grants := 0
  denials := 0

/-- The tokens there would be after a refill. -/
def projectedTokens (limiter : RateLimiter D) (now : Nanos) : D :=
  if limiter.lastRefillNs = 0 then Double.ofInt limiter.capacity
  else
    let elapsed := now - limiter.lastRefillNs
    if elapsed ≤ 0 then limiter.tokens
    else
      let refilled := limiter.tokens +
        Double.ofInt elapsed / Double.ofInt 1000000000 * Double.ofInt limiter.perSecond
      let cap := Double.ofInt limiter.capacity
      if Double.lt cap refilled then cap else refilled

def refill (limiter : RateLimiter D) (now : Nanos) : RateLimiter D :=
  { limiter with tokens := limiter.projectedTokens now, lastRefillNs := now }

/-- Takes one token when there is one. A rate that is not positive disables the
limiter. -/
def tryAcquire (limiter : RateLimiter D) (now : Nanos) : Bool × RateLimiter D :=
  if limiter.perSecond ≤ 0 then (true, limiter)
  else
    let limiter := limiter.refill now
    if Double.lt limiter.tokens (Double.ofInt 1) then
      (false, { limiter with denials := limiter.denials + 1 })
    else
      (true,
        { limiter with
          tokens := limiter.tokens - Double.ofInt 1
          grants := limiter.grants + 1 })

end RateLimiter

/-- What a decision was measured against. -/
structure LimitContext where
  maxPosition : Qty := .zero
  peakAbsoluteExposure : Qty := .zero
  workingBuy : Qty := .zero
  workingSell : Qty := .zero
  orderNotional : Notional := .zero
  openOrders : Nat := 0
  deriving DecidableEq

structure RiskDecision where
  verdict : RiskVerdict := .reject
  reason : RiskReason := .none
  state : RiskState := .disarmed
  requested : OrderAction := {}
  approved : OrderAction := {}
  approval : ApprovedAction := {}
  limits : LimitContext := {}
  decidedNs : Nanos := 0
  generation : Nat := 0
  deriving DecidableEq

namespace RiskDecision

def isApproved (decision : RiskDecision) : Bool :=
  decision.verdict = .approve || decision.verdict = .reduce

/-- True when something that adds exposure was permitted. -/
def permitsNewExposure (decision : RiskDecision) : Bool :=
  decision.isApproved && decision.approved.addsExposure

/-- A refusal carries a noop, so that forwarding it blindly sends nothing. -/
def rejected (requested : OrderAction) (reason : RiskReason) (state : RiskState) (now : Nanos) :
    RiskDecision where
  verdict := .reject
  reason := reason
  state := state
  requested := requested
  approved := { slot := requested.slot, symbol := requested.symbol }
  decidedNs := now
  generation := requested.generation

end RiskDecision

end MmEngine.Risk
