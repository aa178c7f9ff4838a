/-
# The exchange boundary

Normalized requests, the events a venue answers with, and the check every event
passes before the order manager acts on it. Events are the only way the engine
learns what happened to an order, so the check is part of the order manager's
contract: an event that contradicts itself never reaches a handler.

Payload fields that no handler and no venue reads (instrument handles and trace
identifiers) are left out.
-/

import MmEngine.Common.Types

namespace MmEngine.Exchange

/-- Order status as a venue reports it. -/
inductive OrderStatus
  | unknown
  | new
  | partiallyFilled
  | filled
  | canceled
  | rejected
  | expired
  | pendingCancel
  | pendingReplace
  deriving DecidableEq

/-- True when the venue can never say anything further about the order. -/
def OrderStatus.isTerminal (status : OrderStatus) : Bool :=
  status = .filled || status = .canceled || status = .rejected || status = .expired

/-- Outcome of a cancel request. -/
inductive CancelStatus
  | unknown
  | accepted
  | rejected
  | orderNotFound
  | tooLate
  deriving DecidableEq

/-- What a request's failure says about the order's existence. -/
inductive RequestOutcome
  | acknowledged
  | rejected
  | unknown
  | notSent
  deriving DecidableEq

/-- Why a request failed. -/
inductive ExchangeErrorCategory
  | none
  | transport
  | authentication
  | invalidRequest
  | rateLimit
  | exchangeRejection
  | timeout
  | connectionFailure
  | unknownOrderState
  | unsupportedOperation
  | malformedResponse
  deriving DecidableEq

/-- Rejects pairs of category and outcome that cannot occur. -/
def isConsistent : ExchangeErrorCategory → RequestOutcome → Bool
  | .none, outcome => outcome = .acknowledged
  | _, .acknowledged => false
  | .timeout, outcome => outcome = .unknown
  | .unknownOrderState, outcome => outcome = .unknown
  | .malformedResponse, outcome => outcome = .unknown
  | .transport, outcome => outcome = .unknown || outcome = .notSent
  | .connectionFailure, outcome => outcome = .unknown || outcome = .notSent
  | .authentication, _ => true
  | .rateLimit, _ => true
  | .invalidRequest, _ => true
  | .exchangeRejection, outcome => outcome = .rejected
  | .unsupportedOperation, outcome => outcome = .notSent

/-- A normalized failure. -/
structure ExchangeError where
  category : ExchangeErrorCategory
  outcome : RequestOutcome
  reason : RejectReason
  deriving DecidableEq

def ExchangeError.isError (error : ExchangeError) : Bool := error.category ≠ .none

/-- Which request a failure refers to. -/
inductive RequestKind
  | none
  | submit
  | cancel
  | replace
  | queryOrder
  | queryOpenOrders
  | queryBalances
  | queryPositions
  | massCancel
  deriving DecidableEq

structure OrderRequest where
  clientOrderId : ClientOrderId
  symbol : Symbol
  side : Side
  type : OrderType
  tif : TimeInForce
  price : Px
  quantity : Qty
  postOnly : Bool
  reduceOnly : Bool := false
  createdNs : Nanos
  deriving DecidableEq

structure CancelRequest where
  clientOrderId : ClientOrderId
  exchangeOrderId : ExchangeOrderId
  symbol : Symbol
  createdNs : Nanos
  deriving DecidableEq

structure ReplaceRequest where
  originalClientOrderId : ClientOrderId
  originalExchangeOrderId : ExchangeOrderId
  newClientOrderId : ClientOrderId
  symbol : Symbol
  newPrice : Px
  newQuantity : Qty
  createdNs : Nanos
  deriving DecidableEq

structure OrderAckEvent where
  clientOrderId : ClientOrderId
  exchangeOrderId : ExchangeOrderId
  symbol : Symbol
  side : Side
  price : Px
  originalQty : Qty
  cumulativeQty : Qty
  status : OrderStatus
  transactNs : Nanos
  seq : Seq
  deriving DecidableEq

structure OrderRejectEvent where
  clientOrderId : ClientOrderId
  symbol : Symbol
  error : ExchangeError
  transactNs : Nanos
  seq : Seq
  deriving DecidableEq

structure OrderCancelEvent where
  clientOrderId : ClientOrderId
  exchangeOrderId : ExchangeOrderId
  symbol : Symbol
  cancelStatus : CancelStatus
  orderStatus : OrderStatus
  cumulativeQty : Qty
  leavesQty : Qty
  error : ExchangeError
  transactNs : Nanos
  seq : Seq
  deriving DecidableEq

structure OrderReplaceEvent where
  originalClientOrderId : ClientOrderId
  newClientOrderId : ClientOrderId
  originalExchangeOrderId : ExchangeOrderId
  newExchangeOrderId : ExchangeOrderId
  symbol : Symbol
  accepted : Bool
  newStatus : OrderStatus
  newPrice : Px
  newQty : Qty
  cumulativeQty : Qty
  error : ExchangeError
  transactNs : Nanos
  seq : Seq
  deriving DecidableEq

structure FillEvent where
  clientOrderId : ClientOrderId
  exchangeOrderId : ExchangeOrderId
  tradeId : TradeId
  symbol : Symbol
  side : Side
  price : Px
  quantity : Qty
  cumulativeQty : Qty
  leavesQty : Qty
  fee : Notional
  liquidity : Liquidity
  orderStatus : OrderStatus
  transactNs : Nanos
  seq : Seq
  deriving DecidableEq

structure RequestFailureEvent where
  kind : RequestKind
  clientOrderId : ClientOrderId
  exchangeOrderId : ExchangeOrderId
  symbol : Symbol
  error : ExchangeError
  deriving DecidableEq

/-- One order as the venue currently reports it. -/
structure OrderStatusReport where
  clientOrderId : ClientOrderId
  exchangeOrderId : ExchangeOrderId
  symbol : Symbol
  side : Side
  price : Px
  originalQty : Qty
  cumulativeQty : Qty
  status : OrderStatus
  transactNs : Nanos
  deriving DecidableEq

/-- An event of the execution stream. The last constructor stands for the
event types the order manager ignores (balances, positions, connection
transitions, open-order listings and single-order reports), of which it sees
only whether they are well formed. -/
inductive ExecutionEvent
  | none
  | orderAck (ack : OrderAckEvent)
  | orderReject (reject : OrderRejectEvent)
  | orderCancel (cancel : OrderCancelEvent)
  | orderReplace (replace : OrderReplaceEvent)
  | fill (fill : FillEvent)
  | requestFailure (failure : RequestFailureEvent)
  | other (wellFormed : Bool)
  deriving DecidableEq

def OrderAckEvent.validate (e : OrderAckEvent) : Status :=
  if e.clientOrderId.isEmpty then
    .error .invalidArgument "ack has no client order id"
  else if !e.originalQty.isPositive then
    .error .invalidArgument "ack has non-positive original quantity"
  else if e.cumulativeQty.raw > e.originalQty.raw then
    .error .invalidArgument "ack cumulative quantity exceeds original"
  else if e.cumulativeQty.isNegative then
    .error .invalidArgument "ack cumulative quantity is negative"
  else .ok

def OrderRejectEvent.validate (e : OrderRejectEvent) : Status :=
  if e.clientOrderId.isEmpty then
    .error .invalidArgument "reject has no client order id"
  else if e.error.outcome ≠ .rejected then
    .error .internal
      ("reject event does not carry RequestOutcome::Rejected - " ++
        "an uncertain outcome must be reported as a RequestFailureEvent")
  else if !e.error.isError then
    .error .invalidArgument "reject event carries no error"
  else .ok

def OrderCancelEvent.validate (e : OrderCancelEvent) : Status :=
  if e.clientOrderId.isEmpty && e.exchangeOrderId.isEmpty then
    .error .invalidArgument "cancel event identifies no order"
  else if e.cumulativeQty.isNegative || e.leavesQty.isNegative then
    .error .invalidArgument "cancel event has negative quantities"
  -- A refused cancel leaves the order working, so a terminal status with it is
  -- a contradiction; a fill is the one terminal status that is not.
  else if e.cancelStatus = .rejected && e.orderStatus.isTerminal && e.orderStatus ≠ .filled then
    .error .internal
      "cancel was rejected, so the order is still working, but it is reported terminal"
  else if !isConsistent e.error.category e.error.outcome then
    .error .internal "cancel event carries an inconsistent error"
  else .ok

def OrderReplaceEvent.validate (e : OrderReplaceEvent) : Status :=
  if e.newClientOrderId.isEmpty then
    .error .invalidArgument "replace event has no new client order id"
  else if e.accepted && e.error.isError then
    .error .internal "replace is both accepted and failed"
  else if !isConsistent e.error.category e.error.outcome then
    .error .internal "replace event carries an inconsistent error"
  else .ok

def FillEvent.validate (e : FillEvent) : Status :=
  if e.clientOrderId.isEmpty then
    .error .invalidArgument "fill has no client order id"
  else if e.tradeId.isEmpty then
    .error .invalidArgument "fill has no trade id"
  else if !e.quantity.isPositive then
    .error .invalidArgument "fill quantity must be positive"
  else if !e.price.isPositive then
    .error .invalidArgument "fill price must be positive"
  else if e.cumulativeQty.raw < e.quantity.raw then
    .error .invalidArgument "fill cumulative quantity is below this fill's quantity"
  else if e.leavesQty.isNegative then
    .error .invalidArgument "fill leaves quantity is negative"
  else .ok

def RequestFailureEvent.validate (e : RequestFailureEvent) : Status :=
  if e.kind = .none then
    .error .invalidArgument "request failure has no request kind"
  else if !e.error.isError then
    .error .invalidArgument "request failure carries no error"
  else if e.error.outcome = .acknowledged then
    .error .internal "request failure claims the request succeeded"
  else if !isConsistent e.error.category e.error.outcome then
    .error .internal "request failure carries an inconsistent error"
  else .ok

/-- Checks an event for self-contradiction before the order manager acts on it. -/
def validateExecutionEvent : ExecutionEvent → Status
  | .none => .error .invalidArgument "execution event has no type"
  | .orderAck ack => ack.validate
  | .orderReject reject => reject.validate
  | .orderCancel cancel => cancel.validate
  | .orderReplace replace => replace.validate
  | .fill fill => fill.validate
  | .requestFailure failure => failure.validate
  | .other wellFormed => if wellFormed then .ok else .error .invalidArgument "malformed event"

/-- A fill that passed validation has a positive price and quantity. -/
theorem FillEvent.positive_of_validate {e : FillEvent} (h : e.validate.isError = false) :
    0 < e.quantity.raw ∧ 0 < e.price.raw := by
  unfold FillEvent.validate at h
  repeat' split at h
  all_goals simp_all [Status.isError]

/-- A venue adapter, seen from the order manager: it takes a request, may change
its own state, and answers synchronously whether it took the request. Any
adapter is one of these, whatever it does behind the call. -/
structure IExchangeExecution (σ : Type) where
  submit : OrderRequest → σ → Status × σ
  cancel : CancelRequest → σ → Status × σ
  replace : ReplaceRequest → σ → Status × σ

end MmEngine.Exchange
