/-
# The paper venue

A simulated venue behind the execution interface. A request is held for its
latency before the venue looks at it, and every answer is scheduled as an event
that a later poll delivers; nothing is answered inside a request. A cancel is
applied when its confirmation is delivered, so the order can still fill in
between. The venue's orders are its own.

The venue owns no thread, so its operations are functions on one state. The two
clocks are readings held in that state, and time passes between operations. An
event starts from an all-zero payload, whose error says that nothing failed.

The answer to a query carries the rows it reports next to the event, of which
the order manager sees only that it is there. Instrument handles, traces and
latency stamps are left out.
-/

import MmEngine.Exchange.Paper.PaperMatcher
import Mathlib.Data.List.AList
import Mathlib.Data.Nat.Digits.Defs

namespace MmEngine.Exchange.Paper

/-- What happens to a post-only order that would cross on arrival. -/
inductive PostOnlyPolicy
  | reject
  | expire
  deriving DecidableEq

/-- Whether the venue offers atomic replace. -/
inductive ReplaceMode
  | atomic
  | unsupported
  deriving DecidableEq

/-- Latency of each stage. -/
structure PaperLatency where
  requestNs : Nanos := 500000
  ackNs : Nanos := 1500000
  cancelNs : Nanos := 1500000
  replaceNs : Nanos := 2000000
  fillNs : Nanos := 1000000
  queryNs : Nanos := 5000000
  deriving DecidableEq

/-- Injected faults: counts that are used up, never probabilities. -/
structure PaperFaults where
  rejectNextNew : Nat := 0
  rejectNextCancel : Nat := 0
  rejectNextReplace : Nat := 0
  dropNextRequest : Nat := 0
  duplicateNextEvent : Nat := 0
  reorderNextEvent : Nat := 0
  delayNextRequestNs : Nanos := 0
  hideNextSnapshotOrders : Nat := 0
  errorNextRequest : Nat := 0
  deriving DecidableEq

structure PaperExecutionConfig where
  latency : PaperLatency := {}
  fillModel : FillModel := .displayedLiquidity
  postOnlyPolicy : PostOnlyPolicy := .reject
  replaceMode : ReplaceMode := .atomic
  /-- The share of displayed liquidity an order may take, in basis points. -/
  queueShareBps : Nat := 5000
  /-- A book older than this produces no fills. -/
  maxBookAgeNs : Nanos := 500000000
  maxPendingEvents : Nat := 4096
  maxOrders : Nat := 1024
  makerFeeBps : Int := 10
  takerFeeBps : Int := 40
  deriving DecidableEq

structure PaperMetrics where
  newRequests : Nat := 0
  newAcks : Nat := 0
  newRejects : Nat := 0
  cancelRequests : Nat := 0
  cancelAcks : Nat := 0
  cancelRejects : Nat := 0
  replaceRequests : Nat := 0
  replaceAcks : Nat := 0
  replaceRejects : Nat := 0
  fills : Nat := 0
  partialFills : Nat := 0
  expiries : Nat := 0
  executionErrors : Nat := 0
  connectionTransitions : Nat := 0
  snapshots : Nat := 0
  eventsEmitted : Nat := 0
  eventsDropped : Nat := 0
  requestsDropped : Nat := 0
  duplicatesInjected : Nat := 0
  reordersInjected : Nat := 0
  staleBookSkips : Nat := 0
  postOnlyRejections : Nat := 0
  simulatedLatencyNs : Nanos := 0
  deriving DecidableEq

inductive ConnectionState
  | disconnected
  | connecting
  | connected
  | reconnecting
  | failed
  deriving DecidableEq

/-- The longest client identity the venue takes. -/
def kMaxClientOrderIdLen : Nat := 36

/-- A request on its way to the venue. -/
inductive Request
  | submit (request : OrderRequest)
  | cancel (request : CancelRequest)
  | replace (request : ReplaceRequest)
  deriving DecidableEq

structure PendingRequest where
  dueNs : Nanos
  ordinal : Nat
  request : Request
  decisionDelayNs : Nanos
  deriving DecidableEq

/-- An event waiting out its latency. Equal due times resolve by emission order. -/
structure Scheduled where
  dueNs : Nanos
  ordinal : Nat
  event : ExecutionEvent
  deriving DecidableEq

structure PaperExecution where
  config : PaperExecutionConfig
  faults : PaperFaults := {}
  /-- The steady clock. -/
  clock : Nanos
  /-- The wall clock. -/
  wall : Nanos
  /-- Whether a sink is attached. -/
  started : Bool := false
  connection : ConnectionState := .disconnected
  authenticated : Bool := false
  /-- In arrival order. -/
  orders : List PaperOrder := []
  byClientId : AList fun _ : ClientOrderId => Nat := ∅
  byExchangeId : AList fun _ : ExchangeOrderId => Nat := ∅
  books : AList fun _ : Symbol => BookView := ∅
  bookUpdatedNs : AList fun _ : Symbol => Nanos := ∅
  pending : List Scheduled := []
  inFlight : List PendingRequest := []
  /-- When the request being processed arrived, zero outside of that. -/
  processingArrivalNs : Nanos := 0
  nextExchangeSeq : Nat := 1
  nextTradeSeq : Nat := 1
  nextArrivalSeq : Nat := 1
  /-- How many requests and events have been numbered. -/
  nextOrdinal : Nat := 0
  seq : Seq := 0
  metrics : PaperMetrics := {}

/-- The error of an event that reports no failure. -/
def noError : ExchangeError := ⟨.none, .acknowledged, .none⟩

/-- A decimal numeral of at least eleven digits after a two-letter tag. -/
def mintText (tag : List Char) (number : Nat) : List Char :=
  tag ++ (((Nat.digits 10 (number % 2 ^ 64)).reverse.map Nat.digitChar).leftpad 11 '0')

/-- What 64 bits keep of a sum of times. -/
def wrapNs (sum : Int) : Nanos := Int.bmod sum (2 ^ 64)

/-- Sooner first, and earlier emitted first among equals. -/
def comesBefore (dueA : Nanos) (ordinalA : Nat) (dueB : Nanos) (ordinalB : Nat) : Bool :=
  if dueA ≠ dueB then decide (dueA < dueB) else decide (ordinalA ≤ ordinalB)

namespace PaperExecution

variable (v : PaperExecution)

/-- Updates the metrics. -/
def count (bump : PaperMetrics → PaperMetrics) : PaperExecution :=
  { v with metrics := bump v.metrics }

/-! ## Lifecycle -/

/-- Moves the connection state. The transition is emitted at once. -/
def setConnection (state : ConnectionState) : List ExecutionEvent × PaperExecution :=
  if state = v.connection then ([], v)
  else
    (if v.started then [.other true] else [],
      { v with connection := state }.count fun k =>
        { k with
          connectionTransitions := k.connectionTransitions + 1
          eventsEmitted := if v.started then k.eventsEmitted + 1 else k.eventsEmitted })

def start : List ExecutionEvent × PaperExecution :=
  let connecting := { v with started := true }.setConnection .connecting
  let connected := { connecting.2 with authenticated := true }.setConnection .connected
  (connecting.1 ++ connected.1, connected.2)

/-- Closes the transport. What waits on it is lost, and resting orders stay. -/
def stop : List ExecutionEvent × PaperExecution :=
  if !v.started then ([], v)
  else
    let closed := { v with inFlight := [] }.setConnection .disconnected
    (closed.1, { closed.2 with started := false, pending := [] })

def setAuthenticated (authenticated : Bool) : PaperExecution :=
  { v with authenticated := authenticated }

/-- Sets the faults to come. -/
def inject (faults : PaperFaults) : PaperExecution := { v with faults := faults }

def requireConnected : Status :=
  if !v.started then .error .unavailable "paper execution not started"
  else if v.connection ≠ .connected then .error .unavailable "paper venue not connected"
  else if !v.authenticated then .error .permissionDenied "paper venue not authenticated"
  else .ok

def findOrder (id : ClientOrderId) : Option (Nat × PaperOrder) :=
  (v.byClientId.lookup id).bind fun index => (v.orders[index]?).map fun order => (index, order)

def findOrderByExchangeId (id : ExchangeOrderId) : Option (Nat × PaperOrder) :=
  (v.byExchangeId.lookup id).bind fun index => (v.orders[index]?).map fun order => (index, order)

def setOrder (index : Nat) (order : PaperOrder) : PaperExecution :=
  { v with orders := v.orders.set index order }

/-- The next venue identity; its number is then used up. -/
def nextExchangeId : ExchangeOrderId :=
  (InlineString.assign (mintText ['P', 'X'] v.nextExchangeSeq)).1

def nextTradeId : TradeId := (InlineString.assign (mintText ['P', 'T'] v.nextTradeSeq)).1

def nextSeq : Seq := v.seq + 1

/-- Uses up an update sequence. -/
def advanceSeq : PaperExecution := { v with seq := v.nextSeq }

/-- The number the next request or event is given. -/
def ordinal : Nat := v.nextOrdinal % 2 ^ 64

def scheduleAt (dueNs : Nanos) (event : ExecutionEvent) : PaperExecution :=
  if v.config.maxPendingEvents ≤ v.pending.length then
    v.count fun k => { k with eventsDropped := k.eventsDropped + 1 }
  else
    let scheduled : Scheduled := { dueNs := dueNs, ordinal := v.ordinal, event := event }
    let after :=
      { v with
        pending := v.pending ++ [scheduled]
        nextOrdinal := v.nextOrdinal + 1 }.count fun k =>
          { k with
            simulatedLatencyNs :=
              wrapNs (k.simulatedLatencyNs + (if v.clock < dueNs then dueNs - v.clock else 0)) }
    if v.faults.duplicateNextEvent = 0 then after
    else
      { after with
        pending := after.pending ++ [{ scheduled with ordinal := after.ordinal }]
        nextOrdinal := after.nextOrdinal + 1
        faults := { v.faults with duplicateNextEvent := v.faults.duplicateNextEvent - 1 } }.count
          fun k => { k with duplicatesInjected := k.duplicatesInjected + 1 }

/-- What an event scheduled now is dated from. While a request is processed, its answers
are dated from the moment it arrived. -/
def base : Nanos := if v.processingArrivalNs ≠ 0 then v.processingArrivalNs else v.clock

/-- Schedules an event. -/
def schedule (delay : Nanos) (event : ExecutionEvent) : PaperExecution :=
  v.scheduleAt (wrapNs (v.base + delay)) event

end PaperExecution

/-- The order with a match applied to it. -/
def PaperOrder.applyMatch (order : PaperOrder) (result : MatchResult) (atNs : Nanos) : PaperOrder :=
  match Fixed.checkedAdd order.cumulativeQty result.quantity with
  | none => order
  | some next =>
      if order.originalQty.raw < next.raw then order
      else
        let filled := { order with cumulativeQty := next, lastEventNs := atNs }
        { filled with
          status := if filled.remaining.isZero then .filled else .partiallyFilled }

namespace PaperExecution

variable (v : PaperExecution)

def fillEvent (order : PaperOrder) (result : MatchResult) : FillEvent where
  clientOrderId := order.clientOrderId
  exchangeOrderId := order.exchangeOrderId
  tradeId := v.nextTradeId
  symbol := order.symbol
  side := order.side
  price := result.price
  quantity := result.quantity
  cumulativeQty := order.cumulativeQty
  leavesQty := order.remaining
  fee := Fixed.narrow
    (((notionalOf result.price result.quantity).raw *
      (if result.liquidity = .taker then v.config.takerFeeBps
        else v.config.makerFeeBps)).tdiv 10000)
  liquidity := result.liquidity
  orderStatus := order.status
  transactNs := v.wall
  seq := v.nextSeq

def scheduleFill (order : PaperOrder) (result : MatchResult) (delay : Nanos) : PaperExecution :=
  let counted := v.count fun k =>
    if order.remaining.isZero then { k with fills := k.fills + 1 }
    else { k with partialFills := k.partialFills + 1 }
  { counted.advanceSeq with nextTradeSeq := v.nextTradeSeq + 1 }.schedule delay
    (.fill (v.fillEvent order result))

/-- When a request made now reaches the venue. -/
def requestDueNs : Nanos :=
  wrapNs (v.clock + v.config.latency.requestNs + v.faults.delayNextRequestNs)

/-- Hands a request to the transport. An injected delay is used up by it. -/
def enqueueRequest (request : Request) (decisionDelayNs : Nanos) : PaperExecution :=
  { v with
    inFlight := v.inFlight ++
      [{ dueNs := v.requestDueNs
         ordinal := v.ordinal
         request := request
         decisionDelayNs := decisionDelayNs }]
    nextOrdinal := v.nextOrdinal + 1
    faults := { v.faults with delayNextRequestNs := 0 } }

/-- Takes a request the checks let through, unless an injected fault drops it. -/
def takeRequest (request : Request) (decisionDelayNs : Nanos) : PaperExecution :=
  if v.faults.dropNextRequest = 0 then v.enqueueRequest request decisionDelayNs
  else
    { v with faults := { v.faults with dropNextRequest := v.faults.dropNextRequest - 1 } }.count
      fun k => { k with requestsDropped := k.requestsDropped + 1 }

def submit (request : OrderRequest) : Status × PaperExecution :=
  if v.requireConnected.isError then (v.requireConnected, v)
  else if v.config.maxOrders ≤ v.orders.length then
    (.error .overflow "paper venue order capacity reached", v)
  else if request.clientOrderId.isEmpty then
    (.error .invalidArgument "client order id required", v)
  else if kMaxClientOrderIdLen < request.clientOrderId.chars.length then
    (.error .invalidArgument "client order id too long for this venue", v)
  else if (v.findOrder request.clientOrderId).isSome then
    (.error .alreadyExists "duplicate client order id", v)
  else if request.type ≠ .limit && request.type ≠ .limitMaker then
    (.error .failedPrecondition "paper venue implements LIMIT only", v)
  else if !request.price.isPositive || !request.quantity.isPositive then
    (.error .invalidArgument "price and quantity must be positive", v)
  else
    let counted := v.count fun k => { k with newRequests := k.newRequests + 1 }
    (.ok, counted.takeRequest (.submit request) v.config.latency.ackNs)

def rejectOrder (request : OrderRequest) (reason : RejectReason) (delay : Nanos) : PaperExecution :=
  let counted := v.count fun k => { k with newRejects := k.newRejects + 1 }
  counted.advanceSeq.schedule delay
    (.orderReject
      { clientOrderId := request.clientOrderId
        symbol := request.symbol
        error := ⟨.exchangeRejection, .rejected, reason⟩
        transactNs := v.wall
        seq := v.nextSeq })

/-- The venue's record of an order as it arrives. -/
def arrivingOrder (request : OrderRequest) : PaperOrder where
  exchangeOrderId := v.nextExchangeId
  clientOrderId := request.clientOrderId
  symbol := request.symbol
  side := request.side
  type := request.type
  tif := request.tif
  postOnly := request.postOnly || request.type = .limitMaker
  price := request.price
  originalQty := request.quantity
  arrivalSequence := v.nextArrivalSeq
  acceptedNs := v.clock
  lastEventNs := v.clock

/-- Reports a post-only order that would cross as expired. -/
def expireOrder (order : PaperOrder) (delay : Nanos) : PaperExecution :=
  let counted := v.count fun k => { k with expiries := k.expiries + 1 }
  counted.advanceSeq.schedule delay
    (.orderCancel
      { clientOrderId := order.clientOrderId
        exchangeOrderId := order.exchangeOrderId
        symbol := order.symbol
        cancelStatus := .accepted
        orderStatus := .expired
        cumulativeQty := .zero
        leavesQty := .zero
        error := noError
        transactNs := v.wall
        seq := v.nextSeq })

/-- Adds an order to the venue and schedules its acknowledgement. -/
def listOrder (order : PaperOrder) (delay : Nanos) : PaperExecution :=
  let listed :=
    { v with
      orders := v.orders ++ [order]
      byClientId := v.byClientId.insert order.clientOrderId v.orders.length
      byExchangeId := v.byExchangeId.insert order.exchangeOrderId v.orders.length }.count
        fun k => { k with newAcks := k.newAcks + 1 }
  listed.advanceSeq.schedule delay
    (.orderAck
      { clientOrderId := order.clientOrderId
        exchangeOrderId := order.exchangeOrderId
        symbol := order.symbol
        side := order.side
        price := order.price
        originalQty := order.originalQty
        cumulativeQty := .zero
        status := .new
        transactNs := v.wall
        seq := v.nextSeq })

/-- Executes what an arriving order takes at once, after its acknowledgement. -/
def takeOnArrival (index : Nat) (order : PaperOrder) (book : BookView) (delay : Nanos) :
    PaperExecution :=
  let result := matchAgainstBook order book v.config.fillModel v.config.queueShareBps
  if result.quantity.isPositive then
    let taker := { result with liquidity := .taker }
    let filled := order.applyMatch taker v.clock
    -- Whether this sum wraps makes no difference, because the due time does.
    (v.setOrder index filled).scheduleFill filled taker (delay + v.config.latency.fillNs)
  else v

def acceptOrder (request : OrderRequest) (delay : Nanos) : PaperExecution :=
  let order := v.arrivingOrder request
  let numbered :=
    { v with
      nextExchangeSeq := v.nextExchangeSeq + 1
      nextArrivalSeq := v.nextArrivalSeq + 1 }
  match v.books.lookup request.symbol with
  | none => numbered.listOrder order delay
  | some book =>
      if !isMarketableOnArrival order book then numbered.listOrder order delay
      else if order.postOnly then
        let counted := numbered.count fun k =>
          { k with postOnlyRejections := k.postOnlyRejections + 1 }
        if v.config.postOnlyPolicy = .reject then
          counted.rejectOrder request .postOnlyWouldCross delay
        else counted.expireOrder order delay
      else (numbered.listOrder order delay).takeOnArrival v.orders.length order book delay

def processSubmit (request : OrderRequest) (delay : Nanos) : PaperExecution :=
  if v.faults.errorNextRequest ≠ 0 then
    let faulted :=
      { v with faults := { v.faults with errorNextRequest := v.faults.errorNextRequest - 1 } }.count
        fun k => { k with executionErrors := k.executionErrors + 1 }
    faulted.schedule delay
      (.requestFailure
        { kind := .submit
          clientOrderId := request.clientOrderId
          exchangeOrderId := .empty
          symbol := request.symbol
          error := ⟨.transport, .unknown, .none⟩ })
  else if v.faults.rejectNextNew ≠ 0 then
    { v with faults := { v.faults with rejectNextNew := v.faults.rejectNextNew - 1 } }.rejectOrder
      request .internalError delay
  else if (v.findOrder request.clientOrderId).isSome then
    v.rejectOrder request .duplicateClientOrderId delay
  else v.acceptOrder request delay

def cancel (request : CancelRequest) : Status × PaperExecution :=
  if !v.started then (.error .unavailable "paper execution not started", v)
  else if v.connection = .disconnected || v.connection = .failed then
    (.error .unavailable "paper venue not connected", v)
  else if request.clientOrderId.isEmpty && request.exchangeOrderId.isEmpty then
    (.error .invalidArgument "cancel identifies no order", v)
  else
    let counted := v.count fun k => { k with cancelRequests := k.cancelRequests + 1 }
    (.ok, counted.takeRequest (.cancel request) v.config.latency.cancelNs)

/-- The answer to a cancel, before its outcome is known. -/
def cancelAnswer (request : CancelRequest) : OrderCancelEvent where
  clientOrderId := request.clientOrderId
  exchangeOrderId := request.exchangeOrderId
  symbol := request.symbol
  cancelStatus := .unknown
  orderStatus := .unknown
  cumulativeQty := .zero
  leavesQty := .zero
  error := noError
  transactNs := v.wall
  seq := v.nextSeq

/-- The order a cancel names, by client identity and then by venue identity. -/
def cancelTarget (request : CancelRequest) : Option (Nat × PaperOrder) :=
  (v.findOrder request.clientOrderId).or
    (if request.exchangeOrderId.isEmpty then none
      else v.findOrderByExchangeId request.exchangeOrderId)

def countCancelReject : PaperExecution :=
  v.count fun k => { k with cancelRejects := k.cancelRejects + 1 }

def processCancel (request : CancelRequest) (delay : Nanos) : PaperExecution :=
  let answer := v.cancelAnswer request
  let numbered := v.advanceSeq
  match v.cancelTarget request with
  | none =>
      numbered.countCancelReject.schedule delay
        (.orderCancel
          { answer with
            cancelStatus := .orderNotFound
            error := ⟨.unknownOrderState, .unknown, .unknownOrder⟩ })
  | some (index, order) =>
      if v.faults.rejectNextCancel ≠ 0 then
        { numbered.countCancelReject with
          faults :=
            { v.faults with rejectNextCancel := v.faults.rejectNextCancel - 1 } }.schedule delay
          (.orderCancel
            { answer with
              cancelStatus := .rejected
              orderStatus := order.status
              cumulativeQty := order.cumulativeQty
              leavesQty := order.remaining
              error := ⟨.exchangeRejection, .rejected, .none⟩ })
      else if order.isTerminal then
        numbered.countCancelReject.schedule delay
          (.orderCancel
            { answer with
              cancelStatus := if order.status = .filled then .tooLate else .orderNotFound
              orderStatus := order.status
              cumulativeQty := order.cumulativeQty })
      else
        -- Accepted, but applied only when the confirmation is delivered.
        (numbered.setOrder index { order with cancelPending := true }).schedule delay
          (.orderCancel
            { answer with
              cancelStatus := .accepted
              orderStatus := .canceled
              exchangeOrderId := order.exchangeOrderId
              clientOrderId := order.clientOrderId
              cumulativeQty := order.cumulativeQty
              leavesQty := order.remaining })

/-- Asks for the cancellation of every resting order the filter lets through, and
stops at the first request that is refused. -/
def cancelEach (symbol : Symbol) : List PaperOrder → PaperExecution → Status × PaperExecution
  | [], v => (.ok, v)
  | order :: orders, v =>
      if !order.isResting || (!symbol.isEmpty && order.symbol ≠ symbol) then
        cancelEach symbol orders v
      else
        let asked := v.cancel
          { clientOrderId := order.clientOrderId
            exchangeOrderId := order.exchangeOrderId
            symbol := order.symbol
            createdNs := 0 }
        if asked.1.isError then asked else cancelEach symbol orders asked.2

def cancelAll (symbol : Symbol) : Status × PaperExecution :=
  if v.requireConnected.isError then (v.requireConnected, v)
  else cancelEach symbol v.orders v

def replace (request : ReplaceRequest) : Status × PaperExecution :=
  if v.config.replaceMode = .unsupported then
    (.error .invalidArgument "paper venue does not support atomic replace", v)
  else if v.requireConnected.isError then (v.requireConnected, v)
  else if !request.newPrice.isPositive || !request.newQuantity.isPositive then
    (.error .invalidArgument "replace price and quantity must be positive", v)
  else if request.newClientOrderId.isEmpty then
    (.error .invalidArgument "replace requires a new client order id", v)
  else
    let counted := v.count fun k => { k with replaceRequests := k.replaceRequests + 1 }
    (.ok, counted.takeRequest (.replace request) v.config.latency.replaceNs)

/-- The answer to a replace, before its outcome is known. -/
def replaceAnswer (request : ReplaceRequest) : OrderReplaceEvent where
  originalClientOrderId := request.originalClientOrderId
  newClientOrderId := request.newClientOrderId
  originalExchangeOrderId := .empty
  newExchangeOrderId := .empty
  symbol := request.symbol
  accepted := false
  newStatus := .unknown
  newPrice := .zero
  newQty := .zero
  cumulativeQty := .zero
  error := noError
  transactNs := v.wall
  seq := v.nextSeq

def countReplaceReject : PaperExecution :=
  v.count fun k => { k with replaceRejects := k.replaceRejects + 1 }

/-- The order under its replacement's identity and parameters. What has filled is
carried over, and a price change surrenders the place in the queue. -/
def replacedOrder (order : PaperOrder) (request : ReplaceRequest) : PaperOrder :=
  { order with
    exchangeOrderId := v.nextExchangeId
    clientOrderId := request.newClientOrderId
    price := request.newPrice
    originalQty := request.newQuantity
    status := if order.cumulativeQty.isPositive then .partiallyFilled else .new
    arrivalSequence :=
      if order.price ≠ request.newPrice then v.nextArrivalSeq else order.arrivalSequence
    lastEventNs := v.clock }

/-- Swaps an order for its replacement in the table and the indices. -/
def swapOrder (index : Nat) (order replaced : PaperOrder) : PaperExecution :=
  { v with
    orders := v.orders.set index replaced
    byClientId := (v.byClientId.erase order.clientOrderId).insert replaced.clientOrderId index
    byExchangeId :=
      (v.byExchangeId.erase order.exchangeOrderId).insert replaced.exchangeOrderId index
    nextExchangeSeq := v.nextExchangeSeq + 1
    nextArrivalSeq :=
      if order.price ≠ replaced.price then v.nextArrivalSeq + 1 else v.nextArrivalSeq }

def processReplace (request : ReplaceRequest) (delay : Nanos) : PaperExecution :=
  let answer := v.replaceAnswer request
  let numbered := v.advanceSeq
  match (v.findOrder request.originalClientOrderId).filter fun found => found.2.isResting with
  | none =>
      numbered.countReplaceReject.schedule delay
        (.orderReplace { answer with error := ⟨.unknownOrderState, .unknown, .unknownOrder⟩ })
  | some (index, order) =>
      if v.faults.rejectNextReplace ≠ 0 then
        { numbered.countReplaceReject with
          faults :=
            { v.faults with rejectNextReplace := v.faults.rejectNextReplace - 1 } }.schedule delay
          (.orderReplace
            { answer with
              originalExchangeOrderId := order.exchangeOrderId
              newPrice := order.price
              newQty := order.originalQty
              cumulativeQty := order.cumulativeQty
              error := ⟨.exchangeRejection, .rejected, .none⟩ })
      else if request.newQuantity.raw < order.cumulativeQty.raw then
        numbered.countReplaceReject.schedule delay
          (.orderReplace
            { answer with
              originalExchangeOrderId := order.exchangeOrderId
              error := ⟨.invalidRequest, .rejected, .quantityOutOfBounds⟩ })
      else
        let replaced := v.replacedOrder order request
        let counted := (numbered.swapOrder index order replaced).count fun k =>
          { k with replaceAcks := k.replaceAcks + 1 }
        counted.schedule delay
          (.orderReplace
            { answer with
              accepted := true
              originalExchangeOrderId := order.exchangeOrderId
              newExchangeOrderId := replaced.exchangeOrderId
              newStatus := replaced.status
              newPrice := replaced.price
              newQty := replaced.originalQty
              cumulativeQty := replaced.cumulativeQty })

/-! ## Queries -/

end PaperExecution

/-- How an order is reported. -/
def PaperOrder.report (order : PaperOrder) (wall : Nanos) : OrderStatusReport where
  clientOrderId := order.clientOrderId
  exchangeOrderId := order.exchangeOrderId
  symbol := order.symbol
  side := order.side
  price := order.price
  originalQty := order.originalQty
  cumulativeQty := order.cumulativeQty
  status := order.status
  transactNs := wall

/-- The most orders one event of a listing holds. -/
def kMaxOrdersPerSnapshotEvent : Nat := 4

namespace PaperExecution

variable (v : PaperExecution)

/-- The resting orders a listing reports. An injected fault hides the first ones. -/
def openOrderRows (symbol : Symbol) : List OrderStatusReport :=
  ((v.orders.filter fun order =>
    order.isResting && (symbol.isEmpty || order.symbol = symbol)).drop
      v.faults.hideNextSnapshotOrders).map fun order => order.report v.wall

/-- How many events a listing takes: one even when there is nothing to report. -/
def snapshotChunks (rows : List OrderStatusReport) : Nat :=
  if rows.isEmpty then 1
  else (rows.length + kMaxOrdersPerSnapshotEvent - 1) / kMaxOrdersPerSnapshotEvent

/-- Schedules one answer several times over. -/
def scheduleEach (delay : Nanos) (event : ExecutionEvent) : Nat → PaperExecution → PaperExecution
  | 0, v => v
  | chunks + 1, v => scheduleEach delay event chunks (v.schedule delay event)

def queryOpenOrders (symbol : Symbol) : Status × PaperExecution :=
  if v.requireConnected.isError then (v.requireConnected, v)
  else
    let asked :=
      { v with faults := { v.faults with hideNextSnapshotOrders := 0 } }.count fun k =>
        { k with snapshots := k.snapshots + 1 }
    (.ok, scheduleEach v.config.latency.queryNs (.other true)
      (snapshotChunks (v.openOrderRows symbol)) asked)

def queryOrder (clientOrderId : ClientOrderId) (exchangeOrderId : ExchangeOrderId) :
    Status × PaperExecution :=
  if v.requireConnected.isError then (v.requireConnected, v)
  else
    match (v.findOrder clientOrderId).or
      (if exchangeOrderId.isEmpty then none else v.findOrderByExchangeId exchangeOrderId) with
    | none =>
        (.ok, v.schedule v.config.latency.queryNs
          (.requestFailure
            { kind := .queryOrder
              clientOrderId := clientOrderId
              exchangeOrderId := exchangeOrderId
              symbol := .empty
              error := ⟨.unknownOrderState, .unknown, .unknownOrder⟩ }))
    | some _ => (.ok, v.schedule v.config.latency.queryNs (.other true))

/-- The book of a symbol changes. -/
def attachBook (symbol : Symbol) (book : BookView) : PaperExecution :=
  { v with books := v.books.insert symbol book }

/-- Price first, then arrival: the priority in which resting orders are matched. -/
def precedes (a b : PaperOrder) : Bool :=
  if a.side ≠ b.side then decide (a.side = .buy)
  else if a.price ≠ b.price then
    match a.side with
    | .buy => decide (b.price.raw < a.price.raw)
    | .sell => decide (a.price.raw < b.price.raw)
  else decide (a.arrivalSequence ≤ b.arrivalSequence)

end PaperExecution

/-- A market update under way: the venue and what is left of the two sides. -/
structure Sweep where
  venue : PaperExecution
  asksAvailable : List PriceLevel
  bidsAvailable : List PriceLevel

/-- Matches the order at one position. -/
def Sweep.matchOrder (now : Nanos) (sweep : Sweep) (index : Nat) : Sweep :=
  match sweep.venue.orders[index]? with
  | none => sweep
  | some order =>
      if !order.isResting then sweep
      else
        let config := sweep.venue.config
        let matched :=
          matchAndConsume order
            (match order.side with
              | .buy => sweep.asksAvailable
              | .sell => sweep.bidsAvailable) config.fillModel config.queueShareBps
        let result := matched.1
        { venue :=
            if result.quantity.isPositive then
              let filled := order.applyMatch result now
              (sweep.venue.setOrder index filled).scheduleFill filled result config.latency.fillNs
            else sweep.venue
          asksAvailable := if order.side = .buy then matched.2 else sweep.asksAvailable
          bidsAvailable := if order.side = .buy then sweep.bidsAvailable else matched.2 }

namespace PaperExecution

variable (v : PaperExecution)

/-- The priority, on positions of the table. -/
def matchesBefore (a b : Nat) : Bool :=
  match v.orders[a]?, v.orders[b]? with
  | some x, some y => precedes x y
  | _, _ => true

/-- The resting orders of a symbol, in priority order. -/
def matchingOrder (symbol : Symbol) : List Nat :=
  ((List.range v.orders.length).filter fun index =>
    (v.orders[index]?).any fun order => order.symbol = symbol && order.isResting).insertionSort
      fun a b => v.matchesBefore a b = true

def matchSymbol (symbol : Symbol) (now : Nanos) : PaperExecution :=
  match v.books.lookup symbol with
  | none => v
  | some book =>
      if !book.isValid then v
      else if v.config.maxBookAgeNs < now - (v.bookUpdatedNs.lookup symbol).getD 0 then
        v.count fun k => { k with staleBookSkips := k.staleBookSkips + 1 }
      else
        ((v.matchingOrder symbol).foldl (Sweep.matchOrder now)
          { venue := v
            asksAvailable := executableSide book .buy
            bidsAvailable := executableSide book .sell }).venue

def onMarketUpdate (symbol : Symbol) (updateNs : Nanos) : PaperExecution :=
  { v with bookUpdatedNs := v.bookUpdatedNs.insert symbol updateNs }.matchSymbol symbol v.clock

/-- Settles a cancel at the moment its confirmation is delivered: the market may
have filled the order since it was accepted. -/
def resolvePendingCancel (cancel : OrderCancelEvent) : OrderCancelEvent × PaperExecution :=
  match v.findOrder cancel.clientOrderId with
  | none =>
      ({ cancel with cancelStatus := .orderNotFound, orderStatus := .unknown }, v.countCancelReject)
  | some (index, order) =>
      let settled := { order with cancelPending := false }
      if order.status = .filled then
        ({ cancel with
            cancelStatus := .tooLate
            orderStatus := .filled
            cumulativeQty := order.cumulativeQty
            leavesQty := .zero }, (v.setOrder index settled).countCancelReject)
      else if order.isTerminal then
        ({ cancel with cancelStatus := .orderNotFound, orderStatus := order.status },
          (v.setOrder index settled).countCancelReject)
      else
        ({ cancel with
            cancelStatus := .accepted
            orderStatus := .canceled
            cumulativeQty := order.cumulativeQty
            leavesQty := order.remaining },
          (v.setOrder index { settled with status := .canceled, lastEventNs := v.clock }).count
            fun k => { k with cancelAcks := k.cancelAcks + 1 })

/-- Delivers one event that is due. -/
def deliver (event : ExecutionEvent) : ExecutionEvent × PaperExecution :=
  let outcome : ExecutionEvent × PaperExecution :=
    match event with
    | .orderCancel cancel =>
        if cancel.cancelStatus = .accepted && cancel.orderStatus = .canceled then
          let settled := v.resolvePendingCancel cancel
          (.orderCancel settled.1, settled.2)
        else (event, v)
    | _ => (event, v)
  (outcome.1, outcome.2.count fun k => { k with eventsEmitted := k.eventsEmitted + 1 })

/-- Delivers due events in the given order. -/
def deliverAll : List ExecutionEvent → PaperExecution → List ExecutionEvent × PaperExecution
  | [], v => ([], v)
  | event :: events, v =>
      let step := v.deliver event
      let rest := deliverAll events step.2
      (step.1 :: rest.1, rest.2)

def processRequest (pending : PendingRequest) : PaperExecution :=
  let processing := { v with processingArrivalNs := pending.dueNs }
  let processed :=
    match pending.request with
    | .submit request => processing.processSubmit request pending.decisionDelayNs
    | .cancel request => processing.processCancel request pending.decisionDelayNs
    | .replace request => processing.processReplace request pending.decisionDelayNs
  { processed with processingArrivalNs := 0 }

/-- The requests that have reached the venue, in the order they are processed. -/
def arrived : List PendingRequest :=
  (v.inFlight.filter fun request => request.dueNs ≤ v.clock).insertionSort fun a b =>
    comesBefore a.dueNs a.ordinal b.dueNs b.ordinal = true

/-- Processes the requests that have reached the venue. -/
def processArrived : PaperExecution :=
  v.arrived.foldl processRequest
    { v with inFlight := v.inFlight.filter fun request => ¬ request.dueNs ≤ v.clock }

/-- The injected reordering: the last due event changes places with the one
before it, once for each count. -/
def reorderDue : Nat → List Scheduled → List Scheduled
  | 0, due => due
  | faults + 1, due =>
      match due.reverse with
      | last :: previous :: earlier => reorderDue faults ((previous :: last :: earlier).reverse)
      | _ => due

/-- The events whose latency has elapsed, in the order they are delivered. -/
def dueEvents : List Scheduled :=
  reorderDue v.faults.reorderNextEvent
    ((v.pending.filter fun scheduled => scheduled.dueNs ≤ v.clock).insertionSort fun a b =>
      comesBefore a.dueNs a.ordinal b.dueNs b.ordinal = true)

/-- Delivers everything whose latency has elapsed: requests to the venue first,
then its events to the sink. -/
def poll : List ExecutionEvent × PaperExecution :=
  if !v.started then ([], v)
  else
    let processed := v.processArrived
    let due := processed.dueEvents
    let reordered := if due.length < 2 then 0 else processed.faults.reorderNextEvent
    deliverAll (due.map Scheduled.event)
      ({ processed with
        pending := processed.pending.filter fun scheduled => ¬ scheduled.dueNs ≤ v.clock
        faults :=
          { processed.faults with
            reorderNextEvent := processed.faults.reorderNextEvent - reordered } }.count fun k =>
          { k with reordersInjected := k.reordersInjected + reordered })

/-- Time passes on both clocks. -/
def advance (elapsed : Nat) : PaperExecution :=
  { v with clock := v.clock + elapsed, wall := v.wall + elapsed }

/-- The venue before it is started. -/
def init (config : PaperExecutionConfig) (clock wall : Nanos) : PaperExecution :=
  { config := config, clock := clock, wall := wall }

/-- The venue behind the execution interface. -/
def port : IExchangeExecution PaperExecution where
  submit request v := v.submit request
  cancel request v := v.cancel request
  replace request v := v.replace request

end PaperExecution

end MmEngine.Exchange.Paper
