/-
# Applying execution events

One handler for each event type. A handler looks the order up, discards what is
not news, moves the record and, when the event settles what a deferred New may
be waiting on, names the order whose deferrals are released: releasing is the
last thing every handler does, so it is performed once, in `apply`.

The events arrive through a bounded queue. Enqueueing changes nothing else, and
the queue is drained in order.
-/

import MmEngine.Oms.Submit

namespace MmEngine.Oms

open MmEngine.Exchange MmEngine.Quote

namespace OrderRecord

/-- The record with the venue's time of its last event. -/
def stamped (order : OrderRecord) (venueNs : Nanos) : OrderRecord :=
  { order with venueNs := venueNs }

/-- The record with another ring of applied trades. -/
def withTrades (order : OrderRecord) (seen : SeenTradeIds) : OrderRecord :=
  { order with seenTrades := seen }

/-- The record filled to its size. -/
def completed (order : OrderRecord) : OrderRecord :=
  { order with cumulativeQuantity := order.originalQuantity }

/-- The target of an acknowledgement: the reported status, with an
uninformative one read as working. -/
def ackTarget (status : OrderStatus) : OrderState :=
  if fromVenueStatus status = .unknown then .working else fromVenueStatus status

/-- The acknowledged record, before its transition. -/
def acknowledged (order : OrderRecord) (ack : OrderAckEvent) (now : Nanos) : OrderRecord :=
  { order with
    pendingRequest := 0
    pendingSinceNs := 0
    acknowledgedNs := now
    venueNs := ack.transactNs
    lastAppliedSequence := ack.seq }

/-- Books a fill whose trade identifier is already recorded: checks the
arithmetic, moves the cumulative quantity and the volume-weighted average. Fees
that do not fit are dropped. -/
def bookFill (order : OrderRecord) (fill : FillEvent) : Except OmsReject OrderRecord :=
  match Fixed.checkedAdd order.cumulativeQuantity fill.quantity with
  | none => .error .arithmeticOverflow
  | some newCumulative =>
      if order.originalQuantity.raw < newCumulative.raw then .error .impossibleFill
      else
        match checkedNotionalOf order.averageFillPrice order.cumulativeQuantity,
            checkedNotionalOf fill.price fill.quantity with
        | some previousValue, some fillValue =>
            match Fixed.checkedAdd previousValue fillValue with
            | none => .error .arithmeticOverflow
            | some totalValue =>
                .ok { order with
                  cumulativeQuantity := newCumulative
                  averageFillPrice :=
                    if newCumulative.isPositive then
                      Fixed.narrow ((totalValue.raw * Fixed.kScale).tdiv newCumulative.raw)
                    else order.averageFillPrice
                  cumulativeFees :=
                    (Fixed.checkedAdd order.cumulativeFees fill.fee).getD order.cumulativeFees
                  venueNs := fill.transactNs
                  lastAppliedSequence := fill.seq }
        | _, _ => .error .arithmeticOverflow

/-- The record under the parameters of its accepted replacement. -/
def amended (order : OrderRecord) : OrderRecord :=
  { order with
    price := order.pendingPrice
    originalQuantity := order.pendingQuantity
    pendingClientOrderId := .empty
    pendingRequest := 0 }

end OrderRecord

namespace OmsState

/-- True when another order already carries the venue identity. -/
def identityTaken (s : OmsState) (order : OrderRecord) (id : ExchangeOrderId) : Bool :=
  match s.findByExchangeId id with
  | none => false
  | some (_, existing) => decide (existing.logicalId ≠ order.logicalId)

/-- Binds a venue identity to an order. One venue identity maps to at most one
local order, so an identity another order carries is refused. -/
def bindExchangeId (s : OmsState) (order : OrderRecord) (id : ExchangeOrderId) :
    Option (OmsState × OrderRecord) :=
  if id.isEmpty then some (s, order)
  else if s.identityTaken order id then none
  else
    let bound := { order with exchangeOrderId := id }
    match s.byLogicalId.lookup order.logicalId with
    | none => some (s, bound)
    | some index => some ({ s with byExchangeId := s.byExchangeId.insert id index }, bound)

/-- Gives an order the identities of its accepted replacement. An index entry is
erased only alongside its reinsertion, and a replace we hold no pending client
identity for leaves the client identity alone. -/
def swapIdentity (s : OmsState) (order : OrderRecord) (replace : OrderReplaceEvent) :
    OmsState × OrderRecord :=
  match s.byLogicalId.lookup order.logicalId with
  | none => (s, order)
  | some index =>
      let (byClientId, clientOrderId) :=
        if order.pendingClientOrderId.isEmpty then (s.byClientId, order.clientOrderId)
        else ((s.byClientId.erase order.clientOrderId).insert order.pendingClientOrderId index,
          order.pendingClientOrderId)
      let (byExchangeId, exchangeOrderId) :=
        if replace.newExchangeOrderId.isEmpty then (s.byExchangeId, order.exchangeOrderId)
        else ((s.byExchangeId.erase order.exchangeOrderId).insert replace.newExchangeOrderId index,
          replace.newExchangeOrderId)
      ({ s with byClientId := byClientId, byExchangeId := byExchangeId },
        { order with clientOrderId := clientOrderId, exchangeOrderId := exchangeOrderId })

end OmsState

namespace OrderManager

/-- What a handler leaves behind: the manager, the order an answer took effect
on, and the order whose deferrals are now released. -/
structure Handled where
  manager : OrderManager
  answered : Option LogicalOrderId := none
  resolved : Option LogicalOrderId := none

def quarantine (m : OrderManager) : OrderManager :=
  m.count fun k => { k with quarantinedEvents := k.quarantinedEvents + 1 }

def countDuplicate (m : OrderManager) : OrderManager :=
  m.count fun k => { k with duplicateEvents := k.duplicateEvents + 1 }

def countOrphan (m : OrderManager) : OrderManager :=
  m.count fun k =>
    { k with
      orphanOrders := k.orphanOrders + 1
      quarantinedEvents := k.quarantinedEvents + 1 }

/-- Attempts a transition of the record at `index` and stores the result. -/
def move (m : OrderManager) (index : Nat) (order : OrderRecord) (target : OrderState)
    (event : OrderEventType) (detail : OrderJournalRecord) : OrderManager :=
  let (m, moved) := m.transition order target event detail
  m.store index moved

/-! ## Acknowledgements -/

def applyAck (m : OrderManager) (ack : OrderAckEvent) : Handled :=
  match m.findByClientId ack.clientOrderId with
  | none => { manager := m.countOrphan }
  | some (index, order) =>
      if order.isTerminal then { manager := m.countDuplicate }
      -- Older than what has been applied already: stale, not new.
      else if ack.seq ≠ kNoSeq && order.lastAppliedSequence ≠ kNoSeq &&
          ack.seq < order.lastAppliedSequence then
        { manager := m.count fun k => { k with outOfOrderEvents := k.outOfOrderEvents + 1 } }
      else if order.acknowledgedNs ≠ 0 then { manager := m.countDuplicate }
      else
        match m.toOmsState.bindExchangeId order ack.exchangeOrderId with
        | none => { manager := m.quarantine.recordReject .identityCollision }
        | some (s, bound) =>
            let m := (m.onState fun _ => s).count fun k =>
              { k with acknowledgements := k.acknowledgements + 1 }
            { manager :=
                m.move index (bound.acknowledged ack m.clock) (OrderRecord.ackTarget ack.status)
                  .acknowledged { logicalId := order.logicalId }
              answered := some order.logicalId }

def applyReject (m : OrderManager) (reject : OrderRejectEvent) : Handled :=
  match m.findByClientId reject.clientOrderId with
  | none => { manager := m.quarantine }
  | some (index, order) =>
      if order.isTerminal then { manager := m.countDuplicate }
      else
        let m := m.count fun k => { k with rejects := k.rejects + 1 }
        { manager :=
            m.move index (order.settled.stamped reject.transactNs) .rejected .rejected
              { logicalId := order.logicalId }
          answered := some order.logicalId
          resolved := some order.logicalId }

def applyFill (m : OrderManager) (fill : FillEvent) : Handled :=
  match m.findByClientId fill.clientOrderId with
  | none => { manager := m.countOrphan }
  | some (index, order) =>
      -- A fill after the terminal event is surfaced for reconciliation, not applied.
      if order.isTerminal then
        { manager := (m.countDuplicate.quarantine).recordReject .terminalOrder }
      else if !fill.quantity.isPositive || !fill.price.isPositive then
        { manager := m.quarantine.recordReject .impossibleFill }
      else
        match order.seenTrades.insert fill.tradeId with
        | none =>
            { manager := m.countDuplicate.count fun k =>
                { k with duplicateFills := k.duplicateFills + 1 } }
        | some seen =>
            -- The trade identifier is recorded even when the booking is refused.
            let seenOrder := order.withTrades seen
            match seenOrder.bookFill fill with
            | .error reject =>
                { manager := ((m.store index seenOrder).quarantine).recordReject reject }
            | .ok booked =>
                let detail : OrderJournalRecord :=
                  { logicalId := order.logicalId
                    tradeId := fill.tradeId
                    price := fill.price
                    quantity := fill.quantity
                    cumulativeQuantity := booked.cumulativeQuantity }
                if booked.remaining.isZero then
                  let m := m.count fun k => { k with fills := k.fills + 1 }
                  { manager := m.move index booked .filled .filled detail
                    resolved := some order.logicalId }
                else
                  let m := m.count fun k => { k with partialFills := k.partialFills + 1 }
                  { manager := m.move index booked .partiallyFilled .partiallyFilled detail }

def applyCancel (m : OrderManager) (cancel : OrderCancelEvent) : Handled :=
  let found := (m.findByClientId cancel.clientOrderId).or
    (if cancel.exchangeOrderId.isEmpty then none else m.findByExchangeId cancel.exchangeOrderId)
  match found with
  | none => { manager := m.quarantine }
  | some (index, order) =>
      if order.isTerminal then { manager := m.countDuplicate }
      else
        let detail : OrderJournalRecord := { logicalId := order.logicalId }
        let answer := order.settled.stamped cancel.transactNs
        match cancel.cancelStatus with
        | .accepted =>
            { manager := m.move index answer .cancelled .cancelAcknowledged detail
              answered := some order.logicalId
              resolved := some order.logicalId }
        | .rejected =>
            -- The order is still working; its deferrals stay in the table.
            { manager := m.move index answer order.restingState .cancelRejected detail
              answered := some order.logicalId }
        | .tooLate =>
            { manager := m.move index answer.completed .filled .filled detail
              answered := some order.logicalId
              resolved := some order.logicalId }
        | .orderNotFound | .unknown =>
            { manager := m.move index answer .unknown .outcomeUnknown detail
              answered := some order.logicalId }

def applyReplace (m : OrderManager) (replace : OrderReplaceEvent) : Handled :=
  match m.findByClientId replace.originalClientOrderId with
  | none => { manager := m.quarantine }
  | some (index, order) =>
      if order.isTerminal then { manager := m.countDuplicate }
      else
        let detail : OrderJournalRecord := { logicalId := order.logicalId }
        let answer := order.stamped replace.transactNs
        if replace.accepted then
          let (s, swapped) := m.toOmsState.swapIdentity answer replace
          { manager :=
              (m.onState fun _ => s).move index swapped.amended swapped.restingState
                .replaceAcknowledged detail
            answered := some order.logicalId }
        else
          let dropped := answer.replaceDropped
          if replace.error.outcome = .unknown then
            { manager := m.move index dropped .unknown .outcomeUnknown detail
              answered := some order.logicalId }
          else
            { manager := m.move index dropped order.restingState .replaceRejected detail
              answered := some order.logicalId }

def applyFailure (m : OrderManager) (failure : RequestFailureEvent) : Handled :=
  match m.findByClientId failure.clientOrderId with
  | none => { manager := m.quarantine }
  | some (index, order) =>
      if order.isTerminal then { manager := m.countDuplicate }
      else
        let detail : OrderJournalRecord := { logicalId := order.logicalId }
        if failure.error.outcome = .notSent then
          { manager := m.move index order.settled .rejected .rejected detail
            answered := some order.logicalId
            resolved := some order.logicalId }
        else
          { manager := m.move index order.settled .unknown .outcomeUnknown detail
            answered := some order.logicalId }

/-- Quarantines a self-contradictory event and dispatches every other one. -/
def dispatch (m : OrderManager) (event : ExecutionEvent) : Handled :=
  if (validateExecutionEvent event).isError then { manager := m.quarantine }
  else
    match event with
    | .orderAck ack => m.applyAck ack
    | .orderReject reject => m.applyReject reject
    | .fill fill => m.applyFill fill
    | .orderCancel cancel => m.applyCancel cancel
    | .orderReplace replace => m.applyReplace replace
    | .requestFailure failure => m.applyFailure failure
    | .none | .other _ => { manager := m }

end OrderManager

variable {σ : Type}

/-- Frees one table entry. -/
def OmsState.vacate (s : OmsState) (entry : Nat) : OmsState :=
  { s with deferred := s.deferred.set entry none, deferredCount := s.deferredCount - 1 }

/-- Turns one table entry that waits on `resolved` into a New. -/
def releaseEntry (port : IExchangeExecution σ) (resolved : LogicalOrderId) (w : World σ)
    (entry : Nat) : World σ :=
  match w.oms.deferred[entry]? with
  | some (some waiting) =>
      if waiting.waitingOn = resolved then
        let vacated := w.withOms fun m => m.onState fun s => s.vacate entry
        let (_, after) := handleNew port waiting.action vacated
        after.observe (.released entry resolved
          ((w.oms.findById resolved).map fun found => found.2.state)
          (decide (w.oms.orders.length < after.oms.orders.length)))
      else w
  | _ => w

/-- Releases every New that was waiting on an order, in table order. -/
def releaseDeferred (port : IExchangeExecution σ) (resolved : LogicalOrderId) (w : World σ) :
    World σ :=
  if w.oms.deferredCount = 0 then w
  else (List.range w.oms.deferred.length).foldl (releaseEntry port resolved) w

namespace World

/-- Adopts what a handler left behind, up to the release of deferrals. -/
def adopt (w : World σ) (handled : OrderManager.Handled) : World σ :=
  { w with
    oms := handled.manager
    trace := w.trace ++ (handled.answered.map Observation.answered).toList }

/-- Releases the deferrals of the order a handler resolved, if it resolved one. -/
def release (port : IExchangeExecution σ) (w : World σ) (resolved : Option LogicalOrderId) :
    World σ :=
  match resolved with
  | none => w
  | some id => releaseDeferred port id w

end World

def apply (port : IExchangeExecution σ) (event : ExecutionEvent) (w : World σ) : World σ :=
  let handled := w.oms.dispatch event
  (w.adopt handled).release port handled.resolved

def kQueueCapacity : Nat := 1024

/-- Enqueues an event; one that does not fit is lost and counted. -/
def OrderManager.onExecution (m : OrderManager) (event : ExecutionEvent) : OrderManager :=
  if m.queue.length < kQueueCapacity then { m with queue := m.queue ++ [event] }
  else { m.quarantine with droppedEvents := m.droppedEvents + 1 }

/-- Drains the queue in order; the result counts the events applied. -/
def processEvents (port : IExchangeExecution σ) (w : World σ) : Nat × World σ :=
  let pending := w.oms.queue
  (pending.length,
    pending.foldl (fun w event => apply port event w)
      (w.withOms fun m => { m with queue := [] }))

end MmEngine.Oms
