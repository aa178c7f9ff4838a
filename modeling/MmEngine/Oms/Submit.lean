/-
# Submitting approved actions

The only way an order enters the order manager. `handleNew` defers a New behind
a pending cancel on its slot, `handleCancel` and `handleReplace` move a record
into the state of its outstanding request, and each of them hands one request to
the execution adapter and takes the request back when the adapter refuses it.

The order manager runs beside a venue of unspecified state. A `World` pairs the
two and carries a history variable, the list of observations, which no
operation reads: it records what a statement about runs has to speak of and the
source does not keep.
-/

import MmEngine.Oms.OrderManager

namespace MmEngine.Oms

open MmEngine.Exchange MmEngine.Quote MmEngine.Risk

/-- What the history variable records. -/
inductive Observation
  /-- A request for an order was handed to the adapter, which took it or not. -/
  | sent (order : LogicalOrderId) (kind : RequestKind) (accepted : Bool)
  /-- An event answering a request took effect on an order. -/
  | answered (order : LogicalOrderId)
  /-- A deferral table entry was released: the order it waited on, the state of
  that order at that moment, and whether an order record was created. -/
  | released (entry : Nat) (waitingOn : LogicalOrderId) (waitState : Option OrderState)
      (created : Bool)
  deriving DecidableEq

/-- The order manager, the venue it talks to, and what has been observed. -/
structure World (σ : Type) where
  oms : OrderManager
  venue : σ
  /-- History variable. -/
  trace : List Observation := []

/-- The outcome of handing the order manager an approved action. -/
structure SubmitResult where
  accepted : Bool := false
  reject : OmsReject := .none
  logicalId : LogicalOrderId := 0
  requestId : RequestId := 0
  /-- Accepted, but held until a cancel on the same slot resolves. -/
  deferred : Bool := false
  /-- Folded into an amendment that is already in flight. -/
  coalesced : Bool := false
  deriving DecidableEq

namespace OrderRecord

/-- The record with a request outstanding since `now`. -/
def requested (order : OrderRecord) (request : RequestId) (now : Nanos) : OrderRecord :=
  { order with pendingRequest := request, pendingSinceNs := now }

/-- The record with its submit request outstanding since `now`. -/
def submitted (order : OrderRecord) (request : RequestId) (now : Nanos) : OrderRecord :=
  { order.requested request now with sentNs := now }

/-- The record with no request outstanding. The time it was sent stays. -/
def settled (order : OrderRecord) : OrderRecord := { order with pendingRequest := 0 }

/-- The record with no request outstanding and no replacement identity held. -/
def replaceDropped (order : OrderRecord) : OrderRecord :=
  { order.settled with pendingClientOrderId := .empty }

/-- What a replace turns the order into if the venue accepts it. -/
def amending (order : OrderRecord) (price : Px) (quantity : Qty) (generation : Nat) :
    OrderRecord :=
  { order with
    pendingPrice := price
    pendingQuantity := quantity
    ownership := { order.ownership with generation := generation } }

/-- The record with its replace request outstanding since `now`. -/
def replacing (order : OrderRecord) (action : OrderAction) (replacementId : ClientOrderId)
    (request : RequestId) (now : Nanos) : OrderRecord :=
  { (order.amending action.price action.quantity action.generation).requested request now with
    pendingClientOrderId := replacementId }

def orderRequest (order : OrderRecord) (now : Nanos) : OrderRequest where
  clientOrderId := order.clientOrderId
  symbol := order.symbol
  side := order.side
  type := order.type
  tif := order.tif
  price := order.price
  quantity := order.originalQuantity
  postOnly := false
  createdNs := now

def cancelRequest (order : OrderRecord) (now : Nanos) : CancelRequest where
  clientOrderId := order.clientOrderId
  exchangeOrderId := order.exchangeOrderId
  symbol := order.symbol
  createdNs := now

def replaceRequest (order : OrderRecord) (newClientOrderId : ClientOrderId) (price : Px)
    (quantity : Qty) (now : Nanos) : ReplaceRequest where
  originalClientOrderId := order.clientOrderId
  originalExchangeOrderId := order.exchangeOrderId
  newClientOrderId := newClientOrderId
  symbol := order.symbol
  newPrice := price
  newQuantity := quantity
  createdNs := now

end OrderRecord

namespace OmsState

/-- The record a New starts as. -/
def newOrder (s : OmsState) (action : OrderAction) (clientId : ClientOrderId) : OrderRecord where
  logicalId := s.nextLogicalId + 1
  clientOrderId := clientId
  ownership :=
    { strategy := action.identity.name
      slot := action.slot
      generation := action.generation
      creationSequence := s.creationSequence + 1 }
  symbol := action.symbol
  side := action.side
  type := .limit
  tif := .gtc
  price := action.price
  originalQuantity := action.quantity
  state := .created
  createdNs := s.clock

/-- Appends a record and binds its identities. -/
def addOrder (s : OmsState) (order : OrderRecord) : OmsState :=
  { s with
    orders := s.orders ++ [order]
    byClientId := s.byClientId.emplace order.clientOrderId s.orders.length
    byLogicalId := s.byLogicalId.emplace order.logicalId s.orders.length
    nextLogicalId := s.nextLogicalId + 1
    creationSequence := s.creationSequence + 1 }

/-- Uses up one client identity. -/
def burnClientId (s : OmsState) : OmsState := { s with idGenerator := s.idGenerator.next.2 }

/-- Takes the next request identifier. -/
def nextRequest (s : OmsState) : OmsState := { s with nextRequestId := s.nextRequestId + 1 }

/-- Holds a New in the given free table entry. -/
def defer (s : OmsState) (entry : Nat) (action : OrderAction) (waitingOn : LogicalOrderId) :
    OmsState :=
  { s with
    deferred := s.deferred.set entry (some { action := action, waitingOn := waitingOn })
    deferredCount := s.deferredCount + 1 }

/-- The order a cancel or replace names: by client identity, then (for a
cancel) by venue identity, then by the slot it occupies. -/
def findTarget (s : OmsState) (action : OrderAction) (byVenue : Bool) :
    Option (Nat × OrderRecord) :=
  let byClient :=
    if action.targetClientOrderId.isEmpty then none
    else s.findByClientId action.targetClientOrderId
  let byExchange :=
    if !byVenue || action.targetExchangeOrderId.isEmpty then none
    else s.findByExchangeId action.targetExchangeOrderId
  byClient.or (byExchange.or (s.findSlotOrder action.identity.name action.symbol action.slot))

/-- An action with a strategy name may only touch that strategy's orders. -/
def ownershipViolated (action : OrderAction) (order : OrderRecord) : Bool :=
  !action.identity.name.isEmpty &&
    !order.ownership.matches action.identity.name order.ownership.slot

end OmsState

/-- Updates what the decisions depend on, and nothing that is only written. -/
def OrderManager.onState (m : OrderManager) (f : OmsState → OmsState) : OrderManager :=
  { m with toOmsState := f m.toOmsState }

@[simp]
theorem OrderManager.onState_toOmsState (m : OrderManager) (f : OmsState → OmsState) :
    (m.onState f).toOmsState = f m.toOmsState := rfl

variable {σ : Type}

namespace World

/-- Updates the order manager only. -/
def withOms (w : World σ) (f : OrderManager → OrderManager) : World σ := { w with oms := f w.oms }

def observe (w : World σ) (observation : Observation) : World σ :=
  { w with trace := w.trace ++ [observation] }

/-- A refusal: one metric, no other effect. -/
def refuse (w : World σ) (reject : OmsReject) : SubmitResult × World σ :=
  ({ reject := reject }, w.withOms fun m => m.recordReject reject)

end World

/-! ## New -/

/-- Holds a New behind the cancel on its slot, when the table has room. -/
def deferNew (action : OrderAction) (occupant : OrderRecord) (w : World σ) :
    SubmitResult × World σ :=
  match w.oms.deferred.findIdx? Option.isNone with
  | some entry =>
      ({ accepted := true, deferred := true },
        w.withOms fun m =>
          (m.onState fun s => s.defer entry action occupant.logicalId).count
            fun k => { k with deferredNews := k.deferredNews + 1 })
  | none => w.refuse .capacityExhausted

/-- Sends the submit request of the record just created. Only an
acknowledgement makes the order working, so the record waits in `pendingNew`; a
refusal before anything left the process makes it `rejected`. -/
def sendNew (port : IExchangeExecution σ) (index : Nat) (created : OrderRecord) (w : World σ) :
    SubmitResult × World σ :=
  if !w.oms.attached then
    let (_, w) := w.refuse .executionUnavailable
    ({ reject := .executionUnavailable, logicalId := created.logicalId }, w)
  else
    let now := w.oms.clock
    let detail : OrderJournalRecord := { logicalId := created.logicalId }
    let m := w.oms.onState OmsState.nextRequest
    let (m, order) :=
      m.transition (created.submitted m.nextRequestId now) .pendingNew .requestSent detail
    let m := m.count fun k => { k with newRequests := k.newRequests + 1 }
    let (sent, venue) := port.submit (created.orderRequest now) w.venue
    if sent.isError then
      let (m, order) := m.transition order.settled .rejected .rejected detail
      let m := m.count fun k => { k with rejects := k.rejects + 1 }
      ({ reject := .executionUnavailable, logicalId := order.logicalId },
        { w with oms := m.store index order, venue := venue }.observe
          (.sent order.logicalId .submit false))
    else
      ({ accepted := true, logicalId := order.logicalId, requestId := order.pendingRequest },
        { w with oms := m.store index order, venue := venue }.observe
          (.sent order.logicalId .submit true))

/-- Mints an identity, creates the record and sends its request. -/
def createOrder (port : IExchangeExecution σ) (action : OrderAction) (w : World σ) :
    SubmitResult × World σ :=
  match w.oms.idGenerator.next.1 with
  | none => (w.withOms fun m => m.onState OmsState.burnClientId).refuse .identityGenerationFailed
  | some clientId =>
      let w := w.withOms fun m => m.onState OmsState.burnClientId
      if (w.oms.byClientId.lookup clientId).isSome then w.refuse .identityCollision
      else
        let index := w.oms.orders.length
        let order := w.oms.toOmsState.newOrder action clientId
        let w := w.withOms fun m =>
          ((m.onState fun s => s.addOrder order).count
            fun k => { k with ordersCreated := k.ordersCreated + 1 }).journalOrder
              .created order .created .created
        sendNew port index order w

def handleNew (port : IExchangeExecution σ) (action : OrderAction) (w : World σ) :
    SubmitResult × World σ :=
  if w.oms.config.maxOrders ≤ w.oms.orders.length then w.refuse .capacityExhausted
  else
    match w.oms.findSlotOrder action.identity.name action.symbol action.slot with
    | none => createOrder port action w
    | some (_, occupant) =>
        if occupant.state = .pendingCancel then deferNew action occupant w
        else if occupant.hasPendingRequest then
          (w.withOms fun m =>
            m.count fun k => { k with duplicateRequests := k.duplicateRequests + 1 }).refuse
              .pendingOperation
        -- Any other occupant is left where it is and a second order is created.
        else createOrder port action w

/-- Sends the cancel of an order. A refused cancel puts the order back to
`working`. -/
def sendCancel (port : IExchangeExecution σ) (index : Nat) (order : OrderRecord) (w : World σ) :
    SubmitResult × World σ :=
  let now := w.oms.clock
  let detail : OrderJournalRecord := { logicalId := order.logicalId }
  let m := w.oms.onState OmsState.nextRequest
  let (m, pending) :=
    m.transition (order.requested m.nextRequestId now) .pendingCancel .cancelRequested detail
  let m := m.count fun k => { k with cancelRequests := k.cancelRequests + 1 }
  let (sent, venue) := port.cancel (order.cancelRequest now) w.venue
  if sent.isError then
    let (m, restored) := m.transition pending.settled .working .cancelRejected detail
    ({ reject := .executionUnavailable, logicalId := order.logicalId },
      { w with oms := m.store index restored, venue := venue }.observe
        (.sent order.logicalId .cancel false))
  else
    ({ accepted := true, logicalId := order.logicalId, requestId := pending.pendingRequest },
      { w with oms := m.store index pending, venue := venue }.observe
        (.sent order.logicalId .cancel true))

def handleCancel (port : IExchangeExecution σ) (action : OrderAction) (w : World σ) :
    SubmitResult × World σ :=
  match w.oms.findTarget action true with
  | none => w.refuse .unknownOrder
  | some (index, order) =>
      if OmsState.ownershipViolated action order then
        (w.withOms fun m =>
          m.count fun k => { k with ownershipViolations := k.ownershipViolations + 1 }).refuse
            .ownershipViolation
      else if order.isTerminal then
        let (_, w) := w.refuse .terminalOrder
        ({ reject := .terminalOrder, logicalId := order.logicalId }, w)
      else if order.state = .pendingCancel then
        let (_, w) := (w.withOms fun m =>
          m.count fun k => { k with duplicateRequests := k.duplicateRequests + 1 }).refuse
            .duplicateRequest
        ({ reject := .duplicateRequest, logicalId := order.logicalId, coalesced := true }, w)
      else if !w.oms.attached then w.refuse .executionUnavailable
      -- The outstanding request, if there is one, is not consulted.
      else sendCancel port index order w

/-- Sends the replace of an order under a fresh client identity. -/
def sendReplace (port : IExchangeExecution σ) (action : OrderAction) (index : Nat)
    (order : OrderRecord) (replacementId : ClientOrderId) (w : World σ) :
    SubmitResult × World σ :=
  let now := w.oms.clock
  let detail : OrderJournalRecord := { logicalId := order.logicalId }
  let m := w.oms.onState OmsState.nextRequest
  let (m, pending) :=
    m.transition (order.replacing action replacementId m.nextRequestId now) .pendingReplace
      .replaceRequested detail
  let m := m.count fun k => { k with replaceRequests := k.replaceRequests + 1 }
  let (sent, venue) :=
    port.replace (order.replaceRequest replacementId action.price action.quantity now) w.venue
  if sent.isError then
    let (m, restored) := m.transition pending.replaceDropped .working .replaceRejected detail
    ({ reject := .executionUnavailable },
      { w with oms := m.store index restored, venue := venue }.observe
        (.sent order.logicalId .replace false))
  else
    ({ accepted := true, logicalId := order.logicalId, requestId := pending.pendingRequest },
      { w with oms := m.store index pending, venue := venue }.observe
        (.sent order.logicalId .replace true))

def handleReplace (port : IExchangeExecution σ) (action : OrderAction) (w : World σ) :
    SubmitResult × World σ :=
  match w.oms.findTarget action false with
  | none => w.refuse .unknownOrder
  | some (index, order) =>
      if OmsState.ownershipViolated action order then
        (w.withOms fun m =>
          m.count fun k => { k with ownershipViolations := k.ownershipViolations + 1 }).refuse
            .ownershipViolation
      else if order.isTerminal then w.refuse .terminalOrder
      else if action.generation < order.ownership.generation then
        (w.withOms fun m =>
          m.count fun k => { k with staleOperations := k.staleOperations + 1 }).refuse
            .staleGeneration
      else if order.state = .pendingReplace then
        -- The newest desired state wins; no second request is issued.
        let (_, w) := (w.withOms fun m =>
          (m.store index
            (order.amending action.price action.quantity action.generation)).count
              fun k => { k with duplicateRequests := k.duplicateRequests + 1 }).refuse
                .duplicateRequest
        ({ reject := .duplicateRequest, logicalId := order.logicalId, coalesced := true }, w)
      else if order.hasPendingRequest then
        (w.withOms fun m =>
          m.count fun k => { k with duplicateRequests := k.duplicateRequests + 1 }).refuse
            .pendingOperation
      else if !w.oms.attached then w.refuse .executionUnavailable
      else
        match w.oms.idGenerator.next.1 with
        | none =>
            (w.withOms fun m => m.onState OmsState.burnClientId).refuse .identityGenerationFailed
        | some replacementId =>
            sendReplace port action index order replacementId
              (w.withOms fun m => m.onState OmsState.burnClientId)

def submit (port : IExchangeExecution σ) (approved : ApprovedAction) (w : World σ) :
    SubmitResult × World σ :=
  if !approved.valid then
    ({ reject := .notRiskApproved },
      w.withOms fun m =>
        ((m.count fun k => { k with notRiskApproved := k.notRiskApproved + 1 }).recordReject
          .notRiskApproved).journalRejection .eventQuarantined approved.action .notRiskApproved)
  else
    match approved.action.type with
    | .new => handleNew port approved.action w
    | .cancel => handleCancel port approved.action w
    | .replace => handleReplace port approved.action w
    | .noop => ({ accepted := true }, w)

end MmEngine.Oms
