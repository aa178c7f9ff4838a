/-
# Timeouts, reconciliation and restart

The three ways an order becomes unknown without an event of its own: its request
outlives its deadline, a complete venue listing omits it, or its request was in
flight across a restart. None of them invents an outcome. The operator's
`resolve` is the only way out that the venue does not report.
-/

import MmEngine.Oms.Apply

namespace MmEngine.Oms

open MmEngine.Exchange MmEngine.Quote

/-- The deadline of the outstanding request, by the state it left the order in. -/
def OmsConfig.requestTimeout (config : OmsConfig) (state : OrderState) : Nanos :=
  if state = .pendingCancel then config.cancelRequestTimeoutNs
  else if state = .pendingReplace then config.replaceRequestTimeoutNs
  else config.newRequestTimeoutNs

/-- True when the sweep takes the outstanding request as lost. -/
def OrderRecord.expired (order : OrderRecord) (config : OmsConfig) (now : Nanos) : Bool :=
  order.hasPendingRequest && order.pendingSinceNs ≠ 0 &&
    !decide (now - order.pendingSinceNs < config.requestTimeout order.state)

namespace OrderManager

/-- One iteration of the sweep. -/
def expireAt (m : OrderManager) (index : Nat) : OrderManager :=
  match m.orders[index]? with
  | none => m
  | some order =>
      if order.expired m.config m.clock then
        (m.count fun k => { k with timeouts := k.timeouts + 1 }).move index order.settled .unknown
          .requestTimedOut { logicalId := order.logicalId }
      else m

/-- The timeout sweep. A request past its deadline leaves its order `unknown`,
never cancelled or rejected. -/
def onTimer (m : OrderManager) : OrderManager := (List.range m.orders.length).foldl expireAt m

end OrderManager

inductive DiscrepancyKind
  | none
  | orphanAtVenue
  | missingAtVenue
  | quantityMismatch
  | priceMismatch
  | statusMismatch
  | identityCollision
  deriving DecidableEq

/-- A disagreement with the venue, with both sides of it. -/
structure Discrepancy where
  kind : DiscrepancyKind := .none
  logicalId : LogicalOrderId := 0
  clientOrderId : ClientOrderId := .empty
  exchangeOrderId : ExchangeOrderId := .empty
  symbol : Symbol := .empty
  localState : OrderState := .unknown
  venueStatus : OrderStatus := .unknown
  localCumulative : Qty := .zero
  venueCumulative : Qty := .zero
  localPrice : Px := .zero
  venuePrice : Px := .zero
  identityIsOurs : Bool := false
  deriving DecidableEq

/-- A venue listing. Only a complete one is reconciled against. -/
structure VenueSnapshot where
  orders : List OrderStatusReport := []
  symbolFilter : Symbol := .empty
  isComplete : Bool := false
  receivedNs : Nanos := 0
  deriving DecidableEq

structure ReconciliationReport where
  discrepancies : List Discrepancy := []
  ordersCompared : Nat := 0
  ordersAgreed : Nat := 0
  performedNs : Nanos := 0
  deriving DecidableEq

namespace OmsState

/-- The record a listed order corresponds to. -/
def findListed (s : OmsState) (listed : OrderStatusReport) : Option (Nat × OrderRecord) :=
  (s.findByClientId listed.clientOrderId).or
    (if listed.exchangeOrderId.isEmpty then none else s.findByExchangeId listed.exchangeOrderId)

/-- A listed order we have no record of. Never assumed to be ours; our own
identity scheme tells our orphan from somebody else's order. -/
def orphan (s : OmsState) (listed : OrderStatusReport) : Discrepancy where
  kind := .orphanAtVenue
  clientOrderId := listed.clientOrderId
  exchangeOrderId := listed.exchangeOrderId
  symbol := listed.symbol
  venueStatus := listed.status
  venueCumulative := listed.cumulativeQty
  venuePrice := listed.price
  identityIsOurs :=
    (ClientOrderIdGenerator.parse listed.clientOrderId s.config.clientIdPrefix.chars).isSome

/-- How a record disagrees with its listing, if it does. A pending request
legitimately disagrees on the status until it resolves. -/
def mismatch (order : OrderRecord) (listed : OrderStatusReport) : Option DiscrepancyKind :=
  if order.cumulativeQuantity ≠ listed.cumulativeQty then some .quantityMismatch
  else if order.price ≠ listed.price then some .priceMismatch
  else if fromVenueStatus listed.status ≠ order.state && order.state ≠ .pendingCancel &&
      order.state ≠ .pendingReplace then some .statusMismatch
  else none

/-- The index entries a listing accounts for. -/
def matched (s : OmsState) (snapshot : VenueSnapshot) : List Nat :=
  snapshot.orders.filterMap fun listed =>
    match s.findListed listed with
    | none => none
    | some (_, order) => s.byLogicalId.lookup order.logicalId

/-- True of a live record, in the scope of the listing, that the listing does
not account for. -/
def missingAt (s : OmsState) (snapshot : VenueSnapshot) (index : Nat) (order : OrderRecord) :
    Bool :=
  decide (index ∉ s.matched snapshot) && order.isLive &&
    (snapshot.symbolFilter.isEmpty || order.symbol = snapshot.symbolFilter)

/-- The records a complete listing contradicts, in table order. -/
def missing (s : OmsState) (snapshot : VenueSnapshot) : List OrderRecord :=
  (s.orders.zipIdx.filter fun entry => s.missingAt snapshot entry.2 entry.1).map Prod.fst

/-- When the listing was learned of. -/
def snapshotTime (s : OmsState) (snapshot : VenueSnapshot) : Nanos :=
  if snapshot.receivedNs ≠ 0 then snapshot.receivedNs else s.clock

end OmsState

namespace OrderManager

/-- Compares one listed order with its record. -/
def compareListed (listed : OrderStatusReport) (state : OrderManager × ReconciliationReport) :
    OrderManager × ReconciliationReport :=
  let (m, report) := state
  let report := { report with ordersCompared := report.ordersCompared + 1 }
  match m.findListed listed with
  | none =>
      (m.count fun k => { k with orphanOrders := k.orphanOrders + 1 },
        { report with discrepancies := report.discrepancies ++ [m.orphan listed] })
  | some (_, order) =>
      match OmsState.mismatch order listed with
      | none => (m, { report with ordersAgreed := report.ordersAgreed + 1 })
      | some kind =>
          (m, { report with
            discrepancies := report.discrepancies ++
              [{ kind := kind
                 logicalId := order.logicalId
                 clientOrderId := order.clientOrderId
                 exchangeOrderId := order.exchangeOrderId
                 symbol := order.symbol
                 localState := order.state
                 venueStatus := listed.status
                 localCumulative := order.cumulativeQuantity
                 venueCumulative := listed.cumulativeQty
                 localPrice := order.price
                 venuePrice := listed.price
                 identityIsOurs := true }] })

/-- Compares every listed order with its record. -/
def compareAll (m : OrderManager) (snapshot : VenueSnapshot) :
    OrderManager × ReconciliationReport :=
  snapshot.orders.foldl (fun state listed => compareListed listed state)
    (m, { performedNs := m.clock })

/-- The discrepancy of a record the listing omits. Not assumed cancelled. -/
def missingDiscrepancy (order : OrderRecord) : Discrepancy where
  kind := .missingAtVenue
  logicalId := order.logicalId
  clientOrderId := order.clientOrderId
  exchangeOrderId := order.exchangeOrderId
  symbol := order.symbol
  localState := order.state
  localCumulative := order.cumulativeQuantity
  localPrice := order.price
  identityIsOurs := true

/-- Makes an omitted order unknown, unless it was acknowledged after the
listing was taken. -/
def markMissing (snapshotNs : Nanos) (m : OrderManager) (id : LogicalOrderId) : OrderManager :=
  match m.findById id with
  | none => m
  | some (index, order) =>
      if snapshotNs < order.acknowledgedNs then m
      else
        (m.count fun k => { k with unknownStates := k.unknownStates + 1 }).move index order
          .unknown .reconciliationDetected { logicalId := order.logicalId }

/-- Journals a discrepancy of an order that is not finished. -/
def journalDiscrepancy (m : OrderManager) (d : Discrepancy) : OrderManager :=
  if d.logicalId = 0 then m
  else
    match m.findById d.logicalId with
    | none => m
    | some (_, order) =>
        if order.isTerminal then m
        else m.journalOrder .reconciliationDetected order order.state order.state

/-- Compares the records against a complete listing. Detects, and corrects only
by uncertainty. -/
def reconcile (m : OrderManager) (snapshot : VenueSnapshot) : ReconciliationReport × OrderManager :=
  if !snapshot.isComplete then
    ({ performedNs := m.clock },
      m.count fun k => { k with reconciliationsRefused := k.reconciliationsRefused + 1 })
  else
    let m := m.count fun k => { k with reconciliations := k.reconciliations + 1 }
    let missing := m.missing snapshot
    let (m, report) := m.compareAll snapshot
    let report :=
      { report with discrepancies := report.discrepancies ++ missing.map missingDiscrepancy }
    let m := m.count fun k => { k with missingOrders := k.missingOrders + missing.length }
    let m := (missing.map OrderRecord.logicalId).foldl (markMissing (m.snapshotTime snapshot)) m
    (report, report.discrepancies.foldl journalDiscrepancy m)

/-- The record in the state the operator concluded. -/
def concluded (order : OrderRecord) (target : OrderState) (now : Nanos) : OrderRecord :=
  if target.isTerminal then
    { order with state := target, terminalNs := now, pendingRequest := 0 }
  else { order with state := target }

/-- Applies a conclusion the operator has drawn. -/
def resolve (m : OrderManager) (id : LogicalOrderId) (target : OrderState) : Status × Handled :=
  match m.findById id with
  | none => (.error .notFound "no such order", { manager := m })
  | some (index, order) =>
      if !isLegalTransition order.state target then
        (.error .failedPrecondition "illegal reconciliation resolution", { manager := m })
      else
        let resolved := concluded order target m.clock
        (.ok,
          { manager :=
              (m.store index resolved).journalOrder .reconciliationResolved resolved order.state
                target
            resolved := some order.logicalId })

/-- What survives a restart. -/
structure RecoveryState where
  sessionId : Nat := 0
  nextClientIdSequence : Nat := 0
  nextLogicalId : Nat := 0
  nextRequestId : Nat := 0
  journalSequence : Nat := 0
  orders : List OrderRecord := []

def snapshotForRecovery (m : OrderManager) : RecoveryState where
  sessionId := m.config.sessionId
  nextClientIdSequence := m.idGenerator.sequence
  nextLogicalId := m.nextLogicalId
  nextRequestId := m.nextRequestId
  journalSequence := m.journalSequence
  orders := m.orders

/-- Binds the identities of a restored record. -/
def bindRestored (index : Nat) (order : OrderRecord) (s : OmsState) : OmsState :=
  { s with
    byLogicalId := s.byLogicalId.insert order.logicalId index
    byClientId :=
      if order.clientOrderId.isEmpty then s.byClientId
      else s.byClientId.insert order.clientOrderId index
    byExchangeId :=
      if order.exchangeOrderId.isEmpty then s.byExchangeId
      else s.byExchangeId.insert order.exchangeOrderId index }

/-- A request in flight across a restart has an outcome nobody observed. -/
def recovered (order : OrderRecord) : OrderRecord :=
  if order.state.hasPendingRequest then
    { order with state := .unknown, pendingRequest := 0, pendingSinceNs := 0 }
  else order

/-- One iteration of the rebuild. -/
def recoverAt (m : OrderManager) (index : Nat) : OrderManager :=
  match m.orders[index]? with
  | none => m
  | some order =>
      let m := m.onState (bindRestored index order)
      if order.state.hasPendingRequest then
        ((m.count fun k => { k with unknownStates := k.unknownStates + 1 }).store index
          (recovered order)).journalOrder .outcomeUnknown (recovered order) order.state .unknown
      else m

/-- Rebuilds the order manager from what survived. -/
def restore (m : OrderManager) (state : RecoveryState) : Status × OrderManager :=
  if !m.orders.isEmpty then (.error .failedPrecondition "restore into a non-empty OMS", m)
  else if m.config.maxOrders < state.orders.length then
    (.error .outOfRange "recovery state exceeds configured capacity", m)
  else
    let m :=
      { m with
        orders := state.orders
        nextLogicalId := state.nextLogicalId
        nextRequestId := state.nextRequestId
        journalSequence := state.journalSequence
        idGenerator := m.idGenerator.restore state.nextClientIdSequence
        byClientId := ∅
        byExchangeId := ∅
        byLogicalId := ∅ }
    (.ok, (List.range m.orders.length).foldl recoverAt m)

/-- A process restart: a fresh manager under a new configuration, writing to the
same journal, restored from what the old one left. -/
def restart (m : OrderManager) (config : OmsConfig) : Status × OrderManager :=
  restore { OrderManager.init config m.clock with journal := m.journal } m.snapshotForRecovery

end OrderManager

end MmEngine.Oms
