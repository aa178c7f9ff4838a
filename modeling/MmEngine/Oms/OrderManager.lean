/-
# The order manager's state

`OmsState` is what the order manager decides on: the records, the three
identity indices, the deferral table and the counters identities are minted
from. `OrderManager` adds what it only writes, the metrics and the journal, and
the queue events wait in. Keeping the two apart lets a theorem about decisions
ignore bookkeeping: every operation is described by its effect on `OmsState`.

Records are held in creation order and never move, so an index identifies a
record for the whole run. The clock is one reading, taken when an operation
starts.
-/

import MmEngine.Oms.OrderRecord
import Mathlib.Data.List.AList

namespace MmEngine.Oms

open MmEngine.Exchange MmEngine.Quote

structure OmsConfig where
  newRequestTimeoutNs : Nanos := 5000000000
  cancelRequestTimeoutNs : Nanos := 5000000000
  replaceRequestTimeoutNs : Nanos := 5000000000
  clientIdPrefix : InlineString 16 := .empty
  sessionId : Nat := 0
  maxClientIdLength : Nat := 36
  maxOrders : Nat := 256
  deriving DecidableEq

structure OmsMetrics where
  ordersCreated : Nat := 0
  newRequests : Nat := 0
  cancelRequests : Nat := 0
  replaceRequests : Nat := 0
  acknowledgements : Nat := 0
  rejects : Nat := 0
  fills : Nat := 0
  partialFills : Nat := 0
  duplicateEvents : Nat := 0
  duplicateFills : Nat := 0
  duplicateRequests : Nat := 0
  outOfOrderEvents : Nat := 0
  quarantinedEvents : Nat := 0
  illegalTransitions : Nat := 0
  unknownStates : Nat := 0
  timeouts : Nat := 0
  staleOperations : Nat := 0
  ownershipViolations : Nat := 0
  deferredNews : Nat := 0
  reconciliations : Nat := 0
  reconciliationsRefused : Nat := 0
  orphanOrders : Nat := 0
  missingOrders : Nat := 0
  notRiskApproved : Nat := 0
  rejectsByReason : OmsReject → Nat := fun _ => 0

/-- An index from identities to record positions. -/
abbrev IdMap (K : Type) := AList fun _ : K => Nat

/-- Insertion that keeps an existing binding. -/
def IdMap.emplace {K : Type} [DecidableEq K] (map : IdMap K) (key : K) (index : Nat) : IdMap K :=
  if (map.lookup key).isSome then map else map.insert key index

/-- A New held until the cancel it waits on resolves. -/
structure DeferredNew where
  action : OrderAction
  waitingOn : LogicalOrderId

/-- Everything the order manager's decisions depend on. -/
structure OmsState where
  config : OmsConfig
  idGenerator : ClientOrderIdGenerator
  /-- The steady clock. -/
  clock : Nanos
  /-- Whether an execution adapter is bound. -/
  attached : Bool := false
  orders : List OrderRecord := []
  byClientId : IdMap ClientOrderId := ∅
  byExchangeId : IdMap ExchangeOrderId := ∅
  byLogicalId : IdMap LogicalOrderId := ∅
  /-- The deferral table, one entry per possible order. -/
  deferred : List (Option DeferredNew)
  /-- How many entries of `deferred` are occupied. -/
  deferredCount : Nat := 0
  nextLogicalId : Nat := 0
  nextRequestId : Nat := 0
  creationSequence : Nat := 0

/-- The order manager: its state, its bookkeeping and its inbound queue. -/
structure OrderManager extends OmsState where
  metrics : OmsMetrics := {}
  journal : List OrderJournalRecord := []
  journalSequence : Nat := 0
  queue : List ExecutionEvent := []
  droppedEvents : Nat := 0

/-- A fresh order manager. -/
def OrderManager.init (config : OmsConfig) (clock : Nanos) : OrderManager where
  config := config
  idGenerator :=
    { idPrefix := config.clientIdPrefix
      sessionId := config.sessionId
      maxLength := config.maxClientIdLength }
  clock := clock
  deferred := List.replicate config.maxOrders none

namespace OmsState

/-- The record an index entry points at, with its position. -/
def entryAt (s : OmsState) (index : Option Nat) : Option (Nat × OrderRecord) :=
  match index with
  | none => none
  | some i => (s.orders[i]?).map fun order => (i, order)

def findById (s : OmsState) (id : LogicalOrderId) : Option (Nat × OrderRecord) :=
  s.entryAt (s.byLogicalId.lookup id)

def findByClientId (s : OmsState) (id : ClientOrderId) : Option (Nat × OrderRecord) :=
  s.entryAt (s.byClientId.lookup id)

def findByExchangeId (s : OmsState) (id : ExchangeOrderId) : Option (Nat × OrderRecord) :=
  s.entryAt (s.byExchangeId.lookup id)

/-- The first record that occupies a strategy's slot on a symbol. -/
def findSlotOrder (s : OmsState) (owner : StrategyName) (symbol : Symbol) (slot : QuoteSlot) :
    Option (Nat × OrderRecord) :=
  s.entryAt (s.orders.findIdx? fun order =>
    order.symbol = symbol && order.ownership.matches owner slot && order.consumesExposure)

/-- Overwrites one record. -/
def store (s : OmsState) (index : Nat) (order : OrderRecord) : OmsState :=
  { s with orders := s.orders.set index order }

theorem entryAt_eq_some_iff {s : OmsState} {index : Option Nat} {i : Nat} {order : OrderRecord} :
    s.entryAt index = some (i, order) ↔ index = some i ∧ s.orders[i]? = some order := by
  cases index with
  | none => simp [entryAt]
  | some j =>
      simp only [entryAt, Option.map_eq_some_iff, Prod.mk.injEq, Option.some.injEq]
      constructor
      · rintro ⟨found, hfound, rfl, rfl⟩
        exact ⟨rfl, hfound⟩
      · rintro ⟨rfl, hfound⟩
        exact ⟨order, hfound, rfl, rfl⟩

theorem findById_eq_some_iff {s : OmsState} {id : LogicalOrderId} {i : Nat} {order : OrderRecord} :
    s.findById id = some (i, order) ↔
      s.byLogicalId.lookup id = some i ∧ s.orders[i]? = some order :=
  entryAt_eq_some_iff

theorem findByClientId_eq_some_iff {s : OmsState} {id : ClientOrderId} {i : Nat}
    {order : OrderRecord} :
    s.findByClientId id = some (i, order) ↔
      s.byClientId.lookup id = some i ∧ s.orders[i]? = some order :=
  entryAt_eq_some_iff

theorem findByExchangeId_eq_some_iff {s : OmsState} {id : ExchangeOrderId} {i : Nat}
    {order : OrderRecord} :
    s.findByExchangeId id = some (i, order) ↔
      s.byExchangeId.lookup id = some i ∧ s.orders[i]? = some order :=
  entryAt_eq_some_iff

end OmsState

namespace OrderManager

/-- Updates the metrics. -/
def count (m : OrderManager) (bump : OmsMetrics → OmsMetrics) : OrderManager :=
  { m with metrics := bump m.metrics }

def recordReject (m : OrderManager) (reject : OmsReject) : OrderManager :=
  m.count fun k =>
    { k with
      rejectsByReason := fun reason =>
        if reason = reject then k.rejectsByReason reason + 1 else k.rejectsByReason reason }

/-- Appends one record under the next journal sequence. -/
def appendJournal (m : OrderManager) (record : OrderJournalRecord) : OrderManager :=
  { m with
    journal := m.journal ++
      [{ record with sequence := m.journalSequence + 1, recordedNs := m.clock }]
    journalSequence := m.journalSequence + 1 }

/-- Journals a lifecycle event of an order. -/
def journalOrder (m : OrderManager) (type : OrderEventType) (order : OrderRecord)
    (source target : OrderState) : OrderManager :=
  m.appendJournal
    { type := type
      logicalId := order.logicalId
      clientOrderId := order.clientOrderId
      exchangeOrderId := order.exchangeOrderId
      symbol := order.symbol
      side := order.side
      fromState := source
      toState := target
      price := order.price
      quantity := order.originalQuantity
      cumulativeQuantity := order.cumulativeQuantity
      requestId := order.pendingRequest
      venueNs := order.venueNs
      generation := order.ownership.generation }

def journalRejection (m : OrderManager) (type : OrderEventType) (action : OrderAction)
    (reject : OmsReject) : OrderManager :=
  m.appendJournal
    { type := type
      symbol := action.symbol
      side := action.side
      price := action.price
      quantity := action.quantity
      reject := reject
      generation := action.generation }

/-- Attempts a transition of one record. A refused transition is counted and
quarantined; a legal one is journalled with the state it left. -/
def transition (m : OrderManager) (order : OrderRecord) (target : OrderState)
    (event : OrderEventType) (detail : OrderJournalRecord) : OrderManager × OrderRecord :=
  if isLegalTransition order.state target then
    let moved := order.transition target m.clock
    let m := if target = .unknown then
        m.count fun k => { k with unknownStates := k.unknownStates + 1 }
      else m
    (m.journalOrder event moved order.state target, moved)
  else
    let m := m.count fun k => { k with illegalTransitions := k.illegalTransitions + 1 }
    let m := m.recordReject .illegalTransition
    (m.appendJournal
      { detail with
        type := .eventQuarantined
        fromState := order.state
        toState := target
        reject := .illegalTransition }, order)

/-- Overwrites one record. -/
def store (m : OrderManager) (index : Nat) (order : OrderRecord) : OrderManager :=
  { m with toOmsState := m.toOmsState.store index order }

@[simp]
theorem count_toOmsState (m : OrderManager) (bump : OmsMetrics → OmsMetrics) :
    (m.count bump).toOmsState = m.toOmsState := rfl

@[simp]
theorem recordReject_toOmsState (m : OrderManager) (reject : OmsReject) :
    (m.recordReject reject).toOmsState = m.toOmsState := rfl

@[simp]
theorem appendJournal_toOmsState (m : OrderManager) (record : OrderJournalRecord) :
    (m.appendJournal record).toOmsState = m.toOmsState := rfl

@[simp]
theorem journalOrder_toOmsState (m : OrderManager) (type : OrderEventType) (order : OrderRecord)
    (source target : OrderState) :
    (m.journalOrder type order source target).toOmsState = m.toOmsState := rfl

@[simp]
theorem journalRejection_toOmsState (m : OrderManager) (type : OrderEventType)
    (action : OrderAction) (reject : OmsReject) :
    (m.journalRejection type action reject).toOmsState = m.toOmsState := rfl

@[simp]
theorem store_toOmsState (m : OrderManager) (index : Nat) (order : OrderRecord) :
    (m.store index order).toOmsState = m.toOmsState.store index order := rfl

/-- A transition changes nothing but the record it is attempted on. -/
@[simp]
theorem transition_toOmsState (m : OrderManager) (order : OrderRecord) (target : OrderState)
    (event : OrderEventType) (detail : OrderJournalRecord) :
    (m.transition order target event detail).1.toOmsState = m.toOmsState := by
  unfold transition
  split
  · by_cases hunknown : target = .unknown <;> simp [hunknown]
  · rfl

@[simp]
theorem transition_record (m : OrderManager) (order : OrderRecord) (target : OrderState)
    (event : OrderEventType) (detail : OrderJournalRecord) :
    (m.transition order target event detail).2 = order.transition target m.clock := by
  unfold transition
  split
  · rfl
  · rename_i hillegal
    simp [OrderRecord.transition, hillegal]

end OrderManager

end MmEngine.Oms
