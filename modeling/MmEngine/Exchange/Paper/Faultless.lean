/-
# A venue without faults

Injected faults are used up and never appear by themselves. A venue that none is injected
into has none after any call.
-/

import MmEngine.Exchange.Paper.Waiting

namespace MmEngine.Exchange.Paper

namespace PaperExecution

variable {v : PaperExecution}

theorem schedule_of_full (hfull : v.config.maxPendingEvents ≤ v.pending.length) (delay : Nanos)
    (event : ExecutionEvent) :
    v.schedule delay event = v.count fun k => { k with eventsDropped := k.eventsDropped + 1 } :=
  if_pos hfull

theorem schedule_of_room (hroom : ¬v.config.maxPendingEvents ≤ v.pending.length)
    (hquiet : v.faults = {}) (delay : Nanos) (event : ExecutionEvent) :
    ∃ simulatedLatencyNs, v.schedule delay event =
      { v with
        pending := v.pending ++
          [{ dueNs := wrapNs (v.base + delay), ordinal := v.ordinal, event := event }]
        nextOrdinal := v.nextOrdinal + 1
        metrics := { v.metrics with simulatedLatencyNs := simulatedLatencyNs } } := by
  refine ⟨wrapNs (v.metrics.simulatedLatencyNs +
    (if v.clock < wrapNs (v.base + delay) then wrapNs (v.base + delay) - v.clock else 0)), ?_⟩
  unfold schedule scheduleAt
  rw [if_neg hroom]
  dsimp only
  rw [if_pos (by rw [hquiet])]
  rfl

theorem schedule_quiet (h : v.faults = {}) (delay : Nanos) (event : ExecutionEvent) :
    (v.schedule delay event).faults = {} := by
  by_cases hfull : v.config.maxPendingEvents ≤ v.pending.length
  · rw [schedule_of_full hfull]
    exact h
  · obtain ⟨_, hscheduled⟩ := schedule_of_room hfull h delay event
    rw [hscheduled]
    exact h

theorem takeOnArrival_quiet (h : v.faults = {}) (index : Nat) (order : PaperOrder) (book : BookView)
    (delay : Nanos) : (v.takeOnArrival index order book delay).faults = {} := by
  unfold takeOnArrival
  dsimp only
  split
  · exact schedule_quiet (by exact h) _ _
  · exact h

theorem acceptOrder_quiet (h : v.faults = {}) (request : OrderRequest) (delay : Nanos) :
    (v.acceptOrder request delay).faults = {} := by
  unfold acceptOrder
  dsimp only
  cases v.books.lookup request.symbol with
  | none => exact schedule_quiet (by exact h) _ _
  | some book =>
      dsimp only
      split
      · exact schedule_quiet (by exact h) _ _
      split
      · split
        · exact schedule_quiet (by exact h) _ _
        · exact schedule_quiet (by exact h) _ _
      · exact takeOnArrival_quiet (schedule_quiet (by exact h) _ _) _ _ _ _

theorem processSubmit_quiet (h : v.faults = {}) (request : OrderRequest) (delay : Nanos) :
    (v.processSubmit request delay).faults = {} := by
  unfold processSubmit
  rw [if_neg (by simp [h]), if_neg (by simp [h])]
  split
  · exact schedule_quiet (by exact h) _ _
  · exact acceptOrder_quiet h request delay

theorem processCancel_quiet (h : v.faults = {}) (request : CancelRequest) (delay : Nanos) :
    (v.processCancel request delay).faults = {} := by
  unfold processCancel
  dsimp only
  cases v.cancelTarget request with
  | none => exact schedule_quiet (by exact h) _ _
  | some found =>
      dsimp only
      rw [if_neg (by simp [h])]
      split
      · exact schedule_quiet (by exact h) _ _
      · exact schedule_quiet (by exact h) _ _

theorem processReplace_quiet (h : v.faults = {}) (request : ReplaceRequest) (delay : Nanos) :
    (v.processReplace request delay).faults = {} := by
  unfold processReplace
  dsimp only
  cases (v.findOrder request.originalClientOrderId).filter fun found => found.2.isResting with
  | none => exact schedule_quiet (by exact h) _ _
  | some found =>
      dsimp only
      rw [if_neg (by simp [h])]
      split
      · exact schedule_quiet (by exact h) _ _
      · exact schedule_quiet (by exact h) _ _

theorem processRequest_quiet (h : v.faults = {}) (pending : PendingRequest) :
    (v.processRequest pending).faults = {} := by
  obtain ⟨dueNs, ordinal, request, decisionDelayNs⟩ := pending
  cases request with
  | submit request => exact processSubmit_quiet (by exact h) request decisionDelayNs
  | cancel request => exact processCancel_quiet (by exact h) request decisionDelayNs
  | replace request => exact processReplace_quiet (by exact h) request decisionDelayNs

theorem foldl_processRequest_quiet (h : v.faults = {}) (requests : List PendingRequest) :
    (requests.foldl processRequest v).faults = {} := by
  induction requests generalizing v with
  | nil => exact h
  | cons pending later ih => exact ih (processRequest_quiet h pending)

theorem processArrived_quiet (h : v.faults = {}) : v.processArrived.faults = {} :=
  foldl_processRequest_quiet (by exact h) v.arrived

theorem takeRequest_quiet (h : v.faults = {}) (request : Request) (delay : Nanos) :
    (v.takeRequest request delay).faults = {} := by
  unfold takeRequest
  rw [if_pos (by rw [h])]
  show { v.faults with delayNextRequestNs := 0 } = _
  rw [h]

theorem submit_quiet (h : v.faults = {}) (request : OrderRequest) :
    (v.submit request).2.faults = {} := by
  unfold submit
  repeat' split
  all_goals first
    | exact h
    | exact takeRequest_quiet (by exact h) _ _

theorem cancel_quiet (h : v.faults = {}) (request : CancelRequest) :
    (v.cancel request).2.faults = {} := by
  unfold cancel
  repeat' split
  all_goals first
    | exact h
    | exact takeRequest_quiet (by exact h) _ _

theorem replace_quiet (h : v.faults = {}) (request : ReplaceRequest) :
    (v.replace request).2.faults = {} := by
  unfold replace
  repeat' split
  all_goals first
    | exact h
    | exact takeRequest_quiet (by exact h) _ _

theorem cancelEach_quiet (symbol : Symbol) (orders : List PaperOrder) (h : v.faults = {}) :
    (cancelEach symbol orders v).2.faults = {} := by
  induction orders generalizing v with
  | nil => exact h
  | cons order orders ih =>
      unfold cancelEach
      split
      · exact ih h
      · dsimp only
        split
        · exact cancel_quiet h _
        · exact ih (cancel_quiet h _)

theorem scheduleEach_quiet (delay : Nanos) (event : ExecutionEvent) (chunks : Nat)
    (h : v.faults = {}) : (scheduleEach delay event chunks v).faults = {} := by
  induction chunks generalizing v with
  | zero => exact h
  | succ chunks ih => exact ih (schedule_quiet h delay event)

theorem matchOrder_quiet (now : Nanos) (index : Nat) {sweep : Sweep}
    (h : sweep.venue.faults = {}) : (sweep.matchOrder now index).venue.faults = {} := by
  cases horder : sweep.venue.orders[index]? with
  | none =>
      rw [Sweep.matchOrder, horder]
      exact h
  | some order =>
      by_cases hresting : order.isResting = true
      · rw [sweep.matchOrder_of_resting now index horder hresting]
        dsimp only
        split
        · exact schedule_quiet (by exact h) _ _
        · exact h
      · rw [Sweep.matchOrder, horder]
        dsimp only
        rw [if_pos (by simpa using hresting)]
        exact h

theorem foldl_matchOrder_quiet (now : Nanos) (indices : List Nat) {sweep : Sweep}
    (h : sweep.venue.faults = {}) :
    (indices.foldl (Sweep.matchOrder now) sweep).venue.faults = {} := by
  induction indices generalizing sweep with
  | nil => exact h
  | cons index indices ih => exact ih (matchOrder_quiet now index h)

theorem matchSymbol_quiet (h : v.faults = {}) (symbol : Symbol) (now : Nanos) :
    (v.matchSymbol symbol now).faults = {} := by
  unfold matchSymbol
  cases v.books.lookup symbol with
  | none => exact h
  | some book =>
      dsimp only
      split
      · exact h
      split
      · exact h
      · exact foldl_matchOrder_quiet now _ h

theorem poll_quiet (h : v.faults = {}) : v.poll.2.faults = {} := by
  cases hstarted : v.started with
  | false =>
      unfold poll
      rw [if_pos (by simp [hstarted])]
      exact h
  | true =>
      have hquiet := processArrived_quiet h
      obtain ⟨orders, metrics, hdelivered⟩ := deliverAll_frame
        (v.processArrived.dueEvents.map Scheduled.event) (v.processArrived.emptied v.clock)
      rw [poll_of_started hstarted, hdelivered]
      show (v.processArrived.emptied v.clock).faults = {}
      unfold emptied count
      simp [hquiet]

/-- A call that neither injects faults nor takes the venue down. -/
def Op.Faultless : Op → Prop
  | .inject _ => False
  | .stop => False
  | _ => True

theorem Op.Faultless.plain {op : Op} (h : op.Faultless) : op.Plain := by
  cases op with
  | stop => exact h.elim
  | inject faults => exact h.elim
  | _ => trivial

theorem step_quiet {op : Op} (hfaultless : op.Faultless) (h : v.faults = {}) :
    (step op v).faults = {} := by
  cases op with
  | inject faults => exact hfaultless.elim
  | stop => exact hfaultless.elim
  | start =>
      show v.start.2.faults = {}
      unfold start setConnection
      dsimp only
      split
      · split
        · exact h
        · exact h
      · split
        · exact h
        · exact h
  | setConnection state =>
      show (v.setConnection state).2.faults = {}
      unfold setConnection
      split
      · exact h
      · exact h
  | setAuthenticated authenticated => exact h
  | submit request => exact submit_quiet h request
  | cancel request => exact cancel_quiet h request
  | cancelAll symbol =>
      show (v.cancelAll symbol).2.faults = {}
      unfold cancelAll
      split
      · exact h
      · exact cancelEach_quiet symbol v.orders h
  | replace request => exact replace_quiet h request
  | queryOpenOrders symbol =>
      show (v.queryOpenOrders symbol).2.faults = {}
      unfold queryOpenOrders
      split
      · exact h
      · refine scheduleEach_quiet _ _ _ ?_
        show { v.faults with hideNextSnapshotOrders := 0 } = _
        rw [h]
  | queryOrder clientOrderId exchangeOrderId =>
      show (v.queryOrder clientOrderId exchangeOrderId).2.faults = {}
      unfold queryOrder
      split
      · exact h
      split
      · exact schedule_quiet (by exact h) _ _
      · exact schedule_quiet (by exact h) _ _
  | attachBook symbol book => exact h
  | onMarketUpdate symbol updateNs => exact matchSymbol_quiet (by exact h) symbol v.clock
  | poll => exact poll_quiet h
  | advance elapsed => exact h
  | setWall wall => exact h

end PaperExecution

end MmEngine.Exchange.Paper
