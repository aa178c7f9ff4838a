/-
# How a fill is reported

A fill is scheduled where it is executed, waits in the queue, and is handed to the sink by
a poll. As long as no event is repeated by an injected fault, nothing on that way makes a
second fill out of one: what the sink is handed and what still waits is part of what has
been executed. What is missing was dropped from a full queue, which is counted, or lost
when the transport was closed.
-/

import MmEngine.Exchange.Paper.Waiting
import MmEngine.Exchange.Paper.FillAccounting
import MmEngine.Lib.Flow

namespace MmEngine.Exchange

/-- The fill that an event reports, if it reports one. -/
def ExecutionEvent.fill? : ExecutionEvent → Option FillEvent
  | .fill report => some report
  | _ => Option.none

/-- The fills that events report, in their order. -/
def fillsIn (events : List ExecutionEvent) : List FillEvent :=
  events.filterMap ExecutionEvent.fill?

@[simp]
theorem fillsIn_nil : fillsIn [] = [] := rfl

@[simp]
theorem fillsIn_append (events later : List ExecutionEvent) :
    fillsIn (events ++ later) = fillsIn events ++ fillsIn later :=
  List.filterMap_append

theorem fillsIn_cons (event : ExecutionEvent) (events : List ExecutionEvent) :
    fillsIn (event :: events) = event.fill?.toList ++ fillsIn events := by
  rw [fillsIn, List.filterMap_cons]
  cases event.fill? with
  | none => rfl
  | some fill => rfl

namespace Paper

/-- The fills among scheduled events. -/
def waitingFills (events : List Scheduled) : Multiset FillEvent :=
  fillsIn (events.map Scheduled.event)

@[simp]
theorem waitingFills_nil : waitingFills [] = 0 := rfl

@[simp]
theorem waitingFills_append (events later : List Scheduled) :
    waitingFills (events ++ later) = waitingFills events + waitingFills later := by
  rw [waitingFills, List.map_append, fillsIn_append, ← Multiset.coe_add]
  rfl

theorem waitingFills_singleton (e : Scheduled) :
    waitingFills [e] = e.event.fill?.toList := by
  rw [waitingFills, List.map_singleton, fillsIn_cons, fillsIn_nil, List.append_nil]

theorem waitingFills_perm {events later : List Scheduled} (h : events.Perm later) :
    waitingFills events = waitingFills later :=
  Multiset.coe_eq_coe.mpr ((h.map _).filterMap _)

/-- The fills that executions schedule. -/
def executedFills (executions : List Execution) : Multiset FillEvent :=
  executions.map Execution.fill

@[simp]
theorem executedFills_nil : executedFills [] = 0 := rfl

@[simp]
theorem executedFills_append (executions later : List Execution) :
    executedFills (executions ++ later) = executedFills executions + executedFills later := by
  rw [executedFills, List.map_append, ← Multiset.coe_add]
  rfl

theorem executedFills_singleton (e : Execution) : executedFills [e] = {e.fill} := rfl

namespace PaperExecution

variable {v w x : PaperExecution}

/-- A part of a call appends the given fills to the queue, or some of them when it counts
events that it dropped. -/
structure Reports (v w : PaperExecution) (fills : Multiset FillEvent) : Prop where
  duplicates : w.faults.duplicateNextEvent = v.faults.duplicateNextEvent
  dropped : v.metrics.eventsDropped ≤ w.metrics.eventsDropped
  appends : ∃ events, w.pending = v.pending ++ events ∧ waitingFills events ≤ fills ∧
    (w.metrics.eventsDropped = v.metrics.eventsDropped → waitingFills events = fills)

namespace Reports

theorem frame (hduplicates : w.faults.duplicateNextEvent = v.faults.duplicateNextEvent)
    (hdropped : w.metrics.eventsDropped = v.metrics.eventsDropped)
    (hpending : w.pending = v.pending) : Reports v w 0 where
  duplicates := hduplicates
  dropped := hdropped.ge
  appends := ⟨[], by rw [hpending, List.append_nil], le_rfl, fun _ => rfl⟩

theorem refl (v : PaperExecution) : Reports v v 0 := .frame rfl rfl rfl

theorem trans {fills later : Multiset FillEvent} (h : Reports v w fills)
    (h' : Reports w x later) : Reports v x (fills + later) := by
  obtain ⟨first, hfirst, hle, heq⟩ := h.appends
  obtain ⟨second, hsecond, hle', heq'⟩ := h'.appends
  have hdropped := h.dropped
  have hdropped' := h'.dropped
  refine ⟨h'.duplicates.trans h.duplicates, hdropped.trans hdropped', first ++ second, ?_, ?_, ?_⟩
  · rw [hsecond, hfirst, List.append_assoc]
  · rw [waitingFills_append]
    exact add_le_add hle hle'
  · intro hsame
    rw [waitingFills_append, heq (by omega), heq' (by omega)]

/-- A part that does nothing to the queue, before another. -/
theorem after {fills : Multiset FillEvent} (h : Reports v w 0) (h' : Reports w x fills) :
    Reports v x fills := zero_add fills ▸ h.trans h'

/-- A part that reports no fill, after another. -/
theorem before {fills : Multiset FillEvent} (h : Reports v w fills) (h' : Reports w x 0) :
    Reports v x fills := add_zero fills ▸ h.trans h'

end Reports

/-- Scheduling an event appends it to the queue, or drops it. -/
theorem schedule_reports (h : v.faults.duplicateNextEvent = 0) (delay : Nanos)
    (event : ExecutionEvent) :
    Reports v (v.schedule delay event) (event.fill?.toList : List FillEvent) := by
  unfold schedule scheduleAt
  split
  · refine ⟨rfl, Nat.le_succ _, [], (List.append_nil _).symm, Multiset.zero_le _, ?_⟩
    intro hsame
    exact absurd hsame (Nat.succ_ne_self _)
  · refine ⟨rfl, le_rfl, _, rfl, ?_, fun _ => ?_⟩
    · rw [waitingFills_singleton]
    · rw [waitingFills_singleton]

/-- Scheduling anything but a fill reports none. -/
theorem schedule_reports_none (h : v.faults.duplicateNextEvent = 0) (delay : Nanos)
    {event : ExecutionEvent} (hfill : event.fill? = none) :
    Reports v (v.schedule delay event) 0 := by
  have hscheduled := schedule_reports h delay event
  rwa [hfill] at hscheduled

/-- A part that does nothing to the queue, and then schedules something else. -/
theorem Reports.schedule (hsame : Reports v w 0) (h : v.faults.duplicateNextEvent = 0)
    (delay : Nanos) {event : ExecutionEvent} (hfill : event.fill? = none) :
    Reports v (w.schedule delay event) 0 :=
  hsame.after (schedule_reports_none (hsame.duplicates.trans h) delay hfill)

theorem scheduleFill_reports (h : v.faults.duplicateNextEvent = 0) (order : PaperOrder)
    (result : MatchResult) (delay : Nanos) :
    Reports v (v.scheduleFill order result delay) {v.fillEvent order result} := by
  have hcounted : Reports v
      { (v.count fun k =>
          if order.remaining.isZero then { k with fills := k.fills + 1 }
          else { k with partialFills := k.partialFills + 1 }).advanceSeq with
        nextTradeSeq := v.nextTradeSeq + 1 } 0 := by
    refine .frame rfl ?_ rfl
    unfold count advanceSeq
    dsimp only
    split
    · rfl
    · rfl
  exact hcounted.after (schedule_reports (hcounted.duplicates.trans h) delay _)

/-! ## Requests -/

theorem rejectOrder_reports (h : v.faults.duplicateNextEvent = 0) (request : OrderRequest)
    (reason : RejectReason) (delay : Nanos) :
    Reports v (v.rejectOrder request reason delay) 0 := by
  have hcounted : Reports v
      (v.count fun k => { k with newRejects := k.newRejects + 1 }).advanceSeq 0 :=
    .frame rfl rfl rfl
  exact hcounted.schedule h delay rfl

theorem expireOrder_reports (h : v.faults.duplicateNextEvent = 0) (order : PaperOrder)
    (delay : Nanos) : Reports v (v.expireOrder order delay) 0 := by
  have hcounted : Reports v
      (v.count fun k => { k with expiries := k.expiries + 1 }).advanceSeq 0 :=
    .frame rfl rfl rfl
  exact hcounted.schedule h delay rfl

theorem listOrder_reports (h : v.faults.duplicateNextEvent = 0) (order : PaperOrder)
    (delay : Nanos) : Reports v (v.listOrder order delay) 0 := by
  have hlisted : Reports v
      ({ v with
        orders := v.orders ++ [order]
        byClientId := v.byClientId.insert order.clientOrderId v.orders.length
        byExchangeId := v.byExchangeId.insert order.exchangeOrderId v.orders.length }.count
          fun k => { k with newAcks := k.newAcks + 1 }).advanceSeq 0 :=
    .frame rfl rfl rfl
  exact hlisted.schedule h delay rfl

theorem takeOnArrival_reports (h : v.faults.duplicateNextEvent = 0) (index : Nat)
    (order : PaperOrder) (book : BookView) (delay : Nanos) :
    Reports v (v.takeOnArrival index order book delay)
      (executedFills (v.takeOnArrivalExecutions index order book)) := by
  unfold takeOnArrival takeOnArrivalExecutions
  dsimp only
  split
  · have hset : ∀ filled, Reports v (v.setOrder index filled) 0 := fun _ => .frame rfl rfl rfl
    rw [executedFills_singleton]
    exact (hset _).after (scheduleFill_reports ((hset _).duplicates.trans h) _ _ _)
  · exact .refl v

theorem acceptOrder_reports (h : v.faults.duplicateNextEvent = 0) (request : OrderRequest)
    (delay : Nanos) :
    Reports v (v.acceptOrder request delay)
      (executedFills (v.acceptOrderExecutions request delay)) := by
  unfold acceptOrder acceptOrderExecutions
  dsimp only
  generalize hnumbered : { v with
    nextExchangeSeq := v.nextExchangeSeq + 1
    nextArrivalSeq := v.nextArrivalSeq + 1 } = numbered
  have hframe : Reports v numbered 0 := by
    rw [← hnumbered]
    exact .frame rfl rfl rfl
  have hquiet := hframe.duplicates.trans h
  have hlisted := listOrder_reports hquiet (v.arrivingOrder request) delay
  refine hframe.after ?_
  cases v.books.lookup request.symbol with
  | none => exact hlisted
  | some book =>
      dsimp only
      split
      · exact hlisted
      split
      · have hcounted : Reports numbered (numbered.count fun k =>
            { k with postOnlyRejections := k.postOnlyRejections + 1 }) 0 :=
          .frame rfl rfl rfl
        refine hcounted.after ?_
        split
        · exact rejectOrder_reports (hcounted.duplicates.trans hquiet) _ _ _
        · exact expireOrder_reports (hcounted.duplicates.trans hquiet) _ _
      · exact hlisted.after
          (takeOnArrival_reports (hlisted.duplicates.trans hquiet) _ _ _ _)

theorem processSubmit_reports (h : v.faults.duplicateNextEvent = 0) (request : OrderRequest)
    (delay : Nanos) :
    Reports v (v.processSubmit request delay)
      (executedFills (v.processSubmitExecutions request delay)) := by
  unfold processSubmit processSubmitExecutions
  dsimp only
  split
  · have hfaulted : Reports v
        ({ v with
          faults :=
            { v.faults with errorNextRequest := v.faults.errorNextRequest - 1 } }.count fun k =>
              { k with executionErrors := k.executionErrors + 1 }) 0 :=
      .frame rfl rfl rfl
    exact hfaulted.schedule h delay rfl
  split
  · have hfaulted : Reports v
        { v with faults := { v.faults with rejectNextNew := v.faults.rejectNextNew - 1 } } 0 :=
      .frame rfl rfl rfl
    exact hfaulted.after (rejectOrder_reports (hfaulted.duplicates.trans h) _ _ _)
  split
  · exact rejectOrder_reports h _ _ _
  · exact acceptOrder_reports h request delay

theorem processCancel_reports (h : v.faults.duplicateNextEvent = 0) (request : CancelRequest)
    (delay : Nanos) : Reports v (v.processCancel request delay) 0 := by
  have hrejected : Reports v v.advanceSeq.countCancelReject 0 := .frame rfl rfl rfl
  unfold processCancel
  dsimp only
  split
  · exact hrejected.schedule h delay rfl
  split
  · have hfaulted : Reports v
        { v.advanceSeq.countCancelReject with
          faults := { v.faults with rejectNextCancel := v.faults.rejectNextCancel - 1 } } 0 :=
      .frame rfl rfl rfl
    exact hfaulted.schedule h delay rfl
  split
  · exact hrejected.schedule h delay rfl
  · have hmarked : ∀ index order, Reports v (v.advanceSeq.setOrder index order) 0 :=
      fun _ _ => .frame rfl rfl rfl
    exact (hmarked _ _).schedule h delay rfl

theorem processReplace_reports (h : v.faults.duplicateNextEvent = 0) (request : ReplaceRequest)
    (delay : Nanos) : Reports v (v.processReplace request delay) 0 := by
  have hrejected : Reports v v.advanceSeq.countReplaceReject 0 := .frame rfl rfl rfl
  unfold processReplace
  dsimp only
  split
  · exact hrejected.schedule h delay rfl
  split
  · have hfaulted : Reports v
        { v.advanceSeq.countReplaceReject with
          faults := { v.faults with rejectNextReplace := v.faults.rejectNextReplace - 1 } } 0 :=
      .frame rfl rfl rfl
    exact hfaulted.schedule h delay rfl
  split
  · exact hrejected.schedule h delay rfl
  · have hswapped : ∀ index order replaced, Reports v
        ((v.advanceSeq.swapOrder index order replaced).count fun k =>
          { k with replaceAcks := k.replaceAcks + 1 }) 0 :=
      fun _ _ _ => .frame rfl rfl rfl
    exact (hswapped _ _ _).schedule h delay rfl

/-- Processing a request reports what it executes. -/
theorem processRequest_reports (h : v.faults.duplicateNextEvent = 0) (pending : PendingRequest) :
    Reports v (v.processRequest pending) (executedFills (v.requestExecutions pending)) := by
  generalize hprocessing : { v with processingArrivalNs := pending.dueNs } = processing
  have harrived : Reports v processing 0 := by
    rw [← hprocessing]
    exact .frame rfl rfl rfl
  have hquiet := harrived.duplicates.trans h
  have hfinish : ∀ (processed : PaperExecution) (fills : Multiset FillEvent),
      Reports processing processed fills →
        Reports v { processed with processingArrivalNs := 0 } fills :=
    fun processed fills hprocessed => (harrived.after hprocessed).before (.frame rfl rfl rfl)
  unfold processRequest requestExecutions
  rw [hprocessing]
  apply hfinish
  cases pending.request with
  | submit request => exact processSubmit_reports hquiet request _
  | cancel request => exact processCancel_reports hquiet request _
  | replace request => exact processReplace_reports hquiet request _

theorem requests_reports (requests : List PendingRequest)
    (h : v.faults.duplicateNextEvent = 0) :
    Reports v (requests.foldl processRequest v)
      (executedFills (requestsExecutions requests v)) := by
  induction requests generalizing v with
  | nil => exact .refl v
  | cons pending later ih =>
      have hfirst := processRequest_reports h pending
      rw [List.foldl_cons, requestsExecutions, executedFills_append]
      exact hfirst.trans (ih (hfirst.duplicates.trans h))

theorem matchOrder_reports {sweep : Sweep} (h : sweep.venue.faults.duplicateNextEvent = 0)
    (now : Nanos) (index : Nat) :
    Reports sweep.venue (sweep.matchOrder now index).venue
      (executedFills (sweep.orderExecutions now index)) := by
  cases horder : sweep.venue.orders[index]? with
  | none =>
      rw [Sweep.matchOrder, Sweep.orderExecutions, horder]
      exact .refl _
  | some order =>
      by_cases hresting : order.isResting = true
      · rw [sweep.matchOrder_of_resting now index horder hresting, Sweep.orderExecutions, horder]
        have hbusy : ¬(!order.isResting) = true := by simp [hresting]
        dsimp only
        rw [if_neg hbusy]
        split
        · have hset : ∀ filled, Reports sweep.venue (sweep.venue.setOrder index filled) 0 :=
            fun _ => .frame rfl rfl rfl
          rw [executedFills_singleton]
          exact (hset _).after (scheduleFill_reports ((hset _).duplicates.trans h) _ _ _)
        · exact .refl _
      · rw [Sweep.matchOrder, Sweep.orderExecutions, horder]
        have hidle : (!order.isResting) = true := by simpa using hresting
        dsimp only
        rw [if_pos hidle, if_pos hidle]
        exact .refl _

theorem sweep_reports (now : Nanos) (indices : List Nat) {sweep : Sweep}
    (h : sweep.venue.faults.duplicateNextEvent = 0) :
    Reports sweep.venue (indices.foldl (Sweep.matchOrder now) sweep).venue
      (executedFills (Sweep.executions now indices sweep)) := by
  induction indices generalizing sweep with
  | nil => exact .refl _
  | cons index indices ih =>
      have hfirst := matchOrder_reports h now index
      rw [List.foldl_cons, Sweep.executions, executedFills_append]
      exact hfirst.trans (ih (hfirst.duplicates.trans h))

theorem matchSymbol_reports (h : v.faults.duplicateNextEvent = 0) (symbol : Symbol) (now : Nanos) :
    Reports v (v.matchSymbol symbol now) (executedFills (v.matchSymbolExecutions symbol now)) := by
  unfold matchSymbol matchSymbolExecutions
  cases v.books.lookup symbol with
  | none => exact .refl v
  | some book =>
      dsimp only
      split
      · exact .refl v
      split
      · exact .frame rfl rfl rfl
      · exact sweep_reports now _
          (show (v.sweepOf book).venue.faults.duplicateNextEvent = 0 from h)

theorem scheduleEach_reports (h : v.faults.duplicateNextEvent = 0) (delay : Nanos)
    (chunks : Nat) : Reports v (scheduleEach delay (.other true) chunks v) 0 := by
  induction chunks generalizing v with
  | zero => exact .refl v
  | succ chunks ih =>
      have hfirst := schedule_reports_none h delay
        (show (ExecutionEvent.other true).fill? = none from rfl)
      exact hfirst.after (ih (hfirst.duplicates.trans h))

theorem queryOpenOrders_reports (h : v.faults.duplicateNextEvent = 0) (symbol : Symbol) :
    Reports v (v.queryOpenOrders symbol).2 0 := by
  unfold queryOpenOrders
  split
  · exact .refl v
  · have hasked : Reports v
        ({ v with faults := { v.faults with hideNextSnapshotOrders := 0 } }.count fun k =>
          { k with snapshots := k.snapshots + 1 }) 0 :=
      .frame rfl rfl rfl
    exact hasked.after (scheduleEach_reports (hasked.duplicates.trans h) _ _)

theorem queryOrder_reports (h : v.faults.duplicateNextEvent = 0) (clientOrderId : ClientOrderId)
    (exchangeOrderId : ExchangeOrderId) :
    Reports v (v.queryOrder clientOrderId exchangeOrderId).2 0 := by
  unfold queryOrder
  split
  · exact .refl v
  split
  · exact schedule_reports_none h _ rfl
  · exact schedule_reports_none h _ rfl

theorem takeRequest_reports (v : PaperExecution) (request : Request) (delay : Nanos) :
    Reports v (v.takeRequest request delay) 0 := by
  unfold takeRequest
  split
  · exact .frame rfl rfl rfl
  · exact .frame rfl rfl rfl

theorem takeCounted_reports (bump : PaperMetrics → PaperMetrics)
    (hbump : (bump v.metrics).eventsDropped = v.metrics.eventsDropped) (request : Request)
    (delay : Nanos) : Reports v ((v.count bump).takeRequest request delay) 0 := by
  have hcounted : Reports v (v.count bump) 0 := .frame rfl hbump rfl
  exact hcounted.after (takeRequest_reports _ request delay)

theorem submit_reports (v : PaperExecution) (request : OrderRequest) :
    Reports v (v.submit request).2 0 := by
  unfold submit
  repeat' split
  all_goals first
    | exact .refl v
    | exact takeCounted_reports _ rfl _ _

theorem cancel_reports (v : PaperExecution) (request : CancelRequest) :
    Reports v (v.cancel request).2 0 := by
  unfold cancel
  repeat' split
  all_goals first
    | exact .refl v
    | exact takeCounted_reports _ rfl _ _

theorem replace_reports (v : PaperExecution) (request : ReplaceRequest) :
    Reports v (v.replace request).2 0 := by
  unfold replace
  repeat' split
  all_goals first
    | exact .refl v
    | exact takeCounted_reports _ rfl _ _

theorem cancelEach_reports (symbol : Symbol) (orders : List PaperOrder) (v : PaperExecution) :
    Reports v (cancelEach symbol orders v).2 0 := by
  induction orders generalizing v with
  | nil => exact .refl v
  | cons order orders ih =>
      rw [cancelEach]
      split
      · exact ih v
      · dsimp only
        split
        · exact cancel_reports v _
        · exact (cancel_reports v _).after (ih _)

theorem cancelAll_reports (v : PaperExecution) (symbol : Symbol) :
    Reports v (v.cancelAll symbol).2 0 := by
  unfold cancelAll
  split
  · exact .refl v
  · exact cancelEach_reports symbol v.orders v

theorem setConnection_reports (v : PaperExecution) (state : ConnectionState) :
    Reports v (v.setConnection state).2 0 ∧ fillsIn (v.setConnection state).1 = [] := by
  unfold setConnection
  split
  · exact ⟨.refl v, rfl⟩
  · refine ⟨.frame rfl rfl rfl, ?_⟩
    cases v.started with
    | true => rfl
    | false => rfl

theorem start_reports (v : PaperExecution) :
    Reports v v.start.2 0 ∧ fillsIn v.start.1 = [] := by
  have hconnecting := setConnection_reports { v with started := true } .connecting
  have hconnected := setConnection_reports
    { ({ v with started := true }.setConnection .connecting).2 with authenticated := true }
    .connected
  have hstarted : Reports v { v with started := true } 0 := .frame rfl rfl rfl
  have hauthenticated : Reports ({ v with started := true }.setConnection .connecting).2
      { ({ v with started := true }.setConnection .connecting).2 with authenticated := true } 0 :=
    .frame rfl rfl rfl
  constructor
  · exact ((hstarted.after hconnecting.1).after hauthenticated).after hconnected.1
  · rw [start, fillsIn_append, hconnecting.2, hconnected.2]
    rfl

end PaperExecution

open PaperExecution in
theorem perm_reorderDue (faults : Nat) (due : List Scheduled) :
    (reorderDue faults due).Perm due := by
  induction faults generalizing due with
  | zero => exact .refl due
  | succ faults ih =>
      rw [reorderDue]
      split
      · rename_i last previous earlier hdue
        have hreversed : due = (last :: previous :: earlier).reverse := by
          rw [← hdue, List.reverse_reverse]
        refine (ih _).trans ?_
        rw [hreversed]
        exact (List.reverse_perm _).trans ((List.Perm.swap _ _ _).trans (List.reverse_perm _).symm)
      · exact .refl due

namespace PaperExecution

variable {v w : PaperExecution}

theorem fill?_deliver (v : PaperExecution) (event : ExecutionEvent) :
    (v.deliver event).1.fill? = event.fill? := by
  unfold deliver
  cases event with
  | orderCancel cancel =>
      dsimp only
      split
      · rfl
      · rfl
  | _ => rfl

/-- Delivering changes no fill. -/
theorem fillsIn_deliverAll (events : List ExecutionEvent) (v : PaperExecution) :
    fillsIn (deliverAll events v).1 = fillsIn events := by
  induction events generalizing v with
  | nil => rfl
  | cons event events ih => rw [deliverAll, fillsIn_cons, fillsIn_cons, fill?_deliver, ih]

theorem deliverAll_pending (events : List ExecutionEvent) (v : PaperExecution) :
    (deliverAll events v).2.pending = v.pending ∧
      (deliverAll events v).2.faults = v.faults ∧
      (deliverAll events v).2.metrics.eventsDropped = v.metrics.eventsDropped := by
  induction events generalizing v with
  | nil => exact ⟨rfl, rfl, rfl⟩
  | cons event events ih =>
      obtain ⟨hpending, hfaults, hdropped⟩ := ih (v.deliver event).2
      have hdeliver : (v.deliver event).2.pending = v.pending ∧
          (v.deliver event).2.faults = v.faults ∧
          (v.deliver event).2.metrics.eventsDropped = v.metrics.eventsDropped := by
        cases event with
        | orderCancel cancel =>
            unfold deliver resolvePendingCancel
            dsimp only
            repeat' split
            all_goals exact ⟨rfl, rfl, rfl⟩
        | _ => exact ⟨rfl, rfl, rfl⟩
      exact ⟨hpending.trans hdeliver.1, hfaults.trans hdeliver.2.1, hdropped.trans hdeliver.2.2⟩

/-- What is due and what is not are together what waits. -/
theorem waitingFills_dueEvents (v : PaperExecution) :
    waitingFills v.dueEvents +
        waitingFills (v.pending.filter fun scheduled => ¬ scheduled.dueNs ≤ v.clock) =
      waitingFills v.pending := by
  have hdue := (perm_reorderDue v.faults.reorderNextEvent _).trans
    (List.perm_insertionSort (fun a b : Scheduled =>
      comesBefore a.dueNs a.ordinal b.dueNs b.ordinal = true)
      (v.pending.filter fun scheduled => scheduled.dueNs ≤ v.clock))
  rw [dueEvents, waitingFills_perm hdue, ← waitingFills_append]
  apply waitingFills_perm
  simpa only [decide_not] using List.filter_append_perm (fun scheduled : Scheduled =>
    decide (scheduled.dueNs ≤ v.clock)) v.pending

/-- The events that a call hands to the sink before it returns. -/
def emitted (op : Op) (v : PaperExecution) : List ExecutionEvent :=
  match op with
  | .start => v.start.1
  | .stop => v.stop.1
  | .setConnection state => (v.setConnection state).1
  | .poll => v.poll.1
  | _ => []

/-- The call injects no fault that repeats an event. -/
def Op.Unrepeating : Op → Prop
  | .inject faults => faults.duplicateNextEvent = 0
  | _ => True

/-- What a call may do to fills: hand some of them to the sink, and leave the rest of what
waited or is executed waiting, unless it counts events that it dropped. -/
structure Passes (op : Op) (v : PaperExecution) : Prop where
  duplicates : (step op v).faults.duplicateNextEvent = 0
  dropped : v.metrics.eventsDropped ≤ (step op v).metrics.eventsDropped
  le : (fillsIn (emitted op v) : Multiset FillEvent) + waitingFills (step op v).pending ≤
    waitingFills v.pending + executedFills (executions op v)
  eq : op ≠ .stop → (step op v).metrics.eventsDropped = v.metrics.eventsDropped →
    (fillsIn (emitted op v) : Multiset FillEvent) + waitingFills (step op v).pending =
      waitingFills v.pending + executedFills (executions op v)

/-- A call that hands over no fill passes on what it reports. -/
theorem Reports.passes {op : Op} (h : v.faults.duplicateNextEvent = 0)
    (hreports : Reports v (step op v) (executedFills (executions op v)))
    (hhanded : fillsIn (emitted op v) = []) : Passes op v := by
  obtain ⟨events, hpending, hle, heq⟩ := hreports.appends
  refine ⟨hreports.duplicates.trans h, hreports.dropped, ?_, fun _ hsame => ?_⟩
  · rw [hhanded, Multiset.coe_nil, zero_add, hpending, waitingFills_append]
    exact add_le_add_right hle _
  · rw [hhanded, Multiset.coe_nil, zero_add, hpending, waitingFills_append, heq hsame]

/-- A poll hands over what is due once the requests that have arrived are answered. -/
theorem poll_passes (h : v.faults.duplicateNextEvent = 0) : Passes .poll v := by
  cases hstarted : v.started with
  | false =>
      have hidle : v.poll = ([], v) := if_pos (by simp [hstarted])
      have hnone : executions .poll v = [] := if_pos (by simp [hstarted])
      refine Reports.passes h ?_ ?_
      · rw [hnone]
        show Reports v v.poll.2 0
        rw [hidle]
        exact .refl v
      · show fillsIn v.poll.1 = []
        rw [hidle]
        rfl
  | true =>
      have hexecutions : executions .poll v = requestsExecutions v.arrived v.polled :=
        if_neg (by simp [hstarted])
      have hreports : Reports v v.processArrived (executedFills (executions .poll v)) := by
        rw [hexecutions]
        have hpolled : Reports v v.polled 0 := .frame rfl rfl rfl
        exact hpolled.after (requests_reports v.arrived (hpolled.duplicates.trans h))
      have hclock : v.processArrived.clock = v.clock :=
        congrArg Setting.clock (foldl_processRequest_setting v.polled v.arrived)
      obtain ⟨hpending, hfaults, hdropped⟩ := deliverAll_pending
        (v.processArrived.dueEvents.map Scheduled.event) (v.processArrived.emptied v.clock)
      have hstep : step .poll v = (deliverAll (v.processArrived.dueEvents.map Scheduled.event)
          (v.processArrived.emptied v.clock)).2 := congrArg Prod.snd (poll_of_started hstarted)
      have hfills : fillsIn (emitted .poll v) =
          fillsIn (v.processArrived.dueEvents.map Scheduled.event) := by
        show fillsIn v.poll.1 = _
        rw [poll_of_started hstarted, fillsIn_deliverAll]
      have hsplit := v.processArrived.waitingFills_dueEvents
      rw [hclock] at hsplit
      have hflow : (fillsIn (emitted .poll v) : Multiset FillEvent) +
          waitingFills (step .poll v).pending = waitingFills v.processArrived.pending := by
        rw [hfills, hstep, hpending]
        exact hsplit
      obtain ⟨events, hevents, hle, heq⟩ := hreports.appends
      rw [← hstep] at hfaults hdropped
      refine ⟨?_, ?_, ?_, fun _ hsame => ?_⟩
      · rw [hfaults]
        exact hreports.duplicates.trans h
      · rw [hdropped]
        exact hreports.dropped
      · rw [hflow, hevents, waitingFills_append]
        exact add_le_add_right hle _
      · rw [hflow, hevents, waitingFills_append, heq (hdropped.symm.trans hsame)]

/-- Closing the transport hands over no fill and loses what waits. -/
theorem stop_passes (h : v.faults.duplicateNextEvent = 0) : Passes .stop v := by
  cases hstarted : v.started with
  | false =>
      have hidle : v.stop = ([], v) := if_pos (by simp [hstarted])
      refine Reports.passes h ?_ ?_
      · show Reports v v.stop.2 0
        rw [hidle]
        exact .refl v
      · show fillsIn v.stop.1 = []
        rw [hidle]
        rfl
  | true =>
      have hclosed := setConnection_reports { v with inFlight := [] } .disconnected
      have hstop : v.stop = (({ v with inFlight := [] }.setConnection .disconnected).1,
          { ({ v with inFlight := [] }.setConnection .disconnected).2 with
            started := false, pending := [] }) := if_neg (by simp [hstarted])
      refine ⟨?_, ?_, ?_, fun hnot _ => absurd rfl hnot⟩
      · show v.stop.2.faults.duplicateNextEvent = 0
        rw [hstop]
        exact hclosed.1.duplicates.trans h
      · show _ ≤ v.stop.2.metrics.eventsDropped
        rw [hstop]
        exact hclosed.1.dropped
      · show (fillsIn v.stop.1 : Multiset FillEvent) + waitingFills v.stop.2.pending ≤ _
        rw [hstop, hclosed.2]
        exact Multiset.zero_le _

/-- Whatever the call, it makes no fill out of nothing and none out of another. -/
theorem step_passes {op : Op} (hop : op.Unrepeating) (h : v.faults.duplicateNextEvent = 0) :
    Passes op v := by
  cases op with
  | poll => exact poll_passes h
  | stop => exact stop_passes h
  | start => exact Reports.passes h (start_reports v).1 (start_reports v).2
  | setConnection state =>
      exact Reports.passes h (setConnection_reports v state).1 (setConnection_reports v state).2
  | inject faults =>
      exact ⟨hop, le_rfl, (by exact zero_add (waitingFills v.pending) ▸ (add_zero _).ge),
        fun _ _ => by exact (zero_add _).trans (add_zero _).symm⟩
  | onMarketUpdate symbol updateNs =>
      have hupdated : Reports v
          { v with bookUpdatedNs := v.bookUpdatedNs.insert symbol updateNs } 0 :=
        .frame rfl rfl rfl
      exact Reports.passes h
        (hupdated.after (matchSymbol_reports (hupdated.duplicates.trans h) symbol v.clock)) rfl
  | submit request => exact Reports.passes h (submit_reports v request) rfl
  | cancel request => exact Reports.passes h (cancel_reports v request) rfl
  | cancelAll symbol => exact Reports.passes h (cancelAll_reports v symbol) rfl
  | replace request => exact Reports.passes h (replace_reports v request) rfl
  | queryOpenOrders symbol => exact Reports.passes h (queryOpenOrders_reports h symbol) rfl
  | queryOrder clientOrderId exchangeOrderId =>
      exact Reports.passes h (queryOrder_reports h clientOrderId exchangeOrderId) rfl
  | setAuthenticated authenticated | attachBook symbol book | advance elapsed | setWall wall =>
      exact Reports.passes h (.frame rfl rfl rfl) rfl

/-! ## Whole runs -/

/-- Everything that calls hand to the sink. -/
def allEmitted (calls : List Op) (v : PaperExecution) : List ExecutionEvent :=
  (Machine.outputs step emitted calls v).flatten

@[simp]
theorem allEmitted_nil (v : PaperExecution) : allEmitted [] v = [] := rfl

@[simp]
theorem allEmitted_cons (call : Op) (calls : List Op) (v : PaperExecution) :
    allEmitted (call :: calls) v = emitted call v ++ allEmitted calls (step call v) := rfl

theorem allEmitted_append (calls later : List Op) (v : PaperExecution) :
    allEmitted (calls ++ later) v =
      allEmitted calls v ++ allEmitted later (Machine.run step calls v) := by
  rw [allEmitted, Machine.outputs_append, List.flatten_append]
  rfl

theorem fillsIn_allEmitted (calls : List Op) (v : PaperExecution) :
    (fillsIn (allEmitted calls v) : Multiset FillEvent) =
      Machine.total step (fun call v => (fillsIn (emitted call v) : Multiset FillEvent)) calls v :=
  Machine.flatten_outputs (f := fun events => (fillsIn events : Multiset FillEvent)) rfl
    (fun first later => by rw [fillsIn_append, Multiset.coe_add]) emitted calls v

theorem executedFills_history (calls : List Op) (v : PaperExecution) :
    executedFills (history calls v) =
      Machine.total step (fun call v => executedFills (executions call v)) calls v :=
  Machine.flatten_outputs executedFills_nil executedFills_append executions calls v

variable {calls : List Op} (hcalls : ∀ call ∈ calls, call.Unrepeating)
  (h : v.faults.duplicateNextEvent = 0)

include hcalls h in
/-- Along a run what the sink is handed and what still waits is part of what waited and
what is executed. -/
theorem run_passes_le :
    (fillsIn (allEmitted calls v) : Multiset FillEvent) +
        waitingFills (Machine.run step calls v).pending ≤
      waitingFills v.pending + executedFills (history calls v) := by
  rw [fillsIn_allEmitted, executedFills_history]
  exact Machine.flow_le_run (fun v : PaperExecution => waitingFills v.pending)
    (I := fun v => v.faults.duplicateNextEvent = 0) (C := fun call _ => call.Unrepeating)
    (fun _ _ hquiet hcall => (step_passes hcall hquiet).duplicates)
    (fun _ _ hquiet hcall => (step_passes hcall hquiet).le) h (Machine.along_label_iff.mpr hcalls)

include hcalls h in
theorem run_dropped_along :
    Machine.Along step
      (fun call v => v.metrics.eventsDropped ≤ (step call v).metrics.eventsDropped) calls v := by
  induction calls generalizing v with
  | nil => trivial
  | cons call calls ih =>
      obtain ⟨hcall, hrest⟩ := List.forall_mem_cons.mp hcalls
      have hpasses := step_passes hcall h
      exact ⟨hpasses.dropped, ih hrest hpasses.duplicates⟩

include hcalls h in
/-- And it is all of it, as long as the transport is not closed and no event dropped. -/
theorem run_passes_eq (hopen : ∀ call ∈ calls, call ≠ .stop)
    (hdropped : (Machine.run step calls v).metrics.eventsDropped = v.metrics.eventsDropped) :
    (fillsIn (allEmitted calls v) : Multiset FillEvent) +
        waitingFills (Machine.run step calls v).pending =
      waitingFills v.pending + executedFills (history calls v) := by
  have hstill := (run_dropped_along hcalls h).still hdropped
  have halong := (Machine.along_label_iff (s := v).mpr hcalls).and
    ((Machine.along_label_iff (s := v).mpr hopen).and hstill)
  rw [fillsIn_allEmitted, executedFills_history]
  exact Machine.flow_run (fun v : PaperExecution => waitingFills v.pending)
    (I := fun v => v.faults.duplicateNextEvent = 0)
    (fun _ _ hquiet hcall => (step_passes hcall.1 hquiet).duplicates)
    (fun _ _ hquiet hcall => (step_passes hcall.1 hquiet).eq hcall.2.1 hcall.2.2) h halong

end PaperExecution

end Paper

end MmEngine.Exchange
