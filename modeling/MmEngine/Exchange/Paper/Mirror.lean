/-
# Two venues that see the same requests

Two venues with the same orders, indices and counters, on clocks that need not agree and
with queues of different pasts. A request that arrives at both at the same moment does to
the one what it does to the other and adds the same answers to both queues, as long as the
one with the longer queue has room for them. The orders may even differ at some positions,
if no request finds an order there.
-/

import MmEngine.Exchange.Paper.Faultless
import MmEngine.Exchange.Paper.Rebase

namespace MmEngine.Exchange.Paper

/-- When a waiting event is due and what it says, but for the stamps. -/
def Scheduled.report (e : Scheduled) : Nanos × ExecutionEvent := (e.dueNs, e.event.unstamped)

/-- A request on its way without its number. -/
def PendingRequest.flight (pending : PendingRequest) : Nanos × Request × Nanos :=
  (pending.dueNs, pending.request, pending.decisionDelayNs)

namespace PaperOrder

variable {order other : PaperOrder}

theorem exists_stamps (h : order.unstamped = other.unstamped) :
    ∃ acceptedNs lastEventNs,
      other = { order with acceptedNs := acceptedNs, lastEventNs := lastEventNs } := by
  refine ⟨other.acceptedNs, other.lastEventNs, ?_⟩
  cases order
  cases other
  simp only [unstamped, mk.injEq] at h ⊢
  simp [h]

theorem applyMatch_unstamped (h : order.unstamped = other.unstamped) (result : MatchResult)
    (atNs atNs' : Nanos) :
    (order.applyMatch result atNs).unstamped = (other.applyMatch result atNs').unstamped := by
  obtain ⟨acceptedNs, lastEventNs, rfl⟩ := exists_stamps h
  unfold applyMatch
  dsimp only
  cases Fixed.checkedAdd order.cumulativeQty result.quantity with
  | none => rfl
  | some next =>
      dsimp only
      split
      · rfl
      · rfl

theorem matchAgainstBook_unstamped (h : order.unstamped = other.unstamped) (book : BookView)
    (model : FillModel) (bps : Nat) :
    matchAgainstBook order book model bps = matchAgainstBook other book model bps := by
  have hside : order.unstamped.side = other.unstamped.side := by rw [h]
  replace hside : order.side = other.side := hside
  unfold matchAgainstBook
  rw [← matchAndConsume_unstamped order, ← matchAndConsume_unstamped other, h, hside]

end PaperOrder

/-- Two tables of orders that agree but for the stamps, except at some positions. -/
structure Matches (apart : Set Nat) (orders orders' : List PaperOrder) : Prop where
  length : orders'.length = orders.length
  get : ∀ i ∉ apart,
    (orders'[i]?).map PaperOrder.unstamped = (orders[i]?).map PaperOrder.unstamped

namespace Matches

variable {apart : Set Nat} {orders orders' : List PaperOrder} {order order' : PaperOrder}

theorem append (h : Matches apart orders orders') (horder : order'.unstamped = order.unstamped) :
    Matches apart (orders ++ [order]) (orders' ++ [order']) where
  length := by simp [h.length]
  get := by
    intro i hi
    rcases lt_trichotomy i orders.length with hlt | rfl | hgt
    · rw [List.getElem?_append_left hlt, List.getElem?_append_left (h.length ▸ hlt)]
      exact h.get i hi
    · rw [List.getElem?_concat_length, ← h.length, List.getElem?_concat_length]
      exact congrArg some horder
    · have hend : orders.length + 1 ≤ i := hgt
      rw [List.getElem?_eq_none (by rwa [List.length_append, h.length, List.length_singleton]),
        List.getElem?_eq_none (by rwa [List.length_append, List.length_singleton])]

theorem set (h : Matches apart orders orders') (horder : order'.unstamped = order.unstamped)
    (index : Nat) : Matches apart (orders.set index order) (orders'.set index order') where
  length := by simp [h.length]
  get := by
    intro i hi
    rw [List.getElem?_set, List.getElem?_set, h.length]
    by_cases hindex : index = i
    · rw [if_pos hindex, if_pos hindex]
      split
      · exact congrArg some horder
      · rfl
    · rw [if_neg hindex, if_neg hindex]
      exact h.get i hi

theorem map_unstamped (h : Matches ∅ orders orders') :
    orders'.map PaperOrder.unstamped = orders.map PaperOrder.unstamped := by
  apply List.ext_getElem?
  intro i
  rw [List.getElem?_map, List.getElem?_map]
  exact h.get i (Set.notMem_empty i)

end Matches

/-- Two lookups that find the same position, or both nothing. -/
def FoundAlike (apart : Set Nat) (found found' : Option (Nat × PaperOrder)) : Prop :=
  (found = none ∧ found' = none) ∨
    ∃ index order order', found = some (index, order) ∧ found' = some (index, order') ∧
      (index ∉ apart → order.unstamped = order'.unstamped)

theorem Matches.found {apart : Set Nat} {orders orders' : List PaperOrder}
    (h : Matches apart orders orders') (at? : Option Nat) :
    FoundAlike apart (at?.bind fun index => (orders[index]?).map fun order => (index, order))
      (at?.bind fun index => (orders'[index]?).map fun order => (index, order)) := by
  cases at? with
  | none => exact .inl ⟨rfl, rfl⟩
  | some index =>
      rw [Option.bind_some, Option.bind_some]
      by_cases hlt : index < orders.length
      · have hlt' : index < orders'.length := h.length ▸ hlt
        rw [List.getElem?_eq_getElem hlt, List.getElem?_eq_getElem hlt']
        refine .inr ⟨index, _, _, rfl, rfl, fun happart => ?_⟩
        have hget := h.get index happart
        rw [List.getElem?_eq_getElem hlt, List.getElem?_eq_getElem hlt'] at hget
        exact (Option.some.inj hget).symm
      · rw [List.getElem?_eq_none (Nat.le_of_not_lt hlt),
          List.getElem?_eq_none (h.length ▸ Nat.le_of_not_lt hlt)]
        exact .inl ⟨rfl, rfl⟩

namespace PaperExecution

/-- What waits in the queue, but for the stamps. -/
def queue (v : PaperExecution) : List (Nanos × ExecutionEvent) := v.pending.map Scheduled.report

/-- The requests on their way. -/
def flights (v : PaperExecution) : List (Nanos × Request × Nanos) :=
  v.inFlight.map PendingRequest.flight

/-- The venues agree but for the clocks, what waits, how it is numbered, what is counted,
and the orders. -/
def Framed (v w : PaperExecution) : Prop :=
  ∃ clock wall orders pending inFlight nextOrdinal metrics, w =
    { v with
      clock := clock
      wall := wall
      orders := orders
      pending := pending
      inFlight := inFlight
      nextOrdinal := nextOrdinal
      metrics := metrics }

/-- The venues agree but for the stamps, except in the orders at some positions. -/
structure Alike (apart : Set Nat) (v w : PaperExecution) : Prop where
  framed : Framed v w
  orders : Matches apart v.orders w.orders

/-- Two venues that came from two others by the same additions to their queues. The first
has the longer queue; what is said of the additions is said as long as it dropped none. -/
structure Mirrors (apart : Set Nat) (v₀ w₀ v w : PaperExecution) : Prop extends
    Alike apart v w where
  quiet : v.faults = {}
  shorter : w₀.queue.length ≤ v₀.queue.length
  dropped : v₀.metrics.eventsDropped ≤ v.metrics.eventsDropped
  added : v.metrics.eventsDropped = v₀.metrics.eventsDropped →
    w.metrics.eventsDropped = w₀.metrics.eventsDropped ∧
      ∃ added, v.queue = v₀.queue ++ added ∧ w.queue = w₀.queue ++ added

variable {v : PaperExecution}

theorem schedule_orders (v : PaperExecution) (delay : Nanos) (event : ExecutionEvent) :
    (v.schedule delay event).orders = v.orders :=
  congrArg Table.orders (v.schedule_table delay event)

theorem length_queue (v : PaperExecution) : v.queue.length = v.pending.length :=
  List.length_map _

theorem Framed.config {w : PaperExecution} (h : Framed v w) : w.config = v.config := by
  obtain ⟨_, _, _, _, _, _, _, rfl⟩ := h
  rfl

theorem Framed.quiet {w : PaperExecution} (h : Framed v w) (hquiet : v.faults = {}) :
    w.faults = {} := by
  obtain ⟨_, _, _, _, _, _, _, rfl⟩ := h
  exact hquiet

theorem Framed.base {w : PaperExecution} (h : Framed v w) (hbusy : v.processingArrivalNs ≠ 0) :
    w.base = v.base := by
  obtain ⟨_, _, _, _, _, _, _, rfl⟩ := h
  rw [PaperExecution.base, PaperExecution.base, if_pos hbusy, if_pos hbusy]

theorem Framed.schedule {w : PaperExecution} (h : Framed v w) (hquiet : v.faults = {})
    (delay : Nanos) (event event' : ExecutionEvent) :
    Framed (v.schedule delay event) (w.schedule delay event') := by
  obtain ⟨clock, wall, orders, pending, inFlight, nextOrdinal, metrics, hw⟩ := h
  have hquiet' : w.faults = {} := by
    rw [hw]
    exact hquiet
  by_cases hfull : v.config.maxPendingEvents ≤ v.pending.length <;>
    by_cases hfull' : w.config.maxPendingEvents ≤ w.pending.length
  · rw [schedule_of_full hfull, schedule_of_full hfull', hw]
    exact ⟨_, _, _, _, _, _, _, rfl⟩
  · obtain ⟨_, hscheduled⟩ := schedule_of_room hfull' hquiet' delay event'
    rw [schedule_of_full hfull, hscheduled, hw]
    exact ⟨_, _, _, _, _, _, _, rfl⟩
  · obtain ⟨_, hscheduled⟩ := schedule_of_room hfull hquiet delay event
    rw [schedule_of_full hfull', hscheduled, hw]
    exact ⟨_, _, _, _, _, _, _, rfl⟩
  · obtain ⟨_, hscheduled⟩ := schedule_of_room hfull hquiet delay event
    obtain ⟨_, hscheduled'⟩ := schedule_of_room hfull' hquiet' delay event'
    rw [hscheduled', hscheduled, hw]
    exact ⟨_, _, _, _, _, _, _, rfl⟩

/-- The order that a request is about. -/
def requestTarget (v : PaperExecution) : Request → Option (Nat × PaperOrder)
  | .submit _ => none
  | .cancel request => v.cancelTarget request
  | .replace request => v.findOrder request.originalClientOrderId

namespace Alike

variable {apart : Set Nat} {w : PaperExecution}

theorem byClientId (h : Alike apart v w) : w.byClientId = v.byClientId := by
  obtain ⟨_, _, _, _, _, _, _, hw⟩ := h.framed
  rw [hw]

theorem findOrder (h : Alike apart v w) (id : ClientOrderId) :
    FoundAlike apart (v.findOrder id) (w.findOrder id) := by
  have hfound := h.orders.found (v.byClientId.lookup id)
  unfold PaperExecution.findOrder
  rwa [h.byClientId]

theorem findOrderByExchangeId (h : Alike apart v w) (id : ExchangeOrderId) :
    FoundAlike apart (v.findOrderByExchangeId id) (w.findOrderByExchangeId id) := by
  have hframed : w.byExchangeId = v.byExchangeId := by
    obtain ⟨_, _, _, _, _, _, _, hw⟩ := h.framed
    rw [hw]
  have hfound := h.orders.found (v.byExchangeId.lookup id)
  unfold PaperExecution.findOrderByExchangeId
  rwa [hframed]

theorem cancelTarget (h : Alike apart v w) (request : CancelRequest) :
    FoundAlike apart (v.cancelTarget request) (w.cancelTarget request) := by
  unfold PaperExecution.cancelTarget
  rcases h.findOrder request.clientOrderId with ⟨hnone, hnone'⟩ |
    ⟨index, order, order', hfound, hfound', hsame⟩
  · rw [hnone, hnone', Option.none_or, Option.none_or]
    split
    · exact .inl ⟨rfl, rfl⟩
    · exact h.findOrderByExchangeId request.exchangeOrderId
  · rw [hfound, hfound']
    exact .inr ⟨index, order, order', rfl, rfl, hsame⟩

end Alike

namespace Mirrors

variable {apart : Set Nat} {v₀ w₀ v w v' w' : PaperExecution}

theorem of_alike (h : Alike apart v w) (hquiet : v.faults = {})
    (hshorter : w.queue.length ≤ v.queue.length) : Mirrors apart v w v w where
  toAlike := h
  quiet := hquiet
  shorter := hshorter
  dropped := le_rfl
  added := fun _ => ⟨rfl, [], (List.append_nil _).symm, (List.append_nil _).symm⟩

theorem of_same (h : Mirrors apart v₀ w₀ v w) (hframed : Framed v' w')
    (hfaults : v'.faults = v.faults) (horders : Matches apart v'.orders w'.orders)
    (hpending : v'.pending = v.pending) (hpending' : w'.pending = w.pending)
    (hdropped : v'.metrics.eventsDropped = v.metrics.eventsDropped)
    (hdropped' : w'.metrics.eventsDropped = w.metrics.eventsDropped) :
    Mirrors apart v₀ w₀ v' w' where
  framed := hframed
  quiet := hfaults.trans h.quiet
  orders := horders
  shorter := h.shorter
  dropped := hdropped ▸ h.dropped
  added := by
    have hqueue : v'.queue = v.queue := congrArg (List.map Scheduled.report) hpending
    have hqueue' : w'.queue = w.queue := congrArg (List.map Scheduled.report) hpending'
    rw [hdropped, hdropped', hqueue, hqueue']
    exact h.added

/-- Both schedule an event from the arrival of the same request. -/
theorem schedule (h : Mirrors apart v₀ w₀ v w) (hbusy : v.processingArrivalNs ≠ 0)
    {event event' : ExecutionEvent} (hevent : event'.unstamped = event.unstamped)
    (delay : Nanos) :
    Mirrors apart v₀ w₀ (v.schedule delay event) (w.schedule delay event') := by
  have hquiet' := h.framed.quiet h.quiet
  by_cases hfull : v.config.maxPendingEvents ≤ v.pending.length
  · -- What the first drops puts an end to what is said of the additions.
    have hdropped : v₀.metrics.eventsDropped < (v.schedule delay event).metrics.eventsDropped := by
      rw [schedule_of_full hfull]
      exact Nat.lt_succ_of_le h.dropped
    exact
      { framed := h.framed.schedule h.quiet delay event event'
        quiet := schedule_quiet h.quiet delay event
        orders := by
          rw [schedule_orders, schedule_orders]
          exact h.orders
        shorter := h.shorter
        dropped := hdropped.le
        added := fun hkept => absurd hkept hdropped.ne' }
  · obtain ⟨latency, hscheduled⟩ := schedule_of_room hfull h.quiet delay event
    exact
      { framed := h.framed.schedule h.quiet delay event event'
        quiet := schedule_quiet h.quiet delay event
        orders := by
          rw [schedule_orders, schedule_orders]
          exact h.orders
        shorter := h.shorter
        dropped := by rw [hscheduled]; exact h.dropped
        added := by
          intro hkept
          rw [hscheduled] at hkept
          obtain ⟨hkept', added, hqueue, hqueue'⟩ := h.added hkept
          have hroom : ¬w.config.maxPendingEvents ≤ w.pending.length := by
            have hlength : w.pending.length ≤ v.pending.length := by
              rw [← length_queue, ← length_queue, hqueue, hqueue', List.length_append,
                List.length_append]
              exact Nat.add_le_add_right h.shorter _
            rw [h.framed.config]
            exact fun hfull' => hfull (hfull'.trans hlength)
          obtain ⟨latency', hscheduled'⟩ := schedule_of_room hroom hquiet' delay event'
          rw [hscheduled, hscheduled']
          refine ⟨hkept', added ++ [(wrapNs (v.base + delay), event.unstamped)], ?_, ?_⟩
          · rw [← List.append_assoc, ← hqueue]
            exact List.map_append
          · rw [← List.append_assoc, ← hqueue', ← hevent, ← h.framed.base hbusy]
            exact List.map_append }

theorem count (h : Mirrors apart v₀ w₀ v w) (bump : PaperMetrics → PaperMetrics)
    (hbump : ∀ k, (bump k).eventsDropped = k.eventsDropped) :
    Mirrors apart v₀ w₀ (v.count bump) (w.count bump) := by
  have hframed : Framed (v.count bump) (w.count bump) := by
    obtain ⟨_, _, _, _, _, _, _, rfl⟩ := h.framed
    exact ⟨_, _, _, _, _, _, _, rfl⟩
  exact h.of_same hframed rfl h.orders rfl rfl (hbump _) (hbump _)

theorem advanceSeq (h : Mirrors apart v₀ w₀ v w) :
    Mirrors apart v₀ w₀ v.advanceSeq w.advanceSeq := by
  have hframed : Framed v.advanceSeq w.advanceSeq := by
    obtain ⟨_, _, _, _, _, _, _, rfl⟩ := h.framed
    exact ⟨_, _, _, _, _, _, _, rfl⟩
  exact h.of_same hframed rfl h.orders rfl rfl rfl rfl

theorem nextSeq (h : Mirrors apart v₀ w₀ v w) : w.nextSeq = v.nextSeq := by
  obtain ⟨_, _, _, _, _, _, _, rfl⟩ := h.framed
  rfl

theorem rejectOrder (h : Mirrors apart v₀ w₀ v w) (hbusy : v.processingArrivalNs ≠ 0)
    (request : OrderRequest) (reason : RejectReason) (delay : Nanos) :
    Mirrors apart v₀ w₀ (v.rejectOrder request reason delay)
      (w.rejectOrder request reason delay) := by
  have hcounted := h.count (fun k => { k with newRejects := k.newRejects + 1 }) fun _ => rfl
  refine hcounted.advanceSeq.schedule hbusy ?_ delay
  simp only [ExecutionEvent.unstamped, h.nextSeq]

theorem expireOrder (h : Mirrors apart v₀ w₀ v w) (hbusy : v.processingArrivalNs ≠ 0)
    {order order' : PaperOrder} (horder : order.unstamped = order'.unstamped) (delay : Nanos) :
    Mirrors apart v₀ w₀ (v.expireOrder order delay) (w.expireOrder order' delay) := by
  have hcounted := h.count (fun k => { k with expiries := k.expiries + 1 }) fun _ => rfl
  obtain ⟨_, _, rfl⟩ := PaperOrder.exists_stamps horder
  refine hcounted.advanceSeq.schedule hbusy ?_ delay
  simp only [ExecutionEvent.unstamped, h.nextSeq]

theorem listOrder (h : Mirrors apart v₀ w₀ v w) (hbusy : v.processingArrivalNs ≠ 0)
    {order order' : PaperOrder} (horder : order.unstamped = order'.unstamped) (delay : Nanos) :
    Mirrors apart v₀ w₀ (v.listOrder order delay) (w.listOrder order' delay) := by
  have hlisted : Mirrors apart v₀ w₀
      { v with
        orders := v.orders ++ [order]
        byClientId := v.byClientId.insert order.clientOrderId v.orders.length
        byExchangeId := v.byExchangeId.insert order.exchangeOrderId v.orders.length }
      { w with
        orders := w.orders ++ [order']
        byClientId := w.byClientId.insert order'.clientOrderId w.orders.length
        byExchangeId := w.byExchangeId.insert order'.exchangeOrderId w.orders.length } := by
    have horders := h.orders.append horder.symm
    have hlength := h.orders.length
    obtain ⟨_, _, rfl⟩ := PaperOrder.exists_stamps horder
    refine h.of_same ?_ rfl horders rfl rfl rfl rfl
    obtain ⟨_, _, _, _, _, _, _, rfl⟩ := h.framed
    dsimp only at hlength ⊢
    rw [hlength]
    exact ⟨_, _, _, _, _, _, _, rfl⟩
  have hcounted := hlisted.count (fun k => { k with newAcks := k.newAcks + 1 }) fun _ => rfl
  refine hcounted.advanceSeq.schedule hbusy ?_ delay
  obtain ⟨_, _, rfl⟩ := PaperOrder.exists_stamps horder
  simp only [ExecutionEvent.unstamped, h.nextSeq]

theorem setOrder (h : Mirrors apart v₀ w₀ v w) {order order' : PaperOrder}
    (horder : order.unstamped = order'.unstamped) (index : Nat) :
    Mirrors apart v₀ w₀ (v.setOrder index order) (w.setOrder index order') := by
  refine h.of_same ?_ rfl (h.orders.set horder.symm index) rfl rfl rfl rfl
  obtain ⟨_, _, _, _, _, _, _, rfl⟩ := h.framed
  exact ⟨_, _, _, _, _, _, _, rfl⟩

theorem scheduleFill (h : Mirrors apart v₀ w₀ v w) (hbusy : v.processingArrivalNs ≠ 0)
    {order order' : PaperOrder} (horder : order.unstamped = order'.unstamped)
    (result : MatchResult) (delay : Nanos) :
    Mirrors apart v₀ w₀ (v.scheduleFill order result delay)
      (w.scheduleFill order' result delay) := by
  obtain ⟨_, _, rfl⟩ := PaperOrder.exists_stamps horder
  have hcounted : Mirrors apart v₀ w₀
      (v.count fun k =>
        if order.remaining.isZero then { k with fills := k.fills + 1 }
        else { k with partialFills := k.partialFills + 1 })
      (w.count fun k =>
        if order.remaining.isZero then { k with fills := k.fills + 1 }
        else { k with partialFills := k.partialFills + 1 }) := by
    refine h.count _ fun k => ?_
    split
    · rfl
    · rfl
  have hnumbered : Mirrors apart v₀ w₀
      { (v.count fun k =>
          if order.remaining.isZero then { k with fills := k.fills + 1 }
          else { k with partialFills := k.partialFills + 1 }).advanceSeq with
        nextTradeSeq := v.nextTradeSeq + 1 }
      { (w.count fun k =>
          if order.remaining.isZero then { k with fills := k.fills + 1 }
          else { k with partialFills := k.partialFills + 1 }).advanceSeq with
        nextTradeSeq := w.nextTradeSeq + 1 } := by
    refine hcounted.advanceSeq.of_same ?_ rfl h.orders rfl rfl rfl rfl
    obtain ⟨_, _, _, _, _, _, _, rfl⟩ := h.framed
    exact ⟨_, _, _, _, _, _, _, rfl⟩
  refine hnumbered.schedule hbusy ?_ delay
  obtain ⟨_, _, _, _, _, _, _, rfl⟩ := h.framed
  rfl

/-! ## Requests -/

theorem listOrder_arrival (v : PaperExecution) (order : PaperOrder) (delay : Nanos) :
    (v.listOrder order delay).processingArrivalNs = v.processingArrivalNs :=
  schedule_arrival _ _ _

theorem takeOnArrival (h : Mirrors apart v₀ w₀ v w) (hbusy : v.processingArrivalNs ≠ 0)
    {order order' : PaperOrder} (horder : order.unstamped = order'.unstamped) (index : Nat)
    (book : BookView) (delay : Nanos) :
    Mirrors apart v₀ w₀ (v.takeOnArrival index order book delay)
      (w.takeOnArrival index order' book delay) := by
  unfold PaperExecution.takeOnArrival
  rw [h.framed.config, ← PaperOrder.matchAgainstBook_unstamped horder]
  dsimp only
  split
  · exact (h.setOrder (PaperOrder.applyMatch_unstamped horder _ _ _) index).scheduleFill hbusy
      (PaperOrder.applyMatch_unstamped horder _ _ _) _ _
  · exact h

theorem acceptOrder (h : Mirrors apart v₀ w₀ v w) (hbusy : v.processingArrivalNs ≠ 0)
    (request : OrderRequest) (delay : Nanos) :
    Mirrors apart v₀ w₀ (v.acceptOrder request delay) (w.acceptOrder request delay) := by
  have hnumbered : Mirrors apart v₀ w₀
      { v with
        nextExchangeSeq := v.nextExchangeSeq + 1
        nextArrivalSeq := v.nextArrivalSeq + 1 }
      { w with
        nextExchangeSeq := w.nextExchangeSeq + 1
        nextArrivalSeq := w.nextArrivalSeq + 1 } := by
    refine h.of_same ?_ rfl h.orders rfl rfl rfl rfl
    obtain ⟨_, _, _, _, _, _, _, rfl⟩ := h.framed
    exact ⟨_, _, _, _, _, _, _, rfl⟩
  have horder : (v.arrivingOrder request).unstamped = (w.arrivingOrder request).unstamped := by
    obtain ⟨_, _, _, _, _, _, _, rfl⟩ := h.framed
    rfl
  have hbooks : w.books = v.books := by
    obtain ⟨_, _, _, _, _, _, _, hw⟩ := h.framed
    rw [hw]
  have hmarketable : ∀ book, isMarketableOnArrival (w.arrivingOrder request) book =
      isMarketableOnArrival (v.arrivingOrder request) book := by
    obtain ⟨_, _, _, _, _, _, _, rfl⟩ := h.framed
    exact fun _ => rfl
  have hpostOnly : (w.arrivingOrder request).postOnly = (v.arrivingOrder request).postOnly := rfl
  have hpolicy : w.config.postOnlyPolicy = v.config.postOnlyPolicy := by rw [h.framed.config]
  unfold PaperExecution.acceptOrder
  dsimp only
  cases hbook : v.books.lookup request.symbol with
  | none =>
      have hbook' : w.books.lookup request.symbol = none := by rw [hbooks, hbook]
      rw [hbook']
      exact hnumbered.listOrder hbusy horder delay
  | some book =>
      have hbook' : w.books.lookup request.symbol = some book := by rw [hbooks, hbook]
      rw [hbook']
      dsimp only
      rw [hmarketable, hpostOnly, hpolicy, h.orders.length]
      split
      · exact hnumbered.listOrder hbusy horder delay
      have hcounted := hnumbered.count
        (fun k => { k with postOnlyRejections := k.postOnlyRejections + 1 }) fun _ => rfl
      split
      · split
        · exact hcounted.rejectOrder hbusy request _ delay
        · exact hcounted.expireOrder hbusy horder delay
      · refine (hnumbered.listOrder hbusy horder delay).takeOnArrival ?_ horder _ book delay
        rw [listOrder_arrival]
        exact hbusy

theorem processSubmit (h : Mirrors apart v₀ w₀ v w) (hbusy : v.processingArrivalNs ≠ 0)
    (request : OrderRequest) (delay : Nanos) :
    Mirrors apart v₀ w₀ (v.processSubmit request delay) (w.processSubmit request delay) := by
  have hquiet' := h.framed.quiet h.quiet
  have hknown : (w.findOrder request.clientOrderId).isSome =
      (v.findOrder request.clientOrderId).isSome := by
    rcases h.toAlike.findOrder request.clientOrderId with ⟨hnone, hnone'⟩ |
      ⟨_, _, _, hfound, hfound', -⟩
    · rw [hnone, hnone']
    · rw [hfound, hfound']
      rfl
  unfold PaperExecution.processSubmit
  rw [hknown, h.quiet, hquiet']
  simp only [ne_eq, not_true_eq_false, if_false]
  split
  · exact h.rejectOrder hbusy request _ delay
  · exact h.acceptOrder hbusy request delay

theorem processCancel (h : Mirrors apart v₀ w₀ v w) (hbusy : v.processingArrivalNs ≠ 0)
    (request : CancelRequest) (delay : Nanos)
    (hspared : ∀ index order, v.cancelTarget request = some (index, order) → index ∉ apart) :
    Mirrors apart v₀ w₀ (v.processCancel request delay) (w.processCancel request delay) := by
  have hquiet' := h.framed.quiet h.quiet
  have hseq := h.nextSeq
  have hrejected := h.advanceSeq.count
    (fun k => { k with cancelRejects := k.cancelRejects + 1 }) fun _ => rfl
  unfold PaperExecution.processCancel
  dsimp only
  rcases h.toAlike.cancelTarget request with ⟨hnone, hnone'⟩ |
    ⟨index, order, order', hfound, hfound', hsame⟩
  · rw [hnone, hnone']
    refine hrejected.schedule hbusy ?_ delay
    simp only [ExecutionEvent.unstamped, cancelAnswer, hseq]
  · obtain ⟨acceptedNs, lastEventNs, rfl⟩ :=
      PaperOrder.exists_stamps (hsame (hspared index order hfound))
    have hterminal : PaperOrder.isTerminal
        { order with acceptedNs := acceptedNs, lastEventNs := lastEventNs } = order.isTerminal :=
      rfl
    rw [hfound, hfound', h.quiet, hquiet']
    simp only [ne_eq, not_true_eq_false, if_false]
    rw [hterminal]
    split
    · refine hrejected.schedule hbusy ?_ delay
      simp only [ExecutionEvent.unstamped, cancelAnswer, hseq]
    · refine (h.advanceSeq.setOrder ?_ index).schedule hbusy ?_ delay
      · rfl
      · simp only [ExecutionEvent.unstamped, cancelAnswer, hseq]
        rfl

theorem swapOrder (h : Mirrors apart v₀ w₀ v w) {order order' replaced replaced' : PaperOrder}
    (horder : order.unstamped = order'.unstamped)
    (hreplaced : replaced.unstamped = replaced'.unstamped) (index : Nat) :
    Mirrors apart v₀ w₀ (v.swapOrder index order replaced)
      (w.swapOrder index order' replaced') := by
  have horders := h.orders.set hreplaced.symm index
  obtain ⟨_, _, rfl⟩ := PaperOrder.exists_stamps horder
  obtain ⟨_, _, rfl⟩ := PaperOrder.exists_stamps hreplaced
  refine h.of_same ?_ rfl horders rfl rfl rfl rfl
  obtain ⟨_, _, _, _, _, _, _, rfl⟩ := h.framed
  exact ⟨_, _, _, _, _, _, _, rfl⟩

theorem processReplace (h : Mirrors apart v₀ w₀ v w) (hbusy : v.processingArrivalNs ≠ 0)
    (request : ReplaceRequest) (delay : Nanos)
    (hspared : ∀ index order, v.findOrder request.originalClientOrderId = some (index, order) →
      index ∉ apart) :
    Mirrors apart v₀ w₀ (v.processReplace request delay) (w.processReplace request delay) := by
  have hquiet' := h.framed.quiet h.quiet
  have hseq := h.nextSeq
  have hrejected := h.advanceSeq.count
    (fun k => { k with replaceRejects := k.replaceRejects + 1 }) fun _ => rfl
  have hunknown : Mirrors apart v₀ w₀
      (v.advanceSeq.countReplaceReject.schedule delay
        (.orderReplace
          { v.replaceAnswer request with error := ⟨.unknownOrderState, .unknown, .unknownOrder⟩ }))
      (w.advanceSeq.countReplaceReject.schedule delay
        (.orderReplace
          { w.replaceAnswer request with
            error := ⟨.unknownOrderState, .unknown, .unknownOrder⟩ })) := by
    refine hrejected.schedule hbusy ?_ delay
    simp only [ExecutionEvent.unstamped, replaceAnswer, hseq]
  unfold PaperExecution.processReplace
  dsimp only
  rcases h.toAlike.findOrder request.originalClientOrderId with ⟨hnone, hnone'⟩ |
    ⟨index, order, order', hfound, hfound', hsame⟩
  · rw [hnone, hnone']
    exact hunknown
  · have hstamps := hsame (hspared index order hfound)
    obtain ⟨acceptedNs, lastEventNs, rfl⟩ := PaperOrder.exists_stamps hstamps
    have hresting : PaperOrder.isResting
        { order with acceptedNs := acceptedNs, lastEventNs := lastEventNs } = order.isResting := rfl
    rw [hfound, hfound', Option.filter_some, Option.filter_some, hresting]
    cases order.isResting with
    | false => exact hunknown
    | true =>
        have hreplaced : (v.replacedOrder order request).unstamped = (w.replacedOrder
            { order with acceptedNs := acceptedNs, lastEventNs := lastEventNs }
            request).unstamped := by
          obtain ⟨_, _, _, _, _, _, _, rfl⟩ := h.framed
          rfl
        rw [if_pos rfl, if_pos rfl, h.quiet, hquiet']
        simp only [ne_eq, not_true_eq_false, if_false]
        split
        · refine hrejected.schedule hbusy ?_ delay
          simp only [ExecutionEvent.unstamped, replaceAnswer, hseq]
        · have hswapped := (h.advanceSeq.swapOrder hstamps hreplaced index).count
            (fun k => { k with replaceAcks := k.replaceAcks + 1 }) fun _ => rfl
          refine hswapped.schedule hbusy ?_ delay
          obtain ⟨_, _, _, _, _, _, _, rfl⟩ := h.framed
          rfl

/-- A request that arrived some time after zero does the same to both. -/
theorem processRequest (h : Mirrors apart v₀ w₀ v w) {pending pending' : PendingRequest}
    (hflight : pending'.flight = pending.flight) (harrived : pending.dueNs ≠ 0)
    (hspared : ∀ index order, v.requestTarget pending.request = some (index, order) →
      index ∉ apart) :
    Mirrors apart v₀ w₀ (v.processRequest pending) (w.processRequest pending') := by
  obtain ⟨dueNs, ordinal, request, decisionDelayNs⟩ := pending
  obtain ⟨dueNs', ordinal', request', decisionDelayNs'⟩ := pending'
  simp only [PendingRequest.flight, Prod.mk.injEq] at hflight
  obtain ⟨rfl, rfl, rfl⟩ := hflight
  have hprocessing : Mirrors apart v₀ w₀ { v with processingArrivalNs := dueNs' }
      { w with processingArrivalNs := dueNs' } := by
    refine h.of_same ?_ rfl h.orders rfl rfl rfl rfl
    obtain ⟨_, _, _, _, _, _, _, rfl⟩ := h.framed
    exact ⟨_, _, _, _, _, _, _, rfl⟩
  have hfinish : ∀ {x y : PaperExecution}, Mirrors apart v₀ w₀ x y →
      Mirrors apart v₀ w₀ { x with processingArrivalNs := 0 }
        { y with processingArrivalNs := 0 } := by
    intro x y hxy
    refine hxy.of_same ?_ rfl hxy.orders rfl rfl rfl rfl
    obtain ⟨_, _, _, _, _, _, _, rfl⟩ := hxy.framed
    exact ⟨_, _, _, _, _, _, _, rfl⟩
  cases request' with
  | submit request => exact hfinish (hprocessing.processSubmit harrived request _)
  | cancel request => exact hfinish (hprocessing.processCancel harrived request _ hspared)
  | replace request => exact hfinish (hprocessing.processReplace harrived request _ hspared)

end Mirrors

end PaperExecution

end MmEngine.Exchange.Paper
