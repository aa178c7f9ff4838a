/-
# Requests beside a confirmation

A cancel is carried out when its confirmation is delivered. A request that neither enters
the client identity of the cancelled order nor finds that order does not notice whether it
has been: it can be processed before the delivery or after it, with the same order and the
same confirmation in the end.
-/

import MmEngine.Exchange.Paper.FillAccounting
import MmEngine.Exchange.Paper.Mirror

namespace MmEngine.Exchange

/-- The client identity of the order whose cancel the event confirms. -/
def ExecutionEvent.confirms : ExecutionEvent → Option ClientOrderId
  | .orderCancel cancel =>
      if cancel.cancelStatus = .accepted && cancel.orderStatus = .canceled then
        .some cancel.clientOrderId
      else .none
  | _ => .none

theorem ExecutionEvent.confirms_unstamped (event : ExecutionEvent) :
    event.unstamped.confirms = event.confirms := by
  cases event <;> rfl

theorem ExecutionEvent.confirms_congr {event event' : ExecutionEvent}
    (h : event.unstamped = event'.unstamped) : event'.confirms = event.confirms := by
  rw [← event'.confirms_unstamped, ← h, event.confirms_unstamped]

end MmEngine.Exchange

namespace MmEngine.Exchange.Paper

/-- The client identity that a request gives to an order. -/
def Request.enters : Request → Option ClientOrderId
  | .submit request => some request.clientOrderId
  | .cancel _ => none
  | .replace request => some request.newClientOrderId

namespace Table

/-- Every client identity that is known stands for an order. -/
def InRange (t : Table) : Prop :=
  ∀ id index, t.byClientId.lookup id = some index → index < t.orders.length

/-- Whatever is written to a position of the table, it stays one. -/
theorem InRange.set {t after : Table} (h : t.InRange) {index : Nat} {order : PaperOrder}
    (horders : after.orders = t.orders.set index order) (hids : after.byClientId = t.byClientId) :
    after.InRange := by
  intro id other hother
  rw [hids] at hother
  rw [horders, List.length_set]
  exact h id other hother

/-- The client identities stand for the same orders in both tables, but for the stamps. -/
structure Agree (ids : Set ClientOrderId) (t u : Table) : Prop where
  lookup : ∀ id ∈ ids, u.byClientId.lookup id = t.byClientId.lookup id
  order : ∀ id ∈ ids, ∀ index, t.byClientId.lookup id = some index →
    (u.orders[index]?).map PaperOrder.unstamped = (t.orders[index]?).map PaperOrder.unstamped

variable {ids : Set ClientOrderId} {t u x : Table}

theorem Agree.trans (h : t.Agree ids u) (h' : u.Agree ids x) : t.Agree ids x where
  lookup id hid := (h'.lookup id hid).trans (h.lookup id hid)
  order id hid index hindex :=
    (h'.order id hid index ((h.lookup id hid).trans hindex)).trans (h.order id hid index hindex)

theorem Agree.symm (h : t.Agree ids u) : u.Agree ids t where
  lookup id hid := (h.lookup id hid).symm
  order id hid index hindex :=
    (h.order id hid index ((h.lookup id hid).symm.trans hindex)).symm

theorem agree_of_eq (hids : u.byClientId = t.byClientId) (horders : u.orders = t.orders) :
    t.Agree ids u where
  lookup id _ := by rw [hids]
  order _ _ _ _ := by rw [horders]

theorem agree_list (hrange : t.InRange) {order : PaperOrder}
    (hnew : ∀ id ∈ ids, id ≠ order.clientOrderId) : t.Agree ids (t.list order) where
  lookup id hid := AList.lookup_insert_ne (hnew id hid)
  order id _ index hindex := by
    rw [list, List.getElem?_append_left (hrange id index hindex)]

/-- Writing a position that none of the identities stands for. -/
theorem agree_set {index : Nat} (hother : ∀ id ∈ ids, t.byClientId.lookup id ≠ some index)
    (order : PaperOrder) (hids : ∀ id ∈ ids, u.byClientId.lookup id = t.byClientId.lookup id)
    (horders : u.orders = t.orders.set index order) : t.Agree ids u where
  lookup := hids
  order id hid other hindex := by
    have hne : index ≠ other := by
      rintro rfl
      exact hother id hid hindex
    rw [horders, List.getElem?_set_ne hne]

end Table

namespace PaperExecution

variable {v w : PaperExecution} {ids : Set ClientOrderId} {apart : Set Nat}

/-- The request neither enters the client identity nor finds the order it stands for. -/
structure Spares (id : ClientOrderId) (request : Request) (v : PaperExecution) : Prop where
  enters : request.enters ≠ some id
  finds : ∀ index order, v.requestTarget request = some (index, order) →
    order.clientOrderId ≠ id ∧ v.byClientId.lookup id ≠ some index

/-- What a request does not touch stays. -/
theorem processRequest_agree (hrange : v.table.InRange) {pending : PendingRequest}
    (hspared : ∀ id ∈ ids, Spares id pending.request v) :
    v.table.Agree ids (v.processRequest pending).table := by
  rcases v.processRequest_cases pending with ⟨-, hsame⟩ |
    ⟨request, hrequest, -, ⟨-, hburnt⟩ | ⟨-, hlist⟩ | ⟨book, e, -, -, hfilled⟩⟩ |
    ⟨request, index, order, hrequest, htarget, -, hmarked⟩ |
    ⟨request, index, order, hrequest, htarget, -, -, -, hswapped⟩
  · rw [hsame]
    exact Table.agree_of_eq rfl rfl
  · rw [hburnt]
    exact Table.agree_of_eq rfl rfl
  · rw [hlist]
    refine Table.agree_list hrange fun id hid heq => (hspared id hid).enters ?_
    rw [hrequest, heq]
    rfl
  · rw [hfilled]
    obtain ⟨cumulativeQty, status, lastEventNs, hframe⟩ :=
      (v.arrivingOrder request).applyMatch_frame e.result v.clock
    have hlisted : v.table.Agree ids
        (v.table.list ((v.arrivingOrder request).applyMatch e.result v.clock)) := by
      refine Table.agree_list hrange fun id hid heq => (hspared id hid).enters ?_
      rw [hrequest, heq, hframe]
      rfl
    exact hlisted.trans (Table.agree_of_eq rfl rfl)
  · rw [hmarked]
    refine Table.agree_set (fun id hid => ?_) _ (fun _ _ => rfl) rfl
    exact ((hspared id hid).finds index order (by rw [hrequest]; exact htarget)).2
  · rw [hswapped]
    have hfinds := fun id hid =>
      (hspared id hid).finds index order (by rw [hrequest]; exact htarget)
    refine Table.agree_set (fun id hid => (hfinds id hid).2) _ (fun id hid => ?_) rfl
    have hnew : id ≠ request.newClientOrderId := by
      rintro rfl
      exact (hspared _ hid).enters (by rw [hrequest]; rfl)
    exact (AList.lookup_insert_ne hnew).trans (AList.lookup_erase_ne (hfinds id hid).1.symm)

/-- Requests leave every known client identity standing for an order. -/
theorem processRequest_inRange (hrange : v.table.InRange) (pending : PendingRequest) :
    (v.processRequest pending).table.InRange := by
  have hlisted : ∀ order, (v.table.list order).InRange := by
    intro order id index hindex
    rw [Table.list, List.length_append]
    by_cases hid : id = order.clientOrderId
    · rw [Table.list, hid, AList.lookup_insert] at hindex
      cases hindex
      exact Nat.lt_succ_self _
    · rw [Table.list, AList.lookup_insert_ne hid] at hindex
      exact Nat.lt_add_right _ (hrange id index hindex)
  rcases v.processRequest_cases pending with ⟨-, hsame⟩ |
    ⟨request, -, -, ⟨-, hburnt⟩ | ⟨-, hlist⟩ | ⟨book, e, -, -, hfilled⟩⟩ |
    ⟨request, index, order, -, htarget, -, hmarked⟩ |
    ⟨request, index, order, -, htarget, -, -, -, hswapped⟩
  · rwa [hsame]
  · rw [hburnt]
    exact hrange
  · rw [hlist]
    exact hlisted _
  · rw [hfilled]
    exact hlisted _
  · rw [hmarked]
    exact hrange.set rfl rfl
  · rw [hswapped]
    intro id other hother
    show other < (v.orders.set index _).length
    rw [List.length_set]
    by_cases hid : id = (v.replacedOrder order request).clientOrderId
    · rw [hid] at hother
      obtain rfl : index = other := Option.some.inj ((AList.lookup_insert _).symm.trans hother)
      exact (List.getElem?_eq_some_iff.mp (getElem?_of_findOrder htarget).2).1
    · replace hother : (v.byClientId.erase order.clientOrderId).lookup id = some other :=
        (AList.lookup_insert_ne hid).symm.trans hother
      by_cases herased : id = order.clientOrderId
      · rw [herased, AList.lookup_erase] at hother
        cases hother
      · rw [AList.lookup_erase_ne herased] at hother
        exact hrange id other hother

theorem resolvePendingCancel_inRange (hrange : v.table.InRange) (cancel : OrderCancelEvent) :
    (v.resolvePendingCancel cancel).2.table.InRange := by
  unfold resolvePendingCancel
  cases v.findOrder cancel.clientOrderId with
  | none => exact hrange
  | some found =>
      dsimp only
      split
      · exact hrange.set rfl rfl
      split
      · exact hrange.set rfl rfl
      · exact hrange.set rfl rfl

theorem matchOrder_inRange (now : Nanos) {sweep : Sweep} (index : Nat)
    (hrange : sweep.venue.table.InRange) : (sweep.matchOrder now index).venue.table.InRange := by
  rcases sweep.matchOrder_cases now index with ⟨-, -, hsame⟩ |
    ⟨order, -, -, matched, -, -, -, ⟨-, -, hsame⟩ | ⟨e, -, -, -, -, -, -, -, -, htable⟩⟩
  · rwa [hsame]
  · rwa [hsame]
  · rw [htable]
    exact hrange.set rfl rfl

/-! ## Delivering a confirmation -/

theorem deliver_of_not_confirms {event : ExecutionEvent} (h : event.confirms = none)
    (v : PaperExecution) :
    v.deliver event =
      (event, v.count fun k => { k with eventsEmitted := k.eventsEmitted + 1 }) := by
  cases event with
  | orderCancel cancel =>
      rw [ExecutionEvent.confirms] at h
      split at h
      · cases h
      · rename_i hnot
        rw [deliver]
        dsimp only
        rw [if_neg hnot]
  | _ => rfl

theorem deliver_of_confirms {event : ExecutionEvent} {id : ClientOrderId}
    (h : event.confirms = some id) :
    ∃ cancel, event = .orderCancel cancel ∧ cancel.clientOrderId = id ∧
      ∀ v : PaperExecution, v.deliver event =
        (.orderCancel (v.resolvePendingCancel cancel).1,
          (v.resolvePendingCancel cancel).2.count fun k =>
            { k with eventsEmitted := k.eventsEmitted + 1 }) := by
  cases event with
  | orderCancel cancel =>
      rw [ExecutionEvent.confirms] at h
      split at h
      · rename_i hconfirms
        refine ⟨cancel, rfl, Option.some.inj h, fun v => ?_⟩
        rw [deliver]
        dsimp only
        rw [if_pos hconfirms]
      · cases h
  | _ => cases h

/-- A cancel of an order that the venue does not know changes no order. -/
theorem resolvePendingCancel_of_none {cancel : OrderCancelEvent}
    (h : v.findOrder cancel.clientOrderId = none) :
    v.resolvePendingCancel cancel =
      ({ cancel with cancelStatus := .orderNotFound, orderStatus := .unknown },
        v.countCancelReject) := by
  rw [resolvePendingCancel, h]

/-- What becomes of a cancel, and of its order, is read off the order, the stamps apart. -/
theorem resolvePendingCancel_of_some {cancel cancel' : OrderCancelEvent}
    (hcancel : (ExecutionEvent.orderCancel cancel).unstamped =
      (ExecutionEvent.orderCancel cancel').unstamped) {index index' : Nat}
    {order order' : PaperOrder} (hfound : v.findOrder cancel.clientOrderId = some (index, order))
    (hfound' : w.findOrder cancel'.clientOrderId = some (index', order'))
    (horder : order.unstamped = order'.unstamped) :
    ∃ settled settled' bump, settled.unstamped = settled'.unstamped ∧
      (v.resolvePendingCancel cancel).2 = (v.setOrder index settled).count bump ∧
      (w.resolvePendingCancel cancel').2 = (w.setOrder index' settled').count bump ∧
      (ExecutionEvent.orderCancel (v.resolvePendingCancel cancel).1).unstamped =
        (ExecutionEvent.orderCancel (w.resolvePendingCancel cancel').1).unstamped := by
  obtain ⟨acceptedNs, lastEventNs, rfl⟩ := PaperOrder.exists_stamps horder
  have hstatus : PaperOrder.status
      { order with acceptedNs := acceptedNs, lastEventNs := lastEventNs } = order.status := rfl
  have hterminal : PaperOrder.isTerminal
      { order with acceptedNs := acceptedNs, lastEventNs := lastEventNs } = order.isTerminal := rfl
  rw [resolvePendingCancel, hfound, resolvePendingCancel, hfound']
  dsimp only
  rw [hterminal]
  cases cancel
  cases cancel'
  simp only [ExecutionEvent.unstamped, ExecutionEvent.orderCancel.injEq,
    OrderCancelEvent.mk.injEq] at hcancel
  obtain ⟨rfl, rfl, rfl, rfl, rfl, rfl, rfl, rfl, -, rfl⟩ := hcancel
  split
  · refine ⟨_, _, fun k => { k with cancelRejects := k.cancelRejects + 1 }, ?_, rfl, rfl, rfl⟩
    rfl
  split
  · refine ⟨_, _, fun k => { k with cancelRejects := k.cancelRejects + 1 }, ?_, rfl, rfl, rfl⟩
    rfl
  · refine ⟨_, _, fun k => { k with cancelAcks := k.cancelAcks + 1 }, ?_, rfl, rfl, rfl⟩
    rfl

theorem Alike.of_metrics (h : Alike apart v w) (metrics metrics' : PaperMetrics) :
    Alike apart { v with metrics := metrics } { w with metrics := metrics' } where
  framed := by
    obtain ⟨_, _, _, _, _, _, _, rfl⟩ := h.framed
    exact ⟨_, _, _, _, _, _, _, rfl⟩
  orders := h.orders

theorem Alike.setOrder (h : Alike apart v w) {order order' : PaperOrder}
    (horder : order.unstamped = order'.unstamped) (index : Nat) :
    Alike apart (v.setOrder index order) (w.setOrder index order') where
  framed := by
    obtain ⟨_, _, _, _, _, _, _, rfl⟩ := h.framed
    exact ⟨_, _, _, _, _, _, _, rfl⟩
  orders := h.orders.set horder.symm index

theorem Alike.setOrder_right (h : Alike apart v w) {index : Nat} (happart : index ∈ apart)
    (order : PaperOrder) : Alike apart v (w.setOrder index order) where
  framed := by
    obtain ⟨_, _, _, _, _, _, _, rfl⟩ := h.framed
    exact ⟨_, _, _, _, _, _, _, rfl⟩
  orders :=
    { length := (List.length_set ..).trans h.orders.length
      get := fun i hi => by
        have hne : index ≠ i := by
          rintro rfl
          exact hi happart
        show ((w.orders.set index order)[i]?).map _ = _
        rw [List.getElem?_set_ne hne]
        exact h.orders.get i hi }

theorem Alike.refl (v : PaperExecution) : Alike apart v v where
  framed := ⟨_, _, _, _, _, _, _, rfl⟩
  orders := { length := rfl, get := fun _ _ => rfl }

theorem Alike.symm (h : Alike apart v w) : Alike apart w v where
  framed := by
    obtain ⟨_, _, _, _, _, _, _, rfl⟩ := h.framed
    exact ⟨v.clock, v.wall, v.orders, v.pending, v.inFlight, v.nextOrdinal, v.metrics, rfl⟩
  orders :=
    { length := h.orders.length.symm
      get := fun i hi => (h.orders.get i hi).symm }

theorem Alike.trans {x : PaperExecution} (h : Alike apart v w) (h' : Alike apart w x) :
    Alike apart v x where
  framed := by
    obtain ⟨_, _, _, _, _, _, _, hx⟩ := h'.framed
    obtain ⟨_, _, _, _, _, _, _, rfl⟩ := h.framed
    exact ⟨_, _, _, _, _, _, _, hx⟩
  orders :=
    { length := h'.orders.length.trans h.orders.length
      get := fun i hi => (h'.orders.get i hi).trans (h.orders.get i hi) }

theorem Alike.mono (h : Alike ∅ v w) : Alike apart v w where
  framed := h.framed
  orders :=
    { length := h.orders.length
      get := fun i _ => h.orders.get i (Set.notMem_empty _) }

theorem Alike.inRange (h : Alike apart v w) (hrange : v.table.InRange) : w.table.InRange := by
  intro id index hindex
  have hlookup : v.byClientId.lookup id = some index := by
    rw [← h.byClientId]
    exact hindex
  exact (hrange id index hlookup).trans_eq h.orders.length.symm

theorem Alike.agree (h : Alike ∅ v w) : v.table.Agree ids w.table where
  lookup id _ := congrArg (AList.lookup id) h.byClientId
  order _ _ index _ := h.orders.get index (Set.notMem_empty _)

theorem Alike.requestTarget (h : Alike apart v w) (request : Request) :
    FoundAlike apart (v.requestTarget request) (w.requestTarget request) := by
  cases request with
  | submit request => exact .inl ⟨rfl, rfl⟩
  | cancel request => exact h.cancelTarget request
  | replace request => exact h.findOrder request.originalClientOrderId

/-- A request that finds nothing where two venues differ spares the same in both. -/
theorem Spares.of_alike {id : ClientOrderId} {request : Request} (h : Spares id request v)
    (halike : Alike apart v w)
    (hspared : ∀ index order, v.requestTarget request = some (index, order) → index ∉ apart) :
    Spares id request w where
  enters := h.enters
  finds := by
    intro index order' htarget'
    rcases halike.requestTarget request with ⟨-, hnone⟩ |
      ⟨index', order, order'', htarget, hfound, hsame⟩
    · rw [hnone] at htarget'
      cases htarget'
    · rw [hfound] at htarget'
      cases htarget'
      obtain ⟨_, _, rfl⟩ := PaperOrder.exists_stamps (hsame (hspared index order htarget))
      rw [halike.byClientId]
      exact h.finds index order htarget

/-- Identities that stand for the same orders find the same. -/
theorem findOrder_of_agree (h : v.table.Agree ids w.table) {id : ClientOrderId} (hid : id ∈ ids) :
    FoundAlike ∅ (v.findOrder id) (w.findOrder id) := by
  have hlookup : w.byClientId.lookup id = v.byClientId.lookup id := h.lookup id hid
  unfold findOrder
  rw [hlookup]
  cases hindex : v.byClientId.lookup id with
  | none => exact .inl ⟨rfl, rfl⟩
  | some index =>
      have horder : (w.orders[index]?).map PaperOrder.unstamped =
          (v.orders[index]?).map PaperOrder.unstamped := h.order id hid index hindex
      rw [Option.bind_some, Option.bind_some]
      cases hv : v.orders[index]? with
      | none =>
          rw [hv, Option.map_none, Option.map_eq_none_iff] at horder
          rw [horder]
          exact .inl ⟨rfl, rfl⟩
      | some order =>
          rw [hv, Option.map_some, Option.map_eq_some_iff] at horder
          obtain ⟨order', hw, hsame⟩ := horder
          rw [hw]
          exact .inr ⟨index, order, order', rfl, rfl, fun _ => hsame.symm⟩

/-- One event does the same, stamps apart, in two venues where the identity it confirms
stands for the same order: it writes nothing in either, or the same to that order. -/
theorem deliver_both {event event' : ExecutionEvent} (hevent : event.unstamped = event'.unstamped)
    (hids : ∀ id, event.confirms = some id → FoundAlike ∅ (v.findOrder id) (w.findOrder id)) :
    (v.deliver event).1.unstamped = (w.deliver event').1.unstamped ∧
      ∃ metrics metrics',
        ((v.deliver event).2 = { v with metrics := metrics } ∧
          (w.deliver event').2 = { w with metrics := metrics' }) ∨
        ∃ id index order order' settled settled',
          v.findOrder id = some (index, order) ∧ w.findOrder id = some (index, order') ∧
          PaperOrder.unstamped settled = settled'.unstamped ∧
          (v.deliver event).2 = { v.setOrder index settled with metrics := metrics } ∧
          (w.deliver event').2 = { w.setOrder index settled' with metrics := metrics' } := by
  have hconfirms := ExecutionEvent.confirms_congr hevent
  cases hconfirmed : event.confirms with
  | none =>
      rw [deliver_of_not_confirms hconfirmed,
        deliver_of_not_confirms (hconfirms.trans hconfirmed)]
      exact ⟨hevent, _, _, .inl ⟨rfl, rfl⟩⟩
  | some id =>
      obtain ⟨cancel, rfl, rfl, hdeliver⟩ := deliver_of_confirms hconfirmed
      obtain ⟨cancel', rfl, hid, hdeliver'⟩ := deliver_of_confirms (hconfirms.trans hconfirmed)
      rw [hdeliver, hdeliver']
      dsimp only
      rcases hids _ hconfirmed with ⟨hnone, hnone'⟩ |
        ⟨index, order, order', hfound, hfound', hsame⟩
      · rw [resolvePendingCancel_of_none hnone, resolvePendingCancel_of_none (hid ▸ hnone')]
        refine ⟨?_, _, _, .inl ⟨rfl, rfl⟩⟩
        simp only [ExecutionEvent.unstamped, ExecutionEvent.orderCancel.injEq,
          OrderCancelEvent.mk.injEq] at hevent ⊢
        simp [hevent]
      · obtain ⟨settled, settled', bump, hsettled, hafter, hafter', hanswer⟩ :=
          resolvePendingCancel_of_some hevent hfound (hid ▸ hfound') (hsame (Set.notMem_empty _))
        rw [hafter, hafter']
        exact ⟨hanswer, _, _, .inr
          ⟨_, index, order, order', settled, settled', hfound, hfound', hsettled, rfl, rfl⟩⟩

theorem deliver_agree (h : v.table.Agree ids w.table) {event event' : ExecutionEvent}
    (hevent : event.unstamped = event'.unstamped)
    (hids : ∀ id, event.confirms = some id → id ∈ ids) :
    (v.deliver event).1.unstamped = (w.deliver event').1.unstamped ∧
      (v.deliver event).2.table.Agree ids (w.deliver event').2.table := by
  obtain ⟨hanswer, metrics, metrics', ⟨hafter, hafter'⟩ | ⟨id, index, order, order', settled,
    settled', hfound, hfound', hsettled, hafter, hafter'⟩⟩ :=
      deliver_both hevent fun id hid => findOrder_of_agree h (hids id hid)
  · rw [hafter, hafter']
    exact ⟨hanswer, h⟩
  · rw [hafter, hafter']
    refine ⟨hanswer, h.lookup, fun other hother position hposition => ?_⟩
    have hlt := (List.getElem?_eq_some_iff.mp (getElem?_of_findOrder hfound).2).1
    have hlt' := (List.getElem?_eq_some_iff.mp (getElem?_of_findOrder hfound').2).1
    show ((w.orders.set index settled')[position]?).map _ =
      ((v.orders.set index settled)[position]?).map _
    by_cases hat : index = position
    · rw [← hat, List.getElem?_set_self hlt, List.getElem?_set_self hlt']
      exact congrArg some hsettled.symm
    · rw [List.getElem?_set_ne hat, List.getElem?_set_ne hat]
      exact h.order other hother position hposition

theorem deliver_alike (h : Alike ∅ v w) {event event' : ExecutionEvent}
    (hevent : event.unstamped = event'.unstamped) :
    Alike ∅ (v.deliver event).2 (w.deliver event').2 := by
  obtain ⟨-, metrics, metrics', ⟨hafter, hafter'⟩ | ⟨id, index, order, order', settled,
    settled', -, -, hsettled, hafter, hafter'⟩⟩ := deliver_both hevent fun id _ => h.findOrder id
  · rw [hafter, hafter']
    exact h.of_metrics _ _
  · rw [hafter, hafter']
    exact (h.setOrder hsettled index).of_metrics _ _

/-- A confirmation of a position where the venues may differ, delivered in one of them. -/
theorem deliver_apart (h : Alike apart v w) {event : ExecutionEvent}
    (hids : ∀ id index, event.confirms = some id → w.byClientId.lookup id = some index →
      index ∈ apart) : Alike apart v (w.deliver event).2 := by
  cases hconfirmed : event.confirms with
  | none =>
      rw [deliver_of_not_confirms hconfirmed]
      exact h.of_metrics v.metrics _
  | some id =>
      obtain ⟨cancel, rfl, rfl, hdeliver⟩ := deliver_of_confirms hconfirmed
      rw [hdeliver]
      dsimp only
      cases hfound : w.findOrder cancel.clientOrderId with
      | none =>
          rw [resolvePendingCancel_of_none hfound]
          exact h.of_metrics v.metrics _
      | some found =>
          obtain ⟨index, order⟩ := found
          obtain ⟨settled, _, bump, -, hafter, -, -⟩ :=
            resolvePendingCancel_of_some
              (show (ExecutionEvent.orderCancel cancel).unstamped =
                (ExecutionEvent.orderCancel cancel).unstamped from rfl) hfound hfound rfl
          rw [hafter]
          have happart := hids _ index hconfirmed (getElem?_of_findOrder hfound).1
          exact (h.setOrder_right happart settled).of_metrics v.metrics _

theorem deliverAll_append (earlier later : List ExecutionEvent) (v : PaperExecution) :
    deliverAll (earlier ++ later) v =
      ((deliverAll earlier v).1 ++ (deliverAll later (deliverAll earlier v).2).1,
        (deliverAll later (deliverAll earlier v).2).2) := by
  induction earlier generalizing v with
  | nil => rfl
  | cons event earlier ih => simp only [List.cons_append, deliverAll, ih]

theorem deliverAll_agree {events events' : List ExecutionEvent}
    (h : v.table.Agree ids w.table)
    (hevents : events.map ExecutionEvent.unstamped = events'.map ExecutionEvent.unstamped)
    (hids : ∀ event ∈ events, ∀ id, event.confirms = some id → id ∈ ids) :
    (deliverAll events v).1.map ExecutionEvent.unstamped =
        (deliverAll events' w).1.map ExecutionEvent.unstamped ∧
      (deliverAll events v).2.table.Agree ids (deliverAll events' w).2.table := by
  induction events generalizing v w events' with
  | nil =>
      rw [List.map_nil, eq_comm, List.map_eq_nil_iff] at hevents
      rw [hevents]
      exact ⟨rfl, h⟩
  | cons event events ih =>
      rw [List.map_cons, eq_comm, List.map_eq_cons_iff] at hevents
      obtain ⟨event', later, rfl, hevent, hlater⟩ := hevents
      rw [List.forall_mem_cons] at hids
      obtain ⟨hanswer, hafter⟩ := deliver_agree h hevent.symm hids.1
      obtain ⟨hanswers, hend⟩ := ih hafter hlater.symm hids.2
      refine ⟨?_, hend⟩
      rw [deliverAll, deliverAll, List.map_cons, List.map_cons, hanswer, hanswers]

theorem deliverAll_alike {events events' : List ExecutionEvent} (h : Alike ∅ v w)
    (hevents : events.map ExecutionEvent.unstamped = events'.map ExecutionEvent.unstamped) :
    Alike ∅ (deliverAll events v).2 (deliverAll events' w).2 := by
  induction events generalizing v w events' with
  | nil =>
      rw [List.map_nil, eq_comm, List.map_eq_nil_iff] at hevents
      rw [hevents]
      exact h
  | cons event events ih =>
      rw [List.map_cons, eq_comm, List.map_eq_cons_iff] at hevents
      obtain ⟨event', later, rfl, hevent, hlater⟩ := hevents
      have hrest := ih (deliver_alike h hevent.symm) hlater.symm
      exact hrest

theorem deliverAll_apart {events : List ExecutionEvent} (h : Alike apart v w)
    (hids : ∀ event ∈ events, ∀ id index, event.confirms = some id →
      w.byClientId.lookup id = some index → index ∈ apart) :
    Alike apart v (deliverAll events w).2 := by
  induction events generalizing w with
  | nil => exact h
  | cons event events ih =>
      rw [List.forall_mem_cons] at hids
      refine ih (deliver_apart h hids.1) ?_
      obtain ⟨orders, metrics, hframe⟩ := w.deliver_frame event
      rw [hframe]
      exact hids.2

/-- The request did not arrive at time zero, finds room for its answers, and spares every
order whose cancel has been due since before it arrived. -/
structure Untouched (pending : PendingRequest) (v : PaperExecution) : Prop where
  timed : pending.dueNs ≠ 0
  kept : (v.processRequest pending).metrics.eventsDropped = v.metrics.eventsDropped
  spares : ∀ e ∈ v.pending, e.dueNs ≤ pending.dueNs →
    ∀ id, e.event.confirms = some id → Spares id pending.request v

/-- It is so for every one of some requests, in the state that it is processed in, and no
answer is dated past 64 bits. -/
def Untroubled (requests : List PendingRequest) (v : PaperExecution) : Prop :=
  Machine.Along (fun pending v => v.processRequest pending)
    (fun pending v => Untouched pending v ∧ pending.Fits v) requests v

/-- Requests that are untroubled find none of the orders whose cancel was due before they
arrived. So they do the same in a venue that differs in those orders, and they leave them
as they are in both. -/
theorem Untroubled.mirrors {v₀ w₀ y x : PaperExecution} {requests : List PendingRequest}
    {events : List Scheduled} (h : Untroubled requests v) (hcalm : v.Calm)
    (hrange : v.table.InRange) (hdecided : ∀ pending ∈ requests, 0 ≤ pending.decisionDelayNs)
    (hpending : ∀ e ∈ events, e ∈ v.pending)
    (hdue : ∀ e ∈ events, ∀ pending ∈ requests, e.dueNs ≤ pending.dueNs)
    (hids : ids = { id | ∃ e ∈ events, e.event.confirms = some id })
    (happart : apart = { index | ∃ id ∈ ids, y.byClientId.lookup id = some index })
    (hmirrors : Mirrors apart v₀ w₀ v w) (hagree : y.table.Agree ids v.table)
    (hagree' : x.table.Agree ids w.table) :
    Mirrors apart v₀ w₀ (requests.foldl processRequest v) (requests.foldl processRequest w) ∧
      y.table.Agree ids (requests.foldl processRequest v).table ∧
      x.table.Agree ids (requests.foldl processRequest w).table := by
  induction requests generalizing v w with
  | nil => exact ⟨hmirrors, hagree, hagree'⟩
  | cons pending later ih =>
      rw [List.forall_mem_cons] at hdecided
      have hspares : ∀ id ∈ ids, Spares id pending.request v := by
        rw [hids]
        rintro id ⟨e, he, hconfirms⟩
        exact h.1.1.spares e (hpending e he) (hdue e he pending List.mem_cons_self) id hconfirms
      have hfinds : ∀ index order, v.requestTarget pending.request = some (index, order) →
          index ∉ apart := by
        rw [happart]
        rintro index order htarget ⟨id, hid, hindex⟩
        have hlookup : v.byClientId.lookup id = y.byClientId.lookup id := hagree.lookup id hid
        exact ((hspares id hid).finds index order htarget).2 (hlookup.trans hindex)
      have hschedules : Schedules pending.dueNs v (v.processRequest pending) := by
        refine processRequest_schedules_of_base hcalm.duplicates hcalm.latency hcalm.idle ?_
          hdecided.1 h.1.2
        rw [base, if_pos h.1.1.timed]
      obtain ⟨added, hadded, -, -⟩ := hschedules.appends
      have hspares' : ∀ id ∈ ids, Spares id pending.request w := fun id hid =>
        (hspares id hid).of_alike hmirrors.toAlike hfinds
      have hrest := ih h.2 (hcalm.of_schedules hschedules)
        (processRequest_inRange hrange pending) hdecided.2
        (fun e he => by rw [hadded]; exact List.mem_append_left _ (hpending e he))
        (fun e he other hother => hdue e he other (List.mem_cons_of_mem _ hother))
        (hmirrors.processRequest rfl h.1.1.timed hfinds)
        (hagree.trans (processRequest_agree hrange hspares))
        (hagree'.trans (processRequest_agree (hmirrors.toAlike.inRange hrange) hspares'))
      exact hrest

/-- They schedule nothing sooner than the first of them arrived. -/
theorem Untroubled.schedules {least : Nanos} {requests : List PendingRequest}
    (h : Untroubled requests v) (hcalm : v.Calm)
    (hdecided : ∀ pending ∈ requests, 0 ≤ pending.decisionDelayNs)
    (hleast : ∀ pending ∈ requests, least ≤ pending.dueNs) :
    Schedules least v (requests.foldl processRequest v) := by
  induction requests generalizing v with
  | nil => exact .refl v
  | cons pending later ih =>
      rw [List.forall_mem_cons] at hdecided hleast
      have hfirst : Schedules pending.dueNs v (v.processRequest pending) := by
        refine processRequest_schedules_of_base hcalm.duplicates hcalm.latency hcalm.idle ?_
          hdecided.1 h.1.2
        rw [base, if_pos h.1.1.timed]
      exact (hfirst.mono hleast.1).trans
        (ih h.2 (hcalm.of_schedules hfirst) hdecided.2 hleast.2)

theorem foldl_processRequest_inRange (hrange : v.table.InRange) (requests : List PendingRequest) :
    (requests.foldl processRequest v).table.InRange := by
  induction requests generalizing v with
  | nil => exact hrange
  | cons pending later ih => exact ih (processRequest_inRange hrange pending)

theorem Untroubled.kept {requests : List PendingRequest} (h : Untroubled requests v) :
    (requests.foldl processRequest v).metrics.eventsDropped = v.metrics.eventsDropped := by
  induction requests generalizing v with
  | nil => rfl
  | cons pending later ih => exact (ih h.2).trans h.1.1.kept

end PaperExecution

end MmEngine.Exchange.Paper
