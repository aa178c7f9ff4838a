/-
# Requests the adapter returns

A cancel or a replace moves its order into the state of the request before the adapter
is called. When the adapter refuses the call, the handler clears the request and asks for
`working`, whatever state the order was in; a replace also leaves its generation behind.
-/

import MmEngine.Oms.Run

namespace MmEngine.Oms

open MmEngine.Exchange MmEngine.Quote MmEngine.Risk OmsState OrderManager

variable {σ : Type}

/-- The submission hands a request for the order to the adapter, which refuses it. -/
def Returned (port : IExchangeExecution σ) (approved : ApprovedAction) (w : World σ)
    (id : LogicalOrderId) : Prop :=
  ∃ kind, (submit port approved w).2.trace = w.trace ++ [.sent id kind false]

/-- The order is in the state, at the terms, under the identities and the generation it
was, with a request outstanding if it had one. -/
structure OrderRecord.Undone (before after : OrderRecord) : Prop where
  state : after.state = before.state
  price : after.price = before.price
  originalQuantity : after.originalQuantity = before.originalQuantity
  cumulativeQuantity : after.cumulativeQuantity = before.cumulativeQuantity
  clientOrderId : after.clientOrderId = before.clientOrderId
  exchangeOrderId : after.exchangeOrderId = before.exchangeOrderId
  generation : after.ownership.generation = before.ownership.generation
  request : after.hasPendingRequest = before.hasPendingRequest

/-- The order is in a state that survives the detour over the request, has no request
outstanding, and serves the generation a replace comes with. -/
structure OrderRecord.Restorable (order : OrderRecord) (action : OrderAction) : Prop where
  state : order.state = .working ∨ order.state = .created ∨ order.state = .orphaned
  request : order.pendingRequest = 0
  generation : action.type = .replace → action.generation = order.ownership.generation

/-- The states an order comes back to from a request that never left. -/
theorem landing_returned_iff :
    ∀ {source target : OrderState}, target = .pendingCancel ∨ target = .pendingReplace →
      source.isTerminal = false → source ≠ target →
        (landing (landing source target) .working = source ↔
          source = .working ∨ source = .created ∨ source = .orphaned) := by
  decide

/-- A request that comes back leaves the order where the detour lands, with no request
and, after a replace, the generation of the action. -/
structure OrderRecord.CameBack (order record : OrderRecord) (action : OrderAction) : Prop where
  state : ∃ target, (target = .pendingCancel ∨ target = .pendingReplace) ∧
    order.state ≠ target ∧ record.state = landing (landing order.state target) .working
  request : record.pendingRequest = 0
  generation : record.ownership.generation =
    if action.type = .replace then action.generation else order.ownership.generation
  price : record.price = order.price
  originalQuantity : record.originalQuantity = order.originalQuantity
  cumulativeQuantity : record.cumulativeQuantity = order.cumulativeQuantity
  clientOrderId : record.clientOrderId = order.clientOrderId
  exchangeOrderId : record.exchangeOrderId = order.exchangeOrderId

theorem OmsState.RequestEdit.cameBack {s base : OmsState} {action : OrderAction}
    {order record : OrderRecord} {id : LogicalOrderId} {kind : RequestKind}
    (h : RequestEdit s action order record base [.sent id kind false]) :
    order.CameBack record action := by
  cases h with
  | cancelReturned htype hstate =>
      refine ⟨⟨_, .inl rfl, hstate, ?_⟩, ?_, ?_, ?_, ?_, ?_, ?_, ?_⟩
      · rw [OrderRecord.transition_state, OrderRecord.settled, OrderRecord.transition_state,
          OrderRecord.requested]
      · rw [OrderRecord.transition_pendingRequest, OrderRecord.settled, ite_self]
      · rw [OrderRecord.transition_ownership, OrderRecord.settled, OrderRecord.transition_ownership,
          if_neg (by simp [htype])]
        rfl
      all_goals
        rw [OrderRecord.transition_eq, OrderRecord.settled, OrderRecord.transition_eq]
        rfl
  | replaceReturned htype hstate =>
      refine ⟨⟨_, .inr rfl, hstate, ?_⟩, ?_, ?_, ?_, ?_, ?_, ?_, ?_⟩
      · rw [OrderRecord.transition_state, OrderRecord.replaceDropped, OrderRecord.settled,
          OrderRecord.transition_state, OrderRecord.replacing]
        rfl
      · rw [OrderRecord.transition_pendingRequest, OrderRecord.replaceDropped, OrderRecord.settled,
          ite_self]
      · rw [OrderRecord.transition_ownership, OrderRecord.replaceDropped, OrderRecord.settled,
          OrderRecord.transition_ownership, if_pos htype]
        rfl
      all_goals
        rw [OrderRecord.transition_eq, OrderRecord.replaceDropped, OrderRecord.settled,
          OrderRecord.transition_eq]
        rfl

/-- What comes back is undone exactly when the order was restorable. -/
theorem OrderRecord.CameBack.undone_iff {order record : OrderRecord} {action : OrderAction}
    (h : order.CameBack record action) (hlive : order.isTerminal = false) :
    order.Undone record ↔ order.Restorable action := by
  obtain ⟨target, htarget, hother, hlands⟩ := h.state
  have hreturned := landing_returned_iff htarget hlive hother
  rw [← hlands] at hreturned
  have hidle : record.hasPendingRequest = false := by
    simp [OrderRecord.hasPendingRequest, h.request]
  constructor
  · intro hundone
    refine ⟨hreturned.mp hundone.state, ?_, fun htype => ?_⟩
    · have hrequest := hundone.request
      rw [hidle] at hrequest
      simpa [OrderRecord.hasPendingRequest] using hrequest.symm
    · rw [← hundone.generation, h.generation, if_pos htype]
  · rintro ⟨hstate, hrequest, hgeneration⟩
    refine ⟨hreturned.mpr hstate, h.price, h.originalQuantity, h.cumulativeQuantity,
      h.clientOrderId, h.exchangeOrderId, ?_, ?_⟩
    · rw [h.generation]
      split
      · rename_i htype
        exact hgeneration htype
      · rfl
    · rw [hidle]
      simp [OrderRecord.hasPendingRequest, hrequest]

/-- A cancel or a replace the adapter refuses is undone exactly when its order was
restorable: at work, or in a state the table lets neither out of nor into, with no
request outstanding, and for a replace at the generation it comes with. -/
theorem returned_request_undone_iff (port : IExchangeExecution σ) {w : World σ}
    {approved : ApprovedAction} {i : Nat} {order : OrderRecord}
    (htype : approved.action.type = .cancel ∨ approved.action.type = .replace)
    (hfound : w.oms.findTarget approved.action (approved.action.type = .cancel) = some (i, order))
    (hreturned : Returned port approved w order.logicalId) :
    (∃ record, (submit port approved w).2.oms.orders[i]? = some record ∧ order.Undone record) ↔
      order.Restorable approved.action := by
  obtain ⟨kind, hsent⟩ := hreturned
  obtain ⟨observed, htrace, houtcome⟩ := submit_outcome port approved w
  obtain rfl := List.append_cancel_left (htrace.symm.trans hsent)
  generalize hafter : (submit port approved w).2.oms.toOmsState = after at houtcome
  cases houtcome with
  | new _ hnew =>
      rcases htype with htype | htype <;> cases htype.symm.trans hnew
  | @edited j other record base _ _ hother hlive hedit =>
      obtain ⟨rfl, rfl⟩ := Prod.mk.inj (Option.some.inj (hfound.symm.trans hother))
      have hlt : i < base.orders.length := by
        have horder := (List.getElem?_eq_some_iff.mp (findTarget_getElem hfound)).1
        rcases hedit.base_eq with rfl | rfl | rfl <;> exact horder
      have hrecord : (base.store i record).orders[i]? = some record := List.getElem?_set_self hlt
      rw [← hedit.cameBack.undone_iff hlive, hrecord]
      constructor
      · rintro ⟨_, hsame, hundone⟩
        cases hsame
        exact hundone
      · exact fun hundone => ⟨record, rfl, hundone⟩

namespace Sample

/-- Takes every order and refuses to cancel or replace any. -/
def returnsAll : IExchangeExecution Unit where
  submit _ venue := (.ok, venue)
  cancel _ venue := (.error .unavailable "not connected", venue)
  replace _ venue := (.error .unavailable "not connected", venue)

/-- An acknowledged order of ten. -/
def atWork : World Unit :=
  World.reached returnsAll {} 1 () [.attachExecution, submitNew 10, ack '1' 'x']

/-- An acknowledged order of ten with a fill of four. -/
def partlyFilled : World Unit :=
  World.reached returnsAll {} 1 () [.attachExecution, submitNew 10, ack '1' 'x', fill '1' 'a' 4]

theorem atWork_orders : 0 < atWork.oms.orders.length := by decide +kernel

theorem partlyFilled_orders : 0 < partlyFilled.oms.orders.length := by decide +kernel

def approvedCancel : ApprovedAction := { action := action .cancel 0, valid := true }

end Sample

/-- The cancel of an order at work is undone when it is returned. -/
theorem returned_request_undone_sample :
    ∃ record, (submit Sample.returnsAll Sample.approvedCancel Sample.atWork).2.oms.orders[0]? =
        some record ∧
      (Sample.atWork.oms.orders.get ⟨0, Sample.atWork_orders⟩).Undone record := by
  have hfound : Sample.atWork.oms.findTarget Sample.approvedCancel.action true =
      some (0, Sample.atWork.oms.orders.get ⟨0, Sample.atWork_orders⟩) := by
    have hindex : (Sample.atWork.oms.findTarget Sample.approvedCancel.action true).map Prod.fst =
        some 0 := by decide +kernel
    obtain ⟨⟨i, order⟩, hfound, rfl⟩ := Option.map_eq_some_iff.mp hindex
    have horder := findTarget_getElem hfound
    rw [List.getElem?_eq_getElem Sample.atWork_orders, Option.some.injEq] at horder
    rw [hfound, ← horder]
    rfl
  exact (returned_request_undone_iff Sample.returnsAll (.inl rfl) hfound
    ⟨.cancel, by decide +kernel⟩).mpr ⟨by decide +kernel, by decide +kernel, by decide +kernel⟩

/-- The cancel of an order that has filled in part leaves it as if nothing had filled. -/
theorem returned_cancel_forgets_partial_fill :
    Returned Sample.returnsAll Sample.approvedCancel Sample.partlyFilled
        (Sample.partlyFilled.oms.orders.get ⟨0, Sample.partlyFilled_orders⟩).logicalId ∧
      ¬ ∃ record, (submit Sample.returnsAll Sample.approvedCancel
          Sample.partlyFilled).2.oms.orders[0]? = some record ∧
        (Sample.partlyFilled.oms.orders.get ⟨0, Sample.partlyFilled_orders⟩).Undone record := by
  refine ⟨⟨.cancel, by decide +kernel⟩, ?_⟩
  rintro ⟨record, hrecord, hundone⟩
  have hstate : ((submit Sample.returnsAll Sample.approvedCancel
      Sample.partlyFilled).2.oms.orders[0]?).map OrderRecord.state = some .working := by
    decide +kernel
  rw [hrecord, Option.map_some, hundone.state] at hstate
  revert hstate
  decide +kernel

end MmEngine.Oms
