/-
# Terminal orders

A finished order is finished: whatever is submitted, reported, swept, reconciled,
resolved or restored afterwards, the record keeps its state, its terms, what it
filled and its identities, and neither of the two views the rest of the engine
reads counts it again.

Every handler changes fields around its transition, so the table of transitions
alone does not give this. It rests on the guards: each handler looks whether the
order is terminal before it changes anything, and the ways of changing a record
that look at nothing (the timer, a resolution that restates the state) reach only
the outstanding request and the time of the end.
-/

import MmEngine.Oms.Exposure
import MmEngine.Quote.WorkingQuoteState

namespace MmEngine.Oms

open MmEngine.Exchange MmEngine.Quote MmEngine.Risk OmsState OrderManager

variable {σ : Type}

/-- The status of an order that rests while a request of ours is outstanding. -/
def restingStatus (order : OrderRecord) : OrderStatus :=
  if order.cumulativeQuantity.isPositive then .partiallyFilled else .new

/-- An order shown in a slot. A slot that showed an earlier order keeps that
order's pending operation unless this one has its own. -/
def WorkingOrder.showing (slot : WorkingOrder) (order : OrderRecord) : WorkingOrder :=
  let shown :=
    { slot with
      present := true
      owner := { strategy := order.ownership.strategy, slot := order.ownership.slot }
      side := order.side
      price := order.price
      originalQuantity := order.originalQuantity
      cumulativeQuantity := order.cumulativeQuantity
      clientOrderId := order.clientOrderId
      exchangeOrderId := order.exchangeOrderId
      generation := order.ownership.generation
      lastActionNs := order.sentNs }
  match order.state with
  | .pendingNew => { shown with status := .new, pending := .new }
  | .pendingCancel => { shown with status := restingStatus order, pending := .cancel }
  | .pendingReplace => { shown with status := restingStatus order, pending := .replace }
  | .partiallyFilled => { shown with status := .partiallyFilled }
  | .working => { shown with status := .new }
  | _ => { shown with status := .unknown }

/-- One iteration of the view. -/
def WorkingQuoteState.addOrder (symbol : Symbol) (owner : StrategyName)
    (state : WorkingQuoteState) (order : OrderRecord) : WorkingQuoteState :=
  if order.symbol ≠ symbol || !order.consumesExposure then state
  else if !order.ownership.matches owner order.ownership.slot then
    { state with foreignOrderCount := state.foreignOrderCount + 1 }
  else
    state.withSlot order.ownership.slot
      (WorkingOrder.showing (state.slot order.ownership.slot) order)

/-- The orders of a strategy that work on a symbol. -/
def OmsState.workingState (s : OmsState) (symbol : Symbol) (owner : StrategyName) :
    WorkingQuoteState :=
  s.orders.foldl (WorkingQuoteState.addOrder symbol owner) {}

/-- The state without the record at an index. -/
def OmsState.without (s : OmsState) (i : Nat) : OmsState :=
  s.withOrders (s.orders.eraseIdx i)

/-- Neither view counts the record at the index: they read as if it were not
there. -/
structure Uncounted (s : OmsState) (i : Nat) : Prop where
  exposure : ∀ symbol, s.exposure symbol = (s.without i).exposure symbol
  workingState : ∀ symbol owner,
    s.workingState symbol owner = (s.without i).workingState symbol owner

/-- A terminal order is not counted. -/
theorem uncounted_of_isTerminal {s : OmsState} {i : Nat} {order : OrderRecord}
    (horder : s.orders[i]? = some order) (hterminal : order.isTerminal = true) :
    Uncounted s i := by
  have hreleased : order.consumesExposure = false := by
    have hstate : order.state.isTerminal = true := hterminal
    simp [OrderRecord.consumesExposure, OrderState.consumesExposure, hstate]
  constructor
  · intro symbol
    apply Table.foldl_eraseIdx horder
    intro snapshot
    simp [ExposureSnapshot.addOrder, hreleased]
  · intro symbol owner
    apply Table.foldl_eraseIdx horder
    intro state
    simp [WorkingQuoteState.addOrder, hreleased]

/-- The record has the state, the terms, the fills and the identities it had. -/
structure OrderRecord.Settled (before after : OrderRecord) : Prop where
  state : after.state = before.state
  price : after.price = before.price
  originalQuantity : after.originalQuantity = before.originalQuantity
  cumulativeQuantity : after.cumulativeQuantity = before.cumulativeQuantity
  averageFillPrice : after.averageFillPrice = before.averageFillPrice
  cumulativeFees : after.cumulativeFees = before.cumulativeFees
  logicalId : after.logicalId = before.logicalId
  clientOrderId : after.clientOrderId = before.clientOrderId
  exchangeOrderId : after.exchangeOrderId = before.exchangeOrderId
  ownership : after.ownership = before.ownership

namespace OrderRecord.Settled

@[refl]
theorem refl (order : OrderRecord) : Settled order order :=
  ⟨rfl, rfl, rfl, rfl, rfl, rfl, rfl, rfl, rfl, rfl⟩

@[trans]
theorem trans {a b c : OrderRecord} (hab : Settled a b) (hbc : Settled b c) : Settled a c where
  state := hbc.state.trans hab.state
  price := hbc.price.trans hab.price
  originalQuantity := hbc.originalQuantity.trans hab.originalQuantity
  cumulativeQuantity := hbc.cumulativeQuantity.trans hab.cumulativeQuantity
  averageFillPrice := hbc.averageFillPrice.trans hab.averageFillPrice
  cumulativeFees := hbc.cumulativeFees.trans hab.cumulativeFees
  logicalId := hbc.logicalId.trans hab.logicalId
  clientOrderId := hbc.clientOrderId.trans hab.clientOrderId
  exchangeOrderId := hbc.exchangeOrderId.trans hab.exchangeOrderId
  ownership := hbc.ownership.trans hab.ownership

theorem isTerminal {a b : OrderRecord} (h : Settled a b) : b.isTerminal = a.isTerminal := by
  rw [OrderRecord.isTerminal, OrderRecord.isTerminal, h.state]

end OrderRecord.Settled

/-- No transition leaves a terminal state, and an attempt to leave it changes
nothing. -/
theorem OrderRecord.transition_of_isTerminal {order : OrderRecord} {target : OrderState}
    (hterminal : order.isTerminal = true) (htarget : target.isTerminal = false) (now : Nanos) :
    order.transition target now = order := by
  unfold OrderRecord.transition
  rw [if_neg]
  intro hlegal
  have hsame := eq_of_isLegalTransition_of_isTerminal hterminal hlegal
  rw [hsame] at htarget
  exact absurd hterminal (by simp [OrderRecord.isTerminal, htarget])

/-- Whatever an operation makes of a terminal record, it is the record it was. -/
theorem Edited.settled {s : OmsState} {i : Nat} {order record : OrderRecord} {op : Op σ}
    (h : Edited s i order op record) (hterminal : order.isTerminal = true) :
    order.Settled record := by
  cases h with
  | request _ _ hlive _ | event _ _ hlive _ =>
      rw [hterminal] at hlive
      cases hlive
  | timedOut =>
      have hsettled : order.settled.isTerminal = true := hterminal
      rw [OrderRecord.transition_of_isTerminal hsettled rfl]
      exact ⟨rfl, rfl, rfl, rfl, rfl, rfl, rfl, rfl, rfl, rfl⟩
  | omitted =>
      rw [OrderRecord.transition_of_isTerminal hterminal rfl]
  | resolved _ hlegal =>
      -- Only a resolution that restates the state is legal.
      have hsame := eq_of_isLegalTransition_of_isTerminal hterminal hlegal
      unfold concluded
      split <;> exact ⟨hsame, rfl, rfl, rfl, rfl, rfl, rfl, rfl, rfl, rfl⟩
  | restarted =>
      have hidle := OrderState.not_hasPendingRequest_of_isTerminal hterminal
      rw [recovered_of_not_pending hidle]

theorem step_settled (port : IExchangeExecution σ) (op : Op σ) {w : World σ}
    (hnumbered : w.oms.toOmsState.Numbered) {i : Nat} {order : OrderRecord}
    (horder : w.oms.orders[i]? = some order) (hterminal : order.isTerminal = true) :
    ∃ record, (step port op w).oms.orders[i]? = some record ∧ order.Settled record := by
  have hheld : Held (fun _ => True) w.oms.toOmsState := fun _ _ _ => trivial
  have hevolves := step_evolves port op w hnumbered hheld (admits_true op)
  obtain ⟨record, hrecord, hrewrite⟩ := hevolves.old i order horder
  refine ⟨record, hrecord, ?_⟩
  rcases hrewrite with rfl | hedited
  · rfl
  · exact hedited.settled hterminal

theorem run_settled (port : IExchangeExecution σ) (ops : List (Op σ)) {w : World σ}
    (hnumbered : w.oms.toOmsState.Numbered) {i : Nat} {order : OrderRecord}
    (horder : w.oms.orders[i]? = some order) (hterminal : order.isTerminal = true) :
    ∃ record, (Machine.run (step port) ops w).oms.orders[i]? = some record ∧
      order.Settled record := by
  induction ops generalizing w order with
  | nil => exact ⟨order, horder, .refl order⟩
  | cons op ops ih =>
      obtain ⟨middle, hmiddle, hfirst⟩ := step_settled port op hnumbered horder hterminal
      have hstill : middle.isTerminal = true := hfirst.isTerminal.trans hterminal
      obtain ⟨record, hrecord, hlater⟩ :=
        ih (step_numbered port op w hnumbered) hmiddle hstill
      exact ⟨record, hrecord, hfirst.trans hlater⟩

/-- Once an order of a run has ended, its record is settled for the rest of the
run, restarts included, and no view counts it. -/
theorem terminal_absorbing (port : IExchangeExecution σ) (config : OmsConfig) (clock : Nanos)
    (venue : σ) (ops later : List (Op σ)) (i : Nat) (order : OrderRecord)
    (horder : (Machine.run (step port) ops (World.init config clock venue)).oms.orders[i]? =
      some order)
    (hterminal : order.isTerminal = true) :
    let after := (Machine.run (step port) (ops ++ later)
      (World.init config clock venue)).oms.toOmsState
    (∃ record, after.orders[i]? = some record ∧ order.Settled record) ∧ Uncounted after i := by
  intro after
  have hrun : after = (Machine.run (step port) later
      (Machine.run (step port) ops (World.init config clock venue))).oms.toOmsState := by
    simp only [after, Machine.run_append]
  obtain ⟨record, hrecord, hsettled⟩ :=
    run_settled port later (run_numbered port config clock venue ops) horder hterminal
  rw [← hrun] at hrecord
  refine ⟨⟨record, hrecord, hsettled⟩, ?_⟩
  exact uncounted_of_isTerminal hrecord (hsettled.isTerminal.trans hterminal)

/-- A filled order, then a late cancel, a late replace, a late fill, a timer sweep
and a restart. -/
theorem terminal_absorbing_filled :
    let ops : List (Op Unit) := [.attachExecution, Sample.submitNew 10, Sample.ack '1' 'x',
      Sample.fill '1' 'a' 10]
    let later : List (Op Unit) := [Sample.cancelAnswer '1' .accepted, Sample.fill '1' 'b' 5,
      Sample.replaceAccepted '1' '2' .empty, .onTimer, .restart {}]
    ∃ order, (Sample.after ops).oms.orders[0]? = some order ∧ order.state = .filled ∧
      (∃ record, (Sample.after (ops ++ later)).oms.orders[0]? = some record ∧
        order.Settled record) ∧ Uncounted (Sample.after (ops ++ later)).oms.toOmsState 0 := by
  intro ops later
  have hfilled : (Sample.after ops).oms.orders[0]?.map OrderRecord.state = some .filled := by
    decide +kernel
  obtain ⟨order, horder, hstate⟩ := Option.map_eq_some_iff.mp hfilled
  have hterminal : order.isTerminal = true := by
    rw [OrderRecord.isTerminal, hstate]
    rfl
  exact ⟨order, horder, hstate,
    terminal_absorbing Sample.acceptAll {} 1 () ops later 0 order horder hterminal⟩

end MmEngine.Oms
