/-
# The position on the venue's books

What the venue's orders of a symbol have bought and sold, net, is a position, and the
fills that the venue has executed move it: each fill names the symbol and the side of the
order it was executed for, neither of which an order ever changes.
-/

import MmEngine.Exchange.Paper.FillAccounting
import Mathlib.Algebra.BigOperators.Group.List.Basic

namespace MmEngine.Exchange.Paper

/-- A quantity as a position takes it. -/
def signed (side : Side) (quantity : Int) : Int :=
  match side with
  | .buy => quantity
  | .sell => -quantity

theorem signed_add (side : Side) (quantity more : Int) :
    signed side (quantity + more) = signed side quantity + signed side more := by
  cases side with
  | buy => rfl
  | sell => exact Int.neg_add

@[simp]
theorem signed_zero (side : Side) : signed side 0 = 0 := by
  cases side <;> rfl

/-- What an order has added to the position in a symbol. -/
def PaperOrder.position (symbol : Symbol) (order : PaperOrder) : Int :=
  if order.symbol = symbol then signed order.side order.cumulativeQty.raw else 0

/-- The position in a symbol on the venue's books. -/
def venuePosition (symbol : Symbol) (orders : List PaperOrder) : Int :=
  (orders.map (PaperOrder.position symbol)).sum

/-- What a fill adds to the position in a symbol. -/
def fillPosition (symbol : Symbol) (fill : FillEvent) : Int :=
  if fill.symbol = symbol then signed fill.side fill.quantity.raw else 0

/-- What executions add to the position in a symbol. -/
def executedPosition (symbol : Symbol) (executions : List Execution) : Int :=
  (executions.map fun e => fillPosition symbol e.fill).sum

section Sums

variable (symbol : Symbol)

@[simp]
theorem executedPosition_nil : executedPosition symbol [] = 0 := rfl

theorem executedPosition_append (executions later : List Execution) :
    executedPosition symbol (executions ++ later) =
      executedPosition symbol executions + executedPosition symbol later := by
  simp [executedPosition]

theorem venuePosition_concat (orders : List PaperOrder) (order : PaperOrder) :
    venuePosition symbol (orders ++ [order]) =
      venuePosition symbol orders + order.position symbol := by
  simp [venuePosition]

theorem venuePosition_set {orders : List PaperOrder} {index : Nat} {order : PaperOrder}
    (horder : orders[index]? = some order) (after : PaperOrder) :
    venuePosition symbol (orders.set index after) =
      venuePosition symbol orders + (after.position symbol - order.position symbol) := by
  obtain ⟨hlt, hentry⟩ := List.getElem?_eq_some_iff.mp horder
  rw [venuePosition, venuePosition, List.map_set, List.sum_set', dif_pos (by simpa using hlt)]
  simp only [List.getElem_map, hentry]
  omega

/-- An order replaced by one of the same symbol, on the same side, that has filled as much. -/
theorem venuePosition_set_same {orders : List PaperOrder} {index : Nat} {order : PaperOrder}
    (horder : orders[index]? = some order) {after : PaperOrder}
    (hsymbol : after.symbol = order.symbol) (hside : after.side = order.side)
    (hfilled : after.cumulativeQty = order.cumulativeQty) :
    venuePosition symbol (orders.set index after) = venuePosition symbol orders := by
  rw [venuePosition_set symbol horder, PaperOrder.position, PaperOrder.position, hsymbol, hside,
    hfilled, sub_self, add_zero]

end Sums

/-- The fill of an execution is for the symbol and the side of its order. -/
structure Execution.Named (e : Execution) : Prop where
  symbol : e.fill.symbol = e.order.symbol
  side : e.fill.side = e.order.side

theorem PaperOrder.applyMatch_symbol (order : PaperOrder) (result : MatchResult) (now : Nanos) :
    (order.applyMatch result now).symbol = order.symbol := by
  obtain ⟨_, _, _, hframe⟩ := order.applyMatch_frame result now
  rw [hframe]

theorem PaperOrder.applyMatch_side (order : PaperOrder) (result : MatchResult) (now : Nanos) :
    (order.applyMatch result now).side = order.side := by
  obtain ⟨_, _, _, hframe⟩ := order.applyMatch_frame result now
  rw [hframe]

/-- A match moves the position of its order by what its fill adds. -/
theorem Execution.Named.position {e : Execution} (h : e.Named) {symbol : Symbol} {now : Nanos}
    (hpositive : 0 < e.result.quantity.raw)
    (hwanted : e.result.quantity.raw ≤ e.order.remaining.raw)
    (hquantity : e.fill.quantity = e.result.quantity) :
    (e.order.applyMatch e.result now).position symbol =
      e.order.position symbol + fillPosition symbol e.fill := by
  have hfilled := (PaperOrder.applyMatch_spec hpositive hwanted now).1
  rw [PaperOrder.position, PaperOrder.applyMatch_symbol, PaperOrder.applyMatch_side, hfilled,
    signed_add, PaperOrder.position, fillPosition, h.symbol, h.side, hquantity]
  split
  · rfl
  · rfl

namespace PaperExecution

variable {v : PaperExecution}

theorem takeOnArrivalExecutions_named {index : Nat} {order : PaperOrder} {book : BookView}
    {e : Execution} (h : e ∈ v.takeOnArrivalExecutions index order book) : e.Named := by
  unfold takeOnArrivalExecutions at h
  dsimp only at h
  split at h
  · rw [List.mem_singleton.mp h]
    exact ⟨order.applyMatch_symbol _ _, order.applyMatch_side _ _⟩
  · exact absurd h List.not_mem_nil

theorem acceptOrderExecutions_named {request : OrderRequest} {delay : Nanos} {e : Execution}
    (h : e ∈ v.acceptOrderExecutions request delay) : e.Named := by
  unfold acceptOrderExecutions at h
  dsimp only at h
  split at h
  · exact absurd h List.not_mem_nil
  split at h
  · exact absurd h List.not_mem_nil
  split at h
  · exact absurd h List.not_mem_nil
  · exact takeOnArrivalExecutions_named h

theorem requestExecutions_named {pending : PendingRequest} {e : Execution}
    (h : e ∈ v.requestExecutions pending) : e.Named := by
  unfold requestExecutions at h
  split at h
  · unfold processSubmitExecutions at h
    split at h
    · exact absurd h List.not_mem_nil
    split at h
    · exact absurd h List.not_mem_nil
    split at h
    · exact absurd h List.not_mem_nil
    · exact acceptOrderExecutions_named h
  · exact absurd h List.not_mem_nil
  · exact absurd h List.not_mem_nil

end PaperExecution

theorem Sweep.orderExecutions_named {sweep : Sweep} {now : Nanos} {index : Nat} {e : Execution}
    (h : e ∈ sweep.orderExecutions now index) : e.Named := by
  unfold orderExecutions at h
  split at h
  · exact absurd h List.not_mem_nil
  · split at h
    · exact absurd h List.not_mem_nil
    dsimp only at h
    split at h
    · rw [List.mem_singleton.mp h]
      exact ⟨PaperOrder.applyMatch_symbol _ _ _, PaperOrder.applyMatch_side _ _ _⟩
    · exact absurd h List.not_mem_nil

namespace PaperExecution

variable (v : PaperExecution) (symbol : Symbol)

/-- Processing a request moves the position by the fills it schedules. -/
theorem processRequest_position (pending : PendingRequest) :
    venuePosition symbol (v.processRequest pending).orders =
      venuePosition symbol v.orders + executedPosition symbol (v.requestExecutions pending) := by
  have hlisted : ∀ request : OrderRequest, (v.arrivingOrder request).position symbol = 0 := by
    intro request
    rw [PaperOrder.position]
    split
    · exact signed_zero _
    · rfl
  rcases v.processRequest_cases pending with ⟨hnone, htable⟩ |
    ⟨request, -, -, ⟨hnone, htable⟩ | ⟨hnone, htable⟩ | ⟨book, e, harrives, hsome, htable⟩⟩ |
    ⟨request, index, order, -, htarget, hnone, htable⟩ |
    ⟨request, index, order, -, hfind, -, -, hnone, htable⟩
  all_goals
    have horders := congrArg Table.orders htable
    dsimp only [table] at horders
    rw [horders]
  · rw [hnone, executedPosition_nil, add_zero]
  · rw [hnone, executedPosition_nil, add_zero]
  · rw [hnone, executedPosition_nil, add_zero]
    show venuePosition symbol (v.orders ++ [v.arrivingOrder request]) = _
    rw [venuePosition_concat, hlisted, add_zero]
  · have hnamed : e.Named := requestExecutions_named (hsome ▸ List.mem_singleton_self e)
    have hwanted := harrives.wanted
    rw [← harrives.order] at hwanted
    show venuePosition symbol (v.orders ++ [_]) = _
    rw [venuePosition_concat, hsome, ← harrives.order,
      hnamed.position harrives.positive hwanted harrives.quantity, harrives.order, hlisted,
        zero_add]
    exact congrArg _ (add_zero _).symm
  · rw [hnone, executedPosition_nil, add_zero]
    exact venuePosition_set_same symbol (getElem?_of_cancelTarget htarget) (by rfl) (by rfl)
        (by rfl)
  · rw [hnone, executedPosition_nil, add_zero]
    exact venuePosition_set_same symbol (getElem?_of_findOrder hfind).2 (by rfl) (by rfl) (by rfl)

theorem requests_position (requests : List PendingRequest) :
    venuePosition symbol (requests.foldl processRequest v).orders =
      venuePosition symbol v.orders + executedPosition symbol (requestsExecutions requests v) := by
  induction requests generalizing v with
  | nil => exact (add_zero _).symm
  | cons pending later ih =>
      rw [List.foldl_cons, requestsExecutions, ih, processRequest_position,
        executedPosition_append, add_assoc]

/-- Settling a cancel changes an order's status and mark. -/
theorem resolvePendingCancel_position (cancel : OrderCancelEvent) :
    venuePosition symbol (v.resolvePendingCancel cancel).2.orders =
      venuePosition symbol v.orders := by
  unfold resolvePendingCancel
  cases hfind : v.findOrder cancel.clientOrderId with
  | none => rfl
  | some found =>
      obtain ⟨index, order⟩ := found
      have horder := (getElem?_of_findOrder hfind).2
      dsimp only
      split
      · exact venuePosition_set_same symbol horder (by rfl) (by rfl) (by rfl)
      split
      · exact venuePosition_set_same symbol horder (by rfl) (by rfl) (by rfl)
      · exact venuePosition_set_same symbol horder (by rfl) (by rfl) (by rfl)

theorem deliverAll_position (events : List ExecutionEvent) :
    venuePosition symbol (deliverAll events v).2.orders = venuePosition symbol v.orders :=
  deliverAll_keeps (P := fun t => venuePosition symbol t.orders = venuePosition symbol v.orders)
    (fun w cancel h => (resolvePendingCancel_position w symbol cancel).trans h) events rfl

theorem matchOrder_position (now : Nanos) (sweep : Sweep) (index : Nat) :
    venuePosition symbol (sweep.matchOrder now index).venue.orders =
      venuePosition symbol sweep.venue.orders +
        executedPosition symbol (sweep.orderExecutions now index) := by
  rcases sweep.matchOrder_cases now index with ⟨-, hnone, hsame⟩ |
    ⟨order, horder, -, matched, hmatched, -, -, ⟨hnone, -, hvenue⟩ |
      ⟨e, hsome, hpositive, -, hexecuted, hresult, -, hquantity, -, htable⟩⟩
  · rw [hnone, hsame, executedPosition_nil, add_zero]
  · rw [hnone, hvenue, executedPosition_nil, add_zero]
  · have horders := congrArg Table.orders htable
    dsimp only [table] at horders
    obtain ⟨hfilled, hwanted⟩ := matched_within hmatched hresult hpositive
    have hnamed : e.Named := Sweep.orderExecutions_named (hsome ▸ List.mem_singleton_self e)
    subst hexecuted
    rw [horders, venuePosition_set symbol horder, hnamed.position hfilled hwanted hquantity, hsome,
      add_sub_cancel_left]
    exact congrArg _ (add_zero _).symm

theorem sweep_position (now : Nanos) (indices : List Nat) (sweep : Sweep) :
    venuePosition symbol (indices.foldl (Sweep.matchOrder now) sweep).venue.orders =
      venuePosition symbol sweep.venue.orders +
        executedPosition symbol (Sweep.executions now indices sweep) := by
  induction indices generalizing sweep with
  | nil => exact (add_zero _).symm
  | cons index indices ih =>
      rw [List.foldl_cons, Sweep.executions, ih, matchOrder_position, executedPosition_append,
        add_assoc]

theorem matchSymbol_position (swept : Symbol) (now : Nanos) :
    venuePosition symbol (v.matchSymbol swept now).orders =
      venuePosition symbol v.orders +
        executedPosition symbol (v.matchSymbolExecutions swept now) := by
  rcases v.matchSymbol_cases swept now with
    ⟨hnone, htable⟩ | ⟨book, -, -, -, hexecutions, hswept⟩
  · have horders : (v.matchSymbol swept now).orders = v.orders := congrArg Table.orders htable
    rw [hnone, horders, executedPosition_nil, add_zero]
  · rw [hexecutions, hswept]
    exact sweep_position symbol now _ (v.sweepOf book)

/-- A call moves the position by the fills it schedules. -/
theorem step_position (call : Op) :
    venuePosition symbol (step call v).orders =
      venuePosition symbol v.orders + executedPosition symbol (executions call v) := by
  by_cases hpoll : call = .poll
  · subst hpoll
    show venuePosition symbol v.poll.2.orders = _ + executedPosition symbol v.pollExecutions
    unfold poll pollExecutions
    split
    · exact (add_zero _).symm
    · exact (deliverAll_position _ symbol _).trans (requests_position _ symbol v.arrived)
  by_cases hupdate : ∃ swept updateNs, call = .onMarketUpdate swept updateNs
  · obtain ⟨swept, updateNs, rfl⟩ := hupdate
    exact matchSymbol_position { v with bookUpdatedNs := v.bookUpdatedNs.insert swept updateNs }
      symbol swept v.clock
  · have hother : ∀ swept updateNs, call ≠ .onMarketUpdate swept updateNs :=
      fun swept updateNs heq => hupdate ⟨swept, updateNs, heq⟩
    have horders : (step call v).orders = v.orders :=
      congrArg Table.orders (v.step_table hpoll hother)
    rw [horders, executions_of_quiet hpoll hother, executedPosition_nil, add_zero]

/-- Over a run the position moves by the fills that were executed. -/
theorem history_position (calls : List Op) :
    venuePosition symbol (Machine.run step calls v).orders =
      venuePosition symbol v.orders + executedPosition symbol (history calls v) := by
  induction calls generalizing v with
  | nil => exact (add_zero _).symm
  | cons call calls ih =>
      rw [Machine.run_cons, history_cons, ih, step_position, executedPosition_append, add_assoc]

end PaperExecution

end MmEngine.Exchange.Paper
