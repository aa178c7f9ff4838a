/-
# Bookings

A booking is a fill that has moved the quantity of an order. The order manager makes one at
most of every event it takes off its queue, so in the order they are made its bookings are
some of the fills that arrived; and what an order has filled is what has been booked on it,
unless a cancel came too late.
-/

import MmEngine.Exchange.Paper.FillReports
import MmEngine.Oms.FillLedger
import MmEngine.Oms.Queue

namespace MmEngine.Oms

open MmEngine.Exchange MmEngine.Quote MmEngine.Risk OmsState OrderManager

variable {σ : Type}

/-- What an operation books, and on which order. -/
def OmsState.bookings (s : OmsState) : Op σ → List (Nat × FillEvent)
  | .apply (.fill fill) =>
      match s.recordsFill fill with
      | some (i, order, seen) => if order.books seen fill then [(i, fill)] else []
      | none => []
  | _ => []

/-- Everything that a run books. -/
def allBookings (port : IExchangeExecution σ) (ops : List (Op σ)) (w : World σ) :
    List (Nat × FillEvent) :=
  (Machine.outputs (step port) (fun op w => w.oms.toOmsState.bookings op) ops w).flatten

/-- The fills that are booked on the order at an index. -/
def bookedAt (bookings : List (Nat × FillEvent)) (i : Nat) : List FillEvent :=
  (bookings.filter fun booking => booking.1 = i).map Prod.snd

@[simp]
theorem bookedAt_append (bookings later : List (Nat × FillEvent)) (i : Nat) :
    bookedAt (bookings ++ later) i = bookedAt bookings i ++ bookedAt later i := by
  simp [bookedAt]

/-- An event books its own fill, or nothing. -/
theorem bookings_apply_sublist (s : OmsState) (event : ExecutionEvent) :
    ((s.bookings (.apply event : Op σ)).map Prod.snd).Sublist (fillsIn [event]) := by
  cases event with
  | fill fill =>
      rw [bookings]
      split
      · split
        · exact .refl _
        · exact List.nil_sublist _
      · exact List.nil_sublist _
  | _ => exact List.nil_sublist _

/-- Draining books some of the fills in the queue, in their order. -/
theorem allBookings_apply_sublist (port : IExchangeExecution σ) (events : List ExecutionEvent)
    (w : World σ) :
    ((allBookings port (events.map .apply) w).map Prod.snd).Sublist (fillsIn events) := by
  induction events generalizing w with
  | nil => exact .slnil
  | cons event events ih =>
      have hfirst : fillsIn (event :: events) = fillsIn [event] ++ fillsIn events :=
        fillsIn_append [event] events
      rw [List.map_cons, allBookings, Machine.outputs, List.flatten_cons, List.map_append, hfirst]
      exact (bookings_apply_sublist _ event).append (ih _)

/-- The bookings on an order are what its ledger enters as booked. -/
theorem bookedAt_bookings (s : OmsState) (op : Op σ) (i : Nat) :
    bookedAt (s.bookings op) i = appliedFills (s.entry i op).toList := by
  rw [bookings.eq_def, entry.eq_def]
  cases op with
  | apply event =>
      cases event with
      | fill fill =>
          dsimp only
          cases s.recordsFill fill with
          | none => rfl
          | some recorded =>
              obtain ⟨j, order, seen⟩ := recorded
              dsimp only
              by_cases hindex : j = i
              · cases hbooks : order.books seen fill with
                | true => simp [bookedAt, appliedFills, hindex]
                | false => simp [bookedAt, appliedFills, hindex]
              · cases hbooks : order.books seen fill with
                | true => simp [bookedAt, appliedFills, hindex]
                | false => simp [bookedAt, appliedFills, hindex]
      | _ => rfl
  | _ => rfl

/-- What an order has filled is what has been booked on it. -/
def BookedWhole (bookings : List (Nat × FillEvent)) (s : OmsState) : Prop :=
  ∀ i, ∃ entries, SumHolds i entries s ∧ appliedFills entries = bookedAt bookings i

theorem BookedWhole.cumulativeQuantity {bookings : List (Nat × FillEvent)} {s : OmsState}
    (h : BookedWhole bookings s) {i : Nat} {order : OrderRecord}
    (horder : s.orders[i]? = some order) :
    order.cumulativeQuantity.raw =
      ((bookedAt bookings i).map fun fill => fill.quantity.raw).sum := by
  obtain ⟨entries, hsum, happlied⟩ := h i
  rw [hsum.sum order horder, happlied]
  rfl

/-- No cancel comes too late. -/
def Timely : Op σ → Prop
  | .apply (.orderCancel cancel) => cancel.cancelStatus ≠ .tooLate
  | _ => True

theorem Timely.tooLate {op : Op σ} (h : Timely op) (s : OmsState) (i : Nat) :
    tooLate s i op = false := by
  rw [Oms.tooLate.eq_def]
  cases op with
  | apply event =>
      cases event with
      | orderCancel cancel =>
          have hstatus : cancel.cancelStatus ≠ .tooLate := h
          simp [hstatus]
      | _ => rfl
  | _ => rfl

theorem BookedWhole.step (port : IExchangeExecution σ) {op : Op σ} {w : World σ}
    (hnumbered : w.oms.toOmsState.Numbered) {bookings : List (Nat × FillEvent)}
    (h : BookedWhole bookings w.oms.toOmsState) (htimely : Timely op) :
    BookedWhole (bookings ++ w.oms.toOmsState.bookings op)
      (Oms.step port op w).oms.toOmsState := by
  intro i
  obtain ⟨entries, hsum, happlied⟩ := h i
  refine ⟨_, hsum.step port op hnumbered (htimely.tooLate _ i), ?_⟩
  have happend : ∀ later, appliedFills (entries ++ later) =
      appliedFills entries ++ appliedFills later := by simp [appliedFills]
  rw [bookedAt_append, ← happlied, bookedAt_bookings, happend]

theorem bookedWhole_init (config : OmsConfig) (clock : Nanos) :
    BookedWhole [] (OrderManager.init config clock).toOmsState :=
  fun i => ⟨[], sumHolds_init config clock i, rfl⟩

end MmEngine.Oms
