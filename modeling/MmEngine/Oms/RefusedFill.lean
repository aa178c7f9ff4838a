/-
# What a quarantined fill leaves behind

The handler of a fill checks the order and the signs, then enters the trade in the
order's ring, then checks the size and the arithmetic. A fill refused by the first
checks leaves every record as it was. One refused by the last has its trade in the ring,
so that a corrected delivery of that trade is dropped as a duplicate.
-/

import MmEngine.Oms.FillLedger

namespace MmEngine.Oms

open MmEngine.Exchange MmEngine.Quote MmEngine.Risk OmsState OrderManager

/-- The handler quarantines the fill. -/
def OrderManager.Quarantines (m : OrderManager) (fill : FillEvent) : Prop :=
  m.metrics.quarantinedEvents < (m.applyFill fill).manager.metrics.quarantinedEvents

instance (m : OrderManager) (fill : FillEvent) : Decidable (m.Quarantines fill) :=
  inferInstanceAs (Decidable (_ < _))

/-- No record shows that the fill has come, and a corrected delivery of the same trade
does to the records what it would have done without it. -/
structure OrderManager.LeavesNoTrace (m : OrderManager) (fill : FillEvent) : Prop where
  orders : (m.applyFill fill).manager.orders = m.orders
  corrected : ∀ other : FillEvent, other.clientOrderId = fill.clientOrderId →
    other.tradeId = fill.tradeId →
      ((m.applyFill fill).manager.applyFill other).manager.orders =
        (m.applyFill other).manager.orders

/-- The fill stays within the order's size, and the value filled with it within range. -/
structure OrderRecord.Fits (order : OrderRecord) (fill : FillEvent) : Prop where
  size : order.cumulativeQuantity.raw + fill.quantity.raw ≤ order.originalQuantity.raw
  value : ∃ previous paid total,
    checkedNotionalOf order.averageFillPrice order.cumulativeQuantity = some previous ∧
      checkedNotionalOf fill.price fill.quantity = some paid ∧
        Fixed.checkedAdd previous paid = some total

/-- A fill that is not booked does not fit the order. -/
theorem bookFill_error_iff {order : OrderRecord} {fill : FillEvent}
    (hquantity : 0 < fill.quantity.raw) :
    (∃ reason, order.bookFill fill = .error reason) ↔ ¬ order.Fits fill := by
  rw [OrderRecord.bookFill]
  cases hsum : Fixed.checkedAdd order.cumulativeQuantity fill.quantity with
  | none =>
      refine iff_of_true ⟨_, rfl⟩ fun hfits => ?_
      -- The sum is above the least value, and the order's size is below the greatest.
      have hsize := hfits.size
      have hmin := order.cumulativeQuantity.rawMin_le
      have hmax := order.originalQuantity.raw_le
      have hrange := Fixed.fromRaw?_eq_none_iff.mp hsum
      omega
  | some total =>
      have htotal := Fixed.checkedAdd_eq_some_iff.mp hsum
      dsimp only
      by_cases hover : order.originalQuantity.raw < total.raw
      · rw [if_pos hover]
        refine iff_of_true ⟨_, rfl⟩ fun hfits => ?_
        have hsize := hfits.size
        omega
      rw [if_neg hover]
      have hsize : order.cumulativeQuantity.raw + fill.quantity.raw ≤
          order.originalQuantity.raw := by omega
      cases hprevious : checkedNotionalOf order.averageFillPrice order.cumulativeQuantity with
      | none =>
          refine iff_of_true ⟨_, rfl⟩ fun hfits => ?_
          obtain ⟨_, _, _, hvalue, -⟩ := hfits.value
          rw [hprevious] at hvalue
          cases hvalue
      | some previous =>
          cases hpaid : checkedNotionalOf fill.price fill.quantity with
          | none =>
              refine iff_of_true ⟨_, rfl⟩ fun hfits => ?_
              obtain ⟨_, _, _, -, hvalue, -⟩ := hfits.value
              rw [hpaid] at hvalue
              cases hvalue
          | some paid =>
              dsimp only
              cases hworth : Fixed.checkedAdd previous paid with
              | none =>
                  refine iff_of_true ⟨_, rfl⟩ fun hfits => ?_
                  obtain ⟨other, also, _, hother, halso, hvalue⟩ := hfits.value
                  rw [hprevious] at hother
                  rw [hpaid] at halso
                  cases hother
                  cases halso
                  rw [hworth] at hvalue
                  cases hvalue
              | some worth =>
                  refine iff_of_false ?_ (not_not.mpr ⟨hsize, previous, paid, worth, hprevious,
                    hpaid, hworth⟩)
                  rintro ⟨reason, hreason⟩
                  cases hreason

/-- Recording a trade changes the ring. -/
theorem SeenTradeIds.insert_ne_self (seen : SeenTradeIds) (id : TradeId) :
    seen.insert id ≠ some seen := by
  intro hself
  have hunseen := contains_eq_false_of_insert hself
  rw [insert, if_neg (by simp [hunseen]), Option.some.injEq] at hself
  have hids : seen.ids.set seen.next id = seen.ids := congrArg SeenTradeIds.ids hself
  have hcount : (if seen.count < 32 then seen.count + 1 else seen.count) = seen.count :=
    congrArg SeenTradeIds.count hself
  -- An unchanged count means a full ring, which then holds the trade.
  have hfull : seen.count = 32 := by
    have hle := seen.count_le
    split at hcount
    · omega
    · omega
  have hmem : id ∈ seen.ids := by
    rw [← hids]
    exact List.mem_set (by rw [seen.length_ids]; exact seen.next_lt) id
  rw [contains, hfull, List.take_of_length_le seen.length_ids.le, List.any_eq_false] at hunseen
  exact hunseen id hmem (by simp)

section Handler

variable {m : OrderManager} {fill : FillEvent} {i : Nat} {order : OrderRecord}
  {seen : SeenTradeIds}

/-- The handler decides on the records and not on its bookkeeping. -/
theorem applyFill_congr {other : OrderManager} (h : other.toOmsState = m.toOmsState) :
    (other.applyFill fill).manager.toOmsState = (m.applyFill fill).manager.toOmsState := by
  rw [applyFill, applyFill, h]
  cases m.findByClientId fill.clientOrderId with
  | none => exact h
  | some found =>
      obtain ⟨i, order⟩ := found
      dsimp only
      split
      · exact h
      split
      · exact h
      cases order.seenTrades.insert fill.tradeId with
      | none => exact h
      | some seen =>
          dsimp only
          cases (order.withTrades seen).bookFill fill with
          | error reason => simp [h]
          | ok booked =>
              dsimp only
              split
              · simp [h]
              · simp [h]

theorem move_quarantinedEvents (m : OrderManager) (index : Nat) (order : OrderRecord)
    (target : OrderState) (event : OrderEventType) (detail : OrderJournalRecord) :
    (m.move index order target event detail).metrics.quarantinedEvents =
      m.metrics.quarantinedEvents := by
  show (m.transition order target event detail).1.metrics.quarantinedEvents = _
  rw [OrderManager.transition]
  split
  · dsimp only
    split <;> rfl
  · rfl

/-- A fill that the handler reaches the booking with is quarantined exactly when the
booking refuses it. -/
theorem quarantines_iff (hfound : m.findByClientId fill.clientOrderId = some (i, order))
    (hlive : order.isTerminal = false) (hquantity : 0 < fill.quantity.raw)
    (hprice : 0 < fill.price.raw) (hinsert : order.seenTrades.insert fill.tradeId = some seen) :
    m.Quarantines fill ↔ ¬ order.Fits fill := by
  have hfits : order.Fits fill ↔ (order.withTrades seen).Fits fill :=
    ⟨fun h => ⟨h.size, h.value⟩, fun h => ⟨h.size, h.value⟩⟩
  rw [hfits, ← bookFill_error_iff hquantity, Quarantines]
  cases hbook : (order.withTrades seen).bookFill fill with
  | error reason =>
      rw [applyFill_unbooked hfound hlive hquantity hprice hinsert hbook]
      exact iff_of_true (Nat.lt_succ_self _) ⟨reason, rfl⟩
  | ok booked =>
      have hpositive : (!fill.quantity.isPositive || !fill.price.isPositive) = false := by
        simp [hquantity, hprice]
      refine iff_of_false ?_ (by simp)
      rw [applyFill]
      simp only [hfound, hlive, hpositive, hinsert, hbook, Bool.false_eq_true, if_false]
      split
      · rw [move_quarantinedEvents]
        exact Nat.lt_irrefl _
      · rw [move_quarantinedEvents]
        exact Nat.lt_irrefl _

end Handler

/-- A fill the handler quarantines leaves no trace exactly when it is for no order or a
terminal one, has no positive quantity and price, carries a trade the order holds, or
fits the order. -/
theorem quarantined_leaves_no_trace_iff (m : OrderManager) (fill : FillEvent) :
    (m.Quarantines fill → m.LeavesNoTrace fill) ↔
      ∀ i order, m.findByClientId fill.clientOrderId = some (i, order) →
        order.isTerminal = false → 0 < fill.quantity.raw → 0 < fill.price.raw →
          order.seenTrades.contains fill.tradeId = false → order.Fits fill := by
  constructor
  · intro htraceless i order hfound hlive hquantity hprice hunseen
    obtain ⟨seen, hinsert⟩ : ∃ seen, order.seenTrades.insert fill.tradeId = some seen := by
      rw [SeenTradeIds.insert, if_neg (by simp [hunseen])]
      exact ⟨_, rfl⟩
    by_contra hfits
    have horders := (htraceless
      ((quarantines_iff hfound hlive hquantity hprice hinsert).mpr hfits)).orders
    have hmisfit : ¬ (order.withTrades seen).Fits fill := fun h => hfits ⟨h.size, h.value⟩
    obtain ⟨reason, hbook⟩ := (bookFill_error_iff hquantity).mpr hmisfit
    rw [applyFill_unbooked hfound hlive hquantity hprice hinsert hbook] at horders
    -- The record is as before only if the ring is.
    have horder := (findByClientId_eq_some_iff.mp hfound).2
    have hkept : m.orders.set i (order.withTrades seen) = m.orders := horders
    have hget : (m.orders.set i (order.withTrades seen))[i]? = some (order.withTrades seen) :=
      List.getElem?_set_self (List.getElem?_eq_some_iff.mp horder).1
    rw [hkept, horder, Option.some.injEq] at hget
    have hring : order.seenTrades = seen := congrArg OrderRecord.seenTrades hget
    rw [hring] at hinsert
    exact seen.insert_ne_self _ hinsert
  · intro hfits hquarantines
    have hstate : (m.applyFill fill).manager.toOmsState = m.toOmsState := by
      cases hfound : m.findByClientId fill.clientOrderId with
      | none => simp [applyFill, hfound]
      | some found =>
          obtain ⟨i, order⟩ := found
          cases hterminal : order.isTerminal with
          | true => simp [applyFill, hfound, hterminal]
          | false =>
              cases hpositive : (!fill.quantity.isPositive || !fill.price.isPositive) with
              | true => simp only [applyFill, hfound, hterminal, hpositive, if_true]; rfl
              | false =>
                  cases hinsert : order.seenTrades.insert fill.tradeId with
                  | none =>
                      simp only [applyFill, hfound, hterminal, hpositive, hinsert]
                      rfl
                  | some seen =>
                      simp only [Bool.or_eq_false_iff, Bool.not_eq_false',
                        Fixed.isPositive_iff] at hpositive
                      exact absurd
                        (hfits i order hfound hterminal hpositive.1 hpositive.2
                          (SeenTradeIds.contains_eq_false_of_insert hinsert))
                        ((quarantines_iff hfound hterminal hpositive.1 hpositive.2 hinsert).mp
                          hquarantines)
    exact ⟨congrArg OmsState.orders hstate,
      fun other _ _ => congrArg OmsState.orders (applyFill_congr hstate)⟩

namespace Sample

/-- An acknowledged order of ten. -/
def acknowledged : World Unit := after [.attachExecution, submitNew 10, ack '1' 'x']

end Sample

/-- A fill of fifteen for an order of ten is quarantined with its trade in the ring: the
corrected fill of four is dropped. -/
theorem overfill_leaves_its_trade :
    Sample.acknowledged.oms.Quarantines (Sample.fillEvent '1' 'a' 15 2) ∧
      ¬ Sample.acknowledged.oms.LeavesNoTrace (Sample.fillEvent '1' 'a' 15 2) ∧
      (step Sample.acceptAll (Sample.fill '1' 'a' 4)
          (step Sample.acceptAll (Sample.fill '1' 'a' 15) Sample.acknowledged)).oms.orders.map
        (fun order => order.cumulativeQuantity.raw) = [0] ∧
      (step Sample.acceptAll (Sample.fill '1' 'a' 4) Sample.acknowledged).oms.orders.map
        (fun order => order.cumulativeQuantity.raw) = [4] := by
  refine ⟨by decide +kernel, fun htraceless => ?_, by decide +kernel, by decide +kernel⟩
  have hcorrected := congrArg (List.map fun order => order.cumulativeQuantity.raw)
    (htraceless.corrected (Sample.fillEvent '1' 'a' 4 2) rfl rfl)
  revert hcorrected
  decide +kernel

end MmEngine.Oms
