/-
# The average price of an order's fills

The average is worked out anew at every fill from the value the last one stands for,
which has been rounded twice by then. Over a run, the errors add up to less than two
units of notional for each fill and one price unit for each unit that had filled after
it; the average is never above the highest price paid, and fits the 64 bits it is
narrowed to.
-/

import MmEngine.Lib.RunningMean
import MmEngine.Oms.FillLedger

namespace MmEngine.Oms

open MmEngine.Exchange MmEngine.Quote MmEngine.Risk OmsState OrderManager

variable {σ : Type}

/-- The price and quantity of each fill. -/
def lotsOf (fills : List FillEvent) : List (Int × Int) :=
  fills.map fun fill => (fill.price.raw, fill.quantity.raw)

/-- What an order has filled after each of its fills. -/
def cumulativesOf (fills : List FillEvent) : List Int := RunningMean.weights 0 (lotsOf fills)

/-- How far the average price of an order is from what its fills were worth. -/
structure AverageWithin (fills : List FillEvent) (record : OrderRecord) : Prop where
  cumulative : record.cumulativeQuantity.raw = quantityOf fills
  atMost : ∃ fill ∈ fills, record.averageFillPrice.raw ≤ fill.price.raw
  below : record.cumulativeQuantity.raw * record.averageFillPrice.raw ≤ valueOf fills
  error : valueOf fills - record.cumulativeQuantity.raw * record.averageFillPrice.raw <
    2 * 10 ^ 8 * fills.length + (cumulativesOf fills).sum

/-- A fill that the operation books leaves the quotient it works out, and not what is
left of it in 64 bits. -/
def ExactAverage (i : Nat) (op : Op σ) (w : World σ) : Prop :=
  ∀ (fill : FillEvent) (order booked : OrderRecord) (seen : SeenTradeIds),
    op = .apply (.fill fill) → w.oms.toOmsState.recordsFill fill = some (i, order, seen) →
    (order.withTrades seen).bookFill fill = .ok booked →
    booked.averageFillPrice.raw =
      (order.averageFillPrice.raw * order.cumulativeQuantity.raw / Fixed.kScale +
        fill.price.raw * fill.quantity.raw / Fixed.kScale) * Fixed.kScale /
      (order.cumulativeQuantity.raw + fill.quantity.raw)

theorem kScale_pos : 0 < Fixed.kScale := by decide

/-- A booking computes the next running mean. -/
theorem OrderRecord.bookFill_average {order booked : OrderRecord} {fill : FillEvent}
    (h : order.bookFill fill = .ok booked) (haverage : 0 ≤ order.averageFillPrice.raw)
    (hfilled : 0 ≤ order.cumulativeQuantity.raw) (hprice : 0 < fill.price.raw)
    (hquantity : 0 < fill.quantity.raw) :
    booked.averageFillPrice.raw =
      RunningMean.next Fixed.kScale order.averageFillPrice.raw order.cumulativeQuantity.raw
        fill.price.raw fill.quantity.raw := by
  rw [bookFill] at h
  split at h
  · cases h
  rename_i newCumulative hsum
  split at h
  · cases h
  split at h
  swap
  · cases h
  rename_i previousValue fillValue hprevious hfill
  split at h
  · cases h
  rename_i totalValue htotal
  cases h
  have hcumulative := Fixed.checkedAdd_eq_some_iff.mp hsum
  have hpositive : newCumulative.isPositive = true := by
    rw [Fixed.isPositive_iff]
    omega
  have hprevious := Fixed.fromRaw?_eq_some_iff.mp hprevious
  have hfill := Fixed.fromRaw?_eq_some_iff.mp hfill
  have htotal := Fixed.checkedAdd_eq_some_iff.mp htotal
  rw [Int.tdiv_eq_ediv_of_nonneg (mul_nonneg haverage hfilled)] at hprevious
  rw [Int.tdiv_eq_ediv_of_nonneg (mul_nonneg hprice.le hquantity.le)] at hfill
  have hnonneg := RunningMean.next_nonneg kScale_pos haverage hfilled hprice.le hquantity.le
  have hmax : RunningMean.next Fixed.kScale order.averageFillPrice.raw
      order.cumulativeQuantity.raw fill.price.raw fill.quantity.raw ≤ rawMax := by
    apply RunningMean.next_le kScale_pos hfilled hquantity _ fill.price.raw_le
    exact mul_le_mul_of_nonneg_right order.averageFillPrice.raw_le hfilled
  have hvalue : 0 ≤ totalValue.raw * Fixed.kScale := by
    apply mul_nonneg _ kScale_pos.le
    rw [htotal, hprevious, hfill]
    exact add_nonneg (Int.ediv_nonneg (mul_nonneg haverage hfilled) kScale_pos.le)
      (Int.ediv_nonneg (mul_nonneg hprice.le hquantity.le) kScale_pos.le)
  have hquotient : (totalValue.raw * Fixed.kScale).tdiv newCumulative.raw =
      RunningMean.next Fixed.kScale order.averageFillPrice.raw order.cumulativeQuantity.raw
        fill.price.raw fill.quantity.raw := by
    rw [Int.tdiv_eq_ediv_of_nonneg hvalue, htotal, hprevious, hfill, hcumulative]
    rfl
  dsimp only
  rw [if_pos hpositive, hquotient]
  exact Fixed.narrow_raw_of_inRange ((show rawMin ≤ 0 by decide).trans hnonneg) hmax

theorem weight_lotsOf (fills : List FillEvent) :
    RunningMean.weight (lotsOf fills) = quantityOf fills := by
  rw [RunningMean.weight, lotsOf, List.map_map]
  rfl

theorem value_lotsOf (fills : List FillEvent) :
    RunningMean.value (lotsOf fills) = valueOf fills := by
  rw [RunningMean.value, lotsOf, List.map_map]
  rfl

/-- A recorded fill moves the average when it is booked, and leaves it otherwise. -/
theorem OrderRecord.afterFill_average (order : OrderRecord) (seen : SeenTradeIds)
    (fill : FillEvent) (now : Nanos) (haverage : 0 ≤ order.averageFillPrice.raw)
    (hfilled : 0 ≤ order.cumulativeQuantity.raw) (hprice : 0 < fill.price.raw)
    (hquantity : 0 < fill.quantity.raw) :
    (order.afterFill seen fill now).averageFillPrice.raw =
      if order.books seen fill then
        RunningMean.next Fixed.kScale order.averageFillPrice.raw order.cumulativeQuantity.raw
          fill.price.raw fill.quantity.raw
      else order.averageFillPrice.raw := by
  rw [afterFill]
  cases hbook : (order.withTrades seen).bookFill fill with
  | error reason =>
      have hnot : order.books seen fill = false := by
        rw [books, hbook]
        rfl
      rw [hnot]
      rfl
  | ok booked =>
      have hbooks : order.books seen fill = true := by
        rw [books, hbook]
        rfl
      have hnext := bookFill_average hbook haverage hfilled hprice hquantity
      dsimp only
      rw [transition_averageFillPrice, if_pos hbooks]
      exact hnext

/-- The order at an index has filled what its ledger has booked, and its average is the
running mean of that. -/
structure MeanHolds (i : Nat) (entries : List LedgerEntry) (s : OmsState) : Prop where
  sum : SumHolds i entries s
  mean : ∀ record, s.orders[i]? = some record →
    RunningMean.Keeps Fixed.kScale (lotsOf (appliedFills entries)) record.averageFillPrice.raw

theorem appliedFills_concat (entries : List LedgerEntry) (fill : FillEvent) (booked : Bool) :
    appliedFills (entries ++ [⟨fill, booked⟩]) =
      if booked then appliedFills entries ++ [fill] else appliedFills entries := by
  rw [appliedFills, List.filter_append, List.map_append]
  cases booked with
  | true => rfl
  | false => exact List.append_nil _

section Step

variable (port : IExchangeExecution σ) (op : Op σ) {w : World σ} {i : Nat}
  {entries : List LedgerEntry}

theorem MeanHolds.filled_nonneg (h : MeanHolds i entries w.oms.toOmsState) {order : OrderRecord}
    (horder : w.oms.orders[i]? = some order) : 0 ≤ order.cumulativeQuantity.raw := by
  rw [h.sum.sum order horder, ← weight_lotsOf]
  exact (h.mean order horder).weight_nonneg

theorem MeanHolds.exactAverage (h : MeanHolds i entries w.oms.toOmsState) :
    ExactAverage i op w := by
  rintro fill order booked seen rfl hrecords hbook
  obtain ⟨hvalid, hfound, -, -⟩ := recordsFill_eq_some_iff.mp hrecords
  obtain ⟨hquantity, hprice⟩ := FillEvent.positive_of_validate hvalid
  have horder := (findByClientId_eq_some_iff.mp hfound).2
  have hfilled := h.filled_nonneg horder
  have hnext := OrderRecord.bookFill_average hbook (h.mean order horder).nonneg hfilled hprice
    hquantity
  exact hnext

theorem MeanHolds.step (hnumbered : w.oms.toOmsState.Numbered)
    (h : MeanHolds i entries w.oms.toOmsState) (htimely : tooLate w.oms.toOmsState i op = false) :
    MeanHolds i (entries ++ (w.oms.toOmsState.entry i op).toList)
      (MmEngine.Oms.step port op w).oms.toOmsState := by
  refine ⟨h.sum.step port op hnumbered htimely, fun record hrecord => ?_⟩
  rcases step_record_cases port op hnumbered hrecord with ⟨hunborn, hentry, hborn⟩ |
    ⟨order, horder, hentry, hedited⟩ | ⟨order, fill, seen, horder, -, hrecords, hentry, rfl⟩
  · rw [hentry, h.sum.unborn hunborn, hborn.unfilled.2.1]
    exact RunningMean.keeps_nil
  · have haverage : record.averageFillPrice = order.averageFillPrice := by
      rcases hedited with rfl | hedited
      · rfl
      · exact (hedited.keeps_fills hentry).2.1
    rw [hentry, Option.toList_none, List.append_nil, haverage]
    exact h.mean order horder
  · obtain ⟨hvalid, -, -, -⟩ := recordsFill_eq_some_iff.mp hrecords
    obtain ⟨hquantity, hprice⟩ := FillEvent.positive_of_validate hvalid
    have hmean := h.mean order horder
    rw [hentry, Option.toList_some, appliedFills_concat,
      order.afterFill_average seen fill _ hmean.nonneg (h.filled_nonneg horder) hprice hquantity]
    cases order.books seen fill with
    | false => exact hmean
    | true =>
        have hnext := hmean.concat kScale_pos hprice hquantity
        rw [weight_lotsOf, ← h.sum.sum order horder] at hnext
        rw [if_pos rfl, if_pos rfl, lotsOf, List.map_append]
        exact hnext

end Step

/-- As long as no cancel of the order is answered too late, every booking along a run is
exact and its average is the running mean of what it has booked. -/
theorem MeanHolds.run (port : IExchangeExecution σ) (ops : List (Op σ)) {w : World σ}
    (hnumbered : w.oms.toOmsState.Numbered) {i : Nat} {entries : List LedgerEntry}
    (h : MeanHolds i entries w.oms.toOmsState)
    (htimely : Machine.Along (MmEngine.Oms.step port)
      (fun op w => tooLate w.oms.toOmsState i op = false) ops w) :
    MeanHolds i (entries ++ ledger port i ops w)
        (Machine.run (MmEngine.Oms.step port) ops w).oms.toOmsState ∧
      Machine.Along (MmEngine.Oms.step port) (ExactAverage i) ops w := by
  induction ops generalizing w entries with
  | nil =>
      rw [show ledger port i [] w = [] from rfl, List.append_nil]
      exact ⟨h, trivial⟩
  | cons op ops ih =>
      rw [ledger_cons, ← List.append_assoc]
      obtain ⟨hlater, halong⟩ :=
        ih (step_numbered port op w hnumbered) (h.step port op hnumbered htimely.1) htimely.2
      exact ⟨hlater, h.exactAverage op, halong⟩

theorem meanHolds_init (config : OmsConfig) (clock : Nanos) (i : Nat) :
    MeanHolds i [] (OrderManager.init config clock).toOmsState where
  sum := sumHolds_init config clock i
  mean record hrecord := by cases hrecord

/-- In every run, the average price of an order whose cancels were not answered too late
is within the rounding of its fills: at most the highest price, at most their worth, and
short of it by less than two units of notional for each fill and one price unit for each
unit filled after it. No booking on the way loses anything to the narrowing. -/
theorem average_fill_price_within (port : IExchangeExecution σ) (config : OmsConfig)
    (clock : Nanos) (venue : σ) (ops : List (Op σ)) {i : Nat} {record : OrderRecord}
    (hrecord : (World.reached port config clock venue ops).oms.orders[i]? = some record)
    (htimely : Machine.Along (step port) (fun op w => tooLate w.oms.toOmsState i op = false) ops
      (World.init config clock venue)) :
    (appliedFills (ledger port i ops (World.init config clock venue)) ≠ [] →
      AverageWithin (appliedFills (ledger port i ops (World.init config clock venue))) record) ∧
    Machine.Along (step port) (ExactAverage i) ops (World.init config clock venue) := by
  have hnumbered := numbered_init config clock
  obtain ⟨hmean, hexact⟩ := (meanHolds_init config clock i).run port ops
    (w := World.init config clock venue) hnumbered htimely
  refine ⟨fun hsome => ?_, hexact⟩
  rw [List.nil_append] at hmean
  have hsum := hmean.sum.sum record hrecord
  have hkeeps := hmean.mean record hrecord
  have hlots : lotsOf (appliedFills (ledger port i ops (World.init config clock venue))) ≠ [] := by
    rw [lotsOf, ne_eq, List.map_eq_nil_iff]
    exact hsome
  constructor
  · exact hsum
  · obtain ⟨lot, hlot, hle⟩ := hkeeps.atMost hlots
    obtain ⟨fill, hfill, rfl⟩ := List.mem_map.mp hlot
    exact ⟨fill, hfill, hle⟩
  · rw [hsum, ← weight_lotsOf, ← value_lotsOf]
    exact hkeeps.below
  · have herror := hkeeps.error
    have hlength : 0 < (appliedFills (ledger port i ops (World.init config clock venue))).length :=
      List.length_pos_of_ne_nil hsome
    rw [hsum, ← weight_lotsOf, ← value_lotsOf, cumulativesOf]
    rw [show (lotsOf (appliedFills (ledger port i ops (World.init config clock venue)))).length =
      (appliedFills (ledger port i ops (World.init config clock venue))).length from
        List.length_map _] at herror
    simp only [Fixed.kScale] at herror
    omega

namespace Sample

/-- An order of ten that fills four and then six. -/
def filledTwice : List (Op Unit) :=
  [.attachExecution, submitNew 10, ack '1' 'x', fill '1' 'a' 4, fill '1' 'b' 6]

theorem filledTwice_orders : 0 < (after filledTwice).oms.orders.length := by decide +kernel

end Sample

theorem average_fill_price_within_filledTwice :
    AverageWithin
      (appliedFills (ledger Sample.acceptAll 0 Sample.filledTwice (World.init {} 1 ())))
      ((Sample.after Sample.filledTwice).oms.orders.get ⟨0, Sample.filledTwice_orders⟩) :=
  (average_fill_price_within Sample.acceptAll {} 1 () Sample.filledTwice
    (List.getElem?_eq_getElem Sample.filledTwice_orders) (by decide +kernel)).1
    (by decide +kernel)

end MmEngine.Oms
