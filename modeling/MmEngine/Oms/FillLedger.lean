/-
# The ledger of an order's fills

A fill that reaches an order which can still change, for a trade the order does not
hold, is recorded: its trade enters the ring, and then the booking moves the cumulative
quantity or is refused. Nothing else moves that quantity but a too-late cancel, so over
a run it is the sum of the fills booked; and as long as the ring has lost no trade,
each trade is recorded once.
-/

import MmEngine.Oms.AckOrder

namespace MmEngine.Oms

open MmEngine.Exchange MmEngine.Quote MmEngine.Risk OmsState OrderManager

variable {σ : Type}

/-- The order a fill is recorded on, with its ring once it has been. -/
def OmsState.recordsFill (s : OmsState) (fill : FillEvent) :
    Option (Nat × OrderRecord × SeenTradeIds) :=
  if (validateExecutionEvent (.fill fill)).isError then none
  else
    match s.findByClientId fill.clientOrderId with
    | none => none
    | some (i, order) =>
        if order.isTerminal then none
        else (order.seenTrades.insert fill.tradeId).map fun seen => (i, order, seen)

/-- True of a recorded fill that is booked. -/
def OrderRecord.books (order : OrderRecord) (seen : SeenTradeIds) (fill : FillEvent) : Bool :=
  ((order.withTrades seen).bookFill fill).toBool

/-- A fill recorded on an order, and whether it was booked. -/
structure LedgerEntry where
  fill : FillEvent
  booked : Bool

/-- What an operation enters in the ledger of the order at an index. -/
def OmsState.entry (s : OmsState) (i : Nat) : Op σ → Option LedgerEntry
  | .apply (.fill fill) =>
      match s.recordsFill fill with
      | some (j, order, seen) => if j = i then some ⟨fill, order.books seen fill⟩ else none
      | none => none
  | _ => none

/-- The ledger of the order at an index over a run. -/
def ledger (port : IExchangeExecution σ) (i : Nat) (ops : List (Op σ)) (w : World σ) :
    List LedgerEntry :=
  (Machine.outputs (step port) (fun op w => w.oms.toOmsState.entry i op) ops w).reduceOption

/-- The fills a ledger has recorded, booked or not. -/
def recordedFills (entries : List LedgerEntry) : List FillEvent := entries.map LedgerEntry.fill

/-- The fills a ledger has booked. -/
def appliedFills (entries : List LedgerEntry) : List FillEvent :=
  (entries.filter LedgerEntry.booked).map LedgerEntry.fill

/-- True of a cancel that reaches the order at an index too late. -/
def tooLate (s : OmsState) (i : Nat) : Op σ → Bool
  | .apply (.orderCancel cancel) =>
      decide (cancel.cancelStatus = .tooLate) &&
        (s.findSubject (.orderCancel cancel)).any fun found => found.1 = i
  | _ => false

/-- What a recorded fill leaves of the record. -/
def OrderRecord.afterFill (order : OrderRecord) (seen : SeenTradeIds) (fill : FillEvent)
    (now : Nanos) : OrderRecord :=
  match (order.withTrades seen).bookFill fill with
  | .error _ => order.withTrades seen
  | .ok booked =>
      booked.transition (if booked.remaining.isZero then .filled else .partiallyFilled) now

theorem OmsState.recordsFill_eq_some_iff {s : OmsState} {fill : FillEvent} {i : Nat}
    {order : OrderRecord} {seen : SeenTradeIds} :
    s.recordsFill fill = some (i, order, seen) ↔
      (validateExecutionEvent (.fill fill)).isError = false ∧
        s.findByClientId fill.clientOrderId = some (i, order) ∧ order.isTerminal = false ∧
        order.seenTrades.insert fill.tradeId = some seen := by
  rw [recordsFill]
  by_cases hvalid : (validateExecutionEvent (.fill fill)).isError = true
  · simp [hvalid]
  · rw [if_neg hvalid]
    rw [Bool.not_eq_true] at hvalid
    cases hfound : s.findByClientId fill.clientOrderId with
    | none => simp
    | some found =>
        obtain ⟨j, other⟩ := found
        by_cases hterminal : other.isTerminal = true
        · simp only [hterminal, if_true, reduceCtorEq, false_iff, not_and, hvalid,
            Option.some.injEq, Prod.mk.injEq, and_imp, true_implies]
          rintro rfl rfl hlive
          rw [hterminal] at hlive
          cases hlive
        · simp only [hterminal, Bool.false_eq_true, if_false, Option.map_eq_some_iff,
            Prod.mk.injEq, hvalid, Option.some.injEq, true_and]
          constructor
          · rintro ⟨seen, hinsert, rfl, rfl, rfl⟩
            exact ⟨⟨rfl, rfl⟩, by simpa using hterminal, hinsert⟩
          · rintro ⟨⟨rfl, rfl⟩, -, hinsert⟩
            exact ⟨seen, hinsert, rfl, rfl, rfl⟩

theorem OmsState.entry_eq_some {s : OmsState} {i : Nat} {op : Op σ} {entered : LedgerEntry}
    (h : s.entry i op = some entered) :
    ∃ fill order seen, op = .apply (.fill fill) ∧ s.recordsFill fill = some (i, order, seen) ∧
      entered = ⟨fill, order.books seen fill⟩ := by
  rw [entry.eq_def] at h
  split at h
  · rename_i fill
    split at h
    · rename_i j order seen hrecords
      split at h
      · rename_i hindex
        subst hindex
        exact ⟨fill, order, seen, rfl, hrecords, (Option.some.inj h).symm⟩
      · cases h
    · cases h
  · cases h

/-- A fill that is not recorded changes nothing the order manager decides on. -/
theorem dispatch_fill_of_not_recorded {m : OrderManager} {fill : FillEvent}
    (h : m.toOmsState.recordsFill fill = none) :
    (m.dispatch (.fill fill)).manager.toOmsState = m.toOmsState ∧
      (m.dispatch (.fill fill)).resolved = none := by
  rw [dispatch]
  by_cases hvalid : (validateExecutionEvent (.fill fill)).isError = true
  · rw [if_pos hvalid]
    exact ⟨rfl, rfl⟩
  rw [if_neg hvalid]
  rw [recordsFill, if_neg hvalid] at h
  rw [applyFill]
  cases hfound : m.findByClientId fill.clientOrderId with
  | none => exact ⟨rfl, rfl⟩
  | some found =>
      obtain ⟨i, order⟩ := found
      rw [hfound] at h
      dsimp only at h ⊢
      by_cases hterminal : order.isTerminal = true
      · rw [if_pos hterminal]
        exact ⟨rfl, rfl⟩
      rw [if_neg hterminal] at h ⊢
      rw [Option.map_eq_none_iff] at h
      by_cases hpositive : (!fill.quantity.isPositive || !fill.price.isPositive) = true
      · rw [if_pos hpositive]
        exact ⟨rfl, rfl⟩
      · rw [if_neg hpositive, h]
        exact ⟨rfl, rfl⟩

/-- A recorded fill rewrites its order, and releases only what waited on it. -/
theorem dispatch_fill_of_recorded {m : OrderManager} {fill : FillEvent} {i : Nat}
    {order : OrderRecord} {seen : SeenTradeIds}
    (h : m.toOmsState.recordsFill fill = some (i, order, seen)) :
    (m.dispatch (.fill fill)).manager.toOmsState =
      m.toOmsState.store i (order.afterFill seen fill m.clock) := by
  obtain ⟨hvalid, hfound, hlive, hinsert⟩ := recordsFill_eq_some_iff.mp h
  obtain ⟨hquantity, hprice⟩ := FillEvent.positive_of_validate hvalid
  have hdispatch : m.dispatch (.fill fill) = m.applyFill fill := by simp [dispatch, hvalid]
  rw [hdispatch, OrderRecord.afterFill]
  cases hbook : (order.withTrades seen).bookFill fill with
  | ok booked => exact (applyFill_booked hfound hlive hquantity hprice hinsert hbook).1
  | error reason =>
      rw [applyFill_unbooked hfound hlive hquantity hprice hinsert hbook]
      rfl

theorem OrderRecord.afterFill_seenTrades (order : OrderRecord) (seen : SeenTradeIds)
    (fill : FillEvent) (now : Nanos) : (order.afterFill seen fill now).seenTrades = seen := by
  rw [afterFill]
  cases hbook : (order.withTrades seen).bookFill fill with
  | error reason => rfl
  | ok booked =>
      dsimp only
      rw [transition_seenTrades, (bookFill_eq_ok hbook).2.2]
      rfl

/-- A recorded fill counts in full when it is booked, and not at all otherwise. -/
theorem OrderRecord.afterFill_cumulativeQuantity (order : OrderRecord) (seen : SeenTradeIds)
    (fill : FillEvent) (now : Nanos) :
    (order.afterFill seen fill now).cumulativeQuantity.raw =
      order.cumulativeQuantity.raw + if order.books seen fill then fill.quantity.raw else 0 := by
  rw [afterFill, books]
  cases hbook : (order.withTrades seen).bookFill fill with
  | error reason => simp [withTrades, Except.toBool]
  | ok booked =>
      dsimp only [Except.toBool]
      rw [transition_cumulativeQuantity, (bookFill_eq_ok hbook).1]
      rfl

/-! ## One step -/

/-- Nothing but a recorded fill changes the ring of an order or its average price, and
nothing but that and a too-late cancel changes what has filled. -/
theorem Edited.keeps_fills {s : OmsState} {i : Nat} {order record : OrderRecord} {op : Op σ}
    (h : Edited s i order op record) (hnone : s.entry i op = none) :
    record.seenTrades = order.seenTrades ∧ record.averageFillPrice = order.averageFillPrice ∧
      (tooLate s i op = false → record.cumulativeQuantity = order.cumulativeQuantity) := by
  cases h with
  | request _ _ _ hedit =>
      cases hedit <;>
        simp [OrderRecord.requested, OrderRecord.settled, OrderRecord.amending,
          OrderRecord.replacing, OrderRecord.replaceDropped]
  | @event event edited target answers resolves base hvalid hfound hlive hedit =>
      have hrecorded : ∀ fill seen, event = .fill fill →
          order.seenTrades.insert fill.tradeId = some seen → False := by
        rintro fill seen rfl hinsert
        have hrecords : s.recordsFill fill = some (i, order, seen) :=
          recordsFill_eq_some_iff.mpr ⟨hvalid, hfound, hlive, hinsert⟩
        simp [entry, hrecords] at hnone
      simp only [OrderRecord.transition_seenTrades, OrderRecord.transition_averageFillPrice,
        OrderRecord.transition_cumulativeQuantity]
      cases hedit with
      | ack _ _ hbind =>
          rw [bindExchangeId_record hbind]
          exact ⟨rfl, rfl, fun _ => rfl⟩
      | fillRefused hinsert => exact (hrecorded _ _ rfl hinsert).elim
      | fillComplete _ hinsert => exact (hrecorded _ _ rfl hinsert).elim
      | fillPartial _ hinsert => exact (hrecorded _ _ rfl hinsert).elim
      | cancelTooLate hstatus =>
          refine ⟨rfl, rfl, fun hlate => ?_⟩
          simp [tooLate, hstatus, hfound] at hlate
      | replaceAccepted _ hswap =>
          rw [swapIdentity_record hswap]
          exact ⟨rfl, rfl, fun _ => rfl⟩
      | reject | cancelAccepted | cancelRejected | cancelUnknown | replaceUnknown | replaceRefused
      | failureNotSent | failureUnknown => exact ⟨rfl, rfl, fun _ => rfl⟩
  | timedOut => simp [OrderRecord.settled]
  | omitted => simp
  | resolved =>
      unfold concluded
      split <;> exact ⟨rfl, rfl, fun _ => rfl⟩
  | restarted =>
      unfold recovered
      split <;> exact ⟨rfl, rfl, fun _ => rfl⟩

theorem Born.unfilled {Q : OrderAction → Prop} {now : Nanos} {record : OrderRecord}
    (h : Born Q now record) :
    record.seenTrades = .empty ∧ record.averageFillPrice = .zero ∧
      record.cumulativeQuantity = .zero := by
  obtain ⟨-, -, hrecord⟩ := h
  cases hrecord <;>
    simp [OrderRecord.submitted, OrderRecord.requested, OrderRecord.settled, newOrder]

/-- The record at an index after an operation: new, edited by something that its ledger
does not enter, or rewritten by a recorded fill. -/
theorem step_record_cases (port : IExchangeExecution σ) (op : Op σ) {w : World σ}
    (hnumbered : w.oms.toOmsState.Numbered) {i : Nat} {record : OrderRecord}
    (hrecord : (step port op w).oms.orders[i]? = some record) :
    (w.oms.orders[i]? = none ∧ w.oms.toOmsState.entry i op = none ∧
        Born (fun _ => True) w.oms.clock record) ∨
      (∃ order, w.oms.orders[i]? = some order ∧ w.oms.toOmsState.entry i op = none ∧
        (order = record ∨ Edited w.oms.toOmsState i order op record)) ∨
      ∃ order fill seen, w.oms.orders[i]? = some order ∧ op = .apply (.fill fill) ∧
        w.oms.toOmsState.recordsFill fill = some (i, order, seen) ∧
        w.oms.toOmsState.entry i op = some ⟨fill, order.books seen fill⟩ ∧
        record = order.afterFill seen fill w.oms.clock := by
  cases hentry : w.oms.toOmsState.entry i op with
  | none =>
      have hevolves := step_evolves (Q := fun _ => True) port op w hnumbered
        (fun _ _ _ => trivial) (admits_true op)
      rcases hevolves.cases_entry hrecord with ⟨order, horder, hedited⟩ | ⟨hbeyond, hborn⟩
      · exact .inr (.inl ⟨order, horder, rfl, hedited⟩)
      · exact .inl ⟨List.getElem?_eq_none hbeyond, rfl, hborn⟩
  | some entered =>
      obtain ⟨fill, order, seen, rfl, hrecords, rfl⟩ := entry_eq_some hentry
      obtain ⟨-, hfound, -, -⟩ := recordsFill_eq_some_iff.mp hrecords
      have horder := (findByClientId_eq_some_iff.mp hfound).2
      have hprimary : (primary port (.apply (.fill fill)) w).1.oms.orders[i]? =
          some (order.afterFill seen fill w.oms.clock) := by
        show (w.oms.dispatch (.fill fill)).manager.orders[i]? = _
        rw [dispatch_fill_of_recorded hrecords]
        exact List.getElem?_set_self (List.getElem?_eq_some_iff.mp horder).1
      obtain rfl := Option.some.inj (hrecord.symm.trans (step_getElem port _ w hprimary))
      exact .inr (.inr ⟨order, fill, seen, horder, rfl, hrecords, rfl, rfl⟩)

/-- What an operation makes of the record at an index, by what it enters in its ledger. -/
theorem step_record (port : IExchangeExecution σ) (op : Op σ) {w : World σ}
    (hnumbered : w.oms.toOmsState.Numbered) {i : Nat} {record : OrderRecord}
    (hrecord : (step port op w).oms.orders[i]? = some record) :
    (w.oms.orders[i]? = none ∧ w.oms.toOmsState.entry i op = none ∧
        record.seenTrades = .empty ∧ record.cumulativeQuantity = .zero) ∨
      (∃ order, w.oms.orders[i]? = some order ∧ w.oms.toOmsState.entry i op = none ∧
        record.seenTrades = order.seenTrades ∧
        (tooLate w.oms.toOmsState i op = false →
          record.cumulativeQuantity = order.cumulativeQuantity)) ∨
      ∃ order fill seen, w.oms.orders[i]? = some order ∧
        w.oms.toOmsState.entry i op = some ⟨fill, order.books seen fill⟩ ∧
        order.seenTrades.insert fill.tradeId = some seen ∧ record.seenTrades = seen ∧
        record.cumulativeQuantity.raw = order.cumulativeQuantity.raw +
          if order.books seen fill then fill.quantity.raw else 0 := by
  rcases step_record_cases port op hnumbered hrecord with ⟨hunborn, hentry, hborn⟩ |
    ⟨order, horder, hentry, rfl | hedited⟩ | ⟨order, fill, seen, horder, -, hrecords, hentry, rfl⟩
  · obtain ⟨hseen, -, hcumulative⟩ := hborn.unfilled
    exact .inl ⟨hunborn, hentry, hseen, hcumulative⟩
  · exact .inr (.inl ⟨order, horder, hentry, rfl, fun _ => rfl⟩)
  · obtain ⟨hseen, -, hcumulative⟩ := hedited.keeps_fills hentry
    exact .inr (.inl ⟨order, horder, hentry, hseen, hcumulative⟩)
  · obtain ⟨-, -, -, hinsert⟩ := recordsFill_eq_some_iff.mp hrecords
    exact .inr (.inr ⟨order, fill, seen, horder, hentry, hinsert,
      order.afterFill_seenTrades seen fill _,
      order.afterFill_cumulativeQuantity seen fill _⟩)

/-- The ring of the order at an index, as long as it has lost no trade, holds the trades
recorded, each of them once. -/
structure RingHolds (i : Nat) (entries : List LedgerEntry) (s : OmsState) : Prop where
  holds : ∀ record, s.orders[i]? = some record → record.seenTrades.overflowed = false →
    record.seenTrades.Holds ((recordedFills entries).map FillEvent.tradeId) ∧
      ((recordedFills entries).map FillEvent.tradeId).Nodup
  unborn : s.orders[i]? = none → entries = []

/-- What the order at an index has filled is what its ledger has booked. -/
structure SumHolds (i : Nat) (entries : List LedgerEntry) (s : OmsState) : Prop where
  sum : ∀ record, s.orders[i]? = some record →
    record.cumulativeQuantity.raw = quantityOf (appliedFills entries)
  unborn : s.orders[i]? = none → entries = []

/-- A trade that is recorded without losing one is recorded for the first time. -/
theorem SeenTradeIds.Holds.record {seen after : SeenTradeIds} {ids : List TradeId} {id : TradeId}
    (h : seen.overflowed = false → seen.Holds ids ∧ ids.Nodup)
    (hinsert : seen.insert id = some after) (hkept : after.overflowed = false) :
    after.Holds (ids ++ [id]) ∧ (ids ++ [id]).Nodup := by
  have hunseen := SeenTradeIds.contains_eq_false_of_insert hinsert
  obtain ⟨hold, hroom⟩ : seen.overflowed = false ∧ seen.count < 32 := by
    rw [SeenTradeIds.insert, if_neg (by simp [hunseen])] at hinsert
    cases hinsert
    obtain ⟨hold, hroom⟩ := Bool.or_eq_false_iff.mp hkept
    rw [Bool.not_eq_false'] at hroom
    exact ⟨hold, of_decide_eq_true hroom⟩
  obtain ⟨hholds, hnodup⟩ := h hold
  have hnew : id ∉ ids := by
    rw [SeenTradeIds.contains, hholds.count, hholds.ids_eq, List.any_eq_false] at hunseen
    exact fun hmem => hunseen id hmem (by simp)
  obtain ⟨other, hother, hlater⟩ := hholds.insert (hholds.count ▸ hroom) hnew
  obtain rfl := Option.some.inj (hother.symm.trans hinsert)
  refine ⟨hlater, ?_⟩
  exact List.nodup_append_comm.mp (List.nodup_cons.mpr ⟨hnew, hnodup⟩)

/-- An index that a step leaves without a record had none, and enters nothing. -/
theorem unborn_of_step (port : IExchangeExecution σ) (op : Op σ) {w : World σ}
    (hnumbered : w.oms.toOmsState.Numbered) {i : Nat}
    (hnone : (step port op w).oms.orders[i]? = none) :
    w.oms.orders[i]? = none ∧ w.oms.toOmsState.entry i op = none := by
  have hevolves := step_evolves (Q := fun _ => True) port op w hnumbered (fun _ _ _ => trivial)
    (admits_true op)
  have hbefore : w.oms.orders[i]? = none := by
    rw [List.getElem?_eq_none_iff] at hnone ⊢
    exact hevolves.length_le.trans hnone
  refine ⟨hbefore, ?_⟩
  cases hentry : w.oms.toOmsState.entry i op with
  | none => rfl
  | some entered =>
      obtain ⟨fill, order, seen, -, hrecords, -⟩ := entry_eq_some hentry
      have hfound := (recordsFill_eq_some_iff.mp hrecords).2.1
      rw [(findByClientId_eq_some_iff.mp hfound).2] at hbefore
      cases hbefore

theorem RingHolds.step (port : IExchangeExecution σ) (op : Op σ) {w : World σ}
    (hnumbered : w.oms.toOmsState.Numbered) {i : Nat} {entries : List LedgerEntry}
    (h : RingHolds i entries w.oms.toOmsState) :
    RingHolds i (entries ++ (w.oms.toOmsState.entry i op).toList)
      (step port op w).oms.toOmsState := by
  refine ⟨fun record hrecord hkept => ?_, fun hnone => ?_⟩
  · rcases step_record port op hnumbered hrecord with ⟨hunborn, hentry, hseen, -⟩ |
      ⟨order, horder, hentry, hseen, -⟩ | ⟨order, fill, seen, horder, hentry, hinsert, hseen, -⟩
    · rw [hentry, hseen, h.unborn hunborn]
      exact ⟨SeenTradeIds.holds_empty, List.nodup_nil⟩
    · rw [hseen] at hkept ⊢
      rw [hentry, Option.toList_none, List.append_nil]
      exact h.holds order horder hkept
    · rw [hseen] at hkept ⊢
      rw [hentry, Option.toList_some, recordedFills, List.map_append, List.map_append]
      exact SeenTradeIds.Holds.record (h.holds order horder) hinsert hkept
  · obtain ⟨hbefore, hentry⟩ := unborn_of_step port op hnumbered hnone
    rw [hentry, h.unborn hbefore]
    rfl

theorem SumHolds.step (port : IExchangeExecution σ) (op : Op σ) {w : World σ}
    (hnumbered : w.oms.toOmsState.Numbered) {i : Nat} {entries : List LedgerEntry}
    (h : SumHolds i entries w.oms.toOmsState) (htimely : tooLate w.oms.toOmsState i op = false) :
    SumHolds i (entries ++ (w.oms.toOmsState.entry i op).toList)
      (step port op w).oms.toOmsState := by
  refine ⟨fun record hrecord => ?_, fun hnone => ?_⟩
  · rcases step_record port op hnumbered hrecord with ⟨hunborn, hentry, -, hfilled⟩ |
      ⟨order, horder, hentry, -, hfilled⟩ | ⟨order, fill, seen, horder, hentry, -, -, hfilled⟩
    · rw [hentry, hfilled, h.unborn hunborn]
      rfl
    · rw [hfilled htimely, hentry, Option.toList_none, List.append_nil]
      exact h.sum order horder
    · rw [hfilled, h.sum order horder, hentry, Option.toList_some, appliedFills, appliedFills,
        List.filter_append, List.map_append, quantityOf, quantityOf, List.map_append,
        List.sum_append]
      cases order.books seen fill with
      | true => simp
      | false => simp
  · obtain ⟨hbefore, hentry⟩ := unborn_of_step port op hnumbered hnone
    rw [hentry, h.unborn hbefore]
    rfl

theorem ringHolds_init (config : OmsConfig) (clock : Nanos) (i : Nat) :
    RingHolds i [] (OrderManager.init config clock).toOmsState where
  holds record hrecord := by cases hrecord
  unborn _ := rfl

theorem sumHolds_init (config : OmsConfig) (clock : Nanos) (i : Nat) :
    SumHolds i [] (OrderManager.init config clock).toOmsState where
  sum record hrecord := by cases hrecord
  unborn _ := rfl

theorem ledger_cons (port : IExchangeExecution σ) (i : Nat) (op : Op σ) (ops : List (Op σ))
    (w : World σ) :
    ledger port i (op :: ops) w =
      (w.oms.toOmsState.entry i op).toList ++ ledger port i ops (step port op w) := by
  rw [ledger, Machine.outputs]
  cases w.oms.toOmsState.entry i op with
  | none => rfl
  | some entered => rfl

/-- What every step keeps of the ledger and the state it leads to, a run keeps. -/
theorem ledger_run (port : IExchangeExecution σ) {i : Nat}
    {P : List LedgerEntry → OmsState → Prop} {C : Op σ → World σ → Prop}
    (hstep : ∀ (op : Op σ) (w : World σ) (entries : List LedgerEntry),
      w.oms.toOmsState.Numbered → C op w → P entries w.oms.toOmsState →
        P (entries ++ (w.oms.toOmsState.entry i op).toList) (step port op w).oms.toOmsState)
    (ops : List (Op σ)) {w : World σ} (hnumbered : w.oms.toOmsState.Numbered)
    {entries : List LedgerEntry} (halong : Machine.Along (step port) C ops w)
    (h : P entries w.oms.toOmsState) :
    P (entries ++ ledger port i ops w) (Machine.run (step port) ops w).oms.toOmsState := by
  induction ops generalizing w entries with
  | nil =>
      rw [show ledger port i [] w = [] from rfl, List.append_nil]
      exact h
  | cons op ops ih =>
      rw [ledger_cons, ← List.append_assoc]
      exact ih (step_numbered port op w hnumbered) halong.2
        (hstep op w entries hnumbered halong.1 h)

theorem RingHolds.run (port : IExchangeExecution σ) (ops : List (Op σ)) {w : World σ}
    (hnumbered : w.oms.toOmsState.Numbered) {i : Nat} {entries : List LedgerEntry}
    (h : RingHolds i entries w.oms.toOmsState) :
    RingHolds i (entries ++ ledger port i ops w)
      (Machine.run (MmEngine.Oms.step port) ops w).oms.toOmsState :=
  ledger_run port (fun op _ _ hnumbered _ h => h.step port op hnumbered) ops hnumbered
    (Machine.along_label_iff.mpr fun _ _ => trivial) h

theorem SumHolds.run (port : IExchangeExecution σ) (ops : List (Op σ)) {w : World σ}
    (hnumbered : w.oms.toOmsState.Numbered) {i : Nat} {entries : List LedgerEntry}
    (h : SumHolds i entries w.oms.toOmsState)
    (htimely : Machine.Along (MmEngine.Oms.step port)
      (fun op w => tooLate w.oms.toOmsState i op = false) ops w) :
    SumHolds i (entries ++ ledger port i ops w)
      (Machine.run (MmEngine.Oms.step port) ops w).oms.toOmsState :=
  ledger_run port (fun op _ _ hnumbered htimely h => h.step port op hnumbered htimely) ops
    hnumbered htimely h

/-- A trade the order's ring holds is not recorded again. -/
theorem OmsState.recordsFill_eq_none_of_contains {s : OmsState} {fill : FillEvent} {i : Nat}
    {order : OrderRecord} (hfound : s.findByClientId fill.clientOrderId = some (i, order))
    (hseen : order.seenTrades.contains fill.tradeId = true) : s.recordsFill fill = none := by
  rw [Option.eq_none_iff_forall_ne_some]
  rintro ⟨j, other, seen⟩ hrecords
  obtain ⟨-, hother, -, hinsert⟩ := recordsFill_eq_some_iff.mp hrecords
  rw [hfound] at hother
  cases hother
  rw [SeenTradeIds.contains_eq_false_of_insert hinsert] at hseen
  cases hseen

theorem SeenTradeIds.Holds.contains {seen : SeenTradeIds} {ids : List TradeId} (h : seen.Holds ids)
    {id : TradeId} (hmem : id ∈ ids) : seen.contains id = true := by
  rw [SeenTradeIds.contains, h.count, h.ids_eq, List.any_eq_true]
  exact ⟨id, hmem, by simp⟩

theorem appliedFills_sublist (entries : List LedgerEntry) :
    (appliedFills entries).Sublist (recordedFills entries) :=
  (List.filter_sublist (l := entries)).map LedgerEntry.fill

/-- In every run, what an order that has lost no trade and had no too-late cancel has
filled is the sum of the fills booked to it, each trade counted once. A fill whose trade
the order holds, as it does every trade recorded for it unless some were lost, changes no
record. -/
theorem fills_conserved (port : IExchangeExecution σ) (config : OmsConfig) (clock : Nanos)
    (venue : σ) (ops : List (Op σ)) {i : Nat} {record : OrderRecord}
    (hrecord : (Machine.run (MmEngine.Oms.step port) ops
      (World.init config clock venue)).oms.orders[i]? = some record) :
    (record.seenTrades.overflowed = false →
        Machine.Along (MmEngine.Oms.step port) (fun op w => tooLate w.oms.toOmsState i op = false)
          ops (World.init config clock venue) →
      record.cumulativeQuantity.raw =
          quantityOf (appliedFills (ledger port i ops (World.init config clock venue))) ∧
        ((appliedFills (ledger port i ops (World.init config clock venue))).map
          FillEvent.tradeId).Nodup) ∧
    ∀ fill : FillEvent,
      (Machine.run (MmEngine.Oms.step port) ops
          (World.init config clock venue)).oms.findByClientId fill.clientOrderId =
        some (i, record) →
      (record.seenTrades.contains fill.tradeId = true ∨
        record.seenTrades.overflowed = false ∧
          fill.tradeId ∈ (recordedFills
            (ledger port i ops (World.init config clock venue))).map FillEvent.tradeId) →
      (MmEngine.Oms.step port (.apply (.fill fill)) (Machine.run (MmEngine.Oms.step port) ops
          (World.init config clock venue))).oms.orders =
        (Machine.run (MmEngine.Oms.step port) ops (World.init config clock venue)).oms.orders := by
  have hnumbered := numbered_init config clock
  have hring := (ringHolds_init config clock i).run port ops
    (w := World.init config clock venue) hnumbered
  refine ⟨fun hkept htimely => ?_, fun fill hfound hrecorded => ?_⟩
  · have hsum := (sumHolds_init config clock i).run port ops
      (w := World.init config clock venue) hnumbered htimely
    have hsublist := (appliedFills_sublist
      (ledger port i ops (World.init config clock venue))).map FillEvent.tradeId
    exact ⟨hsum.sum record hrecord, hsublist.nodup (hring.holds record hrecord hkept).2⟩
  · have hseen : record.seenTrades.contains fill.tradeId = true := by
      rcases hrecorded with hcontains | ⟨hkept, hmem⟩
      · exact hcontains
      · exact (hring.holds record hrecord hkept).1.contains hmem
    obtain ⟨hstate, hresolved⟩ :=
      dispatch_fill_of_not_recorded (recordsFill_eq_none_of_contains hfound hseen)
    simp only [MmEngine.Oms.step, primary, hresolved, World.release, World.adopt, hstate]

namespace Sample

/-- An order of ten, acknowledged between two deliveries of one fill of four. -/
def redelivered : List (Op Unit) :=
  [.attachExecution, submitNew 10, fill '1' 'a' 4, ack '1' 'x', fill '1' 'a' 4]

theorem redelivered_orders : 0 < (after redelivered).oms.orders.length := by decide +kernel

end Sample

theorem fills_conserved_sample :
    ((Sample.after Sample.redelivered).oms.orders.get
        ⟨0, Sample.redelivered_orders⟩).cumulativeQuantity.raw =
      quantityOf (appliedFills
        (ledger Sample.acceptAll 0 Sample.redelivered (World.init {} 1 ()))) ∧
    (MmEngine.Oms.step Sample.acceptAll (Sample.fill '1' 'a' 4)
        (Sample.after Sample.redelivered)).oms.orders =
      (Sample.after Sample.redelivered).oms.orders := by
  have hconserved := fills_conserved Sample.acceptAll {} 1 () Sample.redelivered
    (List.getElem?_eq_getElem Sample.redelivered_orders)
  refine ⟨(hconserved.1 (by decide +kernel) (by decide +kernel)).1, ?_⟩
  refine hconserved.2 (Sample.fillEvent '1' 'a' 4 2) ?_ (.inl (by decide +kernel))
  exact findByClientId_eq_some_iff.mpr
    ⟨by decide +kernel, List.getElem?_eq_getElem Sample.redelivered_orders⟩

end MmEngine.Oms
