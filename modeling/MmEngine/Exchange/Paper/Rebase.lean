/-
# The venue on a clock of another origin

The same venue, read on a steady clock that started later, and with the stamps of the
wall clock left out. Every call does on the one what it does on the other, up to the
reading: the venue compares times with each other and with nothing else. There are two
exceptions. The arrival of the request being processed is compared with zero, which means
that there is none; and a time that outgrows 64 bits on one clock only wraps on that one.
-/

import MmEngine.Exchange.Paper.Waiting

namespace MmEngine.Exchange

/-- The event without the stamp of the wall clock. -/
def ExecutionEvent.unstamped : ExecutionEvent → ExecutionEvent
  | .orderAck ack => .orderAck { ack with transactNs := 0 }
  | .orderReject reject => .orderReject { reject with transactNs := 0 }
  | .orderCancel cancel => .orderCancel { cancel with transactNs := 0 }
  | .orderReplace replace => .orderReplace { replace with transactNs := 0 }
  | .fill execution => .fill { execution with transactNs := 0 }
  | event => event

end MmEngine.Exchange

namespace MmEngine.Exchange.Paper

/-- The order without the stamps of the steady clock. -/
def PaperOrder.unstamped (order : PaperOrder) : PaperOrder :=
  { order with acceptedNs := 0, lastEventNs := 0 }

/-- The order on a clock that started later. -/
def PaperOrder.rebase (origin : Nanos) (order : PaperOrder) : PaperOrder :=
  { order with
    acceptedNs := order.acceptedNs - origin
    lastEventNs := order.lastEventNs - origin }

def PendingRequest.rebase (origin : Nanos) (pending : PendingRequest) : PendingRequest :=
  { pending with dueNs := pending.dueNs - origin }

def Scheduled.rebase (origin : Nanos) (scheduled : Scheduled) : Scheduled :=
  { scheduled with
    dueNs := scheduled.dueNs - origin
    event := scheduled.event.unstamped }

theorem applyMatch_rebase (origin : Nanos) (order : PaperOrder) (result : MatchResult)
    (atNs : Nanos) :
    (order.applyMatch result atNs).rebase origin =
      (order.rebase origin).applyMatch result (atNs - origin) := by
  have hsame : (order.rebase origin).cumulativeQty = order.cumulativeQty ∧
      (order.rebase origin).originalQty = order.originalQty := ⟨rfl, rfl⟩
  unfold PaperOrder.applyMatch
  rw [hsame.1, hsame.2]
  cases Fixed.checkedAdd order.cumulativeQty result.quantity with
  | none => rfl
  | some next =>
      dsimp only
      split
      · rfl
      · rfl

theorem takeLevels_unstamped (order : PaperOrder) (remaining : Qty) (bps : Nat)
    (levels : List PriceLevel) (taken : Taken) :
    takeLevels order.unstamped remaining bps levels taken =
      takeLevels order remaining bps levels taken := by
  have hreaches : ∀ price, order.unstamped.reaches price = order.reaches price := fun _ => rfl
  induction levels generalizing taken with
  | nil => rfl
  | cons level levels ih => simp only [takeLevels, hreaches, ih]

/-- Matching does not look at the stamps. -/
theorem matchAndConsume_unstamped (order : PaperOrder) (levels : List PriceLevel)
    (model : FillModel) (bps : Nat) :
    matchAndConsume order.unstamped levels model bps = matchAndConsume order levels model bps := by
  have hresting : order.unstamped.isResting = order.isResting := rfl
  have hremaining : order.unstamped.remaining = order.remaining := rfl
  have hreaches : ∀ price, order.unstamped.reaches price = order.reaches price := fun _ => rfl
  have hprice : order.unstamped.price = order.price := rfl
  simp only [matchAndConsume, hresting, hremaining, hreaches, hprice, takeLevels_unstamped]

theorem matchAndConsume_rebase (origin : Nanos) (order : PaperOrder) (levels : List PriceLevel)
    (model : FillModel) (bps : Nat) :
    matchAndConsume (order.rebase origin) levels model bps =
      matchAndConsume order levels model bps :=
  (matchAndConsume_unstamped (order.rebase origin) levels model bps).symm.trans
    (matchAndConsume_unstamped order levels model bps)

/-- What 64 bits keep of a sum of times shifts with the clock. -/
def Shifts (origin : Nanos) (sum : Int) : Prop := wrapNs sum - origin = wrapNs (sum - origin)

theorem shifts_zero (sum : Int) : Shifts 0 sum := by rw [Shifts, sub_zero, sub_zero]

/-- It does when the sum fits and is no earlier than the origin. -/
theorem Shifts.of_fits {origin : Nanos} {sum : Int} (horigin : 0 ≤ origin) (hfits : FitsNanos sum)
    (hsince : origin ≤ sum) : Shifts origin sum := by
  have hrebased : FitsNanos (sum - origin) :=
    ⟨le_trans (by decide) (sub_nonneg.mpr hsince), (sub_le_self sum horigin).trans_lt hfits.2⟩
  rw [Shifts, wrapNs_of_fits hfits, wrapNs_of_fits hrebased]

/-- The arrival of the request being processed on a clock that started later, where zero
says that no request is. -/
def rebaseArrival (origin arrival : Nanos) : Nanos := if arrival = 0 then 0 else arrival - origin

namespace PaperExecution

/-- The venue on a clock that started later. When the books were updated is left out:
a market update says it anew before anything reads it. -/
def rebase (origin : Nanos) (v : PaperExecution) : PaperExecution :=
  { v with
    clock := v.clock - origin
    wall := 0
    orders := v.orders.map (PaperOrder.rebase origin)
    bookUpdatedNs := ∅
    pending := v.pending.map (Scheduled.rebase origin)
    inFlight := v.inFlight.map (PendingRequest.rebase origin)
    processingArrivalNs := rebaseArrival origin v.processingArrivalNs }

variable {origin : Nanos} {v : PaperExecution}

/-- What is dated from the arrival of a request is dated from the same moment on both
clocks. -/
def Dated (origin : Nanos) (v : PaperExecution) : Prop := (v.rebase origin).base = v.base - origin

theorem Dated.of_frame {w : PaperExecution} (h : Dated origin v)
    (harrival : w.processingArrivalNs = v.processingArrivalNs) (hclock : w.clock = v.clock) :
    Dated origin w := by
  unfold Dated base rebase at *
  dsimp only at *
  rw [harrival, hclock]
  exact h

theorem schedule_arrival (v : PaperExecution) (delay : Nanos) (event : ExecutionEvent) :
    (v.schedule delay event).processingArrivalNs = v.processingArrivalNs := by
  obtain ⟨_, _, _, _, hframe⟩ := v.schedule_frame delay event
  rw [hframe]

theorem count_rebase (origin : Nanos) (v : PaperExecution) (bump : PaperMetrics → PaperMetrics) :
    (v.count bump).rebase origin = (v.rebase origin).count bump := rfl

theorem scheduleAt_rebase (origin : Nanos) (v : PaperExecution) (dueNs : Nanos)
    (event : ExecutionEvent) :
    (v.scheduleAt dueNs event).rebase origin =
      (v.rebase origin).scheduleAt (dueNs - origin) event.unstamped := by
  by_cases hfull : v.config.maxPendingEvents ≤ v.pending.length
  · simp [scheduleAt, rebase, count, hfull]
  · by_cases honce : v.faults.duplicateNextEvent = 0
    · simp [scheduleAt, rebase, count, ordinal, hfull, honce, Scheduled.rebase]
    · simp [scheduleAt, rebase, count, ordinal, hfull, honce, Scheduled.rebase]

/-- An event scheduled after the delay is dated the same on both clocks. -/
structure DatesAlike (origin : Nanos) (v : PaperExecution) (delay : Nanos) : Prop where
  dated : Dated origin v
  shifts : Shifts origin (v.base + delay)

theorem DatesAlike.of_frame {w : PaperExecution} {delay : Nanos} (h : DatesAlike origin v delay)
    (harrival : w.processingArrivalNs = v.processingArrivalNs) (hclock : w.clock = v.clock) :
    DatesAlike origin w delay where
  dated := h.dated.of_frame harrival hclock
  shifts := by
    have hbase : w.base = v.base := by rw [base, base, harrival, hclock]
    rw [hbase]
    exact h.shifts

theorem schedule_rebase {delay : Nanos} (h : DatesAlike origin v delay) (event : ExecutionEvent) :
    (v.schedule delay event).rebase origin = (v.rebase origin).schedule delay event.unstamped := by
  unfold schedule
  rw [scheduleAt_rebase, h.dated, h.shifts, add_sub_right_comm]

/-- The same, of a venue that is at the same moment as one whose clock is known. -/
theorem schedule_rebase_eq {w w' : PaperExecution} {event event' : ExecutionEvent}
    {delay : Nanos} (h : DatesAlike origin v delay)
    (harrival : w.processingArrivalNs = v.processingArrivalNs) (hclock : w.clock = v.clock)
    (hvenue : w.rebase origin = w') (hevent : event.unstamped = event') :
    (w.schedule delay event).rebase origin = w'.schedule delay event' := by
  rw [schedule_rebase (h.of_frame harrival hclock), hvenue, hevent]

theorem fillEvent_rebase (origin : Nanos) (v : PaperExecution) (order : PaperOrder)
    (result : MatchResult) :
    (v.rebase origin).fillEvent (order.rebase origin) result =
      { v.fillEvent order result with transactNs := 0 } := rfl

theorem scheduleFill_rebase {delay : Nanos} (h : DatesAlike origin v delay) (order : PaperOrder)
    (result : MatchResult) :
    (v.scheduleFill order result delay).rebase origin =
      (v.rebase origin).scheduleFill (order.rebase origin) result delay := by
  have hremaining : (order.rebase origin).remaining = order.remaining := rfl
  refine (schedule_rebase (v := _) ?_ _).trans ?_
  · exact h.of_frame rfl rfl
  · unfold scheduleFill
    rw [fillEvent_rebase, hremaining]
    rfl

/-! ## Orders -/

theorem findOrder_rebase (origin : Nanos) (v : PaperExecution) (client : ClientOrderId) :
    (v.rebase origin).findOrder client =
      (v.findOrder client).map fun found => (found.1, found.2.rebase origin) := by
  unfold findOrder rebase
  simp only [List.getElem?_map]
  cases v.byClientId.lookup client with
  | none => rfl
  | some index =>
      rw [Option.bind_some, Option.bind_some]
      cases v.orders[index]? with
      | none => rfl
      | some order => rfl

theorem findOrderByExchangeId_rebase (origin : Nanos) (v : PaperExecution)
    (exchange : ExchangeOrderId) :
    (v.rebase origin).findOrderByExchangeId exchange =
      (v.findOrderByExchangeId exchange).map fun found => (found.1, found.2.rebase origin) := by
  unfold findOrderByExchangeId rebase
  simp only [List.getElem?_map]
  cases v.byExchangeId.lookup exchange with
  | none => rfl
  | some index =>
      rw [Option.bind_some, Option.bind_some]
      cases v.orders[index]? with
      | none => rfl
      | some order => rfl

theorem cancelTarget_rebase (origin : Nanos) (v : PaperExecution) (request : CancelRequest) :
    (v.rebase origin).cancelTarget request =
      (v.cancelTarget request).map fun found => (found.1, found.2.rebase origin) := by
  unfold cancelTarget
  rw [findOrder_rebase, findOrderByExchangeId_rebase]
  cases v.findOrder request.clientOrderId with
  | none =>
      split
      · rfl
      · rfl
  | some found => rfl

theorem setOrder_rebase (origin : Nanos) (v : PaperExecution) (index : Nat) (order : PaperOrder) :
    (v.setOrder index order).rebase origin =
      (v.rebase origin).setOrder index (order.rebase origin) := by
  simp [setOrder, rebase, List.map_set]

theorem rejectOrder_rebase {delay : Nanos} (h : DatesAlike origin v delay) (request : OrderRequest)
    (reason : RejectReason) :
    (v.rejectOrder request reason delay).rebase origin =
      (v.rebase origin).rejectOrder request reason delay := by
  exact schedule_rebase_eq h rfl rfl rfl rfl

theorem expireOrder_rebase {delay : Nanos} (h : DatesAlike origin v delay) (order : PaperOrder) :
    (v.expireOrder order delay).rebase origin =
      (v.rebase origin).expireOrder (order.rebase origin) delay := by
  exact schedule_rebase_eq h rfl rfl rfl rfl

theorem listOrder_rebase {delay : Nanos} (h : DatesAlike origin v delay) (order : PaperOrder) :
    (v.listOrder order delay).rebase origin =
      (v.rebase origin).listOrder (order.rebase origin) delay := by
  have hlisted : { v with
      orders := v.orders ++ [order]
      byClientId := v.byClientId.insert order.clientOrderId v.orders.length
      byExchangeId :=
        v.byExchangeId.insert order.exchangeOrderId v.orders.length }.rebase origin =
      { v.rebase origin with
        orders := (v.rebase origin).orders ++ [order.rebase origin]
        byClientId := (v.rebase origin).byClientId.insert (order.rebase origin).clientOrderId
          (v.rebase origin).orders.length
        byExchangeId := (v.rebase origin).byExchangeId.insert
          (order.rebase origin).exchangeOrderId (v.rebase origin).orders.length } := by
    simp [rebase, PaperOrder.rebase]
  refine (schedule_rebase (v := _) ?_ _).trans ?_
  · exact h.of_frame rfl rfl
  · unfold listOrder
    rw [← hlisted]
    rfl

theorem listOrder_dated {later : Nanos} (h : DatesAlike origin v later) (order : PaperOrder)
    (delay : Nanos) : DatesAlike origin (v.listOrder order delay) later :=
  h.of_frame (schedule_arrival _ _ _) (congrArg Setting.clock (schedule_setting _ _ _))

theorem takeOnArrival_rebase (index : Nat) (order : PaperOrder) (book : BookView) (delay : Nanos)
    (hfill : (v.takeOnArrival index order book delay).nextTradeSeq ≠ v.nextTradeSeq →
      DatesAlike origin v (delay + v.config.latency.fillNs)) :
    (v.takeOnArrival index order book delay).rebase origin =
      (v.rebase origin).takeOnArrival index (order.rebase origin) book delay := by
  have hmatched : matchAgainstBook (order.rebase origin) book v.config.fillModel
      v.config.queueShareBps =
        matchAgainstBook order book v.config.fillModel v.config.queueShareBps := by
    unfold matchAgainstBook
    rw [matchAndConsume_rebase]
    rfl
  unfold takeOnArrival at *
  dsimp only at *
  have hconfig : (v.rebase origin).config = v.config := rfl
  rw [hconfig, hmatched]
  split
  · rename_i hpositive
    rw [if_pos hpositive, scheduleFill_nextTradeSeq] at hfill
    rw [scheduleFill_rebase, setOrder_rebase, applyMatch_rebase]
    · rfl
    · exact (hfill (Nat.lt_succ_self _).ne').of_frame rfl rfl
  · rfl

theorem acceptOrder_rebase {delay : Nanos} (h : DatesAlike origin v delay)
    (request : OrderRequest)
    (hfill : (v.acceptOrder request delay).nextTradeSeq ≠ v.nextTradeSeq →
      DatesAlike origin v (delay + v.config.latency.fillNs)) :
    (v.acceptOrder request delay).rebase origin =
      (v.rebase origin).acceptOrder request delay := by
  have hbooks : (v.rebase origin).books = v.books := rfl
  have harriving : (v.rebase origin).arrivingOrder request =
      (v.arrivingOrder request).rebase origin := rfl
  have hlength : (v.rebase origin).orders.length = v.orders.length := by simp [rebase]
  have hnumbered : { v.rebase origin with
      nextExchangeSeq := (v.rebase origin).nextExchangeSeq + 1
      nextArrivalSeq := (v.rebase origin).nextArrivalSeq + 1 } =
      { v with
        nextExchangeSeq := v.nextExchangeSeq + 1
        nextArrivalSeq := v.nextArrivalSeq + 1 }.rebase origin := rfl
  unfold acceptOrder at *
  dsimp only at hnumbered hfill ⊢
  rw [hnumbered, hbooks, harriving, hlength]
  generalize hnew : { v with
    nextExchangeSeq := v.nextExchangeSeq + 1
    nextArrivalSeq := v.nextArrivalSeq + 1 } = numbered at hfill ⊢
  have hdated : ∀ {later : Nanos}, DatesAlike origin v later →
      DatesAlike origin numbered later := by
    intro later hlater
    rw [← hnew]
    exact hlater.of_frame rfl rfl
  have htrades : numbered.nextTradeSeq = v.nextTradeSeq := by rw [← hnew]
  have hconfig : numbered.config = v.config := by rw [← hnew]
  generalize v.arrivingOrder request = order at hfill ⊢
  cases hbook : v.books.lookup request.symbol with
  | none => exact listOrder_rebase (hdated h) order
  | some book =>
      have hmarketable : isMarketableOnArrival (order.rebase origin) book =
          isMarketableOnArrival order book := rfl
      have hpostOnly : (order.rebase origin).postOnly = order.postOnly := rfl
      have hpolicy : (v.rebase origin).config = v.config := rfl
      rw [hbook] at hfill
      dsimp only at hfill ⊢
      rw [hmarketable, hpostOnly, hpolicy]
      split
      · exact listOrder_rebase (hdated h) order
      rename_i hresting
      rw [if_neg hresting] at hfill
      split
      · have hcounted : DatesAlike origin (numbered.count fun k =>
            { k with postOnlyRejections := k.postOnlyRejections + 1 }) delay :=
          (hdated h).of_frame rfl rfl
        split
        · exact rejectOrder_rebase hcounted request .postOnlyWouldCross
        · exact expireOrder_rebase hcounted order
      · rename_i htaking
        rw [if_neg htaking] at hfill
        have hlisted : (numbered.listOrder order delay).nextTradeSeq = v.nextTradeSeq :=
          (schedule_nextTradeSeq _ _).trans htrades
        have hlistedConfig : (numbered.listOrder order delay).config = v.config :=
          (congrArg Setting.config (schedule_setting _ _ _)).trans hconfig
        rw [takeOnArrival_rebase, listOrder_rebase (hdated h)]
        rw [hlisted, hlistedConfig]
        exact fun hexecuted => listOrder_dated (hdated (hfill hexecuted)) order delay

theorem processSubmit_rebase {delay : Nanos} (h : DatesAlike origin v delay)
    (request : OrderRequest)
    (hfill : (v.processSubmit request delay).nextTradeSeq ≠ v.nextTradeSeq →
      DatesAlike origin v (delay + v.config.latency.fillNs)) :
    (v.processSubmit request delay).rebase origin =
      (v.rebase origin).processSubmit request delay := by
  have hfaults : (v.rebase origin).faults = v.faults := rfl
  have hfound : ((v.rebase origin).findOrder request.clientOrderId).isSome =
      (v.findOrder request.clientOrderId).isSome := by
    rw [findOrder_rebase, Option.isSome_map]
  unfold processSubmit at *
  rw [hfaults, hfound]
  split
  · exact schedule_rebase_eq h rfl rfl rfl rfl
  rename_i herror
  rw [if_neg herror] at hfill
  split
  · refine (rejectOrder_rebase (v := _) ?_ request _).trans ?_
    · exact h.of_frame rfl rfl
    · rfl
  rename_i hreject
  rw [if_neg hreject] at hfill
  split
  · exact rejectOrder_rebase h request _
  · rename_i hnew
    rw [if_neg hnew] at hfill
    exact acceptOrder_rebase h request hfill

theorem processCancel_rebase {delay : Nanos} (h : DatesAlike origin v delay)
    (request : CancelRequest) :
    (v.processCancel request delay).rebase origin =
      (v.rebase origin).processCancel request delay := by
  unfold processCancel
  rw [cancelTarget_rebase]
  cases v.cancelTarget request with
  | none =>
      exact schedule_rebase_eq h rfl rfl rfl rfl
  | some found =>
      have hfaults : (v.rebase origin).faults = v.faults := rfl
      have hterminal : (found.2.rebase origin).isTerminal = found.2.isTerminal := rfl
      dsimp only [Option.map_some]
      rw [hfaults, hterminal]
      split
      · exact schedule_rebase_eq h rfl rfl rfl rfl
      split
      · exact schedule_rebase_eq h rfl rfl rfl rfl
      · refine (schedule_rebase (v := _) ?_ _).trans ?_
        · exact h.of_frame rfl rfl
        · rw [setOrder_rebase]
          rfl

theorem swapOrder_rebase (origin : Nanos) (v : PaperExecution) (index : Nat)
    (order replaced : PaperOrder) :
    (v.swapOrder index order replaced).rebase origin =
      (v.rebase origin).swapOrder index (order.rebase origin) (replaced.rebase origin) := by
  by_cases hprice : order.price = replaced.price
  · simp [swapOrder, rebase, List.map_set, PaperOrder.rebase, hprice]
  · simp [swapOrder, rebase, List.map_set, PaperOrder.rebase, hprice]

theorem processReplace_rebase {delay : Nanos} (h : DatesAlike origin v delay)
    (request : ReplaceRequest) :
    (v.processReplace request delay).rebase origin =
      (v.rebase origin).processReplace request delay := by
  have hresting : ((v.rebase origin).findOrder request.originalClientOrderId).filter
      (fun found => found.2.isResting) =
        ((v.findOrder request.originalClientOrderId).filter fun found => found.2.isResting).map
          fun found => (found.1, found.2.rebase origin) := by
    rw [findOrder_rebase]
    cases v.findOrder request.originalClientOrderId with
    | none => rfl
    | some found =>
        have hsame : (found.2.rebase origin).isResting = found.2.isResting := rfl
        simp only [Option.map_some, Option.filter_some, hsame]
        split
        · rfl
        · rfl
  unfold processReplace
  rw [hresting]
  cases (v.findOrder request.originalClientOrderId).filter fun found => found.2.isResting with
  | none =>
      exact schedule_rebase_eq h rfl rfl rfl rfl
  | some found =>
      have hfaults : (v.rebase origin).faults = v.faults := rfl
      have hcumulative : (found.2.rebase origin).cumulativeQty = found.2.cumulativeQty := rfl
      have hreplaced : (v.rebase origin).replacedOrder (found.2.rebase origin) request =
          (v.replacedOrder found.2 request).rebase origin := rfl
      dsimp only [Option.map_some]
      rw [hfaults, hcumulative, hreplaced]
      split
      · exact schedule_rebase_eq h rfl rfl rfl rfl
      split
      · exact schedule_rebase_eq h rfl rfl rfl rfl
      · refine (schedule_rebase (v := _) ?_ _).trans ?_
        · exact h.of_frame rfl rfl
        · rw [count_rebase, swapOrder_rebase]
          rfl

/-- The request arrived at a moment that neither clock reads as none, or at this one. -/
def Datable (origin : Nanos) (v : PaperExecution) (pending : PendingRequest) : Prop :=
  origin = 0 ∨ pending.dueNs ≠ 0 ∧ (pending.dueNs = origin → v.clock = origin)

/-- What answers the request, and what it executes, is dated the same on both clocks. -/
def AnswersAlike (origin : Nanos) (pending : PendingRequest) (v : PaperExecution) : Prop :=
  let arrivalNs := base { v with processingArrivalNs := pending.dueNs }
  Shifts origin (arrivalNs + pending.decisionDelayNs) ∧
    ((v.processRequest pending).nextTradeSeq ≠ v.nextTradeSeq →
      Shifts origin (arrivalNs + (pending.decisionDelayNs + v.config.latency.fillNs)))

/-- Processing a request commutes with the reading of the clock. -/
theorem processRequest_rebase {pending : PendingRequest}
    (hdatable : Datable origin v pending) (halike : AnswersAlike origin pending v) :
    (v.processRequest pending).rebase origin =
      (v.rebase origin).processRequest (pending.rebase origin) := by
  have hprocessing : { v with processingArrivalNs := pending.dueNs }.rebase origin =
      { v.rebase origin with processingArrivalNs := (pending.rebase origin).dueNs } := by
    have harrival : rebaseArrival origin pending.dueNs = pending.dueNs - origin := by
      unfold rebaseArrival
      split
      · rename_i hdue
        rcases hdatable with horigin | ⟨hne, -⟩
        · rw [hdue, horigin, sub_zero]
        · exact absurd hdue hne
      · rfl
    unfold rebase
    dsimp only
    rw [harrival]
    rfl
  have hdated : Dated origin { v with processingArrivalNs := pending.dueNs } := by
    unfold Dated
    rw [hprocessing]
    show (if pending.dueNs - origin ≠ 0 then pending.dueNs - origin else v.clock - origin) =
      (if pending.dueNs ≠ 0 then pending.dueNs else v.clock) - origin
    rcases hdatable with rfl | ⟨hne, hnow⟩
    · rw [sub_zero, sub_zero, sub_zero]
    · rw [if_pos hne]
      split
      · rfl
      · rename_i harrived
        have hdue : pending.dueNs = origin := sub_eq_zero.mp (not_not.mp harrived)
        rw [hnow hdue, hdue]
  obtain ⟨hanswer, hfill⟩ := halike
  have hanswers := DatesAlike.mk hdated hanswer
  have htrades : PaperExecution.nextTradeSeq { v with processingArrivalNs := pending.dueNs } =
      v.nextTradeSeq := rfl
  have hconfig : PaperExecution.config { v with processingArrivalNs := pending.dueNs } =
      v.config := rfl
  unfold processRequest at hfill ⊢
  dsimp only at hprocessing hfill ⊢
  rw [← hprocessing]
  generalize { v with processingArrivalNs := pending.dueNs } = processing
    at hdated hanswers hfill htrades hconfig ⊢
  have hfinish : ∀ processed : PaperExecution,
      { processed with processingArrivalNs := 0 }.rebase origin =
        { processed.rebase origin with processingArrivalNs := 0 } := fun _ => rfl
  rw [hfinish]
  dsimp only [PendingRequest.rebase]
  cases hrequest : pending.request with
  | submit request =>
      rw [hrequest] at hfill
      dsimp only at hfill ⊢
      rw [processSubmit_rebase hanswers]
      rw [htrades, hconfig]
      exact fun hexecuted => ⟨hdated, hfill hexecuted⟩
  | cancel request =>
      dsimp only
      rw [processCancel_rebase hanswers]
  | replace request =>
      dsimp only
      rw [processReplace_rebase hanswers]

theorem resolvePendingCancel_rebase (origin : Nanos) (v : PaperExecution)
    (cancel : OrderCancelEvent) :
    { (v.resolvePendingCancel cancel).1 with transactNs := 0 } =
        ((v.rebase origin).resolvePendingCancel { cancel with transactNs := 0 }).1 ∧
      (v.resolvePendingCancel cancel).2.rebase origin =
        ((v.rebase origin).resolvePendingCancel { cancel with transactNs := 0 }).2 := by
  unfold resolvePendingCancel
  rw [findOrder_rebase]
  cases v.findOrder cancel.clientOrderId with
  | none => exact ⟨rfl, rfl⟩
  | some found =>
      have hstatus : (found.2.rebase origin).status = found.2.status := rfl
      have hterminal : (found.2.rebase origin).isTerminal = found.2.isTerminal := rfl
      dsimp only [Option.map_some]
      rw [hstatus, hterminal]
      split
      · refine ⟨rfl, ?_⟩
        dsimp only [countCancelReject]
        rw [count_rebase, setOrder_rebase]
        rfl
      split
      · refine ⟨rfl, ?_⟩
        dsimp only [countCancelReject]
        rw [count_rebase, setOrder_rebase]
        rfl
      · refine ⟨rfl, ?_⟩
        dsimp only
        rw [count_rebase, setOrder_rebase]
        rfl

theorem deliver_rebase (origin : Nanos) (v : PaperExecution) (event : ExecutionEvent) :
    (v.deliver event).1.unstamped = ((v.rebase origin).deliver event.unstamped).1 ∧
      (v.deliver event).2.rebase origin = ((v.rebase origin).deliver event.unstamped).2 := by
  cases event with
  | orderCancel cancel =>
      obtain ⟨hevent, hvenue⟩ := resolvePendingCancel_rebase origin v cancel
      by_cases haccepted :
          (decide (cancel.cancelStatus = .accepted) &&
            decide (cancel.orderStatus = .canceled)) = true
      · simp only [deliver, ExecutionEvent.unstamped, if_pos haccepted, count_rebase, hvenue]
        exact ⟨congrArg ExecutionEvent.orderCancel hevent, trivial⟩
      · simp only [deliver, ExecutionEvent.unstamped, if_neg haccepted, count_rebase,
          and_self]
  | _ => exact ⟨rfl, rfl⟩

theorem deliverAll_rebase (origin : Nanos) (events : List ExecutionEvent) (v : PaperExecution) :
    (deliverAll events v).1.map ExecutionEvent.unstamped =
        (deliverAll (events.map ExecutionEvent.unstamped) (v.rebase origin)).1 ∧
      (deliverAll events v).2.rebase origin =
        (deliverAll (events.map ExecutionEvent.unstamped) (v.rebase origin)).2 := by
  induction events generalizing v with
  | nil => exact ⟨rfl, rfl⟩
  | cons event events ih =>
      obtain ⟨hevent, hvenue⟩ := deliver_rebase origin v event
      obtain ⟨hevents, hlast⟩ := ih (v.deliver event).2
      simp only [deliverAll, List.map_cons, ← hvenue, ← hevent, hevents, hlast, and_self]

theorem foldl_processRequest_rebase {requests : List PendingRequest}
    (hdatable : ∀ pending ∈ requests, Datable origin v pending)
    (halike : Machine.Along (fun pending v => v.processRequest pending) (AnswersAlike origin)
      requests v) :
    (requests.foldl processRequest v).rebase origin =
      (requests.map (PendingRequest.rebase origin)).foldl processRequest (v.rebase origin) := by
  induction requests generalizing v with
  | nil => rfl
  | cons pending later ih =>
      rw [List.forall_mem_cons] at hdatable
      have hclock : (v.processRequest pending).clock = v.clock :=
        congrArg Setting.clock (v.processRequest_setting pending)
      have hlater : ∀ pending' ∈ later,
          Datable origin (v.processRequest pending) pending' := by
        unfold Datable
        rw [hclock]
        exact hdatable.2
      rw [List.foldl_cons, ih hlater halike.2, processRequest_rebase hdatable.1 halike.1]
      rfl

theorem comesBefore_rebase (origin dueA dueB : Nanos) (ordinalA ordinalB : Nat) :
    comesBefore (dueA - origin) ordinalA (dueB - origin) ordinalB =
      comesBefore dueA ordinalA dueB ordinalB := by
  simp [comesBefore]

theorem arrived_rebase (origin : Nanos) (v : PaperExecution) :
    (v.rebase origin).arrived = v.arrived.map (PendingRequest.rebase origin) := by
  have hnow : ((fun request : PendingRequest => decide (request.dueNs ≤ v.clock - origin)) ∘
      PendingRequest.rebase origin) = fun request => decide (request.dueNs ≤ v.clock) := by
    funext request
    simp [PendingRequest.rebase]
  unfold arrived rebase
  dsimp only
  rw [List.filter_map, hnow, List.map_insertionSort _ fun a b =>
    comesBefore a.dueNs a.ordinal b.dueNs b.ordinal = true]
  intro a _ b _
  rw [← comesBefore_rebase origin a.dueNs b.dueNs]
  rfl

theorem processArrived_rebase
    (hdatable : ∀ pending ∈ v.arrived, Datable origin v pending)
    (halike : Machine.Along (fun pending v => v.processRequest pending) (AnswersAlike origin)
      v.arrived v.polled) :
    v.processArrived.rebase origin = (v.rebase origin).processArrived := by
  have hpolled : v.polled.rebase origin = (v.rebase origin).polled := by
    have hlater : ((fun request : PendingRequest => decide (¬ request.dueNs ≤ v.clock - origin)) ∘
        PendingRequest.rebase origin) = fun request => decide (¬ request.dueNs ≤ v.clock) := by
      funext request
      simp [PendingRequest.rebase]
    unfold polled rebase
    dsimp only
    rw [List.filter_map, hlater]
  show (v.arrived.foldl processRequest v.polled).rebase origin =
    (v.rebase origin).arrived.foldl processRequest (v.rebase origin).polled
  rw [foldl_processRequest_rebase (v := v.polled) hdatable halike, arrived_rebase, hpolled]

theorem map_reorderDue (f : Scheduled → Scheduled) (faults : Nat) (due : List Scheduled) :
    (reorderDue faults due).map f = reorderDue faults (due.map f) := by
  induction faults generalizing due with
  | zero => rfl
  | succ faults ih =>
      rw [reorderDue, reorderDue, ← List.map_reverse]
      cases due.reverse with
      | nil => rfl
      | cons last earlier =>
          cases earlier with
          | nil => rfl
          | cons previous earlier =>
              rw [List.map_cons, List.map_cons]
              dsimp only
              rw [ih, List.map_reverse, List.map_cons, List.map_cons]

theorem dueEvents_rebase (origin : Nanos) (v : PaperExecution) :
    (v.rebase origin).dueEvents = v.dueEvents.map (Scheduled.rebase origin) := by
  have hnow : ((fun scheduled : Scheduled => decide (scheduled.dueNs ≤ v.clock - origin)) ∘
      Scheduled.rebase origin) = fun scheduled => decide (scheduled.dueNs ≤ v.clock) := by
    funext scheduled
    simp [Scheduled.rebase]
  unfold dueEvents rebase
  dsimp only
  rw [map_reorderDue, List.filter_map, hnow, List.map_insertionSort _ fun a b =>
    comesBefore a.dueNs a.ordinal b.dueNs b.ordinal = true]
  intro a _ b _
  rw [← comesBefore_rebase origin a.dueNs b.dueNs]
  rfl

theorem emptied_rebase (origin : Nanos) (v : PaperExecution) (now : Nanos) :
    (v.emptied now).rebase origin = (v.rebase origin).emptied (now - origin) := by
  have hlater : ((fun scheduled : Scheduled => decide (¬ scheduled.dueNs ≤ now - origin)) ∘
      Scheduled.rebase origin) = fun scheduled => decide (¬ scheduled.dueNs ≤ now) := by
    funext scheduled
    simp [Scheduled.rebase]
  have hpending : ((v.rebase origin).pending.filter fun scheduled =>
      ¬ scheduled.dueNs ≤ now - origin) =
        (v.pending.filter fun scheduled => ¬ scheduled.dueNs ≤ now).map
          (Scheduled.rebase origin) := by
    show (v.pending.map (Scheduled.rebase origin)).filter _ = _
    rw [List.filter_map, hlater]
  unfold emptied
  dsimp only
  rw [dueEvents_rebase, List.length_map, hpending]
  rfl

/-- A poll delivers the same on both clocks. -/
theorem poll_rebase (hdatable : ∀ pending ∈ v.arrived, Datable origin v pending)
    (halike : v.started = true → Machine.Along (fun pending v => v.processRequest pending)
      (AnswersAlike origin) v.arrived v.polled) :
    v.poll.1.map ExecutionEvent.unstamped = (v.rebase origin).poll.1 ∧
      v.poll.2.rebase origin = (v.rebase origin).poll.2 := by
  cases hstarted : v.started with
  | false =>
      have hidle : ∀ w : PaperExecution, w.started = false → w.poll = ([], w) :=
        fun w h => if_pos (by simp [h])
      rw [hidle v hstarted, hidle (v.rebase origin) hstarted]
      exact ⟨rfl, rfl⟩
  | true =>
      have hevents : (v.processArrived.dueEvents.map Scheduled.event).map
          ExecutionEvent.unstamped =
            (v.processArrived.dueEvents.map (Scheduled.rebase origin)).map Scheduled.event := by
        rw [List.map_map, List.map_map]
        rfl
      have hclock : (v.rebase origin).clock = v.clock - origin := rfl
      rw [poll_of_started hstarted, poll_of_started (v := v.rebase origin) hstarted, hclock,
        ← processArrived_rebase hdatable (halike hstarted), dueEvents_rebase, ← hevents,
        ← emptied_rebase]
      exact deliverAll_rebase origin _ _

/-! ## Market updates -/

theorem dated_of_idle (hidle : v.processingArrivalNs = 0) : Dated origin v := by
  simp [Dated, base, rebase, rebaseArrival, hidle]

theorem datesAlike_of_idle {delay : Nanos} (hidle : v.processingArrivalNs = 0)
    (hshifts : Shifts origin (v.clock + delay)) : DatesAlike origin v delay where
  dated := dated_of_idle hidle
  shifts := by
    have hbase : v.base = v.clock := by rw [base, if_neg (by simp [hidle])]
    rwa [hbase]

end PaperExecution

/-- The sweep on a clock that started later. -/
def Sweep.rebase (origin : Nanos) (sweep : Sweep) : Sweep :=
  { sweep with venue := sweep.venue.rebase origin }

namespace Sweep

theorem matchOrder_arrival (sweep : Sweep) (now : Nanos) (index : Nat) :
    (sweep.matchOrder now index).venue.processingArrivalNs = sweep.venue.processingArrivalNs := by
  cases horder : sweep.venue.orders[index]? with
  | none => rw [matchOrder, horder]
  | some order =>
      by_cases hresting : order.isResting = true
      · rw [sweep.matchOrder_of_resting now index horder hresting]
        dsimp only
        split
        · exact PaperExecution.schedule_arrival _ _ _
        · rfl
      · simp [matchOrder, horder, hresting]

variable {origin : Nanos} {sweep : Sweep}

theorem matchOrder_rebase (hidle : sweep.venue.processingArrivalNs = 0) (now : Nanos)
    (index : Nat)
    (hfill : (sweep.matchOrder now index).venue.nextTradeSeq ≠ sweep.venue.nextTradeSeq →
      Shifts origin (sweep.venue.clock + sweep.venue.config.latency.fillNs)) :
    (sweep.matchOrder now index).rebase origin =
      (sweep.rebase origin).matchOrder (now - origin) index := by
  have hrebased : (sweep.rebase origin).venue.orders[index]? =
      (sweep.venue.orders[index]?).map (PaperOrder.rebase origin) := List.getElem?_map
  cases horder : sweep.venue.orders[index]? with
  | none =>
      rw [horder] at hrebased
      rw [matchOrder, matchOrder, horder, hrebased]
      rfl
  | some order =>
      rw [horder] at hrebased
      by_cases hresting : order.isResting = true
      · have havailable : (sweep.rebase origin).available (order.rebase origin).side =
            sweep.available order.side := rfl
        have hconfig : (sweep.rebase origin).venue.config = sweep.venue.config := rfl
        have hside : (order.rebase origin).side = order.side := rfl
        rw [sweep.matchOrder_of_resting now index horder hresting] at hfill ⊢
        rw [(sweep.rebase origin).matchOrder_of_resting (now - origin) index hrebased hresting]
        dsimp only at hfill ⊢
        rw [havailable, hconfig, matchAndConsume_rebase, hside]
        generalize matchAndConsume order (sweep.available order.side) sweep.venue.config.fillModel
          sweep.venue.config.queueShareBps = matched at hfill ⊢
        unfold rebase
        dsimp only
        split
        · rename_i hpositive
          rw [if_pos hpositive, PaperExecution.scheduleFill_nextTradeSeq] at hfill
          rw [PaperExecution.scheduleFill_rebase, PaperExecution.setOrder_rebase, applyMatch_rebase]
          exact PaperExecution.datesAlike_of_idle hidle (hfill (Nat.lt_succ_self _).ne')
        · rfl
      · have hresting' : ¬(order.rebase origin).isResting = true := hresting
        simp [matchOrder, horder, hrebased, hresting, hresting']

theorem foldl_matchOrder_rebase (now : Nanos) (indices : List Nat)
    (hidle : sweep.venue.processingArrivalNs = 0)
    (hfill : (indices.foldl (Sweep.matchOrder now) sweep).venue.nextTradeSeq ≠
      sweep.venue.nextTradeSeq →
        Shifts origin (sweep.venue.clock + sweep.venue.config.latency.fillNs)) :
    (indices.foldl (Sweep.matchOrder now) sweep).rebase origin =
      indices.foldl (Sweep.matchOrder (now - origin)) (sweep.rebase origin) := by
  induction indices generalizing sweep with
  | nil => rfl
  | cons index indices ih =>
      have hnext : (sweep.matchOrder now index).venue.processingArrivalNs = 0 :=
        (sweep.matchOrder_arrival now index).trans hidle
      have hsetting := sweep.matchOrder_setting now index
      have hclock : (sweep.matchOrder now index).venue.clock = sweep.venue.clock :=
        congrArg Setting.clock hsetting
      have hconfig : (sweep.matchOrder now index).venue.config = sweep.venue.config :=
        congrArg Setting.config hsetting
      have hsooner := PaperExecution.matchOrder_nextTradeSeq_le now sweep index
      have hlater := PaperExecution.sweep_nextTradeSeq_le now indices (sweep.matchOrder now index)
      rw [List.foldl_cons] at hfill
      rw [List.foldl_cons, List.foldl_cons, ih hnext, matchOrder_rebase hidle]
      · exact fun hexecuted => hfill (by omega)
      · rw [hclock, hconfig]
        exact fun hexecuted => hfill (by omega)

end Sweep

namespace PaperExecution

variable {v : PaperExecution} {origin : Nanos}

theorem matchingOrder_rebase (origin : Nanos) (v : PaperExecution) (symbol : Symbol) :
    (v.rebase origin).matchingOrder symbol = v.matchingOrder symbol := by
  have hget : ∀ index : Nat, (v.rebase origin).orders[index]? =
      (v.orders[index]?).map (PaperOrder.rebase origin) := fun _ => List.getElem?_map
  have hbefore : ∀ a b, (v.rebase origin).matchesBefore a b = v.matchesBefore a b := by
    intro a b
    unfold matchesBefore
    rw [hget, hget]
    cases v.orders[a]? with
    | none => rfl
    | some x =>
        cases v.orders[b]? with
        | none => rfl
        | some y => rfl
  have hlength : (v.rebase origin).orders.length = v.orders.length := by simp [rebase]
  unfold matchingOrder
  simp only [hget, hbefore, hlength, Option.any_map]
  rfl

/-- A market update over a book that was updated this very moment. -/
def matchFresh (symbol : Symbol) (v : PaperExecution) : PaperExecution :=
  match v.books.lookup symbol with
  | none => v
  | some book =>
      if !book.isValid then v
      else if v.config.maxBookAgeNs < 0 then
        v.count fun k => { k with staleBookSkips := k.staleBookSkips + 1 }
      else ((v.matchingOrder symbol).foldl (Sweep.matchOrder v.clock) (v.sweepOf book)).venue

theorem onMarketUpdate_now (symbol : Symbol) (v : PaperExecution) :
    v.onMarketUpdate symbol v.clock =
      { v with bookUpdatedNs := v.bookUpdatedNs.insert symbol v.clock }.matchFresh symbol := by
  unfold onMarketUpdate matchSymbol matchFresh
  simp only [AList.lookup_insert, Option.getD_some, sub_self]
  rfl

/-- A market update of this moment does the same on both clocks. -/
theorem onMarketUpdate_rebase (hidle : v.processingArrivalNs = 0) (symbol : Symbol)
    (hfill : (v.onMarketUpdate symbol v.clock).nextTradeSeq ≠ v.nextTradeSeq →
      Shifts origin (v.clock + v.config.latency.fillNs)) :
    (v.onMarketUpdate symbol v.clock).rebase origin = (v.rebase origin).matchFresh symbol := by
  rw [onMarketUpdate_now] at hfill ⊢
  generalize hupdated : { v with bookUpdatedNs := v.bookUpdatedNs.insert symbol v.clock } = updated
    at hfill ⊢
  have hsame : v.rebase origin = updated.rebase origin := by
    rw [← hupdated]
    rfl
  have hidle' : updated.processingArrivalNs = 0 := by
    rw [← hupdated]
    exact hidle
  replace hfill : (updated.matchFresh symbol).nextTradeSeq ≠ updated.nextTradeSeq →
      Shifts origin (updated.clock + updated.config.latency.fillNs) := by
    rw [← hupdated] at hfill ⊢
    exact hfill
  have hbooks : (updated.rebase origin).books = updated.books := rfl
  rw [hsame]
  unfold matchFresh at *
  rw [hbooks, matchingOrder_rebase]
  cases hbook : updated.books.lookup symbol with
  | none => rfl
  | some book =>
      have hconfig : (updated.rebase origin).config = updated.config := rfl
      rw [hbook] at hfill
      dsimp only at hfill ⊢
      rw [hconfig]
      split
      · rfl
      rename_i hvalid
      rw [if_neg hvalid] at hfill
      split
      · rfl
      · rename_i hfresh
        rw [if_neg hfresh] at hfill
        exact congrArg Sweep.venue (@Sweep.foldl_matchOrder_rebase origin (updated.sweepOf book)
          updated.clock _ hidle' hfill)

variable (v) in
/-- A request made now reaches the venue at the same moment on both clocks. -/
def RequestShifts (origin : Nanos) : Prop :=
  Shifts origin (v.clock + v.config.latency.requestNs + v.faults.delayNextRequestNs)

/-- A request that is counted, and dropped or handed over. -/
theorem takeCounted_rebase (bump : PaperMetrics → PaperMetrics) (request : Request) (delay : Nanos)
    (hshifts : ((v.count bump).takeRequest request delay).inFlight.length ≠ v.inFlight.length →
      v.RequestShifts origin) :
    ((v.count bump).takeRequest request delay).rebase origin =
      ((v.rebase origin).count bump).takeRequest request delay := by
  have hfaults : ((v.rebase origin).count bump).faults = (v.count bump).faults := rfl
  unfold takeRequest at *
  rw [hfaults]
  split
  · rename_i hkept
    rw [if_pos hkept] at hshifts
    have hdue : v.requestDueNs - origin = (v.rebase origin).requestDueNs := by
      have hsum := hshifts (by simp [enqueueRequest, count])
      unfold requestDueNs
      rw [hsum, rebase, add_sub_right_comm, add_sub_right_comm]
    have hrequest : (v.count bump).requestDueNs = v.requestDueNs := rfl
    have hrequest' : ((v.rebase origin).count bump).requestDueNs =
        (v.rebase origin).requestDueNs := rfl
    rw [enqueueRequest, enqueueRequest, hrequest, hrequest', ← hdue]
    simp only [rebase, count, List.map_append, List.map_cons, List.map_nil, PendingRequest.rebase]
    rfl
  · rfl

/-- What a request comes to on both clocks: it is refused on both, or taken in the same way. -/
def TakesAlike (v w : PaperExecution) (request : Request) (after after' : PaperExecution) : Prop :=
  after = v ∧ after' = w ∨ ∃ bump delay, after = (v.count bump).takeRequest request delay ∧
    after' = (w.count bump).takeRequest request delay

/-- A check with the same outcome on both clocks. -/
theorem TakesAlike.ite {w : PaperExecution} {request : Request} {refused : Prop} [Decidable refused]
    {error error' : Status} {taken taken' : Status × PaperExecution}
    (h : TakesAlike v w request taken.2 taken'.2) :
    TakesAlike v w request (if refused then (error, v) else taken).2
      (if refused then (error', w) else taken').2 := by
  split
  · exact .inl ⟨rfl, rfl⟩
  · exact h

theorem submit_both (origin : Nanos) (v : PaperExecution) (request : OrderRequest) :
    TakesAlike v (v.rebase origin) (.submit request) (v.submit request).2
      ((v.rebase origin).submit request).2 := by
  have hconnected : (v.rebase origin).requireConnected = v.requireConnected := rfl
  have hlength : (v.rebase origin).orders.length = v.orders.length := by simp [rebase]
  have hfound : ((v.rebase origin).findOrder request.clientOrderId).isSome =
      (v.findOrder request.clientOrderId).isSome := by
    rw [findOrder_rebase, Option.isSome_map]
  have hconfig : (v.rebase origin).config = v.config := rfl
  unfold submit
  rw [hconnected, hlength, hfound, hconfig]
  iterate 7 apply TakesAlike.ite
  exact .inr ⟨_, _, rfl, rfl⟩

theorem submit_rebase (request : OrderRequest)
    (hshifts : (v.submit request).2.inFlight.length ≠ v.inFlight.length →
      v.RequestShifts origin) :
    (v.submit request).2.rebase origin = ((v.rebase origin).submit request).2 := by
  obtain ⟨hsame, hsame'⟩ | ⟨bump, delay, htaken, htaken'⟩ := submit_both origin v request
  · rw [hsame, hsame']
  · rw [htaken] at hshifts ⊢
    rw [htaken']
    exact takeCounted_rebase bump _ delay hshifts

theorem cancel_both (origin : Nanos) (v : PaperExecution) (request : CancelRequest) :
    TakesAlike v (v.rebase origin) (.cancel request) (v.cancel request).2
      ((v.rebase origin).cancel request).2 := by
  have hstarted : (v.rebase origin).started = v.started := rfl
  have hconnection : (v.rebase origin).connection = v.connection := rfl
  unfold cancel
  rw [hstarted, hconnection]
  iterate 3 apply TakesAlike.ite
  exact .inr ⟨_, _, rfl, rfl⟩

theorem cancel_rebase (request : CancelRequest)
    (hshifts : (v.cancel request).2.inFlight.length ≠ v.inFlight.length →
      v.RequestShifts origin) :
    (v.cancel request).2.rebase origin = ((v.rebase origin).cancel request).2 := by
  obtain ⟨hsame, hsame'⟩ | ⟨bump, delay, htaken, htaken'⟩ := cancel_both origin v request
  · rw [hsame, hsame']
  · rw [htaken] at hshifts ⊢
    rw [htaken']
    exact takeCounted_rebase bump _ delay hshifts

theorem replace_both (origin : Nanos) (v : PaperExecution) (request : ReplaceRequest) :
    TakesAlike v (v.rebase origin) (.replace request) (v.replace request).2
      ((v.rebase origin).replace request).2 := by
  have hconnected : (v.rebase origin).requireConnected = v.requireConnected := rfl
  have hconfig : (v.rebase origin).config = v.config := rfl
  unfold replace
  rw [hconnected, hconfig]
  iterate 4 apply TakesAlike.ite
  exact .inr ⟨_, _, rfl, rfl⟩

theorem replace_rebase (request : ReplaceRequest)
    (hshifts : (v.replace request).2.inFlight.length ≠ v.inFlight.length →
      v.RequestShifts origin) :
    (v.replace request).2.rebase origin = ((v.rebase origin).replace request).2 := by
  obtain ⟨hsame, hsame'⟩ | ⟨bump, delay, htaken, htaken'⟩ := replace_both origin v request
  · rw [hsame, hsame']
  · rw [htaken] at hshifts ⊢
    rw [htaken']
    exact takeCounted_rebase bump _ delay hshifts

end PaperExecution

end MmEngine.Exchange.Paper
