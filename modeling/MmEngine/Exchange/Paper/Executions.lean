/-
# What the venue executes

An execution is one match applied to one order and reported by one fill. The venue
makes them in two places, when an order arrives and when a market update is swept,
and each is listed here beside the call that makes it, in the order of the fills.
The case lemmas say what processing a request or sweeping an order does to the
venue's orders; everything later about orders is read off them.
-/

import MmEngine.Exchange.Paper.VenueStep
import MmEngine.Exchange.Paper.Walk

namespace MmEngine.Exchange.Paper

/-- One match applied to one order. -/
structure Execution where
  /-- Where the order stands in the table. -/
  index : Nat
  /-- The order as it was. -/
  order : PaperOrder
  result : MatchResult
  /-- What it takes from each level of the opposite side. -/
  takes : List Int
  /-- The report that is scheduled. -/
  fill : FillEvent

namespace PaperExecution

variable (v : PaperExecution)

/-- What an order executes as it arrives. -/
def takeOnArrivalExecutions (index : Nat) (order : PaperOrder) (book : BookView) :
    List Execution :=
  let result := matchAgainstBook order book v.config.fillModel v.config.queueShareBps
  if result.quantity.isPositive then
    let taker := { result with liquidity := .taker }
    let filled := order.applyMatch taker v.clock
    [{ index := index
       order := order
       result := taker
       takes := matchTakes order (executableSide book order.side) v.config.fillModel
         v.config.queueShareBps
       fill := (v.setOrder index filled).fillEvent filled taker }]
  else []

def acceptOrderExecutions (request : OrderRequest) (delay : Nanos) : List Execution :=
  let order := v.arrivingOrder request
  let numbered :=
    { v with
      nextExchangeSeq := v.nextExchangeSeq + 1
      nextArrivalSeq := v.nextArrivalSeq + 1 }
  match v.books.lookup request.symbol with
  | none => []
  | some book =>
      if !isMarketableOnArrival order book then []
      else if order.postOnly then []
      else (numbered.listOrder order delay).takeOnArrivalExecutions v.orders.length order book

def processSubmitExecutions (request : OrderRequest) (delay : Nanos) : List Execution :=
  if v.faults.errorNextRequest ≠ 0 then []
  else if v.faults.rejectNextNew ≠ 0 then []
  else if (v.findOrder request.clientOrderId).isSome then []
  else v.acceptOrderExecutions request delay

/-- What processing a request executes. -/
def requestExecutions (pending : PendingRequest) : List Execution :=
  match pending.request with
  | .submit request =>
      { v with processingArrivalNs := pending.dueNs }.processSubmitExecutions request
        pending.decisionDelayNs
  | .cancel _ => []
  | .replace _ => []

/-- What processing a list of requests executes. -/
def requestsExecutions : List PendingRequest → PaperExecution → List Execution
  | [], _ => []
  | pending :: later, v =>
      v.requestExecutions pending ++ requestsExecutions later (v.processRequest pending)

/-- What a poll executes: the requests that have arrived. -/
def pollExecutions : List Execution :=
  if !v.started then []
  else
    requestsExecutions v.arrived
      { v with inFlight := v.inFlight.filter fun request => ¬ request.dueNs ≤ v.clock }

end PaperExecution

namespace Sweep

/-- The side of the sweep that orders of the given side execute against. -/
def available (sweep : Sweep) (side : Side) : List PriceLevel :=
  match side with
  | .buy => sweep.asksAvailable
  | .sell => sweep.bidsAvailable

/-- What the order at one position executes. -/
def orderExecutions (now : Nanos) (sweep : Sweep) (index : Nat) : List Execution :=
  match sweep.venue.orders[index]? with
  | none => []
  | some order =>
      if !order.isResting then []
      else
        let config := sweep.venue.config
        let result := (matchAndConsume order (sweep.available order.side) config.fillModel
          config.queueShareBps).1
        if result.quantity.isPositive then
          let filled := order.applyMatch result now
          [{ index := index
             order := order
             result := result
             takes := matchTakes order (sweep.available order.side) config.fillModel
               config.queueShareBps
             fill := (sweep.venue.setOrder index filled).fillEvent filled result }]
        else []

/-- What a sweep over the given positions executes. -/
def executions (now : Nanos) : List Nat → Sweep → List Execution
  | [], _ => []
  | index :: indices, sweep =>
      sweep.orderExecutions now index ++ executions now indices (sweep.matchOrder now index)

end Sweep

namespace PaperExecution

variable (v : PaperExecution)

/-- The sweep of a book over the venue, before any order is matched. -/
def sweepOf (book : BookView) : Sweep where
  venue := v
  asksAvailable := executableSide book .buy
  bidsAvailable := executableSide book .sell

def matchSymbolExecutions (symbol : Symbol) (now : Nanos) : List Execution :=
  match v.books.lookup symbol with
  | none => []
  | some book =>
      if !book.isValid then []
      else if v.config.maxBookAgeNs < now - (v.bookUpdatedNs.lookup symbol).getD 0 then []
      else Sweep.executions now (v.matchingOrder symbol) (v.sweepOf book)

def onMarketUpdateExecutions (symbol : Symbol) (updateNs : Nanos) : List Execution :=
  { v with bookUpdatedNs := v.bookUpdatedNs.insert symbol updateNs }.matchSymbolExecutions symbol
    v.clock

/-- What one call executes. -/
def executions (op : Op) (v : PaperExecution) : List Execution :=
  match op with
  | .onMarketUpdate symbol updateNs => v.onMarketUpdateExecutions symbol updateNs
  | .poll => v.pollExecutions
  | _ => []

end PaperExecution

/-! ## A match on the order -/

/-- A match writes what is filled, the status and the time, and nothing else. -/
theorem PaperOrder.applyMatch_frame (order : PaperOrder) (result : MatchResult) (atNs : Nanos) :
    ∃ cumulativeQty status lastEventNs, order.applyMatch result atNs =
      { order with
        cumulativeQty := cumulativeQty
        status := status
        lastEventNs := lastEventNs } := by
  unfold PaperOrder.applyMatch
  split
  · exact ⟨_, _, _, rfl⟩
  · split
    · exact ⟨_, _, _, rfl⟩
    · exact ⟨_, _, _, rfl⟩

/-- What is left of an order is the difference, when that is representable. -/
theorem PaperOrder.remaining_raw_of_range {order : PaperOrder}
    (hlo : order.cumulativeQty.raw ≤ order.originalQty.raw)
    (hhi : order.originalQty.raw - order.cumulativeQty.raw ≤ rawMax) :
    order.remaining.raw = order.originalQty.raw - order.cumulativeQty.raw := by
  unfold PaperOrder.remaining
  cases hsub : Fixed.checkedSub order.originalQty order.cumulativeQty with
  | none =>
      have hout := Fixed.fromRaw?_eq_none_iff.mp hsub
      simp only [rawMin] at hout
      omega
  | some out =>
      have hout := Fixed.checkedSub_eq_some_iff.mp hsub
      have hnot : ¬out.isNegative = true := by
        rw [Fixed.isNegative_iff]
        omega
      dsimp only
      rw [if_neg hnot, hout]

/-- A match the order wants is applied to it in full. -/
theorem PaperOrder.applyMatch_spec {order : PaperOrder} {result : MatchResult}
    (hpositive : 0 < result.quantity.raw) (hwanted : result.quantity.raw ≤ order.remaining.raw)
    (atNs : Nanos) :
    (order.applyMatch result atNs).cumulativeQty.raw =
        order.cumulativeQty.raw + result.quantity.raw ∧
      (order.applyMatch result atNs).originalQty = order.originalQty ∧
      (order.applyMatch result atNs).remaining.raw =
        order.remaining.raw - result.quantity.raw := by
  have hsome : order.remaining.isPositive = true := by
    rw [Fixed.isPositive_iff]
    omega
  have hremaining := PaperOrder.remaining_raw hsome
  have hmax := order.originalQty.raw_le
  have hmin := order.cumulativeQty.rawMin_le
  have hrange := order.remaining.raw_le
  unfold PaperOrder.applyMatch
  cases hadd : Fixed.checkedAdd order.cumulativeQty result.quantity with
  | none =>
      have hout := Fixed.fromRaw?_eq_none_iff.mp hadd
      omega
  | some next =>
      have hnext := Fixed.checkedAdd_eq_some_iff.mp hadd
      dsimp only
      rw [if_neg (by omega)]
      refine ⟨hnext, rfl, ?_⟩
      rw [PaperOrder.remaining_raw_of_range]
      · show order.originalQty.raw - next.raw = _
        omega
      · show next.raw ≤ order.originalQty.raw
        omega
      · show order.originalQty.raw - next.raw ≤ rawMax
        omega

/-- An order that a match leaves something of rests on. -/
theorem PaperOrder.isResting_applyMatch {order : PaperOrder} (h : order.isResting = true)
    {result : MatchResult} {atNs : Nanos}
    (hleft : 0 < (order.applyMatch result atNs).remaining.raw) :
    (order.applyMatch result atNs).isResting = true := by
  unfold PaperOrder.applyMatch at *
  split at hleft
  · exact h
  · split at hleft
    · rename_i hover
      rwa [if_pos hover]
    · rename_i hwithin
      rw [if_neg hwithin]
      dsimp only at hleft ⊢
      split
      · rename_i hzero
        rw [Fixed.isZero_iff] at hzero
        exact absurd hzero hleft.ne'
      · rfl

/-- The table after an order joins it. -/
def Table.list (t : Table) (order : PaperOrder) : Table :=
  { t with
    orders := t.orders ++ [order]
    byClientId := t.byClientId.insert order.clientOrderId t.orders.length
    byExchangeId := t.byExchangeId.insert order.exchangeOrderId t.orders.length
    nextExchangeSeq := t.nextExchangeSeq + 1
    nextArrivalSeq := t.nextArrivalSeq + 1 }

namespace PaperExecution

variable (v : PaperExecution)

theorem rejectOrder_table (request : OrderRequest) (reason : RejectReason) (delay : Nanos) :
    (v.rejectOrder request reason delay).table = v.table :=
  schedule_table _ _ _

theorem nextTradeId_congr {v w : PaperExecution} (h : v.nextTradeSeq = w.nextTradeSeq) :
    v.nextTradeId = w.nextTradeId := by
  rw [nextTradeId, nextTradeId, h]

/-- What an arriving order takes, if it takes anything. -/
theorem takeOnArrival_cases (index : Nat) (order : PaperOrder) (book : BookView) (delay : Nanos) :
    (v.takeOnArrivalExecutions index order book = [] ∧
      v.takeOnArrival index order book delay = v) ∨
    ∃ e : Execution, 0 < e.result.quantity.raw ∧ e.index = index ∧ e.order = order ∧
      e.result =
        { matchAgainstBook order book v.config.fillModel v.config.queueShareBps with
          liquidity := .taker } ∧
      e.takes = matchTakes order (executableSide book order.side) v.config.fillModel
        v.config.queueShareBps ∧
      e.fill.quantity = e.result.quantity ∧ e.fill.tradeId = v.nextTradeId ∧
      v.takeOnArrivalExecutions index order book = [e] ∧
      (v.takeOnArrival index order book delay).table =
        { v.table with
          orders := v.orders.set index (order.applyMatch e.result v.clock)
          nextTradeSeq := v.nextTradeSeq + 1 } := by
  unfold takeOnArrival takeOnArrivalExecutions
  dsimp only
  split
  · rename_i hpositive
    exact .inr ⟨_, (Fixed.isPositive_iff _).mp hpositive, rfl, rfl, rfl, rfl, rfl, rfl, rfl,
      scheduleFill_table _ _ _ _⟩
  · exact .inl ⟨rfl, rfl⟩

/-- The execution of an arriving order against the book it meets. -/
structure Arrives (request : OrderRequest) (book : BookView) (e : Execution) : Prop where
  known : v.books.lookup request.symbol = some book
  marketable : isMarketableOnArrival (v.arrivingOrder request) book = true
  taker : (v.arrivingOrder request).postOnly = false
  positive : 0 < e.result.quantity.raw
  index : e.index = v.orders.length
  order : e.order = v.arrivingOrder request
  result : e.result =
    { matchAgainstBook e.order book v.config.fillModel v.config.queueShareBps with
      liquidity := .taker }
  takes : e.takes = matchTakes e.order (executableSide book e.order.side) v.config.fillModel
    v.config.queueShareBps
  quantity : e.fill.quantity = e.result.quantity
  tradeId : e.fill.tradeId = v.nextTradeId

/-- A new order is post-only and would cross the book it meets. -/
def crossesPostOnly (request : OrderRequest) : Bool :=
  (v.books.lookup request.symbol).any fun book =>
    isMarketableOnArrival (v.arrivingOrder request) book && (v.arrivingOrder request).postOnly

theorem Arrives.crossesPostOnly {request : OrderRequest} {book : BookView} {e : Execution}
    (h : v.Arrives request book e) : v.crossesPostOnly request = false := by
  rw [PaperExecution.crossesPostOnly, h.known, Option.any_some, h.taker, Bool.and_false]

/-- Everything an accepted order can come to: refused as post-only, listed, or listed
and matched against the book it meets. -/
theorem acceptOrder_cases (request : OrderRequest) (delay : Nanos) :
    (v.crossesPostOnly request = true ∧ v.acceptOrderExecutions request delay = [] ∧
      (v.acceptOrder request delay).table =
        { v.table with
          nextExchangeSeq := v.nextExchangeSeq + 1
          nextArrivalSeq := v.nextArrivalSeq + 1 }) ∨
    (v.crossesPostOnly request = false ∧ v.acceptOrderExecutions request delay = [] ∧
      (v.acceptOrder request delay).table = v.table.list (v.arrivingOrder request)) ∨
    ∃ (book : BookView) (e : Execution), v.Arrives request book e ∧
      v.acceptOrderExecutions request delay = [e] ∧
      (v.acceptOrder request delay).table =
        { v.table.list ((v.arrivingOrder request).applyMatch e.result v.clock) with
          nextTradeSeq := v.nextTradeSeq + 1 } := by
  unfold acceptOrder acceptOrderExecutions crossesPostOnly
  dsimp only
  cases hbook : v.books.lookup request.symbol with
  | none => exact .inr (.inl ⟨rfl, rfl, schedule_table _ _ _⟩)
  | some book =>
      dsimp only
      split
      · rename_i hpassive
        exact .inr (.inl ⟨by simpa using fun h => absurd h (by simpa using hpassive), rfl,
          schedule_table _ _ _⟩)
      rename_i hmarketable
      split
      · rename_i hposts
        left
        refine ⟨by simpa [hposts] using hmarketable, rfl, ?_⟩
        split
        · exact schedule_table _ _ _
        · exact schedule_table _ _ _
      rename_i hposts
      generalize hlisted : PaperExecution.listOrder
        { v with
          nextExchangeSeq := v.nextExchangeSeq + 1
          nextArrivalSeq := v.nextArrivalSeq + 1 } (v.arrivingOrder request) delay = listed
      have htable : listed.table = v.table.list (v.arrivingOrder request) := by
        rw [← hlisted]
        exact schedule_table _ _ _
      have hsetting : listed.setting = v.setting := by
        rw [← hlisted]
        exact schedule_setting _ _ _
      have horders : listed.orders = v.orders ++ [v.arrivingOrder request] :=
        congrArg Table.orders htable
      have htrade : listed.nextTradeSeq = v.nextTradeSeq := congrArg Table.nextTradeSeq htable
      have hconfig : listed.config = v.config := congrArg Setting.config hsetting
      have hclock : listed.clock = v.clock := congrArg Setting.clock hsetting
      rcases listed.takeOnArrival_cases v.orders.length (v.arrivingOrder request) book delay with
        ⟨hnone, hsame⟩ |
          ⟨e, hpositive, hindex, horder, hresult, htakes, hquantity, hid, hsome, hfilled⟩
      · rw [hnone, hsame, htable]
        exact .inr (.inl ⟨by simp [hposts], rfl, rfl⟩)
      · rw [hconfig] at hresult htakes
        refine .inr (.inr ⟨book, e,
          { known := hbook
            marketable := by simpa using hmarketable
            taker := by simpa using hposts
            positive := hpositive
            index := hindex
            order := horder
            result := horder ▸ hresult
            takes := horder ▸ htakes
            quantity := hquantity
            tradeId := hid.trans (nextTradeId_congr htrade) }, hsome, ?_⟩)
        obtain ⟨cumulativeQty, status, lastEventNs, hframe⟩ :=
          (v.arrivingOrder request).applyMatch_frame e.result v.clock
        rw [hfilled, htable, horders, htrade, hclock, List.set_append_right _ _ le_rfl,
          Nat.sub_self, List.set_cons_zero, hframe]
        rfl

/-- A submit is refused, or the order is accepted under an identity no order has. -/
theorem processSubmit_cases (request : OrderRequest) (delay : Nanos) :
    (v.processSubmitExecutions request delay = [] ∧
      (v.processSubmit request delay).table = v.table) ∨
    v.findOrder request.clientOrderId = none ∧
      v.processSubmitExecutions request delay = v.acceptOrderExecutions request delay ∧
      v.processSubmit request delay = v.acceptOrder request delay := by
  unfold processSubmit processSubmitExecutions
  dsimp only
  split
  · exact .inl ⟨rfl, schedule_table _ _ _⟩
  split
  · exact .inl ⟨rfl, rejectOrder_table _ _ _ _⟩
  split
  · exact .inl ⟨rfl, rejectOrder_table _ _ _ _⟩
  · rename_i hnew
    exact .inr ⟨by simpa using hnew, rfl, rfl⟩

/-- A cancel marks an order that is not finished, or marks none. -/
theorem processCancel_cases (request : CancelRequest) (delay : Nanos) :
    (v.processCancel request delay).table = v.table ∨
    ∃ index order, v.cancelTarget request = some (index, order) ∧
      (v.processCancel request delay).table =
        { v.table with orders := v.orders.set index { order with cancelPending := true } } := by
  unfold processCancel
  dsimp only
  cases htarget : v.cancelTarget request with
  | none => exact .inl (schedule_table _ _ _)
  | some found =>
      obtain ⟨index, order⟩ := found
      dsimp only
      split
      · exact .inl (schedule_table _ _ _)
      split
      · exact .inl (schedule_table _ _ _)
      · exact .inr ⟨index, order, rfl, schedule_table _ _ _⟩

/-- A replace swaps a resting order that has not filled beyond the new quantity, or
swaps none. -/
theorem processReplace_cases (request : ReplaceRequest) (delay : Nanos) :
    (v.processReplace request delay).table = v.table ∨
    ∃ index order, v.findOrder request.originalClientOrderId = some (index, order) ∧
      order.isResting = true ∧ order.cumulativeQty.raw ≤ request.newQuantity.raw ∧
      (v.processReplace request delay).table =
        (v.swapOrder index order (v.replacedOrder order request)).table := by
  unfold processReplace
  dsimp only
  cases htarget : (v.findOrder request.originalClientOrderId).filter
      fun found => found.2.isResting with
  | none => exact .inl (schedule_table _ _ _)
  | some found =>
      obtain ⟨index, order⟩ := found
      obtain ⟨hfind, hresting⟩ := Option.filter_eq_some_iff.mp htarget
      dsimp only
      split
      · exact .inl (schedule_table _ _ _)
      split
      · exact .inl (schedule_table _ _ _)
      · rename_i hquantity
        exact .inr ⟨index, order, hfind, hresting, by omega, schedule_table _ _ _⟩

/-- Everything processing a request can do to the orders and execute. -/
theorem processRequest_cases (pending : PendingRequest) :
    (v.requestExecutions pending = [] ∧ (v.processRequest pending).table = v.table) ∨
    (∃ request, pending.request = .submit request ∧
      v.findOrder request.clientOrderId = none ∧
      ((v.requestExecutions pending = [] ∧
          (v.processRequest pending).table =
            { v.table with
              nextExchangeSeq := v.nextExchangeSeq + 1
              nextArrivalSeq := v.nextArrivalSeq + 1 }) ∨
        (v.requestExecutions pending = [] ∧
          (v.processRequest pending).table = v.table.list (v.arrivingOrder request)) ∨
        ∃ (book : BookView) (e : Execution), v.Arrives request book e ∧
          v.requestExecutions pending = [e] ∧
          (v.processRequest pending).table =
            { v.table.list ((v.arrivingOrder request).applyMatch e.result v.clock) with
              nextTradeSeq := v.nextTradeSeq + 1 })) ∨
    (∃ request index order, pending.request = .cancel request ∧
      v.cancelTarget request = some (index, order) ∧ v.requestExecutions pending = [] ∧
      (v.processRequest pending).table =
        { v.table with orders := v.orders.set index { order with cancelPending := true } }) ∨
    ∃ request index order, pending.request = .replace request ∧
      v.findOrder request.originalClientOrderId = some (index, order) ∧
      order.isResting = true ∧ order.cumulativeQty.raw ≤ request.newQuantity.raw ∧
      v.requestExecutions pending = [] ∧
      (v.processRequest pending).table =
        (v.swapOrder index order (v.replacedOrder order request)).table := by
  unfold processRequest requestExecutions
  generalize hv : { v with processingArrivalNs := pending.dueNs } = w
  have htable : w.table = v.table := by rw [← hv]; rfl
  cases hrequest : pending.request with
  | submit request =>
      rcases w.processSubmit_cases request pending.decisionDelayNs with
        ⟨hnone, hsame⟩ | ⟨hfree, hexecutions, haccept⟩
      · exact .inl ⟨hnone, hsame.trans htable⟩
      · refine .inr (.inl ⟨request, rfl, by rw [← hfree, ← hv]; rfl, ?_⟩)
        dsimp only
        rw [hexecutions, haccept]
        rcases w.acceptOrder_cases request pending.decisionDelayNs with
          ⟨-, hnone, hburnt⟩ | ⟨-, hnone, hlisted⟩ | ⟨book, e, harrives, hsome, hfilled⟩
        · exact .inl ⟨hnone, hburnt.trans (by rw [← hv]; rfl)⟩
        · exact .inr (.inl ⟨hnone, hlisted.trans (by rw [← hv]; rfl)⟩)
        · refine .inr (.inr ⟨book, e, ?_, hsome, hfilled.trans (by rw [← hv]; rfl)⟩)
          rw [← hv] at harrives
          exact { harrives with }
  | cancel request =>
      rcases w.processCancel_cases request pending.decisionDelayNs with
        hsame | ⟨index, order, htarget, hmarked⟩
      · exact .inl ⟨rfl, hsame.trans htable⟩
      · exact .inr (.inr (.inl ⟨request, index, order, rfl, by rw [← htarget, ← hv]; rfl, rfl,
          hmarked.trans (by rw [← hv]; rfl)⟩))
  | replace request =>
      rcases w.processReplace_cases request pending.decisionDelayNs with
        hsame | ⟨index, order, hfind, hresting, hquantity, hswapped⟩
      · exact .inl ⟨rfl, hsame.trans htable⟩
      · exact .inr (.inr (.inr ⟨request, index, order, rfl, by rw [← hfind, ← hv]; rfl, hresting,
          hquantity, rfl, hswapped.trans (by rw [← hv]; rfl)⟩))

theorem takeOnArrival_setting (index : Nat) (order : PaperOrder) (book : BookView)
    (delay : Nanos) : (v.takeOnArrival index order book delay).setting = v.setting := by
  unfold takeOnArrival
  dsimp only
  split
  · exact scheduleFill_setting _ _ _ _
  · rfl

theorem acceptOrder_setting (request : OrderRequest) (delay : Nanos) :
    (v.acceptOrder request delay).setting = v.setting := by
  unfold acceptOrder
  dsimp only
  cases v.books.lookup request.symbol with
  | none => exact schedule_setting _ _ _
  | some book =>
      dsimp only
      split
      · exact schedule_setting _ _ _
      split
      · split
        · exact schedule_setting _ _ _
        · exact schedule_setting _ _ _
      · exact (takeOnArrival_setting _ _ _ _ _).trans (schedule_setting _ _ _)

theorem processSubmit_setting (request : OrderRequest) (delay : Nanos) :
    (v.processSubmit request delay).setting = v.setting := by
  unfold processSubmit
  dsimp only
  split
  · exact schedule_setting _ _ _
  split
  · exact schedule_setting _ _ _
  split
  · exact schedule_setting _ _ _
  · exact v.acceptOrder_setting request delay

theorem processCancel_setting (request : CancelRequest) (delay : Nanos) :
    (v.processCancel request delay).setting = v.setting := by
  unfold processCancel
  dsimp only
  split
  · exact schedule_setting _ _ _
  split
  · exact schedule_setting _ _ _
  split
  · exact schedule_setting _ _ _
  · exact schedule_setting _ _ _

theorem processReplace_setting (request : ReplaceRequest) (delay : Nanos) :
    (v.processReplace request delay).setting = v.setting := by
  unfold processReplace
  dsimp only
  split
  · exact schedule_setting _ _ _
  split
  · exact schedule_setting _ _ _
  split
  · exact schedule_setting _ _ _
  · exact schedule_setting _ _ _

/-- Processing a request leaves everything around the orders as it is. -/
theorem processRequest_setting (pending : PendingRequest) :
    (v.processRequest pending).setting = v.setting := by
  unfold processRequest
  cases pending.request with
  | submit request => exact processSubmit_setting _ _ _
  | cancel request => exact processCancel_setting _ _ _
  | replace request => exact processReplace_setting _ _ _

end PaperExecution

namespace Sweep

open PaperExecution

variable (now : Nanos) (sweep : Sweep) (index : Nat)

theorem matchOrder_of_resting {order : PaperOrder}
    (horder : sweep.venue.orders[index]? = some order)
    (hresting : order.isResting = true) :
    sweep.matchOrder now index =
      let matched := matchAndConsume order (sweep.available order.side)
        sweep.venue.config.fillModel sweep.venue.config.queueShareBps
      { venue :=
          if matched.1.quantity.isPositive then
            (sweep.venue.setOrder index (order.applyMatch matched.1 now)).scheduleFill
              (order.applyMatch matched.1 now) matched.1 sweep.venue.config.latency.fillNs
          else sweep.venue
        asksAvailable := if order.side = .buy then matched.2 else sweep.asksAvailable
        bidsAvailable := if order.side = .buy then sweep.bidsAvailable else matched.2 } := by
  unfold matchOrder
  rw [horder]
  dsimp only
  rw [if_neg (by simp [hresting])]
  rfl

/-- Everything a sweep can do at a position: pass it over, match its order in vain,
or match it and report what it took. -/
theorem matchOrder_cases :
    ((∀ order, sweep.venue.orders[index]? = some order → order.isResting = false) ∧
      sweep.orderExecutions now index = [] ∧ sweep.matchOrder now index = sweep) ∨
    ∃ order, sweep.venue.orders[index]? = some order ∧ order.isResting = true ∧
      ∃ matched, matched = matchAndConsume order (sweep.available order.side)
          sweep.venue.config.fillModel sweep.venue.config.queueShareBps ∧
        (sweep.matchOrder now index).available order.side = matched.2 ∧
        (∀ side, side ≠ order.side →
          (sweep.matchOrder now index).available side = sweep.available side) ∧
        ((sweep.orderExecutions now index = [] ∧ matched.1.quantity.raw ≤ 0 ∧
            (sweep.matchOrder now index).venue = sweep.venue) ∨
          ∃ e : Execution, sweep.orderExecutions now index = [e] ∧ 0 < matched.1.quantity.raw ∧
            e.index = index ∧ e.order = order ∧ e.result = matched.1 ∧
            e.takes = matchTakes order (sweep.available order.side)
              sweep.venue.config.fillModel sweep.venue.config.queueShareBps ∧
            e.fill.quantity = e.result.quantity ∧ e.fill.tradeId = sweep.venue.nextTradeId ∧
            (sweep.matchOrder now index).venue.table =
              { sweep.venue.table with
                orders := sweep.venue.orders.set index (order.applyMatch e.result now)
                nextTradeSeq := sweep.venue.nextTradeSeq + 1 }) := by
  cases horder : sweep.venue.orders[index]? with
  | none => simp [orderExecutions, matchOrder, horder]
  | some order =>
      by_cases hresting : order.isResting = true
      · right
        rw [sweep.matchOrder_of_resting now index horder hresting]
        refine ⟨order, rfl, hresting, _, rfl, ?_, ?_, ?_⟩
        · cases hside : order.side with
          | buy => simp [available]
          | sell => simp [available]
        · intro side hside
          cases side with
          | buy => simp [available, Ne.symm hside]
          | sell =>
              have hbuy : order.side = .buy := by
                cases hother : order.side with
                | buy => rfl
                | sell => exact absurd hother.symm hside
              simp [available, hbuy]
        · have hbusy : ¬(!order.isResting) = true := by simp [hresting]
          unfold orderExecutions
          rw [horder]
          dsimp only
          rw [if_neg hbusy]
          split
          · rename_i hpositive
            exact .inr ⟨_, rfl, (Fixed.isPositive_iff _).mp hpositive, rfl, rfl, rfl, rfl, rfl, rfl,
              scheduleFill_table _ _ _ _⟩
          · rename_i hnone
            exact .inl ⟨rfl, by simpa using hnone, rfl⟩
      · simp [orderExecutions, matchOrder, horder, Bool.not_eq_true _ |>.mp hresting]

theorem matchOrder_setting :
    (sweep.matchOrder now index).venue.setting = sweep.venue.setting := by
  cases horder : sweep.venue.orders[index]? with
  | none => simp [matchOrder, horder]
  | some order =>
      by_cases hresting : order.isResting = true
      · rw [sweep.matchOrder_of_resting now index horder hresting]
        dsimp only
        split
        · exact scheduleFill_setting _ _ _ _
        · rfl
      · simp [matchOrder, horder, hresting]

theorem foldl_matchOrder_setting (indices : List Nat) :
    (indices.foldl (matchOrder now) sweep).venue.setting = sweep.venue.setting := by
  induction indices generalizing sweep with
  | nil => rfl
  | cons index indices ih => exact (ih _).trans (sweep.matchOrder_setting now index)

end Sweep

namespace PaperExecution

variable (v : PaperExecution)

theorem matchSymbol_of_fresh {symbol : Symbol} {now : Nanos} {book : BookView}
    (hbook : v.books.lookup symbol = some book) (hvalid : book.isValid = true)
    (hage : now - (v.bookUpdatedNs.lookup symbol).getD 0 ≤ v.config.maxBookAgeNs) :
    v.matchSymbolExecutions symbol now =
        Sweep.executions now (v.matchingOrder symbol) (v.sweepOf book) ∧
      v.matchSymbol symbol now =
        ((v.matchingOrder symbol).foldl (Sweep.matchOrder now) (v.sweepOf book)).venue := by
  unfold matchSymbol matchSymbolExecutions
  have hlet : ¬(!book.isValid) = true := by simp [hvalid]
  rw [hbook]
  dsimp only
  simp only [if_neg hlet, if_neg (not_lt.mpr hage)]
  exact ⟨trivial, rfl⟩

/-- A market update is let through to a valid book that is not too old, or it
matches nothing. -/
theorem matchSymbol_cases (symbol : Symbol) (now : Nanos) :
    (v.matchSymbolExecutions symbol now = [] ∧ (v.matchSymbol symbol now).table = v.table) ∨
    ∃ book, v.books.lookup symbol = some book ∧ book.isValid = true ∧
      now - (v.bookUpdatedNs.lookup symbol).getD 0 ≤ v.config.maxBookAgeNs ∧
      v.matchSymbolExecutions symbol now =
        Sweep.executions now (v.matchingOrder symbol) (v.sweepOf book) ∧
      v.matchSymbol symbol now =
        ((v.matchingOrder symbol).foldl (Sweep.matchOrder now) (v.sweepOf book)).venue := by
  unfold matchSymbol matchSymbolExecutions
  cases v.books.lookup symbol with
  | none => exact .inl ⟨rfl, rfl⟩
  | some book =>
      dsimp only
      split
      · exact .inl ⟨rfl, rfl⟩
      rename_i hvalid
      split
      · exact .inl ⟨rfl, rfl⟩
      · rename_i hfresh
        exact .inr ⟨book, rfl, by simpa using hvalid, not_lt.mp hfresh, rfl, rfl⟩

theorem matchSymbol_setting (symbol : Symbol) (now : Nanos) :
    (v.matchSymbol symbol now).setting = v.setting := by
  unfold matchSymbol
  cases v.books.lookup symbol with
  | none => rfl
  | some book =>
      dsimp only
      split
      · rfl
      split
      · rfl
      · exact Sweep.foldl_matchOrder_setting now (v.sweepOf book) _

/-! ## What a poll leaves alone -/

theorem resolvePendingCancel_setting (cancel : OrderCancelEvent) :
    (v.resolvePendingCancel cancel).2.setting = v.setting := by
  unfold resolvePendingCancel
  split
  · rfl
  dsimp only
  split
  · rfl
  split
  · rfl
  · rfl

theorem deliver_setting (event : ExecutionEvent) : (v.deliver event).2.setting = v.setting := by
  unfold deliver
  cases event with
  | orderCancel cancel =>
      dsimp only
      split
      · exact v.resolvePendingCancel_setting cancel
      · rfl
  | _ => rfl

theorem deliverAll_setting (events : List ExecutionEvent) :
    (deliverAll events v).2.setting = v.setting := by
  induction events generalizing v with
  | nil => rfl
  | cons event events ih => exact (ih _).trans (v.deliver_setting event)

theorem foldl_processRequest_setting (requests : List PendingRequest) :
    (requests.foldl processRequest v).setting = v.setting := by
  induction requests generalizing v with
  | nil => rfl
  | cons pending later ih => exact (ih _).trans (v.processRequest_setting pending)

/-- A poll takes the requests that have arrived off their way and leaves the rest of
the setting as it is. -/
theorem poll_setting (hstarted : v.started = true) :
    v.poll.2.setting =
      { v.setting with
        inFlight := v.inFlight.filter fun request => ¬ request.dueNs ≤ v.clock } := by
  unfold poll
  rw [if_neg (by simp [hstarted])]
  dsimp only
  rw [deliverAll_setting]
  exact foldl_processRequest_setting
    { v with inFlight := v.inFlight.filter fun request => ¬ request.dueNs ≤ v.clock } v.arrived

end PaperExecution

/-- What the venue checks of a request before it takes it. -/
def Request.Positive : Request → Prop
  | .submit request => 0 < request.price.raw ∧ 0 < request.quantity.raw
  | .cancel _ => True
  | .replace request => 0 < request.newPrice.raw ∧ 0 < request.newQuantity.raw

namespace PaperExecution

/-- Every request on its way passed the checks of its call. -/
def Asks (v : PaperExecution) : Prop := ∀ pending ∈ v.inFlight, pending.request.Positive

variable {v : PaperExecution}

theorem Asks.of_setting {w : PaperExecution} (h : v.Asks) (hsetting : w.setting = v.setting) :
    w.Asks := by
  have hinFlight : w.inFlight = v.inFlight := congrArg Setting.inFlight hsetting
  rw [Asks, hinFlight]
  exact h

theorem Asks.takeRequest (h : v.Asks) (request : Request) (hpositive : request.Positive)
    (delay : Nanos) : (v.takeRequest request delay).Asks := by
  unfold PaperExecution.takeRequest
  split
  · intro pending hmem
    rcases List.mem_append.mp hmem with hold | hnew
    · exact h pending hold
    · rw [List.mem_singleton.mp hnew]
      exact hpositive
  · exact h

theorem Asks.submit (h : v.Asks) (request : OrderRequest) : (v.submit request).2.Asks := by
  unfold PaperExecution.submit
  repeat' split
  all_goals first | exact h | skip
  rename_i hpositive
  simp only [Bool.or_eq_true, Bool.not_eq_true', Fixed.isPositive_eq_false_iff, not_or,
    not_le] at hpositive
  exact Asks.takeRequest (v := v.count _) h (.submit request) hpositive _

theorem Asks.cancel (h : v.Asks) (request : CancelRequest) : (v.cancel request).2.Asks := by
  unfold PaperExecution.cancel
  repeat' split
  all_goals first | exact h | skip
  exact Asks.takeRequest (v := v.count _) h (.cancel request) trivial _

theorem Asks.replace (h : v.Asks) (request : ReplaceRequest) : (v.replace request).2.Asks := by
  unfold PaperExecution.replace
  repeat' split
  all_goals first | exact h | skip
  rename_i hpositive _
  simp only [Bool.or_eq_true, Bool.not_eq_true', Fixed.isPositive_eq_false_iff, not_or,
    not_le] at hpositive
  exact Asks.takeRequest (v := v.count _) h (.replace request) hpositive _

theorem Asks.cancelEach (symbol : Symbol) (orders : List PaperOrder) (h : v.Asks) :
    (cancelEach symbol orders v).2.Asks := by
  induction orders generalizing v with
  | nil => exact h
  | cons order orders ih =>
      rw [PaperExecution.cancelEach]
      split
      · exact ih h
      dsimp only
      split
      · exact h.cancel _
      · exact ih (h.cancel _)

theorem scheduleEach_setting (delay : Nanos) (event : ExecutionEvent) (chunks : Nat)
    (v : PaperExecution) : (scheduleEach delay event chunks v).setting = v.setting := by
  induction chunks generalizing v with
  | zero => rfl
  | succ chunks ih => exact (ih _).trans (v.schedule_setting delay event)

/-- Whatever the call, a request that is on its way passed its checks. -/
theorem Asks.step (op : Op) (h : v.Asks) : (step op v).Asks := by
  cases op with
  | start =>
      show v.start.2.Asks
      unfold PaperExecution.start setConnection
      dsimp only
      repeat' split
      all_goals exact h
  | stop =>
      show v.stop.2.Asks
      unfold PaperExecution.stop setConnection
      dsimp only
      repeat' split
      all_goals first | exact h | exact fun pending hmem => absurd hmem List.not_mem_nil
  | setConnection state =>
      show (v.setConnection state).2.Asks
      unfold PaperExecution.setConnection
      split
      · exact h
      · exact h
  | setAuthenticated authenticated => exact h
  | inject faults => exact h
  | submit request => exact h.submit request
  | cancel request => exact h.cancel request
  | cancelAll symbol =>
      show (v.cancelAll symbol).2.Asks
      unfold PaperExecution.cancelAll
      split
      · exact h
      · exact h.cancelEach symbol v.orders
  | replace request => exact h.replace request
  | queryOpenOrders symbol =>
      show (v.queryOpenOrders symbol).2.Asks
      unfold PaperExecution.queryOpenOrders
      split
      · exact h
      · exact h.of_setting (scheduleEach_setting _ _ _ _)
  | queryOrder clientOrderId exchangeOrderId =>
      show (v.queryOrder clientOrderId exchangeOrderId).2.Asks
      unfold PaperExecution.queryOrder
      split
      · exact h
      split
      · exact h.of_setting (schedule_setting _ _ _)
      · exact h.of_setting (schedule_setting _ _ _)
  | attachBook symbol book => exact h
  | onMarketUpdate symbol updateNs =>
      have hsetting := matchSymbol_setting
        { v with bookUpdatedNs := v.bookUpdatedNs.insert symbol updateNs } symbol v.clock
      have hinFlight : (v.onMarketUpdate symbol updateNs).inFlight = v.inFlight :=
        congrArg Setting.inFlight hsetting
      show (v.onMarketUpdate symbol updateNs).Asks
      rw [Asks, hinFlight]
      exact h
  | poll =>
      show v.poll.2.Asks
      by_cases hstarted : v.started = true
      · have hinFlight : v.poll.2.inFlight =
            v.inFlight.filter fun request => ¬ request.dueNs ≤ v.clock :=
          congrArg Setting.inFlight (v.poll_setting hstarted)
        rw [Asks, hinFlight]
        exact fun pending hmem => h pending (List.mem_of_mem_filter hmem)
      · have hidle : v.poll = ([], v) := if_pos (by simpa using hstarted)
        rw [hidle]
        exact h
  | advance elapsed => exact h
  | setWall wall => exact h

/-- Only a new order executes as it is processed. -/
theorem arrives_of_mem_requestExecutions {pending : PendingRequest} {e : Execution}
    (h : e ∈ v.requestExecutions pending) :
    ∃ (request : OrderRequest) (book : BookView),
      pending.request = .submit request ∧ v.Arrives request book e := by
  rcases v.processRequest_cases pending with ⟨hnone, -⟩ |
    ⟨request, hrequest, -, ⟨hnone, -⟩ | ⟨hnone, -⟩ | ⟨book, made, harrives, hsome, -⟩⟩ |
    ⟨-, -, -, -, -, hnone, -⟩ | ⟨-, -, -, -, -, -, -, hnone, -⟩
  all_goals first
    | rw [hnone] at h
      exact absurd h List.not_mem_nil
    | rw [hsome] at h
      rw [List.mem_singleton.mp h]
      exact ⟨request, book, hrequest, harrives⟩

theorem arrives_of_mem_requestsExecutions {requests : List PendingRequest} {e : Execution}
    (h : e ∈ requestsExecutions requests v) :
    ∃ (w : PaperExecution) (request : OrderRequest) (book : BookView),
      w.setting = v.setting ∧ w.Arrives request book e := by
  induction requests generalizing v with
  | nil => exact absurd h List.not_mem_nil
  | cons pending later ih =>
      rcases List.mem_append.mp h with hfirst | hlater
      · obtain ⟨request, book, -, harrives⟩ := arrives_of_mem_requestExecutions hfirst
        exact ⟨v, request, book, rfl, harrives⟩
      · obtain ⟨w, request, book, hsetting, harrives⟩ := ih hlater
        exact ⟨w, request, book, hsetting.trans (v.processRequest_setting pending), harrives⟩

theorem arrives_of_mem_pollExecutions {e : Execution} (h : e ∈ v.pollExecutions) :
    ∃ (w : PaperExecution) (request : OrderRequest) (book : BookView),
      w.config = v.config ∧ w.clock = v.clock ∧ w.books = v.books ∧
        w.bookUpdatedNs = v.bookUpdatedNs ∧ w.Arrives request book e := by
  unfold pollExecutions at h
  split at h
  · exact absurd h List.not_mem_nil
  · obtain ⟨w, request, book, hsetting, harrives⟩ := arrives_of_mem_requestsExecutions h
    exact ⟨w, request, book, congrArg Setting.config hsetting, congrArg Setting.clock hsetting,
      congrArg Setting.books hsetting, congrArg Setting.bookUpdatedNs hsetting, harrives⟩

theorem mem_arrived {pending : PendingRequest} (h : pending ∈ v.arrived) :
    pending ∈ v.inFlight ∧ pending.dueNs ≤ v.clock := by
  rw [arrived, List.mem_insertionSort, List.mem_filter] at h
  exact ⟨h.1, of_decide_eq_true h.2⟩

section Keeps

variable {P : Table → Prop}
  (hrequest : ∀ (w : PaperExecution) (pending : PendingRequest), pending.request.Positive →
    P w.table → P (w.processRequest pending).table)
  (hsettle : ∀ (w : PaperExecution) (cancel : OrderCancelEvent), P w.table →
    P (w.resolvePendingCancel cancel).2.table)
  (hmatch : ∀ (now : Nanos) (sweep : Sweep) (index : Nat), P sweep.venue.table →
    P (sweep.matchOrder now index).venue.table)

include hrequest in
theorem foldl_processRequest_keeps {requests : List PendingRequest}
    (hrequests : ∀ pending ∈ requests, pending.request.Positive) (h : P v.table) :
    P (requests.foldl processRequest v).table := by
  induction requests generalizing v with
  | nil => exact h
  | cons pending later ih =>
      rw [List.forall_mem_cons] at hrequests
      exact ih hrequests.2 (hrequest v pending hrequests.1 h)

include hsettle in
theorem deliverAll_keeps (events : List ExecutionEvent) (h : P v.table) :
    P (deliverAll events v).2.table := by
  induction events generalizing v with
  | nil => exact h
  | cons event events ih =>
      apply ih
      unfold deliver
      cases event with
      | orderCancel cancel =>
          dsimp only
          split
          · exact hsettle v cancel h
          · exact h
      | _ => exact h

include hmatch in
theorem foldl_matchOrder_keeps (now : Nanos) (indices : List Nat) {sweep : Sweep}
    (h : P sweep.venue.table) : P (indices.foldl (Sweep.matchOrder now) sweep).venue.table := by
  induction indices generalizing sweep with
  | nil => exact h
  | cons index indices ih => exact ih (hmatch now sweep index h)

include hrequest hsettle hmatch in
/-- What processing a request, settling a cancel and matching an order keep of the
table, every call keeps. -/
theorem step_keeps (op : Op) (hasks : v.Asks) (h : P v.table) : P (step op v).table := by
  by_cases hpoll : op = .poll
  · subst hpoll
    show P v.poll.2.table
    unfold poll
    split
    · exact h
    · apply deliverAll_keeps hsettle
      exact foldl_processRequest_keeps
        (v := { v with inFlight := v.inFlight.filter fun request => ¬ request.dueNs ≤ v.clock })
        hrequest (fun pending hmem => hasks pending (mem_arrived hmem).1) h
  by_cases hupdate : ∃ symbol updateNs, op = .onMarketUpdate symbol updateNs
  · obtain ⟨symbol, updateNs, rfl⟩ := hupdate
    show P (v.onMarketUpdate symbol updateNs).table
    rcases matchSymbol_cases { v with bookUpdatedNs := v.bookUpdatedNs.insert symbol updateNs }
      symbol v.clock with ⟨-, hsame⟩ | ⟨book, -, -, -, -, hswept⟩
    · rw [onMarketUpdate, hsame]
      exact h
    · rw [onMarketUpdate, hswept]
      exact foldl_matchOrder_keeps hmatch v.clock _ h
  · rw [v.step_table hpoll fun symbol updateNs heq => hupdate ⟨symbol, updateNs, heq⟩]
    exact h

end Keeps

end PaperExecution

namespace Sample

def symbol : Symbol := ⟨"ADAUSDT".toList, by decide⟩

def clientId (c : Char) : ClientOrderId := ⟨[c], Nat.le_of_ble_eq_true rfl⟩

/-- A limit order with a one-letter identity. -/
def request (c : Char) (side : Side) (price : Px) (quantity : Qty) : OrderRequest where
  clientOrderId := clientId c
  symbol := symbol
  side := side
  type := .limit
  tif := .gtc
  price := price
  quantity := quantity
  postOnly := false
  createdNs := 0

def price : Px := ⟨100, by decide, by decide⟩

theorem rawMin_le_one : rawMin ≤ 1 := by decide

theorem one_le_rawMax : 1 ≤ rawMax := by decide

def one : Qty := ⟨1, rawMin_le_one, one_le_rawMax⟩

theorem raw_one_pos : 0 < one.raw := by decide

def three : Qty := ⟨3, by decide, by decide⟩

theorem raw_three_pos : 0 < three.raw := by decide

def four : Qty := ⟨4, by decide, by decide⟩

/-- One displayed offer. -/
def offer (quantity : Qty) (h : 0 < quantity.raw) : BookView where
  isValid := true
  bids := []
  asks := [⟨price, quantity⟩]
  positive := List.forall_mem_singleton.mpr ⟨show (0 : Int) < 100 by decide, h⟩

/-- A venue that answers at once and lets an order take everything displayed. -/
def config : PaperExecutionConfig where
  latency := ⟨0, 0, 0, 0, 0, 0⟩
  queueShareBps := 10000

/-- Two bids for three resting against an offer of four. -/
def bids : List PaperExecution.Op :=
  [.start, .submit (request 'a' .buy price three), .submit (request 'b' .buy price three), .poll,
    .attachBook symbol (offer four (by decide))]

def twoBids : PaperExecution := Machine.run PaperExecution.step bids (.init config 0 0)

end Sample

end MmEngine.Exchange.Paper
