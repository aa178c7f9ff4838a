/-
# The venue's accounting of fills

An order's cumulative quantity moves by its executions and by nothing else. A
replacement carries it over, a cancel leaves it, and each execution moves it by the
quantity of the fill that is scheduled, because no match is larger than what its
order has left. Fills are numbered as they are made, and a trade identity is the
numeral of its number in 64 bits.
-/

import MmEngine.Exchange.Paper.Executions
import MmEngine.Exchange.Paper.MintedText

namespace MmEngine.Exchange.Paper

/-- What the order at a position has filled, zero where there is none. -/
def cumulativeAt (orders : List PaperOrder) (i : Nat) : Int :=
  ((orders[i]?).map fun order => order.cumulativeQty.raw).getD 0

/-- The fills scheduled for the order at a position. -/
def fillsAt (executions : List Execution) (i : Nat) : List FillEvent :=
  (executions.filter fun e => e.index = i).map Execution.fill

/-- The quantity of the fills scheduled for the order at a position. -/
def filledAt (executions : List Execution) (i : Nat) : Int :=
  ((fillsAt executions i).map fun fill => fill.quantity.raw).sum

@[simp]
theorem filledAt_nil (i : Nat) : filledAt [] i = 0 := rfl

theorem filledAt_append (earlier later : List Execution) (i : Nat) :
    filledAt (earlier ++ later) i = filledAt earlier i + filledAt later i := by
  simp [filledAt, fillsAt]

theorem filledAt_singleton (e : Execution) (i : Nat) :
    filledAt [e] i = if e.index = i then e.fill.quantity.raw else 0 := by
  by_cases h : e.index = i
  · simp [filledAt, fillsAt, h]
  · simp [filledAt, fillsAt, h]

theorem cumulativeAt_set {orders : List PaperOrder} {index : Nat} {order : PaperOrder}
    (horder : orders[index]? = some order) (after : PaperOrder) (i : Nat) :
    cumulativeAt (orders.set index after) i =
      cumulativeAt orders i +
        if index = i then after.cumulativeQty.raw - order.cumulativeQty.raw else 0 := by
  obtain ⟨hlt, -⟩ := List.getElem?_eq_some_iff.mp horder
  unfold cumulativeAt
  by_cases h : index = i
  · subst h
    rw [List.getElem?_set_self hlt, horder, if_pos rfl]
    show after.cumulativeQty.raw = order.cumulativeQty.raw + _
    omega
  · rw [List.getElem?_set_ne h, if_neg h, add_zero]

theorem cumulativeAt_concat (orders : List PaperOrder) (order : PaperOrder) (i : Nat) :
    cumulativeAt (orders ++ [order]) i =
      cumulativeAt orders i + if orders.length = i then order.cumulativeQty.raw else 0 := by
  unfold cumulativeAt
  rcases lt_trichotomy i orders.length with h | h | h
  · rw [List.getElem?_append_left h, if_neg h.ne', add_zero]
  · subst h
    simp
  · rw [List.getElem?_eq_none (by simp; omega), List.getElem?_eq_none (by omega), if_neg h.ne]
    rfl

/-- Orders changed in place and in nothing they have filled. -/
theorem cumulativeAt_set_same {orders : List PaperOrder} {index : Nat} {order : PaperOrder}
    (horder : orders[index]? = some order) {after : PaperOrder}
    (hsame : after.cumulativeQty = order.cumulativeQty) (i : Nat) :
    cumulativeAt (orders.set index after) i = cumulativeAt orders i := by
  rw [cumulativeAt_set horder, hsame, sub_self, ite_self, add_zero]

namespace PaperExecution

variable {v : PaperExecution}

theorem getElem?_of_findOrder {id : ClientOrderId} {index : Nat} {order : PaperOrder}
    (h : v.findOrder id = some (index, order)) :
    v.byClientId.lookup id = some index ∧ v.orders[index]? = some order := by
  obtain ⟨position, hlookup, hentry⟩ := Option.bind_eq_some_iff.mp h
  obtain ⟨found, hfound, heq⟩ := Option.map_eq_some_iff.mp hentry
  cases heq
  exact ⟨hlookup, hfound⟩

theorem getElem?_of_findOrderByExchangeId {id : ExchangeOrderId} {index : Nat}
    {order : PaperOrder} (h : v.findOrderByExchangeId id = some (index, order)) :
    v.orders[index]? = some order := by
  obtain ⟨position, -, hentry⟩ := Option.bind_eq_some_iff.mp h
  obtain ⟨found, hfound, heq⟩ := Option.map_eq_some_iff.mp hentry
  cases heq
  exact hfound

theorem getElem?_of_cancelTarget {request : CancelRequest} {index : Nat} {order : PaperOrder}
    (h : v.cancelTarget request = some (index, order)) : v.orders[index]? = some order := by
  rcases Option.or_eq_some_iff.mp h with hclient | ⟨-, hexchange⟩
  · exact (getElem?_of_findOrder hclient).2
  · split at hexchange
    · cases hexchange
    · exact getElem?_of_findOrderByExchangeId hexchange

theorem Arrives.wanted {request : OrderRequest} {book : BookView} {e : Execution}
    (h : v.Arrives request book e) :
    e.result.quantity.raw ≤ (v.arrivingOrder request).remaining.raw := by
  have hpositive := h.positive
  rw [h.result, h.order] at hpositive ⊢
  dsimp only at hpositive ⊢
  unfold matchAgainstBook at *
  split at hpositive
  · exact absurd hpositive (lt_irrefl 0)
  · rename_i hvalid
    rw [if_neg hvalid]
    exact (matchAndConsume_wanted _ _ _ hpositive).2

/-- What an arriving order executes is what it has filled when it is listed. -/
theorem Arrives.filled {request : OrderRequest} {book : BookView} {e : Execution}
    (h : v.Arrives request book e) :
    ((v.arrivingOrder request).applyMatch e.result v.clock).cumulativeQty.raw =
      e.fill.quantity.raw := by
  rw [(PaperOrder.applyMatch_spec h.positive h.wanted v.clock).1, h.quantity]
  exact zero_add _

/-- Processing a request moves what an order has filled by the fills it schedules. -/
theorem processRequest_accounts (v : PaperExecution) (pending : PendingRequest) (i : Nat) :
    cumulativeAt (v.processRequest pending).orders i =
      cumulativeAt v.orders i + filledAt (v.requestExecutions pending) i := by
  rcases v.processRequest_cases pending with ⟨hnone, htable⟩ |
    ⟨request, -, -, ⟨hnone, htable⟩ | ⟨hnone, htable⟩ | ⟨book, e, harrives, hsome, htable⟩⟩ |
    ⟨request, index, order, -, htarget, hnone, htable⟩ |
    ⟨request, index, order, -, hfind, -, -, hnone, htable⟩
  all_goals
    have horders := congrArg Table.orders htable
    dsimp only [table] at horders
    rw [horders]
  · rw [hnone, filledAt_nil, add_zero]
  · rw [hnone, filledAt_nil, add_zero]
  · rw [hnone, filledAt_nil]
    show cumulativeAt (v.orders ++ [v.arrivingOrder request]) i = _
    rw [cumulativeAt_concat]
    show _ + (if _ then (0 : Int) else 0) = _
    rw [ite_self]
  · show cumulativeAt (v.orders ++ [_]) i = _
    rw [cumulativeAt_concat, hsome, filledAt_singleton, harrives.filled, harrives.index]
  · rw [hnone, filledAt_nil, add_zero]
    exact cumulativeAt_set_same (getElem?_of_cancelTarget htarget) (by rfl) i
  · rw [hnone, filledAt_nil, add_zero]
    exact cumulativeAt_set_same (getElem?_of_findOrder hfind).2 (by rfl) i

theorem requests_accounts (requests : List PendingRequest) (v : PaperExecution) (i : Nat) :
    cumulativeAt (requests.foldl processRequest v).orders i =
      cumulativeAt v.orders i + filledAt (requestsExecutions requests v) i := by
  induction requests generalizing v with
  | nil => exact (add_zero _).symm
  | cons pending later ih =>
      rw [List.foldl_cons, requestsExecutions, ih, processRequest_accounts, filledAt_append,
        add_assoc]

/-! ## One delivery -/

/-- Settling a cancel changes an order's status and mark, and what is filled stays. -/
theorem resolvePendingCancel_accounts (v : PaperExecution) (cancel : OrderCancelEvent) (i : Nat) :
    cumulativeAt (v.resolvePendingCancel cancel).2.orders i = cumulativeAt v.orders i := by
  unfold resolvePendingCancel
  cases hfind : v.findOrder cancel.clientOrderId with
  | none => rfl
  | some found =>
      obtain ⟨index, order⟩ := found
      have horder := (getElem?_of_findOrder hfind).2
      dsimp only
      split
      · exact cumulativeAt_set_same horder (by rfl) i
      split
      · exact cumulativeAt_set_same horder (by rfl) i
      · exact cumulativeAt_set_same horder (by rfl) i

theorem deliverAll_accounts (events : List ExecutionEvent) (v : PaperExecution) (i : Nat) :
    cumulativeAt (deliverAll events v).2.orders i = cumulativeAt v.orders i := by
  induction events generalizing v with
  | nil => rfl
  | cons event events ih =>
      have hdeliver : cumulativeAt (v.deliver event).2.orders i = cumulativeAt v.orders i := by
        unfold deliver
        cases event with
        | orderCancel cancel =>
            dsimp only
            split
            · exact v.resolvePendingCancel_accounts cancel i
            · rfl
        | _ => rfl
      exact (ih _).trans hdeliver

/-- What a match reports is something, and no more than the order wanted. -/
theorem matched_within {order : PaperOrder} {levels : List PriceLevel} {model : FillModel}
    {bps : Nat} {matched : MatchResult × List PriceLevel} {result : MatchResult}
    (hmatched : matched = matchAndConsume order levels model bps) (hresult : result = matched.1)
    (hpositive : 0 < matched.1.quantity.raw) :
    0 < result.quantity.raw ∧ result.quantity.raw ≤ order.remaining.raw := by
  subst hmatched hresult
  exact ⟨hpositive, (matchAndConsume_wanted _ _ _ hpositive).2⟩

theorem matchOrder_accounts (now : Nanos) (sweep : Sweep) (index i : Nat) :
    cumulativeAt (sweep.matchOrder now index).venue.orders i =
      cumulativeAt sweep.venue.orders i + filledAt (sweep.orderExecutions now index) i := by
  rcases sweep.matchOrder_cases now index with ⟨-, hnone, hsame⟩ |
    ⟨order, horder, -, matched, hmatched, -, -, ⟨hnone, -, hvenue⟩ |
      ⟨e, hsome, hpositive, hindex, -, hresult, -, hquantity, -, htable⟩⟩
  · rw [hnone, hsame, filledAt_nil, add_zero]
  · rw [hnone, hvenue, filledAt_nil, add_zero]
  · have horders := congrArg Table.orders htable
    dsimp only [table] at horders
    obtain ⟨hfilled, hwanted⟩ := matched_within hmatched hresult hpositive
    rw [horders, cumulativeAt_set horder,
      (PaperOrder.applyMatch_spec hfilled hwanted now).1, add_sub_cancel_left, hsome,
      filledAt_singleton, hindex, hquantity]

theorem sweep_accounts (now : Nanos) (indices : List Nat) (sweep : Sweep) (i : Nat) :
    cumulativeAt (indices.foldl (Sweep.matchOrder now) sweep).venue.orders i =
      cumulativeAt sweep.venue.orders i + filledAt (Sweep.executions now indices sweep) i := by
  induction indices generalizing sweep with
  | nil => exact (add_zero _).symm
  | cons index indices ih =>
      rw [List.foldl_cons, Sweep.executions, ih, matchOrder_accounts, filledAt_append, add_assoc]

theorem matchSymbol_accounts (v : PaperExecution) (symbol : Symbol) (now : Nanos) (i : Nat) :
    cumulativeAt (v.matchSymbol symbol now).orders i =
      cumulativeAt v.orders i + filledAt (v.matchSymbolExecutions symbol now) i := by
  rcases v.matchSymbol_cases symbol now with
    ⟨hnone, htable⟩ | ⟨book, -, -, -, hexecutions, hswept⟩
  · have horders : (v.matchSymbol symbol now).orders = v.orders := congrArg Table.orders htable
    rw [hnone, horders, filledAt_nil, add_zero]
  · rw [hexecutions, hswept]
    exact sweep_accounts now _ (v.sweepOf book) i

theorem poll_accounts (v : PaperExecution) (i : Nat) :
    cumulativeAt v.poll.2.orders i = cumulativeAt v.orders i + filledAt v.pollExecutions i := by
  unfold poll pollExecutions
  split
  · exact (add_zero _).symm
  · exact (deliverAll_accounts _ _ i).trans
      (requests_accounts v.arrived
        { v with inFlight := v.inFlight.filter fun request => ¬ request.dueNs ≤ v.clock } i)

theorem executions_of_quiet {op : Op} (hpoll : op ≠ .poll)
    (hupdate : ∀ symbol updateNs, op ≠ .onMarketUpdate symbol updateNs) {v : PaperExecution} :
    executions op v = [] := by
  cases op with
  | onMarketUpdate symbol updateNs => exact absurd rfl (hupdate symbol updateNs)
  | poll => exact absurd rfl hpoll
  | _ => rfl

/-- A call moves what an order has filled by the fills it schedules. -/
theorem step_accounts (op : Op) (v : PaperExecution) (i : Nat) :
    cumulativeAt (step op v).orders i = cumulativeAt v.orders i + filledAt (executions op v) i := by
  by_cases hpoll : op = .poll
  · subst hpoll
    exact v.poll_accounts i
  by_cases hupdate : ∃ symbol updateNs, op = .onMarketUpdate symbol updateNs
  · obtain ⟨symbol, updateNs, rfl⟩ := hupdate
    exact matchSymbol_accounts
      { v with bookUpdatedNs := v.bookUpdatedNs.insert symbol updateNs } symbol v.clock i
  · have hother : ∀ symbol updateNs, op ≠ .onMarketUpdate symbol updateNs :=
      fun symbol updateNs heq => hupdate ⟨symbol, updateNs, heq⟩
    have horders : (step op v).orders = v.orders :=
      congrArg Table.orders (v.step_table hpoll hother)
    rw [horders, executions_of_quiet hpoll hother, filledAt_nil, add_zero]

end PaperExecution

/-- An order has filled something between nothing and all of it. -/
def PaperOrder.Bounded (order : PaperOrder) : Prop :=
  0 ≤ order.cumulativeQty.raw ∧ order.cumulativeQty.raw ≤ order.originalQty.raw

/-- A match an order wants keeps it within its bounds. -/
theorem PaperOrder.Bounded.applyMatch {order : PaperOrder} (h : order.Bounded)
    {result : MatchResult} (hpositive : 0 < result.quantity.raw)
    (hwanted : result.quantity.raw ≤ order.remaining.raw) (atNs : Nanos) :
    (order.applyMatch result atNs).Bounded := by
  obtain ⟨hcumulative, horiginal, -⟩ := PaperOrder.applyMatch_spec hpositive hwanted atNs
  have hsome : order.remaining.isPositive = true := by
    rw [Fixed.isPositive_iff]
    omega
  have hremaining := PaperOrder.remaining_raw hsome
  obtain ⟨hlo, hhi⟩ := h
  constructor
  · omega
  · rw [horiginal]
    omega

namespace PaperExecution

/-- Every order of the venue is within its bounds, and so is what is on its way. -/
structure Bounded (v : PaperExecution) : Prop where
  orders : ∀ order ∈ v.orders, order.Bounded
  asks : v.Asks

/-- A table in which one order is written keeps its bounds if that order has them. -/
theorem bounded_set {orders : List PaperOrder} (h : ∀ order ∈ orders, order.Bounded) {index : Nat}
    {after : PaperOrder} (hafter : after.Bounded) :
    ∀ order ∈ orders.set index after, order.Bounded := by
  intro order hmem
  rcases List.mem_or_eq_of_mem_set hmem with hold | rfl
  · exact h order hold
  · exact hafter

theorem bounded_concat {orders : List PaperOrder} (h : ∀ order ∈ orders, order.Bounded)
    {after : PaperOrder} (hafter : after.Bounded) :
    ∀ order ∈ orders ++ [after], order.Bounded := by
  intro order hmem
  rcases List.mem_append.mp hmem with hold | hnew
  · exact h order hold
  · rwa [List.mem_singleton.mp hnew]

theorem processRequest_bounded {v : PaperExecution} (h : ∀ order ∈ v.orders, order.Bounded)
    {pending : PendingRequest} (hpending : pending.request.Positive) :
    ∀ order ∈ (v.processRequest pending).orders, order.Bounded := by
  rcases v.processRequest_cases pending with ⟨-, htable⟩ |
    ⟨request, hrequest, -, ⟨-, htable⟩ | ⟨-, htable⟩ | ⟨book, e, harrives, -, htable⟩⟩ |
    ⟨request, index, order, -, htarget, -, htable⟩ |
    ⟨request, index, order, -, hfind, -, hquantity, -, htable⟩
  all_goals
    have horders := congrArg Table.orders htable
    dsimp only [table] at horders
    rw [horders]
  · exact h
  · exact h
  · rw [hrequest] at hpending
    exact bounded_concat h ⟨le_rfl, hpending.2.le⟩
  · rw [hrequest] at hpending
    have harriving : (v.arrivingOrder request).Bounded := ⟨le_rfl, hpending.2.le⟩
    exact bounded_concat h (harriving.applyMatch harrives.positive harrives.wanted v.clock)
  · exact bounded_set h (h order (List.mem_of_getElem? (getElem?_of_cancelTarget htarget)))
  · have hold := h order (List.mem_of_getElem? (getElem?_of_findOrder hfind).2)
    exact bounded_set h ⟨hold.1, hquantity⟩

theorem resolvePendingCancel_bounded {v : PaperExecution} (h : ∀ order ∈ v.orders, order.Bounded)
    (cancel : OrderCancelEvent) :
    ∀ order ∈ (v.resolvePendingCancel cancel).2.orders, order.Bounded := by
  unfold resolvePendingCancel
  cases hfind : v.findOrder cancel.clientOrderId with
  | none => exact h
  | some found =>
      obtain ⟨index, order⟩ := found
      have hold := h order (List.mem_of_getElem? (getElem?_of_findOrder hfind).2)
      dsimp only
      split
      · exact bounded_set h hold
      split
      · exact bounded_set h hold
      · exact bounded_set h hold

theorem matchOrder_bounded {now : Nanos} {sweep : Sweep} {index : Nat}
    (h : ∀ order ∈ sweep.venue.orders, order.Bounded) :
    ∀ order ∈ (sweep.matchOrder now index).venue.orders, order.Bounded := by
  rcases sweep.matchOrder_cases now index with ⟨-, -, hsame⟩ |
    ⟨order, horder, -, matched, hmatched, -, -, ⟨-, -, hvenue⟩ |
      ⟨e, -, hpositive, -, -, hresult, -, -, -, htable⟩⟩
  · rwa [hsame]
  · rwa [hvenue]
  · have horders := congrArg Table.orders htable
    dsimp only [table] at horders
    obtain ⟨hfilled, hwanted⟩ := matched_within hmatched hresult hpositive
    rw [horders]
    exact bounded_set h ((h order (List.mem_of_getElem? horder)).applyMatch hfilled hwanted now)

/-- Whatever the call, orders stay within their bounds. -/
theorem Bounded.step (op : Op) {v : PaperExecution} (h : v.Bounded) : (step op v).Bounded where
  orders := step_keeps (P := fun t => ∀ order ∈ t.orders, order.Bounded)
    (fun _ _ hpending hbounded => processRequest_bounded hbounded hpending)
    (fun _ cancel hbounded => resolvePendingCancel_bounded hbounded cancel)
    (fun _ _ _ hbounded => matchOrder_bounded hbounded) op h.asks h.orders
  asks := h.asks.step op

/-- Executions whose fills carry the trade numbers from one count to another. -/
structure Numbered (executions : List Execution) (before after : Nat) : Prop where
  count : after = before + executions.length
  ids : (executions.map fun e => e.fill.tradeId) =
    (List.range' before executions.length).map (mint 'P' 'T')

theorem Numbered.nil (n : Nat) : Numbered [] n n := ⟨rfl, rfl⟩

theorem Numbered.singleton {e : Execution} {v : PaperExecution}
    (h : e.fill.tradeId = v.nextTradeId) : Numbered [e] v.nextTradeSeq (v.nextTradeSeq + 1) where
  count := rfl
  ids := by
    rw [nextTradeId_eq] at h
    rw [List.map_singleton, h]
    rfl

theorem Numbered.append {earlier later : List Execution} {a b c : Nat}
    (hearlier : Numbered earlier a b) (hlater : Numbered later b c) :
    Numbered (earlier ++ later) a c where
  count := by
    rw [hlater.count, hearlier.count, List.length_append, Nat.add_assoc]
  ids := by
    rw [List.map_append, hearlier.ids, hlater.ids, hearlier.count, List.length_append,
      ← List.map_append, ← List.range'_append_1]

theorem processRequest_numbered (v : PaperExecution) (pending : PendingRequest) :
    Numbered (v.requestExecutions pending) v.nextTradeSeq
      (v.processRequest pending).nextTradeSeq := by
  rcases v.processRequest_cases pending with ⟨hnone, htable⟩ |
    ⟨request, -, -, ⟨hnone, htable⟩ | ⟨hnone, htable⟩ | ⟨book, e, harrives, hsome, htable⟩⟩ |
    ⟨request, index, order, -, -, hnone, htable⟩ |
    ⟨request, index, order, -, -, -, -, hnone, htable⟩
  all_goals
    have htrade := congrArg Table.nextTradeSeq htable
    dsimp only [table] at htrade
    rw [htrade]
  · rw [hnone]
    exact Numbered.nil _
  · rw [hnone]
    exact Numbered.nil _
  · rw [hnone]
    exact Numbered.nil _
  · rw [hsome]
    exact Numbered.singleton harrives.tradeId
  · rw [hnone]
    exact Numbered.nil _
  · rw [hnone]
    exact Numbered.nil _

theorem requests_numbered (requests : List PendingRequest) (v : PaperExecution) :
    Numbered (requestsExecutions requests v) v.nextTradeSeq
      (requests.foldl processRequest v).nextTradeSeq := by
  induction requests generalizing v with
  | nil => exact Numbered.nil _
  | cons pending later ih => exact (v.processRequest_numbered pending).append (ih _)

theorem matchOrder_numbered (now : Nanos) (sweep : Sweep) (index : Nat) :
    Numbered (sweep.orderExecutions now index) sweep.venue.nextTradeSeq
      (sweep.matchOrder now index).venue.nextTradeSeq := by
  rcases sweep.matchOrder_cases now index with ⟨-, hnone, hsame⟩ |
    ⟨order, -, -, matched, -, -, -, ⟨hnone, -, hvenue⟩ |
      ⟨e, hsome, -, -, -, -, -, -, hid, htable⟩⟩
  · rw [hnone, hsame]
    exact Numbered.nil _
  · rw [hnone, hvenue]
    exact Numbered.nil _
  · have htrade := congrArg Table.nextTradeSeq htable
    dsimp only [table] at htrade
    rw [hsome, htrade]
    exact Numbered.singleton hid

theorem sweep_numbered (now : Nanos) (indices : List Nat) (sweep : Sweep) :
    Numbered (Sweep.executions now indices sweep) sweep.venue.nextTradeSeq
      (indices.foldl (Sweep.matchOrder now) sweep).venue.nextTradeSeq := by
  induction indices generalizing sweep with
  | nil => exact Numbered.nil _
  | cons index indices ih => exact (matchOrder_numbered now sweep index).append (ih _)

theorem matchSymbol_numbered (v : PaperExecution) (symbol : Symbol) (now : Nanos) :
    Numbered (v.matchSymbolExecutions symbol now) v.nextTradeSeq
      (v.matchSymbol symbol now).nextTradeSeq := by
  rcases v.matchSymbol_cases symbol now with
    ⟨hnone, htable⟩ | ⟨book, -, -, -, hexecutions, hswept⟩
  · have htrade : (v.matchSymbol symbol now).nextTradeSeq = v.nextTradeSeq :=
      congrArg Table.nextTradeSeq htable
    rw [hnone, htrade]
    exact Numbered.nil _
  · rw [hexecutions, hswept]
    exact sweep_numbered now _ (v.sweepOf book)

/-- Settling cancels uses no trade number. -/
theorem deliverAll_nextTradeSeq (events : List ExecutionEvent) (v : PaperExecution) :
    (deliverAll events v).2.nextTradeSeq = v.nextTradeSeq := by
  have hsettle : ∀ (w : PaperExecution) (cancel : OrderCancelEvent),
      w.table.nextTradeSeq = v.nextTradeSeq →
      (w.resolvePendingCancel cancel).2.table.nextTradeSeq = v.nextTradeSeq := by
    intro w cancel h
    rw [← h]
    unfold resolvePendingCancel
    split
    · rfl
    dsimp only
    split
    · rfl
    split
    · rfl
    · rfl
  exact deliverAll_keeps (P := fun t => t.nextTradeSeq = v.nextTradeSeq) hsettle events rfl

/-- A call numbers its fills from where the venue's count stands. -/
theorem step_numbered (op : Op) (v : PaperExecution) :
    Numbered (executions op v) v.nextTradeSeq (step op v).nextTradeSeq := by
  by_cases hpoll : op = .poll
  · subst hpoll
    show Numbered v.pollExecutions v.nextTradeSeq v.poll.2.nextTradeSeq
    unfold poll pollExecutions
    split
    · exact Numbered.nil _
    · dsimp only
      rw [deliverAll_nextTradeSeq]
      exact requests_numbered v.arrived
        { v with inFlight := v.inFlight.filter fun request => ¬ request.dueNs ≤ v.clock }
  by_cases hupdate : ∃ symbol updateNs, op = .onMarketUpdate symbol updateNs
  · obtain ⟨symbol, updateNs, rfl⟩ := hupdate
    exact matchSymbol_numbered
      { v with bookUpdatedNs := v.bookUpdatedNs.insert symbol updateNs } symbol v.clock
  · have hother : ∀ symbol updateNs, op ≠ .onMarketUpdate symbol updateNs :=
      fun symbol updateNs heq => hupdate ⟨symbol, updateNs, heq⟩
    have htrade : (step op v).nextTradeSeq = v.nextTradeSeq :=
      congrArg Table.nextTradeSeq (v.step_table hpoll hother)
    rw [executions_of_quiet hpoll hother, htrade]
    exact Numbered.nil _

/-- Everything a run executes, in the order of the fills. -/
def history (ops : List Op) (v : PaperExecution) : List Execution :=
  (Machine.outputs step executions ops v).flatten

@[simp]
theorem history_nil (v : PaperExecution) : history [] v = [] := rfl

@[simp]
theorem history_cons (op : Op) (ops : List Op) (v : PaperExecution) :
    history (op :: ops) v = executions op v ++ history ops (step op v) := rfl

theorem history_append (ops later : List Op) (v : PaperExecution) :
    history (ops ++ later) v = history ops v ++ history later (Machine.run step ops v) := by
  rw [history, Machine.outputs_append, List.flatten_append]
  rfl

theorem history_accounts (ops : List Op) (v : PaperExecution) (i : Nat) :
    cumulativeAt (Machine.run step ops v).orders i =
      cumulativeAt v.orders i + filledAt (history ops v) i := by
  induction ops generalizing v with
  | nil => exact (add_zero _).symm
  | cons op ops ih =>
      rw [Machine.run_cons, history_cons, ih, step_accounts, filledAt_append, add_assoc]

theorem history_numbered (ops : List Op) (v : PaperExecution) :
    Numbered (history ops v) v.nextTradeSeq (Machine.run step ops v).nextTradeSeq := by
  induction ops generalizing v with
  | nil => exact Numbered.nil _
  | cons op ops ih => exact (step_numbered op v).append (ih _)

theorem bounded_init (config : PaperExecutionConfig) (clock wall : Nanos) :
    (init config clock wall).Bounded where
  orders := fun _ hmem => absurd hmem List.not_mem_nil
  asks := fun _ hmem => absurd hmem List.not_mem_nil

end PaperExecution

end MmEngine.Exchange.Paper
