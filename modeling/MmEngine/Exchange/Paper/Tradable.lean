/-
# Resting orders with something left

An order rests to be filled. A match that leaves nothing finishes its order, and a new
order asks for something; a replace refuses a size below what has filled, and takes one
that equals it. Such an order rests with nothing left, is listed as open, and no match
ever finishes it. No other way leads there.
-/

import MmEngine.Exchange.Paper.VenueIdentity

namespace MmEngine.Exchange.Paper

namespace PaperOrder

/-- An order that rests has something left to fill. -/
def CanTrade (order : PaperOrder) : Prop := order.isResting = true → 0 < order.remaining.raw

/-- A match keeps it so: what it fills whole it finishes. -/
theorem CanTrade.applyMatch {order : PaperOrder} (h : order.CanTrade) (result : MatchResult)
    (atNs : Nanos) : (order.applyMatch result atNs).CanTrade := by
  intro hresting
  unfold PaperOrder.applyMatch at hresting ⊢
  split at hresting
  · exact h hresting
  rename_i next _
  split at hresting
  · rename_i hover
    rw [if_pos hover]
    exact h hresting
  rename_i hwithin
  rw [if_neg hwithin]
  dsimp only at hresting ⊢
  split at hresting
  · cases hresting
  · rename_i hleft
    rw [if_neg hleft]
    rw [Fixed.isZero_iff] at hleft
    exact lt_of_le_of_ne (PaperOrder.remaining_nonneg _) (Ne.symm hleft)

end PaperOrder

namespace PaperExecution

variable {v : PaperExecution}

/-- Every resting order has something left. -/
def Tradable (v : PaperExecution) : Prop := ∀ order ∈ v.orders, order.CanTrade

/-- A replace that is carried out does not ask for exactly what has filled. -/
def LeavesSomething (pending : PendingRequest) (v : PaperExecution) : Prop :=
  match pending.request with
  | .replace request =>
      ∀ found ∈ replaceTarget request v, request.newQuantity.raw ≠ found.2.cumulativeQty.raw
  | _ => True

/-- Every resting order has something left after a call, and after each request of a
poll. -/
def TradableAfter (op : Op) (v : PaperExecution) : Prop :=
  (step op v).Tradable ∧
    match op with
    | .poll => v.started = true →
        Machine.Along (fun pending v => v.processRequest pending)
          (fun pending v => (v.processRequest pending).Tradable) v.arrived
          { v with inFlight := v.inFlight.filter fun request => ¬ request.dueNs ≤ v.clock }
    | _ => True

/-- No request of a poll replaces an order by exactly what has filled of it. -/
def RequestsLeaveSomething (op : Op) (v : PaperExecution) : Prop :=
  match op with
  | .poll => v.started = true →
      Machine.Along (fun pending v => v.processRequest pending) LeavesSomething v.arrived
        { v with inFlight := v.inFlight.filter fun request => ¬ request.dueNs ≤ v.clock }
  | _ => True

theorem tradable_set {orders : List PaperOrder} (h : ∀ order ∈ orders, order.CanTrade)
    {index : Nat} {after : PaperOrder} (hafter : after.CanTrade) :
    ∀ order ∈ orders.set index after, order.CanTrade := by
  intro order hmem
  rcases List.mem_or_eq_of_mem_set hmem with hold | rfl
  · exact h order hold
  · exact hafter

theorem tradable_concat {orders : List PaperOrder} (h : ∀ order ∈ orders, order.CanTrade)
    {after : PaperOrder} (hafter : after.CanTrade) :
    ∀ order ∈ orders ++ [after], order.CanTrade := by
  intro order hmem
  rcases List.mem_append.mp hmem with hold | hnew
  · exact h order hold
  · rwa [List.mem_singleton.mp hnew]

/-- An arriving order asks for something. -/
theorem canTrade_arrivingOrder (v : PaperExecution) {request : OrderRequest}
    (hquantity : 0 < request.quantity.raw) : (v.arrivingOrder request).CanTrade := by
  intro _
  have hzero : (v.arrivingOrder request).cumulativeQty.raw = 0 := rfl
  have horiginal : (v.arrivingOrder request).originalQty = request.quantity := rfl
  have hmax := request.quantity.raw_le
  rw [PaperOrder.remaining_raw_of_range (by rw [hzero, horiginal]; exact hquantity.le)
    (by rw [hzero, horiginal]; omega), hzero, horiginal]
  omega

/-- An order replaced has something left exactly when it was replaced by more than has
filled. -/
theorem canTrade_replacedOrder_iff {order : PaperOrder} (hbounded : 0 ≤ order.cumulativeQty.raw)
    {request : ReplaceRequest} (hquantity : order.cumulativeQty.raw ≤ request.newQuantity.raw) :
    (v.replacedOrder order request).CanTrade ↔
      request.newQuantity.raw ≠ order.cumulativeQty.raw := by
  have hresting : (v.replacedOrder order request).isResting = true := by
    rw [replacedOrder, PaperOrder.isResting]
    split <;> rfl
  have hmax := request.newQuantity.raw_le
  have hleft : (v.replacedOrder order request).remaining.raw =
      request.newQuantity.raw - order.cumulativeQty.raw :=
    PaperOrder.remaining_raw_of_range hquantity
      (show request.newQuantity.raw - order.cumulativeQty.raw ≤ rawMax by omega)
  rw [PaperOrder.CanTrade, imp_iff_right hresting, hleft]
  omega

theorem processSubmit_tradable (h : v.Tradable) {request : OrderRequest}
    (hquantity : 0 < request.quantity.raw) (delay : Nanos) :
    (v.processSubmit request delay).Tradable := by
  have hlisted {w : PaperExecution} {t : Table} {order : PaperOrder} (htable : w.table = t)
      (horders : t.orders = v.orders ++ [order]) (horder : order.CanTrade) : w.Tradable := by
    have hw : w.orders = v.orders ++ [order] := (congrArg Table.orders htable).trans horders
    rw [Tradable, hw]
    exact tradable_concat h horder
  have hsame {w : PaperExecution} {t : Table} (htable : w.table = t)
      (horders : t.orders = v.orders) : w.Tradable := by
    have hw : w.orders = v.orders := (congrArg Table.orders htable).trans horders
    rw [Tradable, hw]
    exact h
  have harriving := v.canTrade_arrivingOrder hquantity
  rcases v.processSubmit_cases request delay with ⟨-, hrefused⟩ | ⟨-, -, haccept⟩
  · exact hsame hrefused rfl
  · rw [haccept]
    rcases v.acceptOrder_cases request delay with ⟨-, -, hburnt⟩ | ⟨-, -, hnew⟩ |
      ⟨book, e, -, -, hfilled⟩
    · exact hsame hburnt rfl
    · exact hlisted hnew rfl harriving
    · exact hlisted hfilled rfl (harriving.applyMatch e.result v.clock)

theorem processCancel_tradable (h : v.Tradable) (request : CancelRequest) (delay : Nanos) :
    (v.processCancel request delay).Tradable := by
  rcases v.processCancel_cases request delay with hsame | ⟨index, order, htarget, hmarked⟩
  · have horders : (v.processCancel request delay).orders = v.orders :=
      congrArg Table.orders hsame
    rw [Tradable, horders]
    exact h
  · have horders : (v.processCancel request delay).orders =
        v.orders.set index { order with cancelPending := true } := congrArg Table.orders hmarked
    rw [Tradable, horders]
    exact tradable_set h (h order (List.mem_of_getElem? (getElem?_of_cancelTarget htarget)))

theorem processReplace_tradable_iff (h : v.Tradable) (hbounded : ∀ order ∈ v.orders, order.Bounded)
    (request : ReplaceRequest) (delay : Nanos) :
    (v.processReplace request delay).Tradable ↔
      ∀ found ∈ replaceTarget request v, request.newQuantity.raw ≠ found.2.cumulativeQty.raw := by
  rcases v.processReplace_target request delay with ⟨hnone, hsame⟩ |
    ⟨index, order, htarget, hfind, hswapped⟩
  · have horders : (v.processReplace request delay).orders = v.orders :=
      congrArg Table.orders hsame
    rw [hnone, Tradable, horders]
    exact iff_of_true h (by simp)
  · have horder := (getElem?_of_findOrder hfind).2
    have hquantity : order.cumulativeQty.raw ≤ request.newQuantity.raw := by
      have hkept := (Option.filter_eq_some_iff.mp htarget).2
      simp only [Bool.and_eq_true, decide_eq_true_eq] at hkept
      exact hkept.2
    have horders : (v.processReplace request delay).orders =
        v.orders.set index (v.replacedOrder order request) := congrArg Table.orders hswapped
    rw [htarget, Tradable, horders]
    simp only [Option.mem_def, Option.some.injEq, forall_eq']
    rw [← canTrade_replacedOrder_iff (v := v)
      (hbounded order (List.mem_of_getElem? horder)).1 hquantity]
    constructor
    · intro hall
      obtain ⟨hindex, -⟩ := List.getElem?_eq_some_iff.mp horder
      exact hall _ (List.mem_set hindex _)
    · exact tradable_set h

/-- Processing a request leaves every resting order something exactly when it does not
replace one by what has filled of it. -/
theorem processRequest_tradable_iff (h : v.Tradable) (hbounded : ∀ order ∈ v.orders, order.Bounded)
    {pending : PendingRequest} (hpending : pending.request.Positive) :
    (v.processRequest pending).Tradable ↔ LeavesSomething pending v := by
  unfold LeavesSomething processRequest
  cases hrequest : pending.request with
  | submit request =>
      rw [hrequest] at hpending
      exact iff_of_true
        (processSubmit_tradable (v := { v with processingArrivalNs := pending.dueNs }) h
          hpending.2 _)
        trivial
  | cancel request =>
      exact iff_of_true
        (processCancel_tradable (v := { v with processingArrivalNs := pending.dueNs }) h _ _)
        trivial
  | replace request =>
      exact processReplace_tradable_iff (v := { v with processingArrivalNs := pending.dueNs }) h
        hbounded _ _

theorem requests_tradable_iff {requests : List PendingRequest}
    (hrequests : ∀ pending ∈ requests, pending.request.Positive) (h : v.Tradable)
    (hbounded : ∀ order ∈ v.orders, order.Bounded) :
    Machine.Along (fun pending v => v.processRequest pending)
        (fun pending v => (v.processRequest pending).Tradable) requests v ↔
      Machine.Along (fun pending v => v.processRequest pending) LeavesSomething requests v := by
  induction requests generalizing v with
  | nil => exact Iff.rfl
  | cons pending requests ih =>
      rw [List.forall_mem_cons] at hrequests
      rw [Machine.Along, Machine.Along,
        processRequest_tradable_iff h hbounded hrequests.1]
      refine and_congr_right fun hleaves => ih hrequests.2 ?_ ?_
      · exact (processRequest_tradable_iff h hbounded hrequests.1).mpr hleaves
      · exact processRequest_bounded hbounded hrequests.1

/-- What holds after every request of a batch holds at its end. -/
theorem foldl_tradable {requests : List PendingRequest} (h : v.Tradable)
    (hall : Machine.Along (fun pending v => v.processRequest pending)
      (fun pending v => (v.processRequest pending).Tradable) requests v) :
    (requests.foldl processRequest v).Tradable :=
  Machine.invariant_run (I := Tradable) (fun _ _ _ hafter => hafter) h hall

/-! ## One call -/

/-- Settling a cancel leaves an order resting or takes it off. -/
theorem resolvePendingCancel_tradable (h : v.Tradable) (cancel : OrderCancelEvent) :
    (v.resolvePendingCancel cancel).2.Tradable := by
  unfold resolvePendingCancel
  cases hfind : v.findOrder cancel.clientOrderId with
  | none => exact h
  | some found =>
      obtain ⟨index, order⟩ := found
      have hold := h order (List.mem_of_getElem? (getElem?_of_findOrder hfind).2)
      dsimp only
      split
      · exact tradable_set h hold
      split
      · exact tradable_set h hold
      · exact tradable_set h fun hresting => by cases hresting

theorem matchOrder_tradable {now : Nanos} {sweep : Sweep} {index : Nat}
    (h : sweep.venue.Tradable) : (sweep.matchOrder now index).venue.Tradable := by
  rcases sweep.matchOrder_cases now index with ⟨-, -, hsame⟩ |
    ⟨order, horder, -, matched, -, -, -, ⟨-, -, hvenue⟩ | ⟨e, -, -, -, -, -, -, -, -, htable⟩⟩
  · rwa [hsame]
  · rwa [hvenue]
  · have horders : (sweep.matchOrder now index).venue.orders =
        sweep.venue.orders.set index (order.applyMatch e.result now) :=
      congrArg Table.orders htable
    rw [Tradable, horders]
    exact tradable_set h ((h order (List.mem_of_getElem? horder)).applyMatch e.result now)

theorem poll_tradable (hstarted : v.started = true)
    (h : (v.arrived.foldl processRequest
      { v with
        inFlight :=
          v.inFlight.filter fun request => ¬ request.dueNs ≤ v.clock }).Tradable) :
    v.poll.2.Tradable := by
  unfold poll
  rw [if_neg (by simp [hstarted])]
  exact deliverAll_keeps (P := fun t : Table => ∀ order ∈ t.orders, order.CanTrade)
    (fun _ cancel hw => resolvePendingCancel_tradable hw cancel) _ h

/-- Away from a poll nothing can take what is left of a resting order without
finishing it. -/
theorem step_tradable {op : Op} (hpoll : op ≠ .poll) (h : v.Tradable) : (step op v).Tradable := by
  by_cases hupdate : ∃ symbol updateNs, op = .onMarketUpdate symbol updateNs
  · obtain ⟨symbol, updateNs, rfl⟩ := hupdate
    show (v.onMarketUpdate symbol updateNs).Tradable
    rcases matchSymbol_cases { v with bookUpdatedNs := v.bookUpdatedNs.insert symbol updateNs }
      symbol v.clock with ⟨-, hsame⟩ | ⟨book, -, -, -, -, hswept⟩
    · have horders : (v.onMarketUpdate symbol updateNs).orders = v.orders :=
        congrArg Table.orders hsame
      rw [Tradable, horders]
      exact h
    · rw [onMarketUpdate, hswept]
      exact foldl_matchOrder_keeps (P := fun t : Table => ∀ order ∈ t.orders, order.CanTrade)
        (fun _ _ _ hsweep => matchOrder_tradable hsweep) v.clock _ h
  · have horders : (step op v).orders = v.orders := congrArg Table.orders
      (v.step_table hpoll fun symbol updateNs heq => hupdate ⟨symbol, updateNs, heq⟩)
    rw [Tradable, horders]
    exact h

theorem tradableAfter_iff (op : Op) (h : v.Tradable) (hbounded : v.Bounded) :
    TradableAfter op v ↔ RequestsLeaveSomething op v := by
  by_cases hpoll : op = .poll
  · subst hpoll
    by_cases hstarted : v.started = true
    · unfold TradableAfter RequestsLeaveSomething
      dsimp only
      have hrequests := requests_tradable_iff
        (v := { v with inFlight := v.inFlight.filter fun request => ¬ request.dueNs ≤ v.clock })
        (fun pending hmem => hbounded.asks pending (mem_arrived hmem).1) h hbounded.orders
      rw [imp_iff_right hstarted, imp_iff_right hstarted, ← hrequests]
      exact and_iff_right_of_imp fun hall =>
        poll_tradable hstarted (foldl_tradable (v := { v with inFlight := _ }) h hall)
    · have hsame : v.poll.2 = v := by
        unfold poll
        rw [if_pos (by simpa using hstarted)]
      simp [TradableAfter, RequestsLeaveSomething, hstarted, step, hsame, h]
  · have hleaves : RequestsLeaveSomething op v := by
      cases op with
      | poll => exact absurd rfl hpoll
      | _ => trivial
    refine iff_of_true ⟨step_tradable hpoll h, ?_⟩ hleaves
    cases op with
    | poll => exact absurd rfl hpoll
    | _ => trivial

/-- Along a run every resting order has something left, after each call and each
request, exactly when along that run no request replaces a resting order by exactly
what has filled of it. -/
theorem tradable_iff (config : PaperExecutionConfig) (clock wall : Nanos) (ops : List Op) :
    Machine.Along step TradableAfter ops (init config clock wall) ↔
      Machine.Along step RequestsLeaveSomething ops (init config clock wall) :=
  Machine.Along.congr_of_keeps (I := fun v : PaperExecution => v.Tradable ∧ v.Bounded)
    (fun op _ h hafter => ⟨hafter.1, h.2.step op⟩) (fun op _ h => tradableAfter_iff op h.1 h.2)
    ⟨fun _ horder => absurd horder List.not_mem_nil, bounded_init config clock wall⟩

end PaperExecution

/-- A bid for three of which one fills, replaced by a bid for one. -/
def Sample.spent : List PaperExecution.Op :=
  [.start, .submit (request 'a' .buy price three), .poll,
    .attachBook symbol (offer one raw_one_pos),
    .onMarketUpdate symbol 0,
    .replace
      { originalClientOrderId := clientId 'a'
        originalExchangeOrderId := .empty
        newClientOrderId := clientId 'b'
        symbol := symbol
        newPrice := price
        newQuantity := one
        createdNs := 0 }, .poll]

namespace PaperExecution

/-- It rests on with nothing left. -/
theorem spent_order_rests :
    ¬(Machine.run step Sample.spent (init Sample.config 0 0)).Tradable := by
  intro h
  obtain ⟨order, horder, hresting, hleft⟩ :
      ∃ order ∈ (Machine.run step Sample.spent (init Sample.config 0 0)).orders,
        order.isResting = true ∧ order.remaining.raw = 0 := by
    decide +kernel
  have hpositive := h order horder hresting
  rw [hleft] at hpositive
  exact absurd hpositive (lt_irrefl 0)

end PaperExecution

end MmEngine.Exchange.Paper
