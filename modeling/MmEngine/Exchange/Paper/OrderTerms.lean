/-
# What the venue was asked for

The price and the quantity of an order are those of a request, the one that brought it or
the replace that amended it, and every order on the books was asked for by a submit of its
own. So whatever holds of all that is asked holds of the orders, and the venue never has
more orders than it was asked for.
-/

import MmEngine.Exchange.Paper.Capacity

namespace MmEngine.Exchange.Paper

/-- The price and the quantity that a request asks for satisfy `R`. -/
def Request.Terms (R : Px → Qty → Prop) : Request → Prop
  | .submit request => R request.price request.quantity
  | .cancel _ => True
  | .replace request => R request.newPrice request.newQuantity

def Request.isSubmit : Request → Bool
  | .submit _ => true
  | _ => false

namespace PaperExecution

/-- The price and the quantity that a call asks for satisfy `R`. -/
def Op.Terms (R : Px → Qty → Prop) : Op → Prop
  | .submit request => R request.price request.quantity
  | .replace request => R request.newPrice request.newQuantity
  | _ => True

/-- How many orders a call asks for. -/
def Op.submits : Op → Nat
  | .submit _ => 1
  | _ => 0

/-- The requests that a call may put on their way. -/
def Op.Sends (call : Op) (request : Request) : Prop :=
  match call with
  | .submit sent => request = .submit sent
  | .cancel sent => request = .cancel sent
  | .cancelAll _ => ∃ sent, request = .cancel sent
  | .replace sent => request = .replace sent
  | _ => False

theorem Op.Sends.terms {call : Op} {request : Request} (h : call.Sends request)
    {R : Px → Qty → Prop} (hcall : call.Terms R) : request.Terms R := by
  cases call with
  | submit sent | cancel sent | replace sent =>
      cases h
      exact hcall
  | cancelAll symbol =>
      obtain ⟨_, rfl⟩ := h
      trivial
  | _ => cases h

theorem Op.Sends.isSubmit {call : Op} {request : Request} (h : call.Sends request)
    (hsubmit : request.isSubmit = true) : ∃ sent, call = .submit sent := by
  cases call with
  | submit sent => exact ⟨sent, rfl⟩
  | cancel sent | replace sent =>
      cases h
      cases hsubmit
  | cancelAll symbol =>
      obtain ⟨_, rfl⟩ := h
      cases hsubmit
  | _ => cases h

/-- At most one request has joined what is on its way, and it is this one. -/
def Joined (before after : List PendingRequest) (request : Request) : Prop :=
  ∃ sent : List PendingRequest, after = before ++ sent ∧
    (∀ pending ∈ sent, pending.request = request) ∧ sent.length ≤ 1

/-- What is on its way was on its way before the call, or is what the call sends. -/
def Op.Carries (call : Op) (before after : List PendingRequest) : Prop :=
  ∃ kept sent : List PendingRequest, after = kept ++ sent ∧ kept.Sublist before ∧
    (∀ pending ∈ sent, call.Sends pending.request) ∧
      (∀ request, call = .submit request → sent.length ≤ 1)

section InFlight

variable {before after : List PendingRequest} {call : Op} {request : Request}

theorem Joined.refl : Joined before before request :=
  ⟨[], (List.append_nil _).symm, by simp, by simp⟩

theorem Op.Carries.of_sublist (h : after.Sublist before) : call.Carries before after :=
  ⟨after, [], (List.append_nil _).symm, h, by simp, by simp⟩

theorem Op.Carries.of_eq (h : after = before) : call.Carries before after :=
  .of_sublist (h ▸ .refl _)

theorem Joined.carries (h : Joined before after request) (hsends : call.Sends request) :
    call.Carries before after := by
  obtain ⟨sent, hsent, hrequest, hlength⟩ := h
  exact ⟨before, sent, hsent, .refl _, fun pending hmem => hrequest pending hmem ▸ hsends,
    fun _ _ => hlength⟩

variable (v : PaperExecution)

/-- A request that is taken joins what is on its way; one that is dropped, or refused, does
not. -/
theorem takeRequest_inFlight (request : Request) (delay : Nanos) :
    Joined v.inFlight (v.takeRequest request delay).inFlight request := by
  unfold takeRequest
  split
  · exact ⟨[_], rfl, by simp, le_rfl⟩
  · exact .refl

theorem submit_inFlight (request : OrderRequest) :
    Joined v.inFlight (v.submit request).2.inFlight (.submit request) := by
  unfold submit
  repeat' split
  all_goals first | exact .refl | exact takeRequest_inFlight (v.count _) _ _

theorem cancel_inFlight (request : CancelRequest) :
    Joined v.inFlight (v.cancel request).2.inFlight (.cancel request) := by
  unfold cancel
  repeat' split
  all_goals first | exact .refl | exact takeRequest_inFlight (v.count _) _ _

theorem replace_inFlight (request : ReplaceRequest) :
    Joined v.inFlight (v.replace request).2.inFlight (.replace request) := by
  unfold replace
  repeat' split
  all_goals first | exact .refl | exact takeRequest_inFlight (v.count _) _ _

theorem cancelEach_inFlight (symbol : Symbol) (orders : List PaperOrder) :
    ∃ sent : List PendingRequest,
      (cancelEach symbol orders v).2.inFlight = v.inFlight ++ sent ∧
        ∀ pending ∈ sent, ∃ request, pending.request = .cancel request := by
  induction orders generalizing v with
  | nil => exact ⟨[], (List.append_nil _).symm, by simp⟩
  | cons order orders ih =>
      rw [cancelEach]
      split
      · exact ih v
      dsimp only
      obtain ⟨first, hfirst, hcancel, -⟩ := v.cancel_inFlight
        { clientOrderId := order.clientOrderId
          exchangeOrderId := order.exchangeOrderId
          symbol := order.symbol
          createdNs := 0 }
      split
      · exact ⟨first, hfirst, fun pending hmem => ⟨_, hcancel pending hmem⟩⟩
      · obtain ⟨later, hlater, hcancels⟩ := ih (v.cancel
          { clientOrderId := order.clientOrderId
            exchangeOrderId := order.exchangeOrderId
            symbol := order.symbol
            createdNs := 0 }).2
        refine ⟨first ++ later, by rw [hlater, hfirst, List.append_assoc], fun pending hmem => ?_⟩
        rcases List.mem_append.mp hmem with hearly | hlate
        · exact ⟨_, hcancel pending hearly⟩
        · exact hcancels pending hlate

theorem setConnection_inFlight (state : ConnectionState) :
    (v.setConnection state).2.inFlight = v.inFlight := by
  unfold setConnection
  split
  · rfl
  · rfl

/-- A poll takes what has arrived off the way. -/
theorem poll_inFlight (hstarted : v.started = true) :
    v.poll.2.inFlight = v.inFlight.filter fun request => ¬ request.dueNs ≤ v.clock :=
  congrArg Setting.inFlight (v.poll_setting hstarted)

theorem step_inFlight (call : Op) : call.Carries v.inFlight (step call v).inFlight := by
  cases call with
  | start =>
      exact .of_eq ((setConnection_inFlight _ _).trans (setConnection_inFlight _ _))
  | stop =>
      by_cases hstarted : v.started = true
      · refine .of_sublist ?_
        show v.stop.2.inFlight.Sublist v.inFlight
        have hnone : v.stop.2.inFlight = [] := by
          rw [stop, if_neg (by simpa using hstarted)]
          exact setConnection_inFlight { v with inFlight := [] } .disconnected
        rw [hnone]
        exact List.nil_sublist _
      · have hidle : v.stop = ([], v) := if_pos (by simpa using hstarted)
        exact .of_eq (show v.stop.2.inFlight = v.inFlight by rw [hidle])
  | setConnection state => exact .of_eq (v.setConnection_inFlight state)
  | setAuthenticated _ | inject _ | attachBook _ _ | advance _ | setWall _ => exact .of_eq rfl
  | submit request => exact (v.submit_inFlight request).carries rfl
  | cancel request => exact (v.cancel_inFlight request).carries rfl
  | replace request => exact (v.replace_inFlight request).carries rfl
  | cancelAll symbol =>
      have hall : ∃ sent : List PendingRequest,
          (v.cancelAll symbol).2.inFlight = v.inFlight ++ sent ∧
            ∀ pending ∈ sent, ∃ request, pending.request = .cancel request := by
        unfold cancelAll
        split
        · exact ⟨[], (List.append_nil _).symm, by simp⟩
        · exact v.cancelEach_inFlight symbol v.orders
      obtain ⟨sent, hsent, hcancels⟩ := hall
      exact ⟨v.inFlight, sent, hsent, .refl _, hcancels, by simp⟩
  | queryOpenOrders symbol =>
      refine .of_eq ?_
      show (v.queryOpenOrders symbol).2.inFlight = v.inFlight
      unfold queryOpenOrders
      split
      · rfl
      · exact congrArg Setting.inFlight (scheduleEach_setting _ _ _ _)
  | queryOrder clientOrderId exchangeOrderId =>
      refine .of_eq ?_
      show (v.queryOrder clientOrderId exchangeOrderId).2.inFlight = v.inFlight
      unfold queryOrder
      split
      · rfl
      split
      · exact congrArg Setting.inFlight (schedule_setting _ _ _)
      · exact congrArg Setting.inFlight (schedule_setting _ _ _)
  | onMarketUpdate symbol updateNs =>
      exact .of_eq (congrArg Setting.inFlight (matchSymbol_setting
        { v with bookUpdatedNs := v.bookUpdatedNs.insert symbol updateNs } symbol v.clock))
  | poll =>
      by_cases hstarted : v.started = true
      · refine .of_sublist ?_
        show v.poll.2.inFlight.Sublist v.inFlight
        rw [v.poll_inFlight hstarted]
        exact List.filter_sublist
      · have hidle : v.poll = ([], v) := if_pos (by simpa using hstarted)
        exact .of_eq (show v.poll.2.inFlight = v.inFlight by rw [hidle])

end InFlight

/-! ## Terms -/

/-- The price and the quantity of every order, and of everything on its way, satisfy `R`. -/
structure HasTerms (R : Px → Qty → Prop) (v : PaperExecution) : Prop where
  orders : ∀ order ∈ v.orders, R order.price order.originalQty
  inFlight : ∀ pending ∈ v.inFlight, pending.request.Terms R

section Terms

variable {R : Px → Qty → Prop} {v : PaperExecution}

theorem terms_of_set {orders : List PaperOrder}
    (h : ∀ order ∈ orders, R order.price order.originalQty)
    {index : Nat} {after : PaperOrder} (hafter : R after.price after.originalQty) :
    ∀ order ∈ orders.set index after, R order.price order.originalQty := by
  intro order hmem
  rcases List.mem_or_eq_of_mem_set hmem with hold | rfl
  · exact h order hold
  · exact hafter

theorem terms_of_concat {orders : List PaperOrder}
    (h : ∀ order ∈ orders, R order.price order.originalQty) {added : PaperOrder}
    (hadded : R added.price added.originalQty) :
    ∀ order ∈ orders ++ [added], R order.price order.originalQty := by
  intro order hmem
  rcases List.mem_append.mp hmem with hold | hnew
  · exact h order hold
  · exact List.mem_singleton.mp hnew ▸ hadded

theorem applyMatch_terms {order : PaperOrder} (h : R order.price order.originalQty)
    (result : MatchResult) (now : Nanos) :
    R (order.applyMatch result now).price (order.applyMatch result now).originalQty := by
  obtain ⟨_, _, _, hframe⟩ := order.applyMatch_frame result now
  rw [hframe]
  exact h

/-- Processing a request brings the terms it asks for and no others. -/
theorem processRequest_terms (h : ∀ order ∈ v.orders, R order.price order.originalQty)
    {pending : PendingRequest} (hpending : pending.request.Terms R) :
    ∀ order ∈ (v.processRequest pending).orders, R order.price order.originalQty := by
  rcases v.processRequest_cases pending with ⟨-, htable⟩ |
    ⟨request, hrequest, -, ⟨-, htable⟩ | ⟨-, htable⟩ | ⟨book, e, -, -, htable⟩⟩ |
    ⟨request, index, order, -, htarget, -, htable⟩ |
    ⟨request, index, order, hrequest, -, -, -, -, htable⟩
  all_goals
    have horders := congrArg Table.orders htable
    dsimp only [table] at horders
    rw [horders]
  · exact h
  · exact h
  · rw [hrequest] at hpending
    exact terms_of_concat h hpending
  · rw [hrequest] at hpending
    have harriving : R (v.arrivingOrder request).price (v.arrivingOrder request).originalQty :=
      hpending
    exact terms_of_concat h (applyMatch_terms harriving _ _)
  · exact terms_of_set h (h order (List.mem_of_getElem? (getElem?_of_cancelTarget htarget)))
  · rw [hrequest] at hpending
    exact terms_of_set h hpending

theorem foldl_processRequest_terms {requests : List PendingRequest}
    (hrequests : ∀ pending ∈ requests, pending.request.Terms R)
    (h : ∀ order ∈ v.orders, R order.price order.originalQty) :
    ∀ order ∈ (requests.foldl processRequest v).orders, R order.price order.originalQty := by
  induction requests generalizing v with
  | nil => exact h
  | cons pending later ih =>
      rw [List.forall_mem_cons] at hrequests
      exact ih hrequests.2 (processRequest_terms h hrequests.1)

theorem resolvePendingCancel_terms (h : ∀ order ∈ v.orders, R order.price order.originalQty)
    (cancel : OrderCancelEvent) : ∀ order ∈ (v.resolvePendingCancel cancel).2.orders,
      R order.price order.originalQty := by
  unfold resolvePendingCancel
  cases hfind : v.findOrder cancel.clientOrderId with
  | none => exact h
  | some found =>
      obtain ⟨index, order⟩ := found
      have horder := h order (List.mem_of_getElem? (getElem?_of_findOrder hfind).2)
      dsimp only
      split
      · exact terms_of_set h horder
      split
      · exact terms_of_set h horder
      · exact terms_of_set h horder

theorem matchOrder_terms {sweep : Sweep}
    (h : ∀ order ∈ sweep.venue.orders, R order.price order.originalQty) (now : Nanos)
    (index : Nat) : ∀ order ∈ (sweep.matchOrder now index).venue.orders,
      R order.price order.originalQty := by
  rcases sweep.matchOrder_cases now index with ⟨-, -, hsame⟩ |
    ⟨order, horder, -, matched, -, -, -, ⟨-, -, hvenue⟩ |
      ⟨e, -, -, -, -, -, -, -, -, htable⟩⟩
  · rw [hsame]
    exact h
  · rw [hvenue]
    exact h
  · have horders := congrArg Table.orders htable
    dsimp only [table] at horders
    rw [horders]
    exact terms_of_set h (applyMatch_terms (h order (List.mem_of_getElem? horder)) _ _)

/-- What holds of the terms on the books and on their way, and of the terms a call asks for,
holds after the call. -/
theorem HasTerms.step (h : v.HasTerms R) {call : Op} (hcall : call.Terms R) :
    (step call v).HasTerms R where
  orders := by
    by_cases hpoll : call = .poll
    · subst hpoll
      show ∀ order ∈ v.poll.2.orders, R order.price order.originalQty
      unfold poll
      split
      · exact h.orders
      · exact deliverAll_keeps (P := fun t => ∀ order ∈ t.orders, R order.price order.originalQty)
          (fun w cancel hw => resolvePendingCancel_terms hw cancel) _
          (foldl_processRequest_terms (fun pending hmem => h.inFlight pending (mem_arrived hmem).1)
            h.orders)
    by_cases hupdate : ∃ symbol updateNs, call = .onMarketUpdate symbol updateNs
    · obtain ⟨symbol, updateNs, rfl⟩ := hupdate
      show ∀ order ∈ (v.onMarketUpdate symbol updateNs).orders, R order.price order.originalQty
      rcases matchSymbol_cases { v with bookUpdatedNs := v.bookUpdatedNs.insert symbol updateNs }
        symbol v.clock with ⟨-, hsame⟩ | ⟨book, -, -, -, -, hswept⟩
      · have horders : (v.onMarketUpdate symbol updateNs).orders = v.orders :=
          congrArg Table.orders hsame
        rw [horders]
        exact h.orders
      · rw [onMarketUpdate, hswept]
        exact foldl_matchOrder_keeps
          (P := fun t => ∀ order ∈ t.orders, R order.price order.originalQty)
          (fun now sweep index hsweep => matchOrder_terms hsweep now index) v.clock _ h.orders
    · have horders : (PaperExecution.step call v).orders = v.orders := congrArg Table.orders
        (v.step_table hpoll fun symbol updateNs heq => hupdate ⟨symbol, updateNs, heq⟩)
      rw [horders]
      exact h.orders
  inFlight := by
    obtain ⟨kept, sent, hinFlight, hkept, hsent, -⟩ := v.step_inFlight call
    intro pending hmem
    rw [hinFlight] at hmem
    rcases List.mem_append.mp hmem with hold | hnew
    · exact h.inFlight pending (hkept.subset hold)
    · exact (hsent pending hnew).terms hcall

theorem HasTerms.run (h : v.HasTerms R) {calls : List Op} (hcalls : ∀ call ∈ calls, call.Terms R) :
    (Machine.run PaperExecution.step calls v).HasTerms R := by
  induction calls generalizing v with
  | nil => exact h
  | cons call calls ih =>
      rw [List.forall_mem_cons] at hcalls
      exact ih (h.step hcalls.1) hcalls.2

theorem hasTerms_init (config : PaperExecutionConfig) (clock wall : Nanos) :
    (init config clock wall).HasTerms R :=
  ⟨fun _ hmem => absurd hmem List.not_mem_nil, fun _ hmem => absurd hmem List.not_mem_nil⟩

end Terms

/-- How many orders the venue has been asked for: those it has, and those on their way. -/
def asked (v : PaperExecution) : Nat :=
  v.orders.length + v.inFlight.countP fun pending => pending.request.isSubmit

section Asked

variable (v : PaperExecution)

/-- Only a submit adds an order. -/
theorem processRequest_length_le (pending : PendingRequest) :
    (v.processRequest pending).orders.length ≤
      v.orders.length + if pending.request.isSubmit then 1 else 0 := by
  rw [v.processRequest_length pending, listsOrder]
  cases pending.request with
  | submit request =>
      dsimp only [Request.isSubmit]
      split
      · exact le_rfl
      · exact Nat.le_succ _
  | cancel _ | replace _ => exact Nat.le_add_right _ _

theorem foldl_processRequest_length (requests : List PendingRequest) :
    (requests.foldl processRequest v).orders.length ≤
      v.orders.length + requests.countP fun pending => pending.request.isSubmit := by
  induction requests generalizing v with
  | nil => exact le_rfl
  | cons pending later ih =>
      have hfirst := v.processRequest_length_le pending
      have hlater := ih (v.processRequest pending)
      rw [List.foldl_cons, List.countP_cons]
      omega

/-- A poll moves requests off the way and onto the books. -/
theorem poll_asked : v.poll.2.asked ≤ v.asked := by
  by_cases hstarted : v.started = true
  · have hprocessed : v.poll.2.orders.length ≤
        v.orders.length + v.arrived.countP fun pending => pending.request.isSubmit :=
      (poll_length hstarted).trans_le (foldl_processRequest_length
        { v with inFlight := v.inFlight.filter fun request => ¬ request.dueNs ≤ v.clock } v.arrived)
    have harrived : v.arrived.countP (fun pending => pending.request.isSubmit) =
        (v.inFlight.filter fun request => request.dueNs ≤ v.clock).countP
          fun pending => pending.request.isSubmit :=
      (List.perm_insertionSort _ _).countP_eq _
    have hsplit := List.countP_eq_countP_filter_add v.inFlight
      (fun pending => pending.request.isSubmit) fun request => request.dueNs ≤ v.clock
    rw [asked, asked, v.poll_inFlight hstarted]
    simp only [decide_not] at hsplit ⊢
    omega
  · have hidle : v.poll = ([], v) := if_pos (by simpa using hstarted)
    rw [hidle]

/-- The venue is asked for an order by a submit. -/
theorem step_asked_le (call : Op) : (step call v).asked ≤ v.asked + call.submits := by
  by_cases hpoll : call = .poll
  · subst hpoll
    exact v.poll_asked
  have hlength := step_length (v := v) hpoll
  obtain ⟨kept, sent, hinFlight, hkept, hsent, hone⟩ := v.step_inFlight call
  have hold := hkept.countP_le (p := fun pending => pending.request.isSubmit)
  have hnew : sent.countP (fun pending => pending.request.isSubmit) ≤ call.submits := by
    by_cases hsubmits : ∃ request, call = .submit request
    · obtain ⟨request, rfl⟩ := hsubmits
      exact List.countP_le_length.trans (hone request rfl)
    · have hnone : sent.countP (fun pending => pending.request.isSubmit) = 0 := by
        rw [List.countP_eq_zero]
        intro pending hmem hsubmit
        obtain ⟨request, heq⟩ := (hsent pending hmem).isSubmit hsubmit
        exact hsubmits ⟨request, heq⟩
      exact hnone.trans_le (Nat.zero_le _)
  rw [asked, asked, hinFlight, List.countP_append, hlength]
  omega

theorem asked_init (config : PaperExecutionConfig) (clock wall : Nanos) :
    (init config clock wall).asked = 0 := rfl

end Asked

end PaperExecution

end MmEngine.Exchange.Paper
