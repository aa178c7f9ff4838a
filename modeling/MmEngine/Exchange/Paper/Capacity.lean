/-
# Capacity of the paper venue

The venue refuses a submit while it holds as many orders as it is configured for. The
order comes into being later, when the request arrives, and then nobody looks again: any
number of submits that were let through together are listed together. So the capacity is
kept exactly as long as every submit that is listed still finds room when it arrives.
-/

import MmEngine.Exchange.Paper.VenueIdentity

namespace MmEngine.Exchange.Paper

namespace PaperExecution

variable {v : PaperExecution} {capacity : Nat}

/-- The request adds an order to the venue. -/
def listsOrder (pending : PendingRequest) (v : PaperExecution) : Bool :=
  match pending.request with
  | .submit request => lists request v
  | _ => false

/-- A request that adds an order finds room for it. -/
def FindsRoom (capacity : Nat) (pending : PendingRequest) (v : PaperExecution) : Prop :=
  listsOrder pending v = true → v.orders.length < capacity

/-- Every request of a poll that adds an order finds room for it. -/
def RoomAtArrival (capacity : Nat) (op : Op) (v : PaperExecution) : Prop :=
  match op with
  | .poll => v.started = true →
      Machine.Along (fun pending v => v.processRequest pending) (FindsRoom capacity) v.arrived
        { v with inFlight := v.inFlight.filter fun request => ¬ request.dueNs ≤ v.clock }
  | _ => True

theorem orders_length {t : Table} (h : v.table = t) : v.orders.length = t.orders.length :=
  congrArg (fun t => t.orders.length) h

theorem processSubmit_length (v : PaperExecution) (request : OrderRequest) (delay : Nanos) :
    (v.processSubmit request delay).orders.length =
      if lists request v then v.orders.length + 1 else v.orders.length := by
  rcases processSubmit_lists (v := v) request delay with ⟨hrefused, n, k, hsame⟩ |
    ⟨hlists, order, n, -, -, hlisted⟩
  · rw [hrefused]
    exact orders_length hsame
  · rw [hlists]
    exact (orders_length hlisted).trans List.length_append

theorem processCancel_length (v : PaperExecution) (request : CancelRequest) (delay : Nanos) :
    (v.processCancel request delay).orders.length = v.orders.length := by
  rcases v.processCancel_cases request delay with hsame | ⟨index, order, -, hmarked⟩
  · exact orders_length hsame
  · exact (orders_length hmarked).trans List.length_set

theorem processReplace_length (v : PaperExecution) (request : ReplaceRequest) (delay : Nanos) :
    (v.processReplace request delay).orders.length = v.orders.length := by
  rcases v.processReplace_cases request delay with hsame | ⟨index, order, -, -, -, hswapped⟩
  · exact orders_length hsame
  · exact (orders_length hswapped).trans List.length_set

/-- A request adds an order, or leaves their number. -/
theorem processRequest_length (v : PaperExecution) (pending : PendingRequest) :
    (v.processRequest pending).orders.length =
      if listsOrder pending v then v.orders.length + 1 else v.orders.length := by
  unfold listsOrder processRequest
  cases pending.request with
  | submit request => exact processSubmit_length _ request _
  | cancel request => exact processCancel_length _ request _
  | replace request => exact processReplace_length _ request _

theorem length_le_processRequests (requests : List PendingRequest) (v : PaperExecution) :
    v.orders.length ≤ (requests.foldl processRequest v).orders.length := by
  induction requests generalizing v with
  | nil => exact Nat.le_refl _
  | cons pending requests ih =>
      refine Nat.le_trans ?_ (ih (v.processRequest pending))
      rw [processRequest_length]
      split
      · exact Nat.le_succ _
      · exact Nat.le_refl _

/-- A batch of requests keeps the capacity exactly when each that adds an order finds
room: the number never goes back. -/
theorem requests_length_le_iff (requests : List PendingRequest)
    (h : v.orders.length ≤ capacity) :
    (requests.foldl processRequest v).orders.length ≤ capacity ↔
      Machine.Along (fun pending v => v.processRequest pending) (FindsRoom capacity) requests
        v := by
  induction requests generalizing v with
  | nil => exact iff_of_true h trivial
  | cons pending requests ih =>
      have hfirst : (v.processRequest pending).orders.length ≤ capacity ↔
          FindsRoom capacity pending v := by
        rw [v.processRequest_length pending, FindsRoom]
        cases listsOrder pending v with
        | true => exact ⟨fun hroom _ => hroom, fun hroom => hroom rfl⟩
        | false => exact iff_of_true h fun hlists => absurd hlists Bool.false_ne_true
      rw [List.foldl_cons, Machine.Along]
      by_cases hroom : FindsRoom capacity pending v
      · rw [ih (hfirst.mpr hroom), and_iff_right hroom]
      · refine iff_of_false (fun hlast => hroom (hfirst.mp ?_)) fun hall => hroom hall.1
        exact (length_le_processRequests requests _).trans hlast

/-- Settling a cancel changes no number of orders. -/
theorem resolvePendingCancel_length (v : PaperExecution) (cancel : OrderCancelEvent) :
    (v.resolvePendingCancel cancel).2.orders.length = v.orders.length := by
  unfold resolvePendingCancel
  cases v.findOrder cancel.clientOrderId with
  | none => rfl
  | some found =>
      dsimp only
      split
      · exact List.length_set
      split
      · exact List.length_set
      · exact List.length_set

theorem matchOrder_length (now : Nanos) (sweep : Sweep) (index : Nat) :
    (sweep.matchOrder now index).venue.orders.length = sweep.venue.orders.length := by
  rcases sweep.matchOrder_cases now index with ⟨-, -, hsame⟩ |
    ⟨order, -, -, matched, -, -, -, ⟨-, -, hsame⟩ | ⟨e, -, -, -, -, -, -, -, -, htable⟩⟩
  · rw [hsame]
  · rw [hsame]
  · exact (congrArg (fun t => t.orders.length) htable).trans List.length_set

/-- What a poll delivers leaves the number of orders its requests arrived at. -/
theorem poll_length (hstarted : v.started = true) :
    v.poll.2.orders.length =
      (v.arrived.foldl processRequest
        { v with
          inFlight := v.inFlight.filter fun request =>
            ¬ request.dueNs ≤ v.clock }).orders.length := by
  generalize hcount : (v.arrived.foldl processRequest
    { v with inFlight := v.inFlight.filter fun request => ¬ request.dueNs ≤ v.clock }) = processed
  unfold poll
  rw [if_neg (by simp [hstarted]), processArrived, hcount]
  exact deliverAll_keeps (P := fun t : Table => t.orders.length = processed.orders.length)
    (fun w cancel hw => (resolvePendingCancel_length w cancel).trans hw) _ rfl

/-- Away from a poll no order is added. -/
theorem step_length {op : Op} (hpoll : op ≠ .poll) :
    (step op v).orders.length = v.orders.length := by
  by_cases hupdate : ∃ symbol updateNs, op = .onMarketUpdate symbol updateNs
  · obtain ⟨symbol, updateNs, rfl⟩ := hupdate
    show (v.onMarketUpdate symbol updateNs).orders.length = v.orders.length
    rcases matchSymbol_cases { v with bookUpdatedNs := v.bookUpdatedNs.insert symbol updateNs }
      symbol v.clock with ⟨-, hsame⟩ | ⟨book, -, -, -, -, hswept⟩
    · exact orders_length hsame
    · rw [onMarketUpdate, hswept]
      exact foldl_matchOrder_keeps (P := fun t : Table => t.orders.length = v.orders.length)
        (fun now sweep index hsweep => (matchOrder_length now sweep index).trans hsweep) v.clock _
        rfl
  · exact orders_length (v.step_table hpoll fun symbol updateNs heq =>
      hupdate ⟨symbol, updateNs, heq⟩)

/-- A call keeps the capacity exactly when every submit that it carries out and that is
not refused finds room. -/
theorem step_length_le_iff (op : Op) (h : v.orders.length ≤ capacity) :
    (step op v).orders.length ≤ capacity ↔ RoomAtArrival capacity op v := by
  by_cases hpoll : op = .poll
  · subst hpoll
    by_cases hstarted : v.started = true
    · unfold RoomAtArrival
      dsimp only
      rw [imp_iff_right hstarted, step, poll_length hstarted]
      exact requests_length_le_iff v.arrived h
    · have hsame : v.poll.2 = v := by
        unfold poll
        rw [if_pos (by simpa using hstarted)]
      refine iff_of_true ?_ fun hstart => absurd hstart hstarted
      rw [step, hsame]
      exact h
  · have hroom : RoomAtArrival capacity op v := by
      cases op with
      | poll => exact absurd rfl hpoll
      | _ => trivial
    exact iff_of_true ((step_length hpoll).trans_le h) hroom

/-- The venue never holds more orders than it is configured for, in any state of a run,
exactly when along that run every submit that is carried out and not refused finds room
for its order when it arrives. -/
theorem capacity_kept_iff (config : PaperExecutionConfig) (clock wall : Nanos) (ops : List Op) :
    (∀ n, (Machine.run step (ops.take n) (init config clock wall)).orders.length ≤
        config.maxOrders) ↔
      Machine.Along step (RoomAtArrival config.maxOrders) ops (init config clock wall) :=
  Machine.forall_take_iff_along (I := fun v : PaperExecution => v.orders.length ≤ config.maxOrders)
    (J := fun _ => True) (fun _ _ _ => trivial) (fun op _ _ h => step_length_le_iff op h) trivial
    (Nat.zero_le _)

end PaperExecution

/-- Two submits under way together. -/
def Sample.together : List PaperExecution.Op :=
  [.start, .submit (request 'a' .buy price one), .submit (request 'b' .buy price one), .poll]

namespace PaperExecution

/-- A venue for one order lists both. -/
theorem capacity_exceeded :
    ¬(Machine.run step Sample.together
        (init { Sample.config with maxOrders := 1 } 0 0)).orders.length ≤ 1 := by
  decide +kernel

end PaperExecution

end MmEngine.Exchange.Paper
