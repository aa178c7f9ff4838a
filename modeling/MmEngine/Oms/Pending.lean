/-
# Outstanding requests

The order manager knows in two ways that a request is outstanding: by the
lifecycle state, which the slots and the restart read, and by the recorded
request, which the timeout sweep and the duplicate check read. They are written
apart. This module says which steps keep them together, and that every run of
such steps does.

The steps that pull them apart are a partial fill on an order with a request
outstanding, an answer whose transition the table refuses after the request was
cleared, an acknowledgement that reports a pending status, a request for an
order that cannot enter the pending state, a listing that omits an order with a
request outstanding, and a resolution into or out of a pending state.
-/

import MmEngine.Oms.Run

namespace MmEngine.Oms

open MmEngine.Exchange MmEngine.Quote MmEngine.Risk OmsState OrderManager

variable {σ : Type}

/-- State and recorded request agree, and a request outstanding is timed. -/
def OrderRecord.PendingCoherent (order : OrderRecord) : Prop :=
  (order.state.hasPendingRequest = true ↔ order.pendingRequest ≠ 0) ∧
    (order.state.hasPendingRequest = true → order.pendingSinceNs ≠ 0)

instance (order : OrderRecord) : Decidable order.PendingCoherent :=
  inferInstanceAs (Decidable (_ ∧ _))

def PendingCoherent (s : OmsState) : Prop := ∀ order ∈ s.orders, order.PendingCoherent

instance (s : OmsState) : Decidable (PendingCoherent s) :=
  inferInstanceAs (Decidable (∀ order ∈ s.orders, order.PendingCoherent))

/-- The events that settle a request only in states that then leave it: an
acknowledgement lands outside the pending states, a rejection does not meet a
pending cancel, a fill that does not complete the order meets no request, and an
accepted cancel does not meet a pending new. -/
def OmsState.eventSettles (s : OmsState) (order : OrderRecord) : ExecutionEvent → Bool
  | .orderAck ack =>
      !s.ackIsNews order ack ||
        !(landing order.state (OrderRecord.ackTarget ack.status)).hasPendingRequest
  | .orderReject _ => order.state ≠ .pendingCancel
  | .fill fill =>
      !order.state.hasPendingRequest || order.seenTrades.contains fill.tradeId ||
        decide (order.originalQuantity.raw ≤
          order.cumulativeQuantity.raw + fill.quantity.raw)
  | .orderCancel cancel => cancel.cancelStatus ≠ .accepted || order.state ≠ .pendingNew
  | .requestFailure failure => failure.error.outcome ≠ .notSent || order.state ≠ .pendingCancel
  | .none | .orderReplace _ | .other _ => true

/-- The steps that keep state and recorded request together. -/
def keepsPending (s : OmsState) : Op σ → Bool
  | .submit approved =>
      !approved.valid || !(approved.action.type = .cancel || approved.action.type = .replace) ||
        !s.attached ||
          (s.findTarget approved.action (approved.action.type = .cancel)).all fun found =>
            ownershipViolated approved.action found.2 ||
              (found.2.state ≠ .created && found.2.state ≠ .orphaned)
  | .apply event =>
      (validateExecutionEvent event).isError ||
        (s.findSubject event).all fun found =>
          found.2.isTerminal || s.eventSettles found.2 event
  | .reconcile snapshot =>
      !snapshot.isComplete || s.orders.zipIdx.all fun entry =>
        !s.missingAt snapshot entry.2 entry.1 ||
          decide (s.snapshotTime snapshot < entry.1.acknowledgedNs) ||
            !entry.1.state.hasPendingRequest
  | .resolve id target =>
      (s.findById id).all fun found =>
        !isLegalTransition found.2.state target || target.isTerminal ||
          target.hasPendingRequest = found.2.state.hasPendingRequest
  | .onTimer | .attachExecution | .advance _ | .venue _ | .restart _ => true

namespace OrderRecord

theorem PendingCoherent.of_settled {order : OrderRecord} (hrequest : order.pendingRequest = 0)
    (hstate : order.state.hasPendingRequest = false) : order.PendingCoherent := by
  simp [PendingCoherent, hrequest, hstate]

/-- A record whose request has been cleared is coherent wherever it lands outside
the pending states. -/
theorem PendingCoherent.transition_settled {edited : OrderRecord} {target : OrderState}
    (now : Nanos) (hrequest : edited.pendingRequest = 0)
    (hland : (landing edited.state target).hasPendingRequest = false) :
    (edited.transition target now).PendingCoherent := by
  apply of_settled
  · rw [transition_pendingRequest, hrequest, ite_self]
  · rwa [transition_state]

/-- Attempting a terminal state keeps a record coherent. -/
theorem PendingCoherent.transition_terminal {order : OrderRecord} {target : OrderState}
    (h : order.PendingCoherent) (now : Nanos) (hterminal : target.isTerminal = true) :
    (order.transition target now).PendingCoherent := by
  by_cases hlegal : isLegalTransition order.state target = true
  · apply of_settled
    · simp [transition_pendingRequest, hlegal, hterminal]
    · rw [transition_state, landing, if_pos hlegal]
      exact OrderState.not_hasPendingRequest_of_isTerminal hterminal
  · have hrefused : order.transition target now = order := by simp [transition, hlegal]
    rw [hrefused]
    exact h

theorem PendingCoherent.request_eq_zero {order : OrderRecord} (h : order.PendingCoherent)
    (hstate : order.state.hasPendingRequest = false) : order.pendingRequest = 0 := by
  by_contra hrequest
  rw [h.1.mpr hrequest] at hstate
  cases hstate

/-- Coherence reads three fields only. -/
theorem PendingCoherent.congr {order edited : OrderRecord} (h : order.PendingCoherent)
    (hstate : edited.state = order.state) (hrequest : edited.pendingRequest = order.pendingRequest)
    (hsince : edited.pendingSinceNs = order.pendingSinceNs) : edited.PendingCoherent := by
  simpa [PendingCoherent, hstate, hrequest, hsince] using h

/-- A request just recorded is coherent where the record lands in a pending state. -/
theorem PendingCoherent.of_requested {order : OrderRecord} {target : OrderState}
    {now : Nanos} (hrequest : order.pendingRequest ≠ 0) (hsince : order.pendingSinceNs ≠ 0)
    (hland : (landing order.state target).hasPendingRequest = true) :
    (order.transition target now).PendingCoherent := by
  have hnot : (isLegalTransition order.state target && target.isTerminal) = false := by
    by_contra hboth
    rw [Bool.not_eq_false, Bool.and_eq_true] at hboth
    rw [landing, if_pos hboth.1] at hland
    rw [OrderState.not_isTerminal_of_hasPendingRequest hland] at hboth
    cases hboth.2
  have hpending : (order.transition target now).state.hasPendingRequest = true := by
    rwa [transition_state]
  refine ⟨⟨fun _ => ?_, fun _ => hpending⟩, fun _ => ?_⟩
  · rwa [transition_pendingRequest, if_neg (by simp [hnot])]
  · rwa [transition_pendingSinceNs, if_neg (by simp [hnot])]

end OrderRecord

theorem restingState_not_pending (order : OrderRecord) :
    ∀ {source : OrderState}, source.isTerminal = false →
      (landing source order.restingState).hasPendingRequest = false := by
  unfold OrderRecord.restingState
  split <;> decide

theorem requested_pending {target : OrderState} (htarget : target = .pendingCancel ∨
    target = .pendingReplace) :
    ∀ {source : OrderState}, source.isTerminal = false → source ≠ .created →
      source ≠ .orphaned → (landing source target).hasPendingRequest = true := by
  rcases htarget with rfl | rfl <;> decide

theorem returned_not_pending {target : OrderState} (htarget : target = .pendingCancel ∨
    target = .pendingReplace) :
    ∀ {source : OrderState}, source.isTerminal = false →
      (landing (landing source target) .working).hasPendingRequest = false := by
  rcases htarget with rfl | rfl <;> decide

theorem unknown_not_pending :
    ∀ {source : OrderState}, (landing source .unknown).hasPendingRequest = false := by
  decide

theorem rejected_not_pending :
    ∀ {source : OrderState}, source.isTerminal = false → source ≠ .pendingCancel →
      (landing source .rejected).hasPendingRequest = false := by
  decide

theorem cancelled_not_pending :
    ∀ {source : OrderState}, source.isTerminal = false → source ≠ .pendingNew →
      (landing source .cancelled).hasPendingRequest = false := by
  decide

theorem tooLate_not_pending :
    ∀ {source : OrderState}, source.isTerminal = false →
      (landing source .filled).hasPendingRequest = false := by
  decide

theorem filled_not_pending :
    ∀ {source : OrderState}, source.hasPendingRequest = false →
      (landing source .partiallyFilled).hasPendingRequest = false := by
  decide

/-! ## One edit -/

theorem OmsState.RequestEdit.pendingCoherent {s base : OmsState} {action : OrderAction}
    {order record : OrderRecord} {observed : List Observation}
    (h : RequestEdit s action order record base observed) (hclock : s.clock ≠ 0)
    (hterminal : order.isTerminal = false) (hcreated : order.state ≠ .created)
    (horphaned : order.state ≠ .orphaned) (horder : order.PendingCoherent) :
    record.PendingCoherent := by
  cases h with
  | cancelSent =>
      apply OrderRecord.PendingCoherent.of_requested (Nat.succ_ne_zero _) hclock
      exact requested_pending (.inl rfl) hterminal hcreated horphaned
  | cancelReturned =>
      apply OrderRecord.PendingCoherent.transition_settled _ rfl
      rw [OrderRecord.settled, OrderRecord.transition_state]
      exact returned_not_pending (.inl rfl) hterminal
  | coalesced => exact horder.congr rfl rfl rfl
  | replaceSent =>
      apply OrderRecord.PendingCoherent.of_requested (Nat.succ_ne_zero _) hclock
      exact requested_pending (.inr rfl) hterminal hcreated horphaned
  | replaceReturned =>
      apply OrderRecord.PendingCoherent.transition_settled _ rfl
      rw [OrderRecord.replaceDropped, OrderRecord.settled, OrderRecord.transition_state]
      exact returned_not_pending (.inr rfl) hterminal

/-- Unless it is coalesced, a request is the owner's and an adapter gets it. -/
theorem OmsState.RequestEdit.coalesced_or_sent {s base : OmsState} {action : OrderAction}
    {order record : OrderRecord} {observed : List Observation}
    (h : RequestEdit s action order record base observed) :
    order.state = .pendingReplace ∨ s.attached = true ∧ ownershipViolated action order = false := by
  cases h with
  | coalesced _ hstate => exact .inl hstate
  | cancelSent _ _ hattached howned => exact .inr ⟨hattached, howned⟩
  | cancelReturned _ _ hattached howned => exact .inr ⟨hattached, howned⟩
  | replaceSent _ _ _ hattached _ howned => exact .inr ⟨hattached, howned⟩
  | replaceReturned _ _ _ hattached _ howned => exact .inr ⟨hattached, howned⟩

/-- A fill that leaves something open is for less than what was open. -/
theorem bookFill_remaining {order booked : OrderRecord} {fill : FillEvent}
    (h : order.bookFill fill = .ok booked) (hremaining : booked.remaining.isZero = false) :
    order.cumulativeQuantity.raw + fill.quantity.raw < order.originalQuantity.raw := by
  obtain ⟨hsum, _, heq⟩ := bookFill_eq_ok h
  have hsize : booked.originalQuantity = order.originalQuantity := by rw [heq]
  by_contra hnot
  have hzero : booked.remaining = .zero := by
    unfold OrderRecord.remaining
    cases hleft : Fixed.checkedSub booked.originalQuantity booked.cumulativeQuantity with
    | none => rfl
    | some left =>
        have hraw := Fixed.checkedSub_eq_some_iff.mp hleft
        rw [hsize] at hraw
        have hsmall : left.isPositive = false := by
          rw [Fixed.isPositive_eq_false_iff]
          omega
        simp [hsmall]
  rw [hzero] at hremaining
  cases hremaining

theorem OmsState.EventEdit.pendingCoherent {s base : OmsState} {order edited : OrderRecord}
    {event : ExecutionEvent} {target : OrderState} {answers resolves : Bool}
    (h : EventEdit s order event edited target answers resolves base)
    (hterminal : order.isTerminal = false) (hsettles : s.eventSettles order event = true)
    (horder : order.PendingCoherent) (now : Nanos) :
    (edited.transition target now).PendingCoherent := by
  have hsource : order.state.isTerminal = false := hterminal
  have hstate : edited.state = order.state := h.sameOrder.2
  cases h with
  | @ack ack _ _ hnews hfirst hbind =>
      have hisNews := ackIsNews_of_bind hnews hfirst hbind
      apply OrderRecord.PendingCoherent.transition_settled _ rfl
      rw [hstate]
      simpa [OmsState.eventSettles, hisNews] using hsettles
  | reject =>
      apply OrderRecord.PendingCoherent.transition_settled _ rfl
      have hnot : order.state ≠ .pendingCancel := by simpa [OmsState.eventSettles] using hsettles
      exact rejected_not_pending hsource hnot
  | fillRefused =>
      have hself := OrderRecord.transition_self _
        (by rw [OrderRecord.isTerminal, hstate]; exact hsource) now
      rw [hstate] at hself
      rw [hself]
      exact horder.congr rfl rfl rfl
  | fillComplete _ _ hbook =>
      have heq := (bookFill_eq_ok hbook).2.2
      exact (horder.congr hstate (by rw [heq]; rfl) (by rw [heq]; rfl)).transition_terminal _ rfl
  | @fillPartial fill seen _ hquantity hinsert hbook hremaining =>
      have heq := (bookFill_eq_ok hbook).2.2
      have hopen := bookFill_remaining hbook hremaining
      have hunseen := SeenTradeIds.contains_eq_false_of_insert hinsert
      have hnone : order.state.hasPendingRequest = false := by
        have hopen : ¬ order.originalQuantity.raw ≤
            order.cumulativeQuantity.raw + fill.quantity.raw := Int.not_le.mpr hopen
        simpa [OmsState.eventSettles, hunseen, hopen] using hsettles
      apply OrderRecord.PendingCoherent.transition_settled
      · rw [heq]
        exact horder.request_eq_zero hnone
      · rw [hstate]
        exact filled_not_pending hnone
  | cancelAccepted hstatus =>
      apply OrderRecord.PendingCoherent.transition_settled _ rfl
      have hnot : order.state ≠ .pendingNew := by
        simpa [OmsState.eventSettles, hstatus] using hsettles
      exact cancelled_not_pending hsource hnot
  | cancelRejected =>
      apply OrderRecord.PendingCoherent.transition_settled _ rfl
      exact restingState_not_pending order hsource
  | cancelTooLate =>
      apply OrderRecord.PendingCoherent.transition_settled _ rfl
      exact tooLate_not_pending hsource
  | cancelUnknown =>
      apply OrderRecord.PendingCoherent.transition_settled _ rfl
      exact unknown_not_pending
  | replaceAccepted _ hswap =>
      apply OrderRecord.PendingCoherent.transition_settled _ rfl
      rw [hstate]
      exact restingState_not_pending _ hsource
  | replaceUnknown =>
      apply OrderRecord.PendingCoherent.transition_settled _ rfl
      exact unknown_not_pending
  | replaceRefused =>
      apply OrderRecord.PendingCoherent.transition_settled _ rfl
      exact restingState_not_pending order hsource
  | failureNotSent houtcome =>
      apply OrderRecord.PendingCoherent.transition_settled _ rfl
      have hnot : order.state ≠ .pendingCancel := by
        simpa [OmsState.eventSettles, houtcome] using hsettles
      exact rejected_not_pending hsource hnot
  | failureUnknown =>
      apply OrderRecord.PendingCoherent.transition_settled _ rfl
      exact unknown_not_pending

theorem Edited.pendingCoherent {s : OmsState} {i : Nat} {order record : OrderRecord} {op : Op σ}
    (h : Edited s i order op record) (hrecord : s.orders[i]? = some order) (hclock : s.clock ≠ 0)
    (hkeeps : keepsPending s op = true) (horder : order.PendingCoherent) :
    record.PendingCoherent := by
  cases h with
  | request hvalid hfound hterminal hedit =>
      have hstate : order.state ≠ .created ∧ order.state ≠ .orphaned := by
        rcases hedit.coalesced_or_sent with hpending | ⟨hattached, howned⟩
        · rw [hpending]
          exact ⟨by decide, by decide⟩
        simp only [keepsPending, hfound, Option.all_some, hattached, howned] at hkeeps
        rcases hedit.type with htype | htype
        all_goals simpa [hvalid, htype] using hkeeps
      exact hedit.pendingCoherent hclock hterminal hstate.1 hstate.2 horder
  | @event event _ _ _ _ _ hvalid hfound hterminal hedit =>
      have hsettles : s.eventSettles order event = true := by
        simpa [keepsPending, hvalid, hfound, hterminal] using hkeeps
      exact hedit.pendingCoherent hterminal hsettles horder _
  | timedOut =>
      exact OrderRecord.PendingCoherent.transition_settled _ rfl unknown_not_pending
  | omitted hcomplete hmissing htime =>
      have hnone : order.state.hasPendingRequest = false := by
        have hentry : (order, i) ∈ s.orders.zipIdx := List.mem_zipIdx_iff_getElem?.mpr hrecord
        have hall := hkeeps
        simp only [keepsPending, hcomplete, Bool.not_true, Bool.false_or, List.all_eq_true] at hall
        simpa [hmissing, Int.not_lt.mpr htime] using hall (order, i) hentry
      exact OrderRecord.PendingCoherent.transition_settled _ (horder.request_eq_zero hnone)
        unknown_not_pending
  | @resolved id target hfound hlegal =>
      have hagree : target.isTerminal = true ∨
          target.hasPendingRequest = order.state.hasPendingRequest := by
        simpa [keepsPending, hfound, hlegal] using hkeeps
      unfold concluded
      split
      · rename_i hterminal
        exact OrderRecord.PendingCoherent.of_settled rfl
          (OrderState.not_hasPendingRequest_of_isTerminal hterminal)
      · rename_i hterminal
        have hsame := hagree.resolve_left hterminal
        simpa [OrderRecord.PendingCoherent, hsame] using horder
  | restarted =>
      unfold recovered
      split
      · exact OrderRecord.PendingCoherent.of_settled rfl rfl
      · exact horder

theorem Born.pendingCoherent {Q : OrderAction → Prop} {now : Nanos} {record : OrderRecord}
    (h : Born Q now record) (hnow : now ≠ 0) : record.PendingCoherent := by
  obtain ⟨hclock, _, hrecord⟩ := h
  cases hrecord with
  | unattached => exact OrderRecord.PendingCoherent.of_settled rfl rfl
  | accepted =>
      exact OrderRecord.PendingCoherent.of_requested (Nat.succ_ne_zero _) (hclock ▸ hnow) rfl
  | rejected =>
      apply OrderRecord.PendingCoherent.transition_settled _ rfl
      rw [OrderRecord.settled, OrderRecord.transition_state]
      rfl

/-- What carries the agreement along a run. -/
structure PendingInvariant (w : World σ) : Prop where
  tracked : Tracked (fun _ => True) w
  clock : 0 < w.oms.clock
  coherent : PendingCoherent w.oms.toOmsState

theorem PendingInvariant.init (config : OmsConfig) {clock : Nanos} (hclock : 0 < clock)
    (venue : σ) : PendingInvariant (World.init config clock venue) :=
  ⟨tracked_init _ config clock venue, hclock, fun order horder => by
    simp [World.init, OrderManager.init] at horder⟩

theorem PendingInvariant.step {w : World σ} (hw : PendingInvariant w)
    (port : IExchangeExecution σ) {op : Op σ}
    (hkeeps : keepsPending w.oms.toOmsState op = true) : PendingInvariant (step port op w) := by
  have hevolves := step_evolves port op w hw.tracked.numbered hw.tracked.held (admits_true op)
  have hnow : w.oms.clock ≠ 0 := ne_of_gt hw.clock
  refine ⟨hw.tracked.step port (admits_true op),
    lt_of_lt_of_le hw.clock (step_clock_le port op w hw.tracked.numbered), ?_⟩
  intro record hrecord
  obtain ⟨i, hi⟩ := List.mem_iff_getElem?.mp hrecord
  rcases hevolves.cases_entry hi with ⟨order, horder, rfl | hedited⟩ | ⟨_, hborn⟩
  · exact hw.coherent _ (List.mem_of_getElem? horder)
  · exact hedited.pendingCoherent horder hnow hkeeps
      (hw.coherent order (List.mem_of_getElem? horder))
  · exact hborn.pendingCoherent hnow

/-- In every run, restarts included, whose steps keep state and recorded request
together, the two notions of an outstanding request agree in every record of
every state, and a request outstanding is timed. -/
theorem pending_coherent_along (port : IExchangeExecution σ) (config : OmsConfig) (clock : Nanos)
    (hclock : 0 < clock) (venue : σ) (ops : List (Op σ))
    (hkeeps : Machine.Along (step port) (fun op w => keepsPending w.oms.toOmsState op = true) ops
      (World.init config clock venue)) :
    PendingCoherent
      (Machine.run (step port) ops (World.init config clock venue)).oms.toOmsState := by
  have hinvariant : PendingInvariant
      (Machine.run (step port) ops (World.init config clock venue)) :=
    Machine.invariant_run (fun _ _ hw hop => hw.step port hop)
      (PendingInvariant.init config hclock venue) hkeeps
  exact hinvariant.coherent

/-- A run through every kind of request, with a timeout and a restart. -/
theorem pending_coherent_along_requests :
    PendingCoherent (Sample.after [.attachExecution, Sample.submitNew 10, Sample.ack '1' 'x',
      Sample.submitReplace 20, Sample.replaceAccepted '1' '2' .empty, Sample.fill '2' 'a' 5,
      Sample.submitCancel, .advance 6000000000, .onTimer, .restart {}, .attachExecution,
      Sample.submitCancel]).oms.toOmsState :=
  pending_coherent_along Sample.acceptAll {} 1 (by decide) () _ (by decide +kernel)

/-- A partial fill while the cancel is outstanding leaves the request recorded
and the order out of its pending state. -/
theorem partial_fill_breaks_pending_coherence :
    ¬ PendingCoherent (Sample.after [.attachExecution, Sample.submitNew 10, Sample.ack '1' 'x',
      Sample.submitCancel, Sample.fill '1' 'a' 5]).oms.toOmsState := by
  decide +kernel

end MmEngine.Oms
