/-
# One request at a time

Between two requests for one order that the adapter took, an event answering the
first has to take effect, and no cancel is handed to the adapter for an order
with a request unanswered. A replace looks at the recorded request before it is
sent and so respects this by itself. A cancel only looks at the lifecycle state:
it is sent over an outstanding submit, an outstanding replace, and over a cancel
whose order a partial fill has moved on.

The history variable says which requests are unanswered. What carries the
property along a run is that the order of every unanswered request either still
has a request recorded or is terminal.
-/

import MmEngine.Oms.Run
import MmEngine.Lib.Trace

namespace MmEngine.Oms

open MmEngine.Exchange MmEngine.Quote MmEngine.Risk OmsState OrderManager

variable {σ : Type}

namespace Observation

/-- A request for the order that the adapter took. -/
def requests (id : LogicalOrderId) : Observation → Bool
  | .sent order _ accepted => order = id && accepted
  | _ => false

/-- An answer for the order. -/
def answers (id : LogicalOrderId) : Observation → Bool
  | .answered order => order = id
  | _ => false

/-- A request that is taken, and a cancel whether it is taken or not, is handed
over only when every earlier request for the order has been answered. -/
def OneAtATime (before : List Observation) : Observation → Prop
  | .sent id kind accepted =>
      accepted = true ∨ kind = .cancel → Trace.Closed (requests id) (answers id) before
  | _ => True

end Observation

/-- At most one request is outstanding for each order, all along the trace. -/
def SingleRequest (trace : List Observation) : Prop :=
  Trace.Each Observation.OneAtATime trace

/-- True when a request for the order is unanswered. -/
def outstanding (id : LogicalOrderId) (trace : List Observation) : Bool :=
  Trace.pending (Observation.requests id) (Observation.answers id) trace

/-- No request is given up without an answer: the timer sweep expires nothing,
and a restart finds no order in a pending state. -/
def awaitsAnswers (s : OmsState) : Op σ → Bool
  | .onTimer => s.orders.all fun order => !order.expired s.config s.clock
  | .restart _ => s.orders.all fun order => !order.state.hasPendingRequest
  | _ => true

/-- A cancel that is handed to the adapter finds no request recorded. -/
def cancelsIdle (s : OmsState) : Op σ → Bool
  | .submit approved =>
      !approved.valid || approved.action.type ≠ .cancel || !s.attached ||
        (s.findTarget approved.action true).all fun found =>
          OmsState.ownershipViolated approved.action found.2 || found.2.isTerminal ||
            found.2.state = .pendingCancel || found.2.pendingRequest = 0
  | _ => true

/-- The order has a request recorded, or will never be asked for anything again. -/
def OrderRecord.Busy (order : OrderRecord) : Prop :=
  order.pendingRequest ≠ 0 ∨ order.isTerminal = true

theorem OrderRecord.Busy.transition {order : OrderRecord} (h : order.Busy) (target : OrderState)
    (now : Nanos) : (order.transition target now).Busy := by
  by_cases hends : (isLegalTransition order.state target && target.isTerminal) = true
  · right
    rw [Bool.and_eq_true] at hends
    rw [OrderRecord.isTerminal, transition_state, landing, if_pos hends.1]
    exact hends.2
  · rcases h with hrequest | hterminal
    · left
      rwa [transition_pendingRequest, if_neg hends]
    · right
      have hsource : order.state.isTerminal = true := hterminal
      rw [OrderRecord.isTerminal, transition_state, landing]
      split
      · rename_i hlegal
        rwa [eq_of_isLegalTransition_of_isTerminal hsource hlegal]
      · exact hsource

/-- Every unanswered request has a busy order, and the trace is as it should be. -/
structure RequestInvariant (s : OmsState) (trace : List Observation) : Prop where
  busy : ∀ id, outstanding id trace = true →
    ∃ (i : Nat) (order : OrderRecord),
      s.orders[i]? = some order ∧ order.logicalId = id ∧ order.Busy
  single : SingleRequest trace

namespace RequestInvariant

variable {s after : OmsState} {trace : List Observation}

/-- An order with no request recorded has no unanswered request. -/
theorem idle (h : RequestInvariant s trace) (hs : s.Numbered) {i : Nat} {order : OrderRecord}
    (horder : s.orders[i]? = some order) (hrequest : order.pendingRequest = 0)
    (hterminal : order.isTerminal = false) : outstanding order.logicalId trace = false := by
  by_contra hopen
  rw [Bool.not_eq_false] at hopen
  obtain ⟨j, other, hother, hid, hbusy⟩ := h.busy _ hopen
  have hij : j = i := hs.index_unique hother horder hid
  subst hij
  rw [horder] at hother
  cases hother
  rcases hbusy with hne | hends
  · exact hne hrequest
  · rw [hterminal] at hends
    cases hends

/-- Nothing was ever asked for an order that does not exist yet. -/
theorem fresh (h : RequestInvariant s trace) (hs : s.Numbered) :
    outstanding (s.nextLogicalId + 1) trace = false := by
  by_contra hopen
  rw [Bool.not_eq_false] at hopen
  obtain ⟨j, other, hother, hid, _⟩ := h.busy _ hopen
  have hlt : j < s.orders.length := (List.getElem?_eq_some_iff.mp hother).1
  rw [hs.logicalId j other hother, hs.next] at hid
  have hj : j = s.orders.length := Nat.succ_injective hid
  omega

/-- Without an observation, every busy order has to stay busy. -/
theorem evolve (h : RequestInvariant s trace)
    (hevolves : Table.Evolves
      (fun _ a b => b.logicalId = a.logicalId ∧ (a.Busy → b.Busy)) (fun _ => True) s.orders
      after.orders) :
    RequestInvariant after trace where
  busy id hopen := by
    obtain ⟨i, order, horder, hid, hbusy⟩ := h.busy id hopen
    obtain ⟨record, hrecord, hsame, hkeep⟩ := hevolves.old i order horder
    exact ⟨i, record, hrecord, hsame.trans hid, hkeep hbusy⟩
  single := h.single

/-- Without an observation and with the records as they were. -/
theorem unchanged (h : RequestInvariant s trace) (horders : after.orders = s.orders) :
    RequestInvariant after (trace ++ []) := by
  rw [List.append_nil]
  exact ⟨fun id hopen => horders ▸ h.busy id hopen, h.single⟩

/-- An answer frees the order it is for; every other busy order stays busy. -/
theorem answered (h : RequestInvariant s trace) {id : LogicalOrderId}
    (hevolves : Table.Evolves
      (fun _ a b => b.logicalId = a.logicalId ∧ (a.logicalId ≠ id → a.Busy → b.Busy))
      (fun _ => True) s.orders after.orders) :
    RequestInvariant after (trace ++ [.answered id]) where
  busy other hopen := by
    simp only [outstanding, Trace.pending_concat, Observation.requests, Observation.answers,
      Bool.false_or, Bool.and_eq_true, Bool.not_eq_true', decide_eq_false_iff_not] at hopen
    obtain ⟨i, order, horder, hid, hbusy⟩ := h.busy other hopen.1
    obtain ⟨record, hrecord, hsame, hkeep⟩ := hevolves.old i order horder
    exact ⟨i, record, hrecord, hsame.trans hid, hkeep (hid ▸ Ne.symm hopen.2) hbusy⟩
  single := Trace.each_concat h.single trivial

/-- A request for an order without an unanswered one makes that order busy if it
is taken; every other busy order stays busy. -/
theorem sent (h : RequestInvariant s trace) {id : LogicalOrderId} {kind : RequestKind}
    {accepted : Bool} (hidle : outstanding id trace = false)
    (hevolves : Table.Evolves
      (fun _ a b => b.logicalId = a.logicalId ∧ (a.logicalId ≠ id → a.Busy → b.Busy))
      (fun _ => True) s.orders after.orders)
    (htaken : accepted = true →
      ∃ (i : Nat) (record : OrderRecord),
        after.orders[i]? = some record ∧ record.logicalId = id ∧ record.Busy) :
    RequestInvariant after (trace ++ [.sent id kind accepted]) where
  busy other hopen := by
    simp only [outstanding, Trace.pending_concat, Observation.requests, Observation.answers,
      Bool.not_false, Bool.and_true, Bool.or_eq_true, Bool.and_eq_true, decide_eq_true_eq] at hopen
    rcases hopen with ⟨rfl, haccepted⟩ | hbefore
    · exact htaken haccepted
    · obtain ⟨i, order, horder, hid, hbusy⟩ := h.busy other hbefore
      obtain ⟨record, hrecord, hsame, hkeep⟩ := hevolves.old i order horder
      have hne : order.logicalId ≠ id := by
        intro heq
        have hopen : outstanding other trace = true := hbefore
        rw [← hid, heq, hidle] at hopen
        cases hopen
      exact ⟨i, record, hrecord, hsame.trans hid, hkeep hne hbusy⟩
  single := Trace.each_concat h.single fun _ => Trace.closed_of_not_pending hidle

/-- The release of a deferral asks for nothing and answers nothing. -/
theorem released (h : RequestInvariant s trace) {entry : Nat} {waitingOn : LogicalOrderId}
    {waitState : Option OrderState} {created : Bool} :
    RequestInvariant s (trace ++ [.released entry waitingOn waitState created]) where
  busy id hopen := by
    apply h.busy id
    simpa [outstanding, Observation.requests, Observation.answers] using hopen
  single := Trace.each_concat h.single trivial

/-- A request for an existing order with none recorded. -/
theorem sentAt (h : RequestInvariant s trace) (hs : s.Numbered) {base : OmsState} {i : Nat}
    {order record : OrderRecord} {kind : RequestKind} {accepted : Bool}
    (hbase : base.orders = s.orders) (horder : s.orders[i]? = some order)
    (hrequest : order.pendingRequest = 0) (hterminal : order.isTerminal = false)
    (hsame : order.SameOrder record) (htaken : accepted = true → record.Busy) :
    RequestInvariant (base.store i record) (trace ++ [.sent order.logicalId kind accepted]) := by
  have hstore : (base.store i record).orders = s.orders.set i record := by
    rw [OmsState.store, hbase]
  refine h.sent (h.idle hs horder hrequest hterminal) ?_ ?_
  · rw [hstore]
    refine .set (fun _ _ => ⟨rfl, fun _ hbusy => hbusy⟩) horder ⟨hsame.logicalId, ?_⟩
    exact fun hne => absurd rfl hne
  · intro haccepted
    refine ⟨i, record, ?_, hsame.logicalId, htaken haccepted⟩
    rw [hstore, List.getElem?_set_self (List.getElem?_eq_some_iff.mp horder).1]

end RequestInvariant

/-! ## One step -/

section Step

variable {s after base : OmsState} {trace observed : List Observation}

theorem OmsState.NewOutcome.requestInvariant {action : OrderAction}
    (h : NewOutcome s action after observed) (hs : s.Numbered) (hok : RequestInvariant s trace) :
    RequestInvariant after (trace ++ observed) := by
  cases h with
  | refused | burned | deferred => exact hok.unchanged rfl
  | @created clientId _ _ _ _ _ _ _ hrecord =>
      have hadded : ∀ (id : LogicalOrderId) (record : OrderRecord), Table.Evolves
          (fun _ a b => b.logicalId = a.logicalId ∧ (a.logicalId ≠ id → a.Busy → b.Busy))
          (fun _ => True) s.orders (s.orders ++ [record]) :=
        fun _ _ => .concat (fun _ _ => ⟨rfl, fun _ hbusy => hbusy⟩) trivial
      cases hrecord with
      | unattached =>
          rw [List.append_nil]
          exact hok.evolve
            (.concat (fun _ _ => ⟨rfl, fun hbusy => hbusy⟩) trivial)
      | accepted =>
          refine hok.sent (hok.fresh hs) (hadded _ _) (fun _ => ?_)
          refine ⟨s.orders.length, _, List.getElem?_concat_length, ?_, .inl ?_⟩
          · rw [OrderRecord.transition_logicalId]
            rfl
          · exact Nat.succ_ne_zero _
      | rejected =>
          exact hok.sent (hok.fresh hs) (hadded _ _) (fun haccepted => by cases haccepted)

theorem OmsState.RequestEdit.requestInvariant {action : OrderAction} {i : Nat}
    {order record : OrderRecord} (h : RequestEdit s action order record base observed)
    (hs : s.Numbered) (hok : RequestInvariant s trace) (horder : s.orders[i]? = some order)
    (hterminal : order.isTerminal = false)
    (hidle : action.type = .cancel → s.attached = true →
      OmsState.ownershipViolated action order = false → order.state ≠ .pendingCancel →
      order.pendingRequest = 0) :
    RequestInvariant (base.store i record) (trace ++ observed) := by
  have hsame := h.sameOrder
  have hnotTaken : ∀ r : OrderRecord, false = true → r.Busy := fun _ hfalse => by cases hfalse
  cases h with
  | cancelSent htype hstate hattached howned =>
      have hbusy : (order.requested (s.nextRequestId + 1) s.clock).Busy := .inl (Nat.succ_ne_zero _)
      exact hok.sentAt hs rfl horder (hidle htype hattached howned hstate) hterminal hsame
        (fun _ => hbusy.transition _ _)
  | cancelReturned htype hstate hattached howned =>
      exact hok.sentAt hs rfl horder (hidle htype hattached howned hstate) hterminal hsame
        (hnotTaken _)
  | coalesced =>
      rw [List.append_nil]
      exact hok.evolve
        (.set (fun _ _ => ⟨rfl, id⟩) horder ⟨hsame.logicalId, id⟩)
  | @replaceSent replacementId _ _ hpending =>
      have hbusy :
          (order.replacing action replacementId (s.nextRequestId + 1) s.clock).Busy :=
        .inl (Nat.succ_ne_zero _)
      exact hok.sentAt hs rfl horder hpending hterminal hsame (fun _ => hbusy.transition _ _)
  | replaceReturned _ _ hpending =>
      exact hok.sentAt hs rfl horder hpending hterminal hsame (hnotTaken _)

/-- An event that answers nothing leaves the recorded request alone. -/
theorem OmsState.EventEdit.busy {order edited : OrderRecord} {event : ExecutionEvent}
    {target : OrderState} {resolves : Bool}
    (h : EventEdit s order event edited target false resolves base) (hbusy : order.Busy) :
    edited.Busy := by
  have hcongr : edited.pendingRequest = order.pendingRequest → edited.Busy := by
    intro hrequest
    rw [OrderRecord.Busy, hrequest, OrderRecord.isTerminal, h.sameOrder.2]
    exact hbusy
  apply hcongr
  cases h with
  | fillRefused => rfl
  | fillComplete _ _ hbook | fillPartial _ _ hbook =>
      rw [(bookFill_eq_ok hbook).2.2]
      rfl

theorem OmsState.EventOutcome.requestInvariant {event : ExecutionEvent}
    {answered resolved : Option LogicalOrderId} (h : EventOutcome s event after answered resolved)
    (hok : RequestInvariant s trace) :
    RequestInvariant after (trace ++ (answered.map Observation.answered).toList) := by
  cases h with
  | discarded => simpa using hok
  | @edited i order edited target answers resolves base _ hfound _ hedit =>
      have horder := findSubject_getElem hfound
      have hsame := hedit.sameOrder.1.transition target base.clock
      obtain ⟨byClientId, byExchangeId, hbase⟩ := hedit.base_eq
      have hstore : (base.store i (edited.transition target base.clock)).orders =
          s.orders.set i (edited.transition target base.clock) := by
        rw [hbase]
        rfl
      cases answers with
      | true =>
          show RequestInvariant _ (trace ++ [.answered order.logicalId])
          refine hok.answered ?_
          rw [hstore]
          refine .set (fun _ _ => ⟨rfl, fun _ hbusy => hbusy⟩) horder ⟨hsame.logicalId, ?_⟩
          exact fun hne => absurd rfl hne
      | false =>
          simp only [Bool.false_eq_true, if_false, Option.map_none, Option.toList_none,
            List.append_nil]
          refine hok.evolve ?_
          rw [hstore]
          refine .set (fun _ _ => ⟨rfl, id⟩) horder ⟨hsame.logicalId, ?_⟩
          exact fun hbusy => (hedit.busy hbusy).transition _ _

theorem concluded_busy {order : OrderRecord} {target : OrderState} (now : Nanos)
    (hlegal : isLegalTransition order.state target = true) (hbusy : order.Busy) :
    (concluded order target now).Busy := by
  unfold concluded
  split
  · rename_i hterminal
    exact .inr hterminal
  · rename_i hnot
    rcases hbusy with hrequest | hterminal
    · exact .inl hrequest
    · -- A terminal order is only ever concluded to be what it is.
      rw [eq_of_isLegalTransition_of_isTerminal hterminal hlegal] at hnot
      exact absurd hterminal hnot

/-- A step that gives up no request, and hands no cancel over an outstanding
one, keeps the invariant up to the release of deferrals. -/
theorem PrimaryOutcome.requestInvariant {op : Op σ} {resolved : Option LogicalOrderId}
    (h : PrimaryOutcome s op after resolved observed) (hs : s.Numbered)
    (hok : RequestInvariant s trace) (hawaits : awaitsAnswers s op = true)
    (hidle : cancelsIdle s op = true) : RequestInvariant after (trace ++ observed) := by
  cases h with
  | submit h =>
      cases h with
      | refused | burned => exact hok.unchanged rfl
      | new _ _ houtcome => exact houtcome.requestInvariant hs hok
      | edited hvalid hfound hterminal hedit =>
          refine hedit.requestInvariant hs hok (findTarget_getElem hfound) hterminal ?_
          intro htype hattached howned hstate
          simp only [htype, decide_true] at hfound
          simpa [cancelsIdle, hvalid, htype, hattached, hfound, howned, hterminal, hstate]
            using hidle
  | apply h => exact h.requestInvariant hok
  | onTimer =>
      apply hok.unchanged
      have hsame : ∀ order ∈ s.orders, order.swept s.config s.clock = order := by
        intro order horder
        have hfresh := List.all_eq_true.mp hawaits order horder
        simp only [Bool.not_eq_true'] at hfresh
        simp [OrderRecord.swept, hfresh]
      exact (List.map_congr_left hsame).trans (List.map_id _)
  | reconcile h =>
      rw [List.append_nil]
      refine hok.evolve (h.mono ?_ fun _ _ => trivial)
      rintro _ before record _ (rfl | ⟨_, homitted⟩)
      · exact ⟨rfl, id⟩
      · refine ⟨(omitted_sameOrder homitted).logicalId, fun hbusy => ?_⟩
        rcases homitted with rfl | ⟨_, _, rfl⟩
        · exact hbusy
        · exact hbusy.transition _ _
  | resolve h =>
      cases h with
      | refused => exact hok.unchanged rfl
      | concluded hfound hlegal =>
          rw [List.append_nil]
          refine hok.evolve (.set (fun _ _ => ⟨rfl, id⟩)
            (findById_eq_some_iff.mp hfound).2 ⟨(concluded_sameOrder _ _ _).logicalId, ?_⟩)
          exact concluded_busy _ hlegal
  | attachExecution | advance | venue | restartRefused => exact hok.unchanged rfl
  | restarted =>
      apply hok.unchanged
      have hsame : ∀ order ∈ s.orders, recovered order = order := by
        intro order horder
        have hnone := List.all_eq_true.mp hawaits order horder
        simp only [Bool.not_eq_true'] at hnone
        simp [recovered, hnone]
      rw [restarted_orders]
      exact (List.map_congr_left hsame).trans (List.map_id _)

end Step

/-- The records are numbered and the requests are as they should be. -/
structure RequestsTracked (w : World σ) : Prop where
  numbered : w.oms.toOmsState.Numbered
  requests : RequestInvariant w.oms.toOmsState w.trace

theorem RequestsTracked.init (config : OmsConfig) (clock : Nanos) (venue : σ) :
    RequestsTracked (World.init config clock venue) where
  numbered := numbered_init config clock
  requests := ⟨fun _ hopen => (by cases hopen), Trace.each_nil _⟩

theorem RequestsTracked.releaseEntry {w : World σ} (hw : RequestsTracked w)
    (port : IExchangeExecution σ) (resolved : LogicalOrderId) (entry : Nat) :
    RequestsTracked (releaseEntry port resolved w entry) := by
  rcases releaseEntry_outcome port resolved w entry with
    hsame | ⟨waiting, observed, _, _, hnew, htrace⟩
  · rw [hsame]
    exact hw
  · have hvacated : (w.oms.toOmsState.vacate entry).Numbered :=
      ⟨hw.numbered.next, hw.numbered.logicalId, hw.numbered.lookup⟩
    have hrequests : RequestInvariant (w.oms.toOmsState.vacate entry) w.trace :=
      ⟨hw.requests.busy, hw.requests.single⟩
    refine ⟨hnew.numbered hvacated, ?_⟩
    rw [htrace]
    exact (hnew.requestInvariant hvacated hrequests).released

theorem RequestsTracked.step {w : World σ} (hw : RequestsTracked w)
    (port : IExchangeExecution σ) {op : Op σ}
    (hawaits : awaitsAnswers w.oms.toOmsState op = true)
    (hidle : cancelsIdle w.oms.toOmsState op = true) : RequestsTracked (step port op w) := by
  obtain ⟨observed, htrace, houtcome⟩ := primary_outcome port op w hw.numbered
  have hprimary : RequestsTracked (primary port op w).1 := by
    refine ⟨houtcome.numbered hw.numbered, ?_⟩
    rw [htrace]
    exact houtcome.requestInvariant hw.numbered hw.requests hawaits hidle
  exact release_invariant port (fun id _ _ entry h => h.releaseEntry port id entry) hprimary

/-- In every run that gives up no request, and whose cancels are handed over only
for orders with no request recorded, at most one request is outstanding for each
order at any time. -/
theorem single_request_along (port : IExchangeExecution σ) (config : OmsConfig) (clock : Nanos)
    (venue : σ) (ops : List (Op σ))
    (hawaits : Machine.Along (step port) (fun op w => awaitsAnswers w.oms.toOmsState op = true)
      ops (World.init config clock venue))
    (hidle : Machine.Along (step port) (fun op w => cancelsIdle w.oms.toOmsState op = true)
      ops (World.init config clock venue)) :
    SingleRequest (Machine.run (step port) ops (World.init config clock venue)).trace := by
  have htracked : RequestsTracked (Machine.run (step port) ops (World.init config clock venue)) :=
    Machine.invariant_run (fun _ _ hw hop => hw.step port hop.1 hop.2)
      (RequestsTracked.init config clock venue) (hawaits.and hidle)
  exact htracked.requests.single

/-- A run through every kind of request, with a deferral that is released. -/
theorem single_request_along_answered :
    SingleRequest (Sample.after [.attachExecution, Sample.submitNew 10, Sample.ack '1' 'x',
      Sample.submitReplace 20, Sample.replaceAccepted '1' '2' .empty, Sample.submitCancel,
      Sample.submitNew 10, .onTimer, Sample.cancelAnswer '2' .accepted]).trace :=
  single_request_along Sample.acceptAll {} 1 () _ (by decide +kernel) (by decide +kernel)

/-- A cancel handed over while the submit is outstanding. -/
theorem cancel_overtakes_submit :
    Machine.Along (step Sample.acceptAll)
        (fun op w => awaitsAnswers w.oms.toOmsState op = true)
        [.attachExecution, Sample.submitNew 10, Sample.submitCancel] (World.init {} 1 ()) ∧
      ¬ SingleRequest (Sample.after [.attachExecution, Sample.submitNew 10,
        Sample.submitCancel]).trace := by
  refine ⟨by decide +kernel, fun hsingle => ?_⟩
  have htrace : (Sample.after [.attachExecution, Sample.submitNew 10, Sample.submitCancel]).trace =
      [.sent 1 .submit true] ++ .sent 1 .cancel true :: [] := by decide +kernel
  have hclosed : Trace.Closed (Observation.requests 1) (Observation.answers 1)
      [.sent 1 .submit true] := hsingle _ _ _ htrace (.inl rfl)
  obtain ⟨_, hnone, _⟩ := hclosed [] _ [] rfl rfl
  cases hnone

end MmEngine.Oms
