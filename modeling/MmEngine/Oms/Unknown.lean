/-
# Leaving uncertainty

An order whose fate is unknown is to stay unknown until there is evidence: an
execution event that names it, or a resolution of the operator. The table of
transitions allows every exit, so this rests on the callers.

Events, sweeps, reconciliations and restarts keep to it. A request does not: a
cancel or a replace that reaches an unknown order moves it to the state of its
own request, and an adapter that refuses the request moves it on to working,
which nobody has reported. The runs that stay clear of this are exactly those
that drive no unknown order.
-/

import MmEngine.Oms.ClientIdentity

namespace MmEngine.Oms

open MmEngine.Exchange MmEngine.Quote MmEngine.Risk OmsState OrderManager

variable {σ : Type}

/-- The client identity an event is about. -/
def subjectId : ExecutionEvent → Option ClientOrderId
  | .orderAck ack => some ack.clientOrderId
  | .orderReject reject => some reject.clientOrderId
  | .fill fill => some fill.clientOrderId
  | .orderCancel cancel => some cancel.clientOrderId
  | .orderReplace replace => some replace.originalClientOrderId
  | .requestFailure failure => some failure.clientOrderId
  | .none | .other _ => none

/-- The event names the order at an index: by its client identity, or, for the
answer to a cancel, by a venue identity that is bound to it. -/
def OmsState.Names (s : OmsState) (i : Nat) (order : OrderRecord) (event : ExecutionEvent) :
    Prop :=
  subjectId event = some order.clientOrderId ∨
    ∃ cancel, event = .orderCancel cancel ∧ cancel.exchangeOrderId.isEmpty = false ∧
      s.byExchangeId.lookup cancel.exchangeOrderId = some i

/-- The step is evidence about the order at an index. -/
def Evidence (m : OrderManager) (i : Nat) (order : OrderRecord) : Op σ → Prop
  | .apply event => m.toOmsState.Names i order event
  | .resolve id target => id = order.logicalId ∧ (m.resolve id target).1 = .ok
  | _ => False

/-- Every unknown order that the step takes to another state, it takes there on
evidence. -/
def LeavesOnEvidence (port : IExchangeExecution σ) (op : Op σ) (w : World σ) : Prop :=
  ∀ (i : Nat) (order record : OrderRecord), w.oms.orders[i]? = some order →
    order.state = .unknown → (step port op w).oms.orders[i]? = some record →
      record.state ≠ .unknown → Evidence w.oms i order op

/-- True of a cancel or replace that reaches an unknown order: it is approved, the
order is the actor's, an adapter is attached and, for a replace, the generation is
current, no request is outstanding and an identity can be minted. -/
def OmsState.drivesUnknown (s : OmsState) (approved : ApprovedAction) : Bool :=
  approved.valid &&
    match s.findTarget approved.action (approved.action.type = .cancel) with
    | none => false
    | some (_, order) =>
        order.state = .unknown && !ownershipViolated approved.action order && s.attached &&
          match approved.action.type with
          | .cancel => true
          | .replace =>
              decide (order.ownership.generation ≤ approved.action.generation) &&
                !order.hasPendingRequest && s.idGenerator.next.1.isSome
          | .new | .noop => false

/-- True of a step that drives no unknown order. -/
def leavesUnknownAlone (s : OmsState) : Op σ → Bool
  | .submit approved => !s.drivesUnknown approved
  | _ => true

section Step

variable {s base : OmsState} {action : OrderAction} {order record : OrderRecord}
  {observed : List Observation}

/-- A request that reaches an unknown order drives it. -/
theorem OmsState.RequestEdit.drivesUnknown {approved : ApprovedAction} {i : Nat}
    (h : RequestEdit s approved.action order record base observed)
    (hvalid : approved.valid = true)
    (hfound : s.findTarget approved.action (approved.action.type = .cancel) = some (i, order))
    (hunknown : order.state = .unknown) : s.drivesUnknown approved = true := by
  unfold OmsState.drivesUnknown
  rw [hfound]
  cases h with
  | cancelSent htype _ hattached howned | cancelReturned htype _ hattached howned =>
      simp [hvalid, htype, hunknown, hattached, howned]
  | coalesced _ hstate =>
      rw [hunknown] at hstate
      cases hstate
  | replaceSent htype _ hpending hattached hid howned hcurrent
  | replaceReturned htype _ hpending hattached hid howned hcurrent =>
      simp [hvalid, htype, hunknown, hattached, howned, hcurrent, hpending, hid,
        OrderRecord.hasPendingRequest]

/-- A request that reaches an unknown order leaves it in a state of its own. -/
theorem OmsState.RequestEdit.state_ne_unknown (h : RequestEdit s action order record base observed)
    (hunknown : order.state = .unknown) : record.state ≠ .unknown := by
  cases h with
  | cancelSent =>
      rw [OrderRecord.transition_state]
      simp only [OrderRecord.requested, hunknown]
      decide
  | cancelReturned =>
      rw [OrderRecord.transition_state]
      simp only [OrderRecord.settled, OrderRecord.transition_state, OrderRecord.requested, hunknown]
      decide
  | coalesced _ hstate =>
      rw [hunknown] at hstate
      cases hstate
  | replaceSent =>
      rw [OrderRecord.transition_state]
      simp only [OrderRecord.replacing, OrderRecord.requested, OrderRecord.amending, hunknown]
      decide
  | replaceReturned =>
      rw [OrderRecord.transition_state]
      simp only [OrderRecord.replaceDropped, OrderRecord.settled, OrderRecord.transition_state,
        OrderRecord.replacing, OrderRecord.requested, OrderRecord.amending, hunknown]
      decide

/-- The order an event is applied to is named by it. -/
theorem names_of_findSubject (hs : ClientIdentities s) {event : ExecutionEvent} {i : Nat}
    (hfound : s.findSubject event = some (i, order)) : s.Names i order event := by
  have hclient : ∀ {id : ClientOrderId}, s.findByClientId id = some (i, order) →
      subjectId event = some id → s.Names i order event := by
    intro id hlookup hsubject
    rw [← (hs.findByClientId_iff.mp hlookup).2] at hsubject
    exact .inl hsubject
  cases event with
  | orderAck | orderReject | fill | orderReplace | requestFailure => exact hclient hfound rfl
  | orderCancel cancel =>
      rcases Option.or_eq_some_iff.mp hfound with hlookup | ⟨_, hvenue⟩
      · exact hclient hlookup rfl
      · split at hvenue
        · cases hvenue
        · rename_i hid
          have hlookup := (findByExchangeId_eq_some_iff.mp hvenue).1
          exact .inr ⟨cancel, rfl, by simpa using hid, hlookup⟩
  | none | other => cases hfound

end Step

/-- An edit that takes an order out of uncertainty is evidence, or a request that
drives it. -/
theorem Edited.evidence {m : OrderManager} {i : Nat} {order record : OrderRecord} {op : Op σ}
    (h : Edited m.toOmsState i order op record) (hnumbered : m.toOmsState.Numbered)
    (hclient : ClientIdentities m.toOmsState)
    (halone : leavesUnknownAlone m.toOmsState op = true) (hunknown : order.state = .unknown)
    (hmoved : record.state ≠ .unknown) : Evidence m i order op := by
  -- What keeps the state it was in has not moved.
  have hstays : ∀ {order' : OrderRecord} {now : Nanos}, order'.state = .unknown →
      (order'.transition .unknown now).state = .unknown := by
    intro order' now hstate
    rw [OrderRecord.transition_state, hstate]
    rfl
  cases h with
  | request hvalid hfound _ hedit =>
      have hdrives := hedit.drivesUnknown hvalid hfound hunknown
      simp [leavesUnknownAlone, hdrives] at halone
  | event _ hfound _ _ => exact names_of_findSubject hclient hfound
  | timedOut =>
      have hsettled : order.settled.state = .unknown := hunknown
      exact absurd (hstays hsettled) hmoved
  | omitted => exact absurd (hstays hunknown) hmoved
  | resolved hfound hlegal =>
      obtain ⟨hid, horder⟩ := hnumbered.findById_iff.mp hfound
      refine ⟨by rw [hid, hnumbered.logicalId i order horder], ?_⟩
      simp [OrderManager.resolve, hfound, hlegal]
  | restarted =>
      have hidle : order.state.hasPendingRequest = false := by
        rw [hunknown]
        rfl
      rw [recovered_of_not_pending hidle] at hmoved
      exact absurd hunknown hmoved

theorem leavesOnEvidence_of_alone (port : IExchangeExecution σ) (op : Op σ) {w : World σ}
    (hnumbered : w.oms.toOmsState.Numbered) (hclient : ClientIdentities w.oms.toOmsState)
    (halone : leavesUnknownAlone w.oms.toOmsState op = true) : LeavesOnEvidence port op w := by
  have hheld : Held (fun _ => True) w.oms.toOmsState := fun _ _ _ => trivial
  have hevolves := step_evolves port op w hnumbered hheld (admits_true op)
  intro i order record horder hunknown hrecord hmoved
  obtain ⟨record', hrecord', hrewrite⟩ := hevolves.old i order horder
  obtain rfl : record' = record := Option.some.inj (hrecord'.symm.trans hrecord)
  rcases hrewrite with rfl | hedited
  · exact absurd hunknown hmoved
  · exact hedited.evidence hnumbered hclient halone hunknown hmoved

/-- A request that drives an unknown order is handed to the adapter, which takes
it or not. -/
theorem submit_of_drivesUnknown (port : IExchangeExecution σ) {approved : ApprovedAction}
    {w : World σ} (hdrives : w.oms.toOmsState.drivesUnknown approved = true) :
    ∃ i order record base observed,
      w.oms.toOmsState.findTarget approved.action (approved.action.type = .cancel) =
        some (i, order) ∧ order.state = .unknown ∧
      RequestEdit w.oms.toOmsState approved.action order record base observed ∧
      (submit port approved w).2.oms.toOmsState = base.store i record := by
  unfold OmsState.drivesUnknown at hdrives
  cases hfound : w.oms.toOmsState.findTarget approved.action (approved.action.type = .cancel) with
  | none => simp [hfound] at hdrives
  | some found =>
      obtain ⟨i, order⟩ := found
      simp only [hfound, Bool.and_eq_true, decide_eq_true_eq, Bool.not_eq_true'] at hdrives
      obtain ⟨hvalid, ⟨⟨hunknown, howned⟩, hattached⟩, hrest⟩ := hdrives
      have hlive : order.isTerminal = false := by
        rw [OrderRecord.isTerminal, hunknown]
        rfl
      refine ⟨i, order, ?_⟩
      cases htype : approved.action.type with
      | cancel =>
          have hcancel : order.state ≠ .pendingCancel := by
            rw [hunknown]
            decide
          obtain ⟨record, base, observed, hedit, _, hstate⟩ :=
            sendCancel_edit port i htype hcancel hattached howned
          refine ⟨record, base, observed, rfl, hunknown, hedit, ?_⟩
          have hsent : (submit port approved w).2 = (sendCancel port i order w).2 := by
            simp only [submit, hvalid, htype, Bool.not_true, Bool.false_eq_true, if_false]
            rw [handleCancel_eq_sendCancel port (by simpa [htype] using hfound) howned hlive hcancel
              hattached]
          rw [hsent, hstate]
      | replace =>
          simp only [htype, Bool.and_eq_true, decide_eq_true_eq, Bool.not_eq_true'] at hrest
          obtain ⟨⟨hcurrent, hidle⟩, hminted⟩ := hrest
          have hpending : order.pendingRequest = 0 := by
            simpa [OrderRecord.hasPendingRequest] using hidle
          have hreplace : order.state ≠ .pendingReplace := by
            rw [hunknown]
            decide
          obtain ⟨replacementId, hid⟩ := Option.isSome_iff_exists.mp hminted
          obtain ⟨record, base, observed, hedit, _, hstate⟩ :=
            sendReplace_edit port i htype hreplace hpending hattached hid howned hcurrent
          refine ⟨record, base, observed, rfl, hunknown, hedit, ?_⟩
          have hsent : (submit port approved w).2 =
              (sendReplace port approved.action i order replacementId
                (w.withOms fun m => m.onState burnClientId)).2 := by
            simp only [submit, hvalid, htype, Bool.not_true, Bool.false_eq_true, if_false]
            rw [handleReplace_eq_sendReplace port (by simpa [htype] using hfound) howned hlive
              hcurrent hreplace hpending hattached hid]
          rw [hsent, hstate]
      | new | noop =>
          rw [htype] at hrest
          cases hrest

/-- Driving an unknown order takes it out of uncertainty without evidence. -/
theorem not_leavesOnEvidence_of_drives (port : IExchangeExecution σ) {approved : ApprovedAction}
    {w : World σ} (hdrives : w.oms.toOmsState.drivesUnknown approved = true) :
    ¬ LeavesOnEvidence port (.submit approved) w := by
  obtain ⟨i, order, record, base, _, hfound, hunknown, hedit, hstate⟩ :=
    submit_of_drivesUnknown port hdrives
  have horder := findTarget_getElem hfound
  have hbase : base.orders = w.oms.orders := by
    rcases hedit.base_eq with rfl | rfl | rfl <;> rfl
  have hrecord : (step port (.submit approved) w).oms.orders[i]? = some record := by
    apply step_getElem
    show (submit port approved w).2.oms.orders[i]? = some record
    rw [hstate, OmsState.store, hbase]
    exact List.getElem?_set_self (List.getElem?_eq_some_iff.mp horder).1
  intro hevidence
  exact hevidence i order record horder hunknown hrecord (hedit.state_ne_unknown hunknown)

/-- A step leaves unknown orders on evidence alone exactly when it drives none. -/
theorem leavesOnEvidence_iff (port : IExchangeExecution σ) (op : Op σ) {w : World σ}
    (hnumbered : w.oms.toOmsState.Numbered) (hclient : ClientIdentities w.oms.toOmsState) :
    LeavesOnEvidence port op w ↔ leavesUnknownAlone w.oms.toOmsState op = true := by
  constructor
  · intro hevidence
    by_contra hdriven
    cases op with
    | submit approved =>
        have hdrives : w.oms.toOmsState.drivesUnknown approved = true := by
          simpa [leavesUnknownAlone] using hdriven
        exact not_leavesOnEvidence_of_drives port hdrives hevidence
    | apply | onTimer | reconcile | resolve | attachExecution | advance | venue | restart =>
        exact hdriven rfl
  · exact leavesOnEvidence_of_alone port op hnumbered hclient

/-- Along a run, against any adapter, every order leaves uncertainty on evidence
alone exactly when no step of the run drives an unknown order. -/
theorem unknown_left_on_evidence_along (port : IExchangeExecution σ) (config : OmsConfig)
    (clock : Nanos) (venue : σ) (ops : List (Op σ)) :
    Machine.Along (step port) (LeavesOnEvidence port) ops (World.init config clock venue) ↔
      Machine.Along (step port) (fun op w => leavesUnknownAlone w.oms.toOmsState op = true) ops
        (World.init config clock venue) :=
  Machine.Along.congr (fun op _ hw => ClientTracked.step hw port op)
    (fun op _ hw => leavesOnEvidence_iff port op hw.numbered hw.client)
    (ClientTracked.init config clock venue)

/-- A venue that takes orders and refuses to cancel them. -/
def Sample.refuseCancels : IExchangeExecution Unit where
  submit _ venue := (.ok, venue)
  cancel _ venue := (.error .unavailable "cancel unavailable", venue)
  replace _ venue := (.ok, venue)

/-- A submit times out, and a refused cancel then makes the order working. -/
theorem refused_cancel_leaves_unknown :
    ¬ Machine.Along (step Sample.refuseCancels) (LeavesOnEvidence Sample.refuseCancels)
      [.attachExecution, Sample.submitNew 10, .advance 5000000000, .onTimer, Sample.submitCancel]
      (World.init {} 1 ()) := by
  rintro ⟨_, _, _, _, hcancel, _⟩
  have hdrives : (Machine.run (step Sample.refuseCancels) [.attachExecution, Sample.submitNew 10,
      .advance 5000000000, .onTimer] (World.init {} 1 ())).oms.toOmsState.drivesUnknown
        { action := Sample.action .cancel 0, valid := true } = true := by decide +kernel
  exact not_leavesOnEvidence_of_drives Sample.refuseCancels hdrives hcancel

end MmEngine.Oms
