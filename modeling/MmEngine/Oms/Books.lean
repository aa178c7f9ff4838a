/-
# Bookkeeping

The journal is written and never read, so the outcomes of the operations do not
mention it. This module goes through the operations once more, on managers
instead of their decision state, and says what they do to the books: the journal
and the states it is to tell.

An operation is a composition of four moves. It leaves the books alone, it
journals a quarantined event, it journals a change of state together with the
change, or it adds an order and journals its creation. A property of the books
that the four moves keep is an invariant of every run.
-/

import MmEngine.Oms.Run

namespace MmEngine.Oms

open MmEngine.Exchange MmEngine.Quote MmEngine.Risk OmsState OrderManager

variable {σ : Type}

/-- The books of two managers agree: the journal, and the states it tells. -/
structure SameBooks (m after : OrderManager) : Prop where
  journal : after.journal = m.journal
  sequence : after.journalSequence = m.journalSequence
  next : after.nextLogicalId = m.nextLogicalId
  states : after.orders.map (fun order => (order.logicalId, order.state)) =
    m.orders.map fun order => (order.logicalId, order.state)

/-- The moves on the books keep the property. -/
structure KeepsBooks (I : OrderManager → Prop) : Prop where
  same : ∀ {m after : OrderManager}, I m → SameBooks m after → I after
  quarantined : ∀ {m : OrderManager} (record : OrderJournalRecord), I m →
    record.type = .eventQuarantined → I (m.appendJournal record)
  recorded : ∀ {m : OrderManager} {i : Nat} {old order : OrderRecord} {event : OrderEventType},
    I m → m.orders[i]? = some old → order.logicalId = old.logicalId →
      isLegalTransition old.state order.state = true → event ≠ .eventQuarantined →
        I ((m.store i order).journalOrder event order old.state order.state)
  created : ∀ {m : OrderManager} {order : OrderRecord}, I m →
    order.logicalId = m.nextLogicalId + 1 → order.state = .created →
      I ((m.onState fun s => s.addOrder order).journalOrder .created order .created .created)

namespace KeepsBooks

variable {I : OrderManager → Prop} (hI : KeepsBooks I) {m : OrderManager}

include hI

/-- A record rewritten in the state it was in. -/
theorem store (h : I m) {i : Nat} {old order : OrderRecord} (hold : m.orders[i]? = some old)
    (hid : order.logicalId = old.logicalId) (hstate : order.state = old.state) :
    I (m.store i order) := by
  refine hI.same h ⟨rfl, rfl, rfl, ?_⟩
  have hlt : i < m.orders.length := (List.getElem?_eq_some_iff.mp hold).1
  apply List.ext_getElem?
  intro j
  simp only [OrderManager.store_toOmsState, OmsState.store, List.getElem?_map]
  by_cases hij : i = j
  · subst hij
    simp [List.getElem?_set_self hlt, hold, hid, hstate]
  · rw [List.getElem?_set_ne hij]

/-- A record in hand edited further, in the state it is in. -/
theorem edit {i : Nat} {order edited : OrderRecord} (h : I (m.store i order))
    (hi : i < m.orders.length) (hid : edited.logicalId = order.logicalId)
    (hstate : edited.state = order.state) : I (m.store i edited) := by
  have horder : (m.store i order).orders[i]? = some order := List.getElem?_set_self hi
  refine hI.same (hI.store h horder hid hstate) ⟨rfl, rfl, rfl, ?_⟩
  simp [OmsState.store]

/-- A transition of a record in hand, with the record it leaves. -/
theorem transition {i : Nat} {order : OrderRecord} (h : I (m.store i order))
    (hi : i < m.orders.length) (target : OrderState) {event : OrderEventType}
    (hevent : event ≠ .eventQuarantined) (detail : OrderJournalRecord) :
    I ((m.transition order target event detail).1.store i (order.transition target m.clock)) := by
  have horder : (m.store i order).orders[i]? = some order := List.getElem?_set_self hi
  rw [OrderManager.transition]
  split
  · rename_i hlegal
    have hstate : (order.transition target m.clock).state = target := by
      rw [OrderRecord.transition_state, landing, if_pos hlegal]
    have hrecorded := hI.recorded h horder (order.transition_logicalId target m.clock)
      (by rw [hstate]; exact hlegal) hevent
    rw [hstate] at hrecorded
    have hcounted : ∀ counted : OrderManager, SameBooks m counted → counted.clock = m.clock →
        counted.orders = m.orders →
          I ((counted.journalOrder event (order.transition target m.clock) order.state
            target).store i (order.transition target m.clock)) := by
      intro counted hsame hclock horders
      refine hI.same hrecorded ⟨?_, ?_, hsame.next, ?_⟩
      · simp [OrderManager.journalOrder, OrderManager.appendJournal, OrderManager.store,
          OmsState.store, hsame.journal, hsame.sequence, hclock]
      · exact congrArg (· + 1) hsame.sequence
      · simp [OrderManager.journalOrder, OrderManager.appendJournal, OrderManager.store,
          OmsState.store, horders]
    dsimp only
    split
    · exact hcounted _ ⟨rfl, rfl, rfl, rfl⟩ rfl rfl
    · exact hcounted m ⟨rfl, rfl, rfl, rfl⟩ rfl rfl
  · rename_i hillegal
    have hkept : order.transition target m.clock = order := by
      simp [OrderRecord.transition, hillegal]
    rw [hkept]
    exact hI.same (hI.quarantined _ h rfl) ⟨rfl, rfl, rfl, rfl⟩

/-- The shape of every event: the record is edited in the state it is in, then one
transition is attempted. The side conditions hold by definition almost everywhere. -/
theorem move (h : I m) {base : OrderManager} {i : Nat} {old order : OrderRecord}
    {target : OrderState} {event : OrderEventType} {detail : OrderJournalRecord}
    (hold : m.orders[i]? = some old)
    (hid : order.logicalId = old.logicalId := by rfl)
    (hstate : order.state = old.state := by rfl)
    (hevent : event ≠ .eventQuarantined := by simp)
    (horders : base.orders = m.orders := by rfl)
    (hsame : SameBooks m base := by exact ⟨rfl, rfl, rfl, rfl⟩) :
    I (base.move i order target event detail) := by
  rw [← horders] at hold
  have hlt : i < base.orders.length := (List.getElem?_eq_some_iff.mp hold).1
  rw [OrderManager.move]
  simp only [OrderManager.transition_record]
  exact hI.transition (hI.store (hI.same h hsame) hold hid hstate) hlt target hevent detail

theorem applyAck (h : I m) (ack : OrderAckEvent) : I (m.applyAck ack).manager := by
  rw [OrderManager.applyAck]
  cases hfound : m.findByClientId ack.clientOrderId with
  | none => exact hI.same h ⟨rfl, rfl, rfl, rfl⟩
  | some found =>
      obtain ⟨i, order⟩ := found
      have horder := (findByClientId_eq_some_iff.mp hfound).2
      dsimp only
      split
      · exact hI.same h ⟨rfl, rfl, rfl, rfl⟩
      split
      · exact hI.same h ⟨rfl, rfl, rfl, rfl⟩
      split
      · exact hI.same h ⟨rfl, rfl, rfl, rfl⟩
      split
      · exact hI.same h ⟨rfl, rfl, rfl, rfl⟩
      · rename_i base bound hbind
        have hbase : base.orders = m.orders ∧ base.nextLogicalId = m.nextLogicalId := by
          rcases bindExchangeId_eq_some hbind with ⟨_, rfl, _⟩ | ⟨_, _, _, ⟨_, rfl⟩ | ⟨_, _, rfl⟩⟩
          all_goals exact ⟨rfl, rfl⟩
        have hbound := bindExchangeId_record hbind
        have hid : bound.logicalId = order.logicalId := by rw [hbound]
        have hstate : bound.state = order.state := by rw [hbound]
        exact hI.move h horder hid hstate (by simp) hbase.1
          ⟨rfl, rfl, hbase.2, congrArg (List.map _) hbase.1⟩

theorem applyReject (h : I m) (reject : OrderRejectEvent) : I (m.applyReject reject).manager := by
  rw [OrderManager.applyReject]
  cases hfound : m.findByClientId reject.clientOrderId with
  | none => exact hI.same h ⟨rfl, rfl, rfl, rfl⟩
  | some found =>
      obtain ⟨i, order⟩ := found
      have horder := (findByClientId_eq_some_iff.mp hfound).2
      dsimp only
      split
      · exact hI.same h ⟨rfl, rfl, rfl, rfl⟩
      · exact hI.move h horder

theorem applyFill (h : I m) (fill : FillEvent) : I (m.applyFill fill).manager := by
  rw [OrderManager.applyFill]
  cases hfound : m.findByClientId fill.clientOrderId with
  | none => exact hI.same h ⟨rfl, rfl, rfl, rfl⟩
  | some found =>
      obtain ⟨i, order⟩ := found
      have horder := (findByClientId_eq_some_iff.mp hfound).2
      dsimp only
      split
      · exact hI.same h ⟨rfl, rfl, rfl, rfl⟩
      split
      · exact hI.same h ⟨rfl, rfl, rfl, rfl⟩
      split
      · exact hI.same h ⟨rfl, rfl, rfl, rfl⟩
      · rename_i seen _
        split
        · have hstored : I (m.store i (order.withTrades seen)) := hI.store h horder rfl rfl
          exact hI.same hstored ⟨rfl, rfl, rfl, rfl⟩
        · rename_i booked hbook
          have hbooked := (bookFill_eq_ok hbook).2.2
          have hid : booked.logicalId = order.logicalId := by
            rw [hbooked]
            rfl
          have hstate : booked.state = order.state := by
            rw [hbooked]
            rfl
          split
          · exact hI.move h horder hid hstate
          · exact hI.move h horder hid hstate

theorem applyCancel (h : I m) (cancel : OrderCancelEvent) : I (m.applyCancel cancel).manager := by
  rw [OrderManager.applyCancel]
  dsimp only
  split
  · exact hI.same h ⟨rfl, rfl, rfl, rfl⟩
  · rename_i i order hfound
    have horder : m.orders[i]? = some order := by
      rcases Option.or_eq_some_iff.mp hfound with hclient | ⟨_, hexchange⟩
      · exact (findByClientId_eq_some_iff.mp hclient).2
      · split at hexchange
        · cases hexchange
        · exact (findByExchangeId_eq_some_iff.mp hexchange).2
    split
    · exact hI.same h ⟨rfl, rfl, rfl, rfl⟩
    · cases cancel.cancelStatus with
      | accepted | rejected | tooLate | orderNotFound | unknown => exact hI.move h horder

theorem applyReplace (h : I m) (replace : OrderReplaceEvent) :
    I (m.applyReplace replace).manager := by
  rw [OrderManager.applyReplace]
  cases hfound : m.findByClientId replace.originalClientOrderId with
  | none => exact hI.same h ⟨rfl, rfl, rfl, rfl⟩
  | some found =>
      obtain ⟨i, order⟩ := found
      have horder := (findByClientId_eq_some_iff.mp hfound).2
      dsimp only
      split
      · exact hI.same h ⟨rfl, rfl, rfl, rfl⟩
      split
      · obtain ⟨base, swapped, hswap⟩ : ∃ base swapped,
            m.toOmsState.swapIdentity (order.stamped replace.transactNs) replace =
              (base, swapped) := ⟨_, _, rfl⟩
        rw [hswap]
        obtain ⟨byClientId, byExchangeId, rfl⟩ := swapIdentity_base hswap
        have hswapped := swapIdentity_record hswap
        have hid : swapped.logicalId = order.logicalId := by
          rw [hswapped]
          rfl
        have hstate : swapped.state = order.state := by
          rw [hswapped]
          rfl
        exact hI.move h horder hid hstate
      split
      · exact hI.move h horder
      · exact hI.move h horder

theorem applyFailure (h : I m) (failure : RequestFailureEvent) :
    I (m.applyFailure failure).manager := by
  rw [OrderManager.applyFailure]
  cases hfound : m.findByClientId failure.clientOrderId with
  | none => exact hI.same h ⟨rfl, rfl, rfl, rfl⟩
  | some found =>
      obtain ⟨i, order⟩ := found
      have horder := (findByClientId_eq_some_iff.mp hfound).2
      dsimp only
      split
      · exact hI.same h ⟨rfl, rfl, rfl, rfl⟩
      split
      · exact hI.move h horder
      · exact hI.move h horder

theorem dispatch (h : I m) (event : ExecutionEvent) : I (m.dispatch event).manager := by
  simp only [OrderManager.dispatch]
  split
  · exact hI.same h ⟨rfl, rfl, rfl, rfl⟩
  · cases event with
    | orderAck ack => exact hI.applyAck h ack
    | orderReject reject => exact hI.applyReject h reject
    | fill fill => exact hI.applyFill h fill
    | orderCancel cancel => exact hI.applyCancel h cancel
    | orderReplace replace => exact hI.applyReplace h replace
    | requestFailure failure => exact hI.applyFailure h failure
    | none | other => exact h

/-! ## Submissions -/

variable (port : IExchangeExecution σ)

/-- A request is journalled and the record waits for the answer. -/
theorem request_sent (h : I m) {i : Nat} {old : OrderRecord} (hold : m.orders[i]? = some old)
    (order : OrderRecord) (hid : order.logicalId = old.logicalId)
    (hstate : order.state = old.state) (target : OrderState) {event : OrderEventType}
    (hevent : event ≠ .eventQuarantined) (detail : OrderJournalRecord)
    (bump : OmsMetrics → OmsMetrics) :
    I (((m.transition order target event detail).1.count bump).store i
      (order.transition target m.clock)) := by
  have hlt : i < m.orders.length := (List.getElem?_eq_some_iff.mp hold).1
  have hpending := hI.transition (hI.store h hold hid hstate) hlt target hevent detail
  exact hI.same hpending ⟨rfl, rfl, rfl, rfl⟩

/-- The adapter refuses the request and the record is moved once more. -/
theorem request_refused {i : Nat} {pending dropped : OrderRecord} (h : I (m.store i pending))
    (hi : i < m.orders.length) (hid : dropped.logicalId = pending.logicalId)
    (hstate : dropped.state = pending.state) (back : OrderState) {event : OrderEventType}
    (hevent : event ≠ .eventQuarantined) (detail : OrderJournalRecord)
    (bump : OmsMetrics → OmsMetrics) :
    I (((m.transition dropped back event detail).1.count bump).store i
      (dropped.transition back m.clock)) := by
  have hback := hI.transition (hI.edit h hi hid hstate) hi back hevent detail
  exact hI.same hback ⟨rfl, rfl, rfl, rfl⟩

theorem sendNew {w : World σ} (h : I w.oms) {index : Nat} {created : OrderRecord}
    (hcreated : w.oms.orders[index]? = some created) :
    I (sendNew port index created w).2.oms := by
  have hlt : index < w.oms.orders.length := (List.getElem?_eq_some_iff.mp hcreated).1
  rw [MmEngine.Oms.sendNew]
  split
  · exact hI.same h ⟨rfl, rfl, rfl, rfl⟩
  · have hrequested : I (w.oms.onState OmsState.nextRequest) := hI.same h ⟨rfl, rfl, rfl, rfl⟩
    have hpending := hI.request_sent hrequested hcreated
      (created.submitted (w.oms.nextRequestId + 1) w.oms.clock) rfl rfl .pendingNew
      (show OrderEventType.requestSent ≠ .eventQuarantined by simp)
      { logicalId := created.logicalId } (fun k => { k with newRequests := k.newRequests + 1 })
    simp only [OrderManager.transition_record]
    split
    · refine hI.request_refused hpending ?_ ?_ ?_ .rejected ?_ _ _
      · simpa [OmsState.nextRequest] using hlt
      · rfl
      · rfl
      · simp
    · exact hpending

theorem createOrder {w : World σ} (h : I w.oms) (action : OrderAction) :
    I (createOrder port action w).2.oms := by
  have hburned : I (w.oms.onState OmsState.burnClientId) := hI.same h ⟨rfl, rfl, rfl, rfl⟩
  rw [MmEngine.Oms.createOrder]
  split
  · exact hI.same h ⟨rfl, rfl, rfl, rfl⟩
  · dsimp only
    split
    · exact hI.same h ⟨rfl, rfl, rfl, rfl⟩
    · rename_i clientId _ _
      have hcreated := hI.created hburned
        (show (w.oms.toOmsState.newOrder action clientId).logicalId = _ from rfl) rfl
      apply hI.sendNew port (hI.same hcreated ?_)
      · exact List.getElem?_concat_length
      · exact ⟨rfl, rfl, rfl, rfl⟩

theorem handleNew {w : World σ} (h : I w.oms) (action : OrderAction) :
    I (handleNew port action w).2.oms := by
  rw [MmEngine.Oms.handleNew]
  split
  · exact hI.same h ⟨rfl, rfl, rfl, rfl⟩
  split
  · exact hI.createOrder port h action
  split
  · rw [deferNew]
    split <;> exact hI.same h ⟨rfl, rfl, rfl, rfl⟩
  split
  · exact hI.same h ⟨rfl, rfl, rfl, rfl⟩
  · exact hI.createOrder port h action

theorem sendCancel {w : World σ} (h : I w.oms) {index : Nat} {order : OrderRecord}
    (horder : w.oms.orders[index]? = some order) : I (sendCancel port index order w).2.oms := by
  have hlt : index < w.oms.orders.length := (List.getElem?_eq_some_iff.mp horder).1
  have hrequested : I (w.oms.onState OmsState.nextRequest) := hI.same h ⟨rfl, rfl, rfl, rfl⟩
  have hpending := hI.request_sent hrequested horder
    (order.requested (w.oms.nextRequestId + 1) w.oms.clock) rfl rfl .pendingCancel
    (show OrderEventType.cancelRequested ≠ .eventQuarantined by simp)
    { logicalId := order.logicalId } (fun k => { k with cancelRequests := k.cancelRequests + 1 })
  rw [MmEngine.Oms.sendCancel]
  simp only [OrderManager.transition_record]
  split
  · refine hI.request_refused hpending ?_ ?_ ?_ .working ?_ _ id
    · simpa [OmsState.nextRequest] using hlt
    · rfl
    · rfl
    · simp
  · exact hpending

theorem sendReplace {w : World σ} (h : I w.oms) (action : OrderAction) {index : Nat}
    {order : OrderRecord} (replacementId : ClientOrderId)
    (horder : w.oms.orders[index]? = some order) :
    I (sendReplace port action index order replacementId w).2.oms := by
  have hlt : index < w.oms.orders.length := (List.getElem?_eq_some_iff.mp horder).1
  have hrequested : I (w.oms.onState OmsState.nextRequest) := hI.same h ⟨rfl, rfl, rfl, rfl⟩
  have hpending := hI.request_sent hrequested horder
    (order.replacing action replacementId (w.oms.nextRequestId + 1) w.oms.clock) rfl rfl
    .pendingReplace (show OrderEventType.replaceRequested ≠ .eventQuarantined by simp)
    { logicalId := order.logicalId } (fun k => { k with replaceRequests := k.replaceRequests + 1 })
  rw [MmEngine.Oms.sendReplace]
  simp only [OrderManager.transition_record]
  split
  · refine hI.request_refused hpending ?_ ?_ ?_ .working ?_ _ id
    · simpa [OmsState.nextRequest] using hlt
    · rfl
    · rfl
    · simp
  · exact hpending

theorem handleCancel {w : World σ} (h : I w.oms) (action : OrderAction) :
    I (handleCancel port action w).2.oms := by
  rw [MmEngine.Oms.handleCancel]
  split
  · exact hI.same h ⟨rfl, rfl, rfl, rfl⟩
  rename_i index order hfound
  split
  · exact hI.same h ⟨rfl, rfl, rfl, rfl⟩
  split
  · exact hI.same h ⟨rfl, rfl, rfl, rfl⟩
  split
  · exact hI.same h ⟨rfl, rfl, rfl, rfl⟩
  split
  · exact hI.same h ⟨rfl, rfl, rfl, rfl⟩
  · exact hI.sendCancel port h (findTarget_getElem hfound)

theorem handleReplace {w : World σ} (h : I w.oms) (action : OrderAction) :
    I (handleReplace port action w).2.oms := by
  rw [MmEngine.Oms.handleReplace]
  split
  · exact hI.same h ⟨rfl, rfl, rfl, rfl⟩
  rename_i index order hfound
  have horder := findTarget_getElem hfound
  split
  · exact hI.same h ⟨rfl, rfl, rfl, rfl⟩
  split
  · exact hI.same h ⟨rfl, rfl, rfl, rfl⟩
  split
  · exact hI.same h ⟨rfl, rfl, rfl, rfl⟩
  split
  · have hstored : I (w.oms.store index
        (order.amending action.price action.quantity action.generation)) :=
      hI.store h horder rfl rfl
    exact hI.same hstored ⟨rfl, rfl, rfl, rfl⟩
  split
  · exact hI.same h ⟨rfl, rfl, rfl, rfl⟩
  split
  · exact hI.same h ⟨rfl, rfl, rfl, rfl⟩
  split
  · exact hI.same h ⟨rfl, rfl, rfl, rfl⟩
  · have hburned : I (w.oms.onState OmsState.burnClientId) := hI.same h ⟨rfl, rfl, rfl, rfl⟩
    exact hI.sendReplace port hburned action _ horder

theorem submit {w : World σ} (h : I w.oms) (approved : ApprovedAction) :
    I (submit port approved w).2.oms := by
  rw [MmEngine.Oms.submit]
  split
  · have hcounted : I ((w.oms.count fun k =>
        { k with notRiskApproved := k.notRiskApproved + 1 }).recordReject .notRiskApproved) :=
      hI.same h ⟨rfl, rfl, rfl, rfl⟩
    exact hI.quarantined _ hcounted rfl
  · cases approved.action.type with
    | new => exact hI.handleNew port h approved.action
    | cancel => exact hI.handleCancel port h approved.action
    | replace => exact hI.handleReplace port h approved.action
    | noop => exact h

theorem onTimer (h : I m) : I m.onTimer := by
  rw [OrderManager.onTimer]
  refine Table.foldl_invariant ?_ _ h
  intro m i h
  rw [expireAt]
  split
  · exact h
  · rename_i order horder
    split
    · exact hI.move h horder
    · exact h

/-- A comparison counts and reports. -/
theorem compareAll (h : I m) (snapshot : VenueSnapshot) : I (m.compareAll snapshot).1 := by
  have hbody : ∀ (state : OrderManager × ReconciliationReport) (listed : OrderStatusReport),
      I state.1 → I (compareListed listed state).1 := by
    intro state listed hstate
    rw [compareListed]
    dsimp only
    split
    · exact hI.same hstate ⟨rfl, rfl, rfl, rfl⟩
    · split <;> exact hstate
  exact Table.foldl_invariant hbody snapshot.orders h

theorem markMissing (h : I m) (snapshotNs : Nanos) (id : LogicalOrderId) :
    I (m.markMissing snapshotNs id) := by
  rw [OrderManager.markMissing]
  split
  · exact h
  · rename_i index order hfound
    split
    · exact h
    · exact hI.move h (findById_eq_some_iff.mp hfound).2

/-- A discrepancy is journalled as a move to the state the order is in. -/
theorem journalDiscrepancy (h : I m) (d : Discrepancy) : I (m.journalDiscrepancy d) := by
  rw [OrderManager.journalDiscrepancy]
  split
  · exact h
  split
  · exact h
  · rename_i index order hfound
    split
    · exact h
    · have horder := (findById_eq_some_iff.mp hfound).2
      have hself : isLegalTransition order.state order.state = true := by
        simp [isLegalTransition]
      have hrecorded := hI.recorded h horder rfl hself
        (show OrderEventType.reconciliationDetected ≠ .eventQuarantined by simp)
      refine hI.same hrecorded ⟨rfl, rfl, rfl, ?_⟩
      obtain ⟨hlt, hget⟩ := List.getElem?_eq_some_iff.mp horder
      have hunchanged : m.orders.set index order = m.orders := by
        rw [← hget]
        exact List.set_getElem_self hlt
      simp [OmsState.store, hunchanged]

theorem reconcile (h : I m) (snapshot : VenueSnapshot) : I (m.reconcile snapshot).2 := by
  rw [OrderManager.reconcile]
  split
  · exact hI.same h ⟨rfl, rfl, rfl, rfl⟩
  · dsimp only
    refine Table.foldl_invariant (I := I) (fun _ d hm => hI.journalDiscrepancy hm d) _ ?_
    refine Table.foldl_invariant (I := I) (fun _ id hm => hI.markMissing hm _ id) _ ?_
    have hcounted : I (m.count fun k => { k with reconciliations := k.reconciliations + 1 }) :=
      hI.same h ⟨rfl, rfl, rfl, rfl⟩
    exact hI.same (hI.compareAll hcounted snapshot) ⟨rfl, rfl, rfl, rfl⟩

theorem resolve (h : I m) (id : LogicalOrderId) (target : OrderState) :
    I (m.resolve id target).2.manager := by
  rw [OrderManager.resolve]
  split
  · exact h
  · rename_i index order hfound
    split
    · exact h
    · rename_i hlegal
      have hstate : (concluded order target m.clock).state = target := by
        rw [concluded]
        split <;> rfl
      have hid : (concluded order target m.clock).logicalId = order.logicalId := by
        rw [concluded]
        split <;> rfl
      have hrecorded := hI.recorded h (findById_eq_some_iff.mp hfound).2 hid
        (by rw [hstate]; simpa using hlegal)
        (show OrderEventType.reconciliationResolved ≠ .eventQuarantined by simp)
      rw [hstate] at hrecorded
      exact hrecorded

/-- A record in flight is journalled with the state it was in. -/
theorem recoverAt (h : I m) (index : Nat) : I (m.recoverAt index) := by
  rw [OrderManager.recoverAt]
  split
  · exact h
  · rename_i order horder
    dsimp only
    split
    · rename_i hpending
      have hbound : I ((m.onState (bindRestored index order)).count
          fun k => { k with unknownStates := k.unknownStates + 1 }) :=
        hI.same h ⟨rfl, rfl, rfl, rfl⟩
      have hstate : (recovered order).state = .unknown := by
        rw [recovered]
        rw [if_pos hpending]
      have hid : (recovered order).logicalId = order.logicalId := by
        rw [recovered]
        split <;> rfl
      have hlegal : isLegalTransition order.state .unknown = true :=
        OrderState.isLegalTransition_unknown_of_hasPendingRequest hpending
      have hrecorded := hI.recorded hbound horder hid (by rw [hstate]; exact hlegal)
        (show OrderEventType.outcomeUnknown ≠ .eventQuarantined by simp)
      rw [hstate] at hrecorded
      exact hrecorded
    · exact hI.same h ⟨rfl, rfl, rfl, rfl⟩

theorem restartWith (h : I m) (config : OmsConfig) : I (restartWith config m) := by
  rw [MmEngine.Oms.restartWith]
  split
  · exact h
  · rename_i hok
    rw [OrderManager.restart, OrderManager.restore] at hok ⊢
    rw [if_neg (by simp [OrderManager.init])] at hok ⊢
    split
    · rename_i hfull
      rw [if_pos hfull] at hok
      exact absurd rfl hok
    · refine Table.foldl_invariant (I := I) (fun _ index hm => hI.recoverAt hm index) _ ?_
      exact hI.same h ⟨rfl, rfl, rfl, rfl⟩

theorem primary {w : World σ} (h : I w.oms) (op : Op σ) : I (primary port op w).1.oms := by
  cases op with
  | submit approved => exact hI.submit port h approved
  | apply event => exact hI.dispatch h event
  | onTimer => exact hI.onTimer h
  | reconcile snapshot => exact hI.reconcile h snapshot
  | resolve id target => exact hI.resolve h id target
  | attachExecution => exact hI.same h ⟨rfl, rfl, rfl, rfl⟩
  | advance => exact hI.same h ⟨rfl, rfl, rfl, rfl⟩
  | venue => exact h
  | restart config => exact hI.restartWith h config

theorem releaseEntry {w : World σ} (h : I w.oms) (resolved : LogicalOrderId) (entry : Nat) :
    I (releaseEntry port resolved w entry).oms := by
  rw [MmEngine.Oms.releaseEntry]
  split
  · split
    · have hvacated : I (w.withOms fun m => m.onState fun s => s.vacate entry).oms :=
        hI.same h ⟨rfl, rfl, rfl, rfl⟩
      exact hI.handleNew port hvacated _
    · exact h
  · exact h

theorem step {w : World σ} (h : I w.oms) (op : Op σ) : I (step port op w).oms :=
  release_invariant (I := fun w : World σ => I w.oms) port
    (fun id _ _ entry hw => hI.releaseEntry port hw id entry) (hI.primary port h op)

/-- What the moves on the books keep, every run keeps. -/
theorem run {w : World σ} (h : I w.oms) (ops : List (Op σ)) :
    I (Machine.run (MmEngine.Oms.step port) ops w).oms :=
  Machine.invariant_run_always (I := fun w : World σ => I w.oms)
      (fun op _ hw => hI.step port hw op) ops h

end KeepsBooks

end MmEngine.Oms
