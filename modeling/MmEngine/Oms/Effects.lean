/-
# What an operation does to the state

One inversion lemma for each operation. A lemma lists everything the operation
can do to `OmsState`, with the guards that let it, so that no later proof opens
a handler again: every invariant is a case analysis over the outcomes below.

Events share one shape. The handler edits the record without moving its state,
then attempts one transition; `EventEdit` lists the edits and their targets.
-/

import MmEngine.Oms.Recovery
import MmEngine.Lib.Table

namespace MmEngine.Oms

open MmEngine.Exchange MmEngine.Quote MmEngine.Risk

namespace OrderRecord

section Transition

variable (order : OrderRecord) (target : OrderState) (now : Nanos)

/-- A transition in one piece: only the state and, on a legal move to a terminal
state, the settlement fields change. -/
theorem transition_eq :
    order.transition target now =
      { order with
        state := landing order.state target
        terminalNs :=
          if isLegalTransition order.state target && target.isTerminal then now
          else order.terminalNs
        pendingRequest :=
          if isLegalTransition order.state target && target.isTerminal then 0
          else order.pendingRequest
        pendingSinceNs :=
          if isLegalTransition order.state target && target.isTerminal then 0
          else order.pendingSinceNs } := by
  rw [transition]
  by_cases hlegal : isLegalTransition order.state target = true
  · by_cases hterminal : target.isTerminal = true <;> simp [landing, hlegal, hterminal]
  · simp [landing, hlegal]

theorem transition_state :
    (order.transition target now).state = landing order.state target := by
  rw [transition_eq]

theorem transition_pendingRequest :
    (order.transition target now).pendingRequest =
      if isLegalTransition order.state target && target.isTerminal then 0
      else order.pendingRequest := by
  rw [transition_eq]

theorem transition_pendingSinceNs :
    (order.transition target now).pendingSinceNs =
      if isLegalTransition order.state target && target.isTerminal then 0
      else order.pendingSinceNs := by
  rw [transition_eq]

@[simp]
theorem transition_logicalId : (order.transition target now).logicalId = order.logicalId := by
  rw [transition_eq]

@[simp]
theorem transition_clientOrderId :
    (order.transition target now).clientOrderId = order.clientOrderId := by
  rw [transition_eq]

@[simp]
theorem transition_exchangeOrderId :
    (order.transition target now).exchangeOrderId = order.exchangeOrderId := by
  rw [transition_eq]

@[simp]
theorem transition_ownership : (order.transition target now).ownership = order.ownership := by
  rw [transition_eq]

@[simp]
theorem transition_symbol : (order.transition target now).symbol = order.symbol := by
  rw [transition_eq]

@[simp]
theorem transition_side : (order.transition target now).side = order.side := by
  rw [transition_eq]

@[simp]
theorem transition_originalQuantity :
    (order.transition target now).originalQuantity = order.originalQuantity := by
  rw [transition_eq]

@[simp]
theorem transition_cumulativeQuantity :
    (order.transition target now).cumulativeQuantity = order.cumulativeQuantity := by
  rw [transition_eq]

@[simp]
theorem transition_pendingQuantity :
    (order.transition target now).pendingQuantity = order.pendingQuantity := by
  rw [transition_eq]

@[simp]
theorem transition_pendingClientOrderId :
    (order.transition target now).pendingClientOrderId = order.pendingClientOrderId := by
  rw [transition_eq]

@[simp]
theorem transition_averageFillPrice :
    (order.transition target now).averageFillPrice = order.averageFillPrice := by
  rw [transition_eq]

@[simp]
theorem transition_seenTrades : (order.transition target now).seenTrades = order.seenTrades := by
  rw [transition_eq]

@[simp]
theorem transition_acknowledgedNs :
    (order.transition target now).acknowledgedNs = order.acknowledgedNs := by
  rw [transition_eq]

@[simp]
theorem transition_lastAppliedSequence :
    (order.transition target now).lastAppliedSequence = order.lastAppliedSequence := by
  rw [transition_eq]

end Transition

/-- Restating a state that is not terminal changes nothing. -/
theorem transition_self (order : OrderRecord) (h : order.isTerminal = false) (now : Nanos) :
    order.transition order.state now = order := by
  have hlegal : isLegalTransition order.state order.state = true := by simp [isLegalTransition]
  have hterminal : order.state.isTerminal = false := h
  simp [transition, hlegal, hterminal]

/-- Attempting a transition to a state that is not terminal twice is attempting
it once. -/
theorem transition_twice (order : OrderRecord) {target : OrderState}
    (h : target.isTerminal = false) (now : Nanos) :
    (order.transition target now).transition target now = order.transition target now := by
  by_cases hlegal : isLegalTransition order.state target = true
  · have hstate : (order.transition target now).state = target := by
      rw [transition_state, landing, if_pos hlegal]
    have hself := transition_self (order.transition target now)
      (by rw [isTerminal, hstate, h]) now
    rwa [hstate] at hself
  · have hrefused : order.transition target now = order := by simp [transition, hlegal]
    rw [hrefused, hrefused]

end OrderRecord

namespace OmsState

/-- What lets a New through to the creation of a record: the slot is free, or
its first occupant neither waits for a cancel nor has a request outstanding. -/
def SlotPassable (s : OmsState) (action : OrderAction) : Prop :=
  ∀ k occupant,
    s.findSlotOrder action.identity.name action.symbol action.slot = some (k, occupant) →
      occupant.state ≠ .pendingCancel ∧ occupant.pendingRequest = 0

/-- The record a New leaves behind, the state it is added to, and the request
sent for it. -/
inductive NewRecord (s : OmsState) (created : OrderRecord) :
    OrderRecord → OmsState → List Observation → Prop
  | unattached (hattached : s.attached = false) : NewRecord s created created s []
  | accepted (hattached : s.attached = true) :
      NewRecord s created
        ((created.submitted (s.nextRequestId + 1) s.clock).transition .pendingNew s.clock)
        s.nextRequest [.sent created.logicalId .submit true]
  | rejected (hattached : s.attached = true) :
      NewRecord s created
        (((created.submitted (s.nextRequestId + 1) s.clock).transition .pendingNew
          s.clock).settled.transition .rejected s.clock)
        s.nextRequest [.sent created.logicalId .submit false]

/-- Everything a New can do. -/
inductive NewOutcome (s : OmsState) (action : OrderAction) :
    OmsState → List Observation → Prop
  | refused : NewOutcome s action s []
  | burned : NewOutcome s action s.burnClientId []
  | deferred {k entry : Nat} {occupant : OrderRecord}
      (hslot : s.findSlotOrder action.identity.name action.symbol action.slot =
        some (k, occupant))
      (hstate : occupant.state = .pendingCancel) (hfree : s.deferred[entry]? = some none)
      (hroom : s.orders.length < s.config.maxOrders) :
      NewOutcome s action (s.defer entry action occupant.logicalId) []
  | created {clientId : ClientOrderId} {record : OrderRecord} {base : OmsState}
      {observed : List Observation} (hroom : s.orders.length < s.config.maxOrders)
      (hpassable : s.SlotPassable action) (hid : s.idGenerator.next.1 = some clientId)
      (hfresh : s.byClientId.lookup clientId = none)
      (hrecord : NewRecord s.burnClientId (s.newOrder action clientId) record base observed) :
      NewOutcome s action (base.addOrder record) observed

/-- The edits a cancel or replace makes to its order, the state the edited
record is stored in, and the request sent. -/
inductive RequestEdit (s : OmsState) (action : OrderAction) (order : OrderRecord) :
    OrderRecord → OmsState → List Observation → Prop
  | cancelSent (htype : action.type = .cancel) (hstate : order.state ≠ .pendingCancel)
      (hattached : s.attached = true) (howned : ownershipViolated action order = false) :
      RequestEdit s action order
        ((order.requested (s.nextRequestId + 1) s.clock).transition .pendingCancel s.clock)
        s.nextRequest [.sent order.logicalId .cancel true]
  | cancelReturned (htype : action.type = .cancel) (hstate : order.state ≠ .pendingCancel)
      (hattached : s.attached = true) (howned : ownershipViolated action order = false) :
      RequestEdit s action order
        (((order.requested (s.nextRequestId + 1) s.clock).transition .pendingCancel
          s.clock).settled.transition .working s.clock)
        s.nextRequest [.sent order.logicalId .cancel false]
  | coalesced (htype : action.type = .replace) (hstate : order.state = .pendingReplace)
      (howned : ownershipViolated action order = false)
      (hcurrent : order.ownership.generation ≤ action.generation) :
      RequestEdit s action order
        (order.amending action.price action.quantity action.generation) s []
  | replaceSent {replacementId : ClientOrderId} (htype : action.type = .replace)
      (hstate : order.state ≠ .pendingReplace) (hpending : order.pendingRequest = 0)
      (hattached : s.attached = true) (hid : s.idGenerator.next.1 = some replacementId)
      (howned : ownershipViolated action order = false)
      (hcurrent : order.ownership.generation ≤ action.generation) :
      RequestEdit s action order
        ((order.replacing action replacementId (s.nextRequestId + 1) s.clock).transition
          .pendingReplace s.clock)
        s.burnClientId.nextRequest [.sent order.logicalId .replace true]
  | replaceReturned {replacementId : ClientOrderId} (htype : action.type = .replace)
      (hstate : order.state ≠ .pendingReplace) (hpending : order.pendingRequest = 0)
      (hattached : s.attached = true) (hid : s.idGenerator.next.1 = some replacementId)
      (howned : ownershipViolated action order = false)
      (hcurrent : order.ownership.generation ≤ action.generation) :
      RequestEdit s action order
        (((order.replacing action replacementId (s.nextRequestId + 1) s.clock).transition
          .pendingReplace s.clock).replaceDropped.transition .working s.clock)
        s.burnClientId.nextRequest [.sent order.logicalId .replace false]

/-- Everything a submitted action can do. -/
inductive SubmitOutcome (s : OmsState) (approved : ApprovedAction) :
    OmsState → List Observation → Prop
  | refused : SubmitOutcome s approved s []
  | burned : SubmitOutcome s approved s.burnClientId []
  | new {after : OmsState} {observed : List Observation} (hvalid : approved.valid = true)
      (htype : approved.action.type = .new)
      (houtcome : NewOutcome s approved.action after observed) :
      SubmitOutcome s approved after observed
  | edited {i : Nat} {order record : OrderRecord} {base : OmsState} {observed : List Observation}
      (hvalid : approved.valid = true)
      (hfound : s.findTarget approved.action (approved.action.type = .cancel) = some (i, order))
      (hterminal : order.isTerminal = false)
      (hedit : RequestEdit s approved.action order record base observed) :
      SubmitOutcome s approved (base.store i record) observed

end OmsState

section Submit

variable {σ : Type} (port : IExchangeExecution σ)

open OmsState

/-- Storing the final form of a record just added is adding that form. -/
theorem addOrder_store {s : OmsState} {created record : OrderRecord}
    (hid : record.logicalId = created.logicalId)
    (hclient : record.clientOrderId = created.clientOrderId) :
    (s.addOrder created).store s.orders.length record = s.addOrder record := by
  simp [OmsState.addOrder, OmsState.store, hid, hclient]

theorem sendNew_outcome {s : OmsState} (created : OrderRecord) {w : World σ}
    (hw : w.oms.toOmsState = s.addOrder created) :
    ∃ record base observed,
      NewRecord s created record base observed ∧
      (sendNew port s.orders.length created w).2.trace = w.trace ++ observed ∧
      (sendNew port s.orders.length created w).2.oms.toOmsState = base.addOrder record := by
  have hattached : w.oms.attached = s.attached := by rw [hw]; rfl
  have hclock : w.oms.clock = s.clock := by rw [hw]; rfl
  have hnow : w.oms.toOmsState.nextRequest.clock = s.clock := hclock
  have hrequest : w.oms.toOmsState.nextRequest.nextRequestId = s.nextRequestId + 1 := by
    rw [hw]; rfl
  have hstore (record : OrderRecord) (hid : record.logicalId = created.logicalId)
      (hclient : record.clientOrderId = created.clientOrderId) :
      w.oms.toOmsState.nextRequest.store s.orders.length record =
          s.nextRequest.addOrder record := by
    rw [hw]
    exact addOrder_store (s := s.nextRequest) hid hclient
  rw [sendNew]
  by_cases hport : w.oms.attached = true
  · rw [if_neg (by simp [hport])]
    simp only [World.observe, OrderManager.count_toOmsState, OrderManager.transition_toOmsState,
      OrderManager.onState_toOmsState, OrderManager.transition_record, hnow, hrequest, hclock]
    split
    · refine ⟨_, _, _, .rejected (hattached ▸ hport), ?_, ?_⟩
      · simp [OrderRecord.settled, OrderRecord.submitted, OrderRecord.requested]
      · simp only [OrderManager.store_toOmsState, OrderManager.count_toOmsState,
          OrderManager.transition_toOmsState, OrderManager.onState_toOmsState]
        apply hstore <;> simp [OrderRecord.settled, OrderRecord.submitted, OrderRecord.requested]
    · refine ⟨_, _, _, .accepted (hattached ▸ hport), ?_, ?_⟩
      · simp [OrderRecord.submitted, OrderRecord.requested]
      · simp only [OrderManager.store_toOmsState, OrderManager.count_toOmsState,
          OrderManager.transition_toOmsState, OrderManager.onState_toOmsState]
        apply hstore <;> simp [OrderRecord.submitted, OrderRecord.requested]
  · rw [if_pos (by simp [hport])]
    refine ⟨created, s, [], .unattached (by simpa [hattached] using hport), ?_, ?_⟩
    · simp [World.refuse, World.withOms]
    · simpa [World.refuse, World.withOms] using hw

theorem createOrder_outcome {action : OrderAction} {w : World σ}
    (hroom : w.oms.orders.length < w.oms.config.maxOrders)
    (hpassable : w.oms.toOmsState.SlotPassable action) :
    ∃ observed, (createOrder port action w).2.trace = w.trace ++ observed ∧
      NewOutcome w.oms.toOmsState action (createOrder port action w).2.oms.toOmsState observed := by
  rw [createOrder]
  cases hid : w.oms.idGenerator.next.1 with
  | none =>
      exact ⟨[], by simp [World.refuse, World.withOms], .burned⟩
  | some clientId =>
      dsimp only
      split
      · exact ⟨[], by simp [World.refuse, World.withOms], .burned⟩
      · rename_i hknown
        obtain ⟨record, base, observed, hrecord, htrace, hstate⟩ :=
          sendNew_outcome port (s := w.oms.toOmsState.burnClientId)
            (w.oms.toOmsState.newOrder action clientId) (w :=
              w.withOms fun m =>
                (((m.onState OmsState.burnClientId).onState fun s =>
                  s.addOrder (w.oms.toOmsState.newOrder action clientId)).count
                    fun k => { k with ordersCreated := k.ordersCreated + 1 }).journalOrder
                      .created (w.oms.toOmsState.newOrder action clientId) .created .created)
            rfl
        refine ⟨observed, htrace, ?_⟩
        have hfresh : w.oms.byClientId.lookup clientId = none :=
          Option.not_isSome_iff_eq_none.mp hknown
        have houtcome := NewOutcome.created hroom hpassable hid hfresh hrecord
        rw [← hstate] at houtcome
        exact houtcome

/-- A New is refused, deferred, or becomes a record. -/
theorem handleNew_outcome (action : OrderAction) (w : World σ) :
    ∃ observed, (handleNew port action w).2.trace = w.trace ++ observed ∧
      NewOutcome w.oms.toOmsState action (handleNew port action w).2.oms.toOmsState observed := by
  rw [handleNew]
  by_cases hfull : w.oms.config.maxOrders ≤ w.oms.orders.length
  · rw [if_pos hfull]
    exact ⟨[], by simp [World.refuse, World.withOms], .refused⟩
  · rw [if_neg hfull]
    have hroom := Nat.lt_of_not_le hfull
    cases hslot : w.oms.findSlotOrder action.identity.name action.symbol action.slot with
    | none =>
        exact createOrder_outcome port hroom (by simp [SlotPassable, hslot])
    | some found =>
        obtain ⟨k, occupant⟩ := found
        dsimp only
        by_cases hcancel : occupant.state = .pendingCancel
        · rw [if_pos hcancel]
          rw [deferNew]
          cases hfree : w.oms.deferred.findIdx? Option.isNone with
          | none => exact ⟨[], by simp [World.refuse, World.withOms], .refused⟩
          | some entry =>
              refine ⟨[], by simp [World.withOms], .deferred hslot hcancel ?_ hroom⟩
              obtain ⟨hlt, hnone, _⟩ := List.findIdx?_eq_some_iff_getElem.mp hfree
              rw [List.getElem?_eq_getElem hlt, Option.isNone_iff_eq_none.mp hnone]
        · rw [if_neg hcancel]
          by_cases hpending : occupant.hasPendingRequest = true
          · rw [if_pos hpending]
            exact ⟨[], by simp [World.refuse, World.withOms], .refused⟩
          · rw [if_neg hpending]
            apply createOrder_outcome port hroom
            intro k' occupant' hslot'
            rw [hslot] at hslot'
            cases hslot'
            exact ⟨hcancel, by simpa [OrderRecord.hasPendingRequest] using hpending⟩

theorem sendCancel_edit (index : Nat) {action : OrderAction} {order : OrderRecord} {w : World σ}
    (htype : action.type = .cancel) (hstate : order.state ≠ .pendingCancel)
    (hattached : w.oms.attached = true) (howned : ownershipViolated action order = false) :
    ∃ record base observed,
      RequestEdit w.oms.toOmsState action order record base observed ∧
      (sendCancel port index order w).2.trace = w.trace ++ observed ∧
      (sendCancel port index order w).2.oms.toOmsState = base.store index record := by
  rw [sendCancel]
  dsimp only
  split
  · refine ⟨_, _, _, .cancelReturned htype hstate hattached howned, rfl, ?_⟩
    simp [World.observe]
    rfl
  · refine ⟨_, _, _, .cancelSent htype hstate hattached howned, rfl, ?_⟩
    simp [World.observe]
    rfl

theorem sendReplace_edit (index : Nat) {action : OrderAction} {order : OrderRecord}
    {replacementId : ClientOrderId} {w : World σ} (htype : action.type = .replace)
    (hstate : order.state ≠ .pendingReplace) (hpending : order.pendingRequest = 0)
    (hattached : w.oms.attached = true) (hid : w.oms.idGenerator.next.1 = some replacementId)
    (howned : ownershipViolated action order = false)
    (hcurrent : order.ownership.generation ≤ action.generation) :
    ∃ record base observed,
      RequestEdit w.oms.toOmsState action order record base observed ∧
      (sendReplace port action index order replacementId
        (w.withOms fun m => m.onState burnClientId)).2.trace = w.trace ++ observed ∧
      (sendReplace port action index order replacementId
        (w.withOms fun m => m.onState burnClientId)).2.oms.toOmsState =
          base.store index record := by
  rw [sendReplace]
  dsimp only
  split
  · refine ⟨_, _, _, .replaceReturned htype hstate hpending hattached hid howned hcurrent, rfl, ?_⟩
    simp [World.observe, World.withOms]
    rfl
  · refine ⟨_, _, _, .replaceSent htype hstate hpending hattached hid howned hcurrent, rfl, ?_⟩
    simp [World.observe, World.withOms]
    rfl

/-- A cancel that passes the checks is sent. -/
theorem handleCancel_eq_sendCancel {action : OrderAction} {w : World σ} {index : Nat}
    {order : OrderRecord} (hfound : w.oms.findTarget action true = some (index, order))
    (howned : ownershipViolated action order = false) (hlive : order.isTerminal = false)
    (hstate : order.state ≠ .pendingCancel) (hattached : w.oms.attached = true) :
    handleCancel port action w = sendCancel port index order w := by
  simp [handleCancel, hfound, howned, hlive, hstate, hattached]

/-- A replace that passes the checks is sent. -/
theorem handleReplace_eq_sendReplace {action : OrderAction} {w : World σ} {index : Nat}
    {order : OrderRecord} {replacementId : ClientOrderId}
    (hfound : w.oms.findTarget action false = some (index, order))
    (howned : ownershipViolated action order = false) (hlive : order.isTerminal = false)
    (hcurrent : order.ownership.generation ≤ action.generation)
    (hstate : order.state ≠ .pendingReplace) (hpending : order.pendingRequest = 0)
    (hattached : w.oms.attached = true) (hid : w.oms.idGenerator.next.1 = some replacementId) :
    handleReplace port action w =
      sendReplace port action index order replacementId
        (w.withOms fun m => m.onState burnClientId) := by
  have hfresh : ¬ action.generation < order.ownership.generation := Nat.not_lt.mpr hcurrent
  simp [handleReplace, hfound, howned, hlive, hfresh, hstate, hattached, hid,
    OrderRecord.hasPendingRequest, hpending]

theorem handleCancel_outcome {approved : ApprovedAction} (hvalid : approved.valid = true)
    (htype : approved.action.type = .cancel) (w : World σ) :
    ∃ observed, (handleCancel port approved.action w).2.trace = w.trace ++ observed ∧
      SubmitOutcome w.oms.toOmsState approved (handleCancel port approved.action w).2.oms.toOmsState
        observed := by
  have hrefused : ∃ observed, w.trace = w.trace ++ observed ∧
      SubmitOutcome w.oms.toOmsState approved w.oms.toOmsState observed := ⟨[], by simp, .refused⟩
  rw [handleCancel]
  cases hfound : w.oms.findTarget approved.action true with
  | none => exact hrefused
  | some found =>
      obtain ⟨index, order⟩ := found
      dsimp only
      split
      · exact hrefused
      rename_i howned
      split
      · exact hrefused
      rename_i hterminal
      split
      · exact hrefused
      rename_i hstate
      split
      · exact hrefused
      rename_i hattached
      obtain ⟨record, base, observed, hedit, htrace, hafter⟩ :=
        sendCancel_edit port index htype hstate (by simpa using hattached) (by simpa using howned)
      refine ⟨observed, htrace, ?_⟩
      rw [hafter]
      exact .edited hvalid (by simpa [htype] using hfound) (by simpa using hterminal) hedit

theorem handleReplace_outcome {approved : ApprovedAction} (hvalid : approved.valid = true)
    (htype : approved.action.type = .replace) (w : World σ) :
    ∃ observed, (handleReplace port approved.action w).2.trace = w.trace ++ observed ∧
      SubmitOutcome w.oms.toOmsState approved
        (handleReplace port approved.action w).2.oms.toOmsState observed := by
  have hrefused : ∃ observed, w.trace = w.trace ++ observed ∧
      SubmitOutcome w.oms.toOmsState approved w.oms.toOmsState observed := ⟨[], by simp, .refused⟩
  rw [handleReplace]
  cases hfound : w.oms.findTarget approved.action false with
  | none => exact hrefused
  | some found =>
      obtain ⟨index, order⟩ := found
      have hfound' : w.oms.findTarget approved.action (approved.action.type = .cancel) =
          some (index, order) := by simpa [htype] using hfound
      dsimp only
      split
      · exact hrefused
      rename_i hforeign
      have howned : ownershipViolated approved.action order = false := by simpa using hforeign
      split
      · exact hrefused
      rename_i hterminal
      have hlive : order.isTerminal = false := by simpa using hterminal
      split
      · exact hrefused
      rename_i hstale
      have hcurrent := Nat.le_of_not_lt hstale
      split
      · rename_i hstate
        exact ⟨[], by simp [World.refuse, World.withOms],
          .edited hvalid hfound' hlive (.coalesced htype hstate howned hcurrent)⟩
      rename_i hstate
      split
      · exact hrefused
      rename_i hpending
      split
      · exact hrefused
      rename_i hattached
      cases hid : w.oms.idGenerator.next.1 with
      | none => exact ⟨[], by simp [World.refuse, World.withOms], .burned⟩
      | some replacementId =>
          obtain ⟨record, base, observed, hedit, htrace, hafter⟩ :=
            sendReplace_edit port index htype hstate
              (by simpa [OrderRecord.hasPendingRequest] using hpending)
              (by simpa using hattached) hid
              howned hcurrent
          refine ⟨observed, htrace, ?_⟩
          dsimp only
          rw [hafter]
          exact .edited hvalid hfound' hlive hedit

/-- A submitted action is refused, creates or defers an order, or edits one. -/
theorem submit_outcome (approved : ApprovedAction) (w : World σ) :
    ∃ observed, (submit port approved w).2.trace = w.trace ++ observed ∧
      SubmitOutcome w.oms.toOmsState approved (submit port approved w).2.oms.toOmsState
        observed := by
  rw [submit]
  split
  · exact ⟨[], by simp [World.withOms], .refused⟩
  · rename_i hvalid
    have hvalid : approved.valid = true := by simpa using hvalid
    cases htype : approved.action.type with
    | new =>
        obtain ⟨observed, htrace, houtcome⟩ := handleNew_outcome port approved.action w
        exact ⟨observed, htrace, .new hvalid htype houtcome⟩
    | cancel => exact handleCancel_outcome port hvalid htype w
    | replace => exact handleReplace_outcome port hvalid htype w
    | noop => exact ⟨[], by simp, .refused⟩

end Submit

/-! ## Execution events -/

namespace OmsState

/-- The record an event speaks about. -/
def findSubject (s : OmsState) : ExecutionEvent → Option (Nat × OrderRecord)
  | .orderAck ack => s.findByClientId ack.clientOrderId
  | .orderReject reject => s.findByClientId reject.clientOrderId
  | .fill fill => s.findByClientId fill.clientOrderId
  | .orderCancel cancel =>
      (s.findByClientId cancel.clientOrderId).or
        (if cancel.exchangeOrderId.isEmpty then none
        else s.findByExchangeId cancel.exchangeOrderId)
  | .orderReplace replace => s.findByClientId replace.originalClientOrderId
  | .requestFailure failure => s.findByClientId failure.clientOrderId
  | .none | .other _ => none

/-- The edit an event makes to its order before the transition, the target of
that transition, whether the event answers a request, whether it releases what
was deferred on the order, and the state the record is stored in. -/
inductive EventEdit (s : OmsState) (order : OrderRecord) :
    ExecutionEvent → OrderRecord → OrderState → (answers resolves : Bool) → OmsState → Prop
  | ack {ack : OrderAckEvent} {bound : OrderRecord} {base : OmsState}
      (hnews : ack.seq = kNoSeq ∨ order.lastAppliedSequence = kNoSeq ∨
        order.lastAppliedSequence ≤ ack.seq)
      (hfirst : order.acknowledgedNs = 0)
      (hbind : s.bindExchangeId order ack.exchangeOrderId = some (base, bound)) :
      EventEdit s order (.orderAck ack) (bound.acknowledged ack base.clock)
        (OrderRecord.ackTarget ack.status) true false base
  | reject {reject : OrderRejectEvent} :
      EventEdit s order (.orderReject reject)
        (order.settled.stamped reject.transactNs) .rejected true true s
  | fillRefused {fill : FillEvent} {seen : SeenTradeIds} {reason : OmsReject}
      (hinsert : order.seenTrades.insert fill.tradeId = some seen)
      (hbook : (order.withTrades seen).bookFill fill = .error reason) :
      EventEdit s order (.fill fill) (order.withTrades seen) order.state false false s
  | fillComplete {fill : FillEvent} {seen : SeenTradeIds} {booked : OrderRecord}
      (hquantity : 0 < fill.quantity.raw)
      (hinsert : order.seenTrades.insert fill.tradeId = some seen)
      (hbook : (order.withTrades seen).bookFill fill = .ok booked)
      (hremaining : booked.remaining.isZero = true) :
      EventEdit s order (.fill fill) booked .filled false true s
  | fillPartial {fill : FillEvent} {seen : SeenTradeIds} {booked : OrderRecord}
      (hquantity : 0 < fill.quantity.raw)
      (hinsert : order.seenTrades.insert fill.tradeId = some seen)
      (hbook : (order.withTrades seen).bookFill fill = .ok booked)
      (hremaining : booked.remaining.isZero = false) :
      EventEdit s order (.fill fill) booked .partiallyFilled false false s
  | cancelAccepted {cancel : OrderCancelEvent} (hstatus : cancel.cancelStatus = .accepted) :
      EventEdit s order (.orderCancel cancel)
        (order.settled.stamped cancel.transactNs) .cancelled true true s
  | cancelRejected {cancel : OrderCancelEvent} (hstatus : cancel.cancelStatus = .rejected) :
      EventEdit s order (.orderCancel cancel)
        (order.settled.stamped cancel.transactNs) order.restingState true false s
  | cancelTooLate {cancel : OrderCancelEvent} (hstatus : cancel.cancelStatus = .tooLate) :
      EventEdit s order (.orderCancel cancel)
        (order.settled.stamped cancel.transactNs).completed .filled true true s
  | cancelUnknown {cancel : OrderCancelEvent}
      (hstatus : cancel.cancelStatus = .orderNotFound ∨ cancel.cancelStatus = .unknown) :
      EventEdit s order (.orderCancel cancel)
        (order.settled.stamped cancel.transactNs) .unknown true false s
  | replaceAccepted {replace : OrderReplaceEvent} {swapped : OrderRecord} {base : OmsState}
      (haccepted : replace.accepted = true)
      (hswap : s.swapIdentity (order.stamped replace.transactNs) replace = (base, swapped)) :
      EventEdit s order (.orderReplace replace) swapped.amended swapped.restingState true false base
  | replaceUnknown {replace : OrderReplaceEvent} (haccepted : replace.accepted = false)
      (houtcome : replace.error.outcome = .unknown) :
      EventEdit s order (.orderReplace replace)
        (order.stamped replace.transactNs).replaceDropped .unknown
        true false s
  | replaceRefused {replace : OrderReplaceEvent} (haccepted : replace.accepted = false)
      (houtcome : replace.error.outcome ≠ .unknown) :
      EventEdit s order (.orderReplace replace)
        (order.stamped replace.transactNs).replaceDropped
        order.restingState true false s
  | failureNotSent {failure : RequestFailureEvent}
      (houtcome : failure.error.outcome = .notSent) :
      EventEdit s order (.requestFailure failure) order.settled .rejected true true s
  | failureUnknown {failure : RequestFailureEvent}
      (houtcome : failure.error.outcome ≠ .notSent) :
      EventEdit s order (.requestFailure failure) order.settled .unknown true false s

/-- Everything an event can do, with the order it answered and the order whose
deferrals it releases. -/
inductive EventOutcome (s : OmsState) (event : ExecutionEvent) :
    OmsState → Option LogicalOrderId → Option LogicalOrderId → Prop
  | discarded : EventOutcome s event s none none
  | edited {i : Nat} {order edited : OrderRecord} {target : OrderState} {answers resolves : Bool}
      {base : OmsState} (hvalid : (validateExecutionEvent event).isError = false)
      (hfound : s.findSubject event = some (i, order)) (hterminal : order.isTerminal = false)
      (hedit : EventEdit s order event edited target answers resolves base) :
      EventOutcome s event (base.store i (edited.transition target base.clock))
        (if answers then some order.logicalId else none)
        (if resolves then some order.logicalId else none)

end OmsState

namespace OrderManager

open OmsState

@[simp]
theorem quarantine_toOmsState (m : OrderManager) : m.quarantine.toOmsState = m.toOmsState := rfl

@[simp]
theorem countDuplicate_toOmsState (m : OrderManager) :
    m.countDuplicate.toOmsState = m.toOmsState := rfl

@[simp]
theorem countOrphan_toOmsState (m : OrderManager) : m.countOrphan.toOmsState = m.toOmsState := rfl

@[simp]
theorem move_toOmsState (m : OrderManager) (index : Nat) (order : OrderRecord)
    (target : OrderState) (event : OrderEventType) (detail : OrderJournalRecord) :
    (m.move index order target event detail).toOmsState =
      m.toOmsState.store index (order.transition target m.clock) := by
  simp [move]

/-- The outcome of a handler. -/
def HandledOutcome (s : OmsState) (event : ExecutionEvent) (handled : Handled) : Prop :=
  EventOutcome s event handled.manager.toOmsState handled.answered handled.resolved

/-- What is not stale has no number, or comes after nothing, or not before what has been
applied. -/
theorem sequence_of_not_stale {last sequence : Nat}
    (h : ¬(sequence ≠ kNoSeq && last ≠ kNoSeq && sequence < last) = true) :
    sequence = kNoSeq ∨ last = kNoSeq ∨ last ≤ sequence := by
  by_contra hstale
  push Not at hstale
  exact h (by simp [hstale])

theorem applyAck_outcome (m : OrderManager) {ack : OrderAckEvent}
    (hvalid : (validateExecutionEvent (.orderAck ack)).isError = false) :
    HandledOutcome m.toOmsState (.orderAck ack) (m.applyAck ack) := by
  rw [applyAck]
  cases hfound : m.findByClientId ack.clientOrderId with
  | none => exact .discarded
  | some found =>
      obtain ⟨index, order⟩ := found
      dsimp only
      split
      · exact .discarded
      rename_i hterminal
      split
      · exact .discarded
      rename_i hnews
      split
      · exact .discarded
      rename_i hfirst
      cases hbind : m.toOmsState.bindExchangeId order ack.exchangeOrderId with
      | none => exact .discarded
      | some result =>
          obtain ⟨base, bound⟩ := result
          have hedit := EventEdit.ack (sequence_of_not_stale hnews) (by simpa using hfirst) hbind
          have houtcome := EventOutcome.edited hvalid hfound (by simpa using hterminal) hedit
          simpa [HandledOutcome] using houtcome

theorem applyReject_outcome (m : OrderManager) {reject : OrderRejectEvent}
    (hvalid : (validateExecutionEvent (.orderReject reject)).isError = false) :
    HandledOutcome m.toOmsState (.orderReject reject) (m.applyReject reject) := by
  rw [applyReject]
  cases hfound : m.findByClientId reject.clientOrderId with
  | none => exact .discarded
  | some found =>
      obtain ⟨index, order⟩ := found
      dsimp only
      split
      · exact .discarded
      rename_i hterminal
      have houtcome := EventOutcome.edited hvalid hfound (by simpa using hterminal) .reject
      simpa [HandledOutcome] using houtcome

theorem applyFill_outcome (m : OrderManager) {fill : FillEvent}
    (hvalid : (validateExecutionEvent (.fill fill)).isError = false) :
    HandledOutcome m.toOmsState (.fill fill) (m.applyFill fill) := by
  have hquantity : 0 < fill.quantity.raw := (FillEvent.positive_of_validate hvalid).1
  rw [applyFill]
  cases hfound : m.findByClientId fill.clientOrderId with
  | none => exact .discarded
  | some found =>
      obtain ⟨index, order⟩ := found
      dsimp only
      split
      · exact .discarded
      rename_i hterminal
      have hlive : order.isTerminal = false := by simpa using hterminal
      split
      · exact .discarded
      cases hinsert : order.seenTrades.insert fill.tradeId with
      | none => exact .discarded
      | some seen =>
          dsimp only
          cases hbook : (order.withTrades seen).bookFill fill with
          | error reason =>
              have houtcome :=
                EventOutcome.edited hvalid hfound hlive (.fillRefused hinsert hbook)
              have hself : (order.withTrades seen).transition order.state m.clock =
                  order.withTrades seen :=
                OrderRecord.transition_self (order.withTrades seen) hlive m.clock
              rw [hself] at houtcome
              simpa [HandledOutcome] using houtcome
          | ok booked =>
              dsimp only
              split
              · rename_i hremaining
                have houtcome := EventOutcome.edited hvalid hfound hlive
                  (.fillComplete hquantity hinsert hbook hremaining)
                simpa [HandledOutcome] using houtcome
              · rename_i hremaining
                have houtcome := EventOutcome.edited hvalid hfound hlive
                  (.fillPartial hquantity hinsert hbook ((Bool.not_eq_true _).mp hremaining))
                simpa [HandledOutcome] using houtcome

theorem applyCancel_outcome (m : OrderManager) {cancel : OrderCancelEvent}
    (hvalid : (validateExecutionEvent (.orderCancel cancel)).isError = false) :
    HandledOutcome m.toOmsState (.orderCancel cancel) (m.applyCancel cancel) := by
  rw [applyCancel]
  dsimp only
  split
  · exact .discarded
  · rename_i index order hfound
    split
    · exact .discarded
    rename_i hterminal
    have hlive : order.isTerminal = false := by simpa using hterminal
    cases hstatus : cancel.cancelStatus with
    | accepted =>
        have houtcome := EventOutcome.edited hvalid hfound hlive (.cancelAccepted hstatus)
        simpa [HandledOutcome] using houtcome
    | rejected =>
        have houtcome := EventOutcome.edited hvalid hfound hlive (.cancelRejected hstatus)
        simpa [HandledOutcome] using houtcome
    | tooLate =>
        have houtcome := EventOutcome.edited hvalid hfound hlive (.cancelTooLate hstatus)
        simpa [HandledOutcome] using houtcome
    | orderNotFound =>
        have houtcome := EventOutcome.edited hvalid hfound hlive (.cancelUnknown (.inl hstatus))
        simpa [HandledOutcome] using houtcome
    | unknown =>
        have houtcome := EventOutcome.edited hvalid hfound hlive (.cancelUnknown (.inr hstatus))
        simpa [HandledOutcome] using houtcome

theorem applyReplace_outcome (m : OrderManager) {replace : OrderReplaceEvent}
    (hvalid : (validateExecutionEvent (.orderReplace replace)).isError = false) :
    HandledOutcome m.toOmsState (.orderReplace replace) (m.applyReplace replace) := by
  rw [applyReplace]
  cases hfound : m.findByClientId replace.originalClientOrderId with
  | none => exact .discarded
  | some found =>
      obtain ⟨index, order⟩ := found
      dsimp only
      split
      · exact .discarded
      rename_i hterminal
      have hlive : order.isTerminal = false := by simpa using hterminal
      split
      · rename_i haccepted
        cases hswap : m.toOmsState.swapIdentity (order.stamped replace.transactNs) replace with
        | mk base swapped =>
            have houtcome :=
              EventOutcome.edited hvalid hfound hlive (.replaceAccepted haccepted hswap)
            simpa [HandledOutcome] using houtcome
      · rename_i haccepted
        have hrefused : replace.accepted = false := by simpa using haccepted
        split
        · rename_i hunknown
          have houtcome :=
            EventOutcome.edited hvalid hfound hlive (.replaceUnknown hrefused hunknown)
          simpa [HandledOutcome] using houtcome
        · rename_i hunknown
          have houtcome :=
            EventOutcome.edited hvalid hfound hlive (.replaceRefused hrefused hunknown)
          simpa [HandledOutcome] using houtcome

theorem applyFailure_outcome (m : OrderManager) {failure : RequestFailureEvent}
    (hvalid : (validateExecutionEvent (.requestFailure failure)).isError = false) :
    HandledOutcome m.toOmsState (.requestFailure failure) (m.applyFailure failure) := by
  rw [applyFailure]
  cases hfound : m.findByClientId failure.clientOrderId with
  | none => exact .discarded
  | some found =>
      obtain ⟨index, order⟩ := found
      dsimp only
      split
      · exact .discarded
      rename_i hterminal
      have hlive : order.isTerminal = false := by simpa using hterminal
      split
      · rename_i hsent
        have houtcome := EventOutcome.edited hvalid hfound hlive (.failureNotSent hsent)
        simpa [HandledOutcome] using houtcome
      · rename_i hsent
        have houtcome := EventOutcome.edited hvalid hfound hlive (.failureUnknown hsent)
        simpa [HandledOutcome] using houtcome

/-- An event is discarded, or edits one order that was not terminal. -/
theorem dispatch_outcome (m : OrderManager) (event : ExecutionEvent) :
    HandledOutcome m.toOmsState event (m.dispatch event) := by
  simp only [dispatch]
  split
  · exact .discarded
  · rename_i hvalid
    have hvalid : (validateExecutionEvent event).isError = false := by simpa using hvalid
    cases event with
    | orderAck ack => exact applyAck_outcome m hvalid
    | orderReject reject => exact applyReject_outcome m hvalid
    | fill fill => exact applyFill_outcome m hvalid
    | orderCancel cancel => exact applyCancel_outcome m hvalid
    | orderReplace replace => exact applyReplace_outcome m hvalid
    | requestFailure failure => exact applyFailure_outcome m hvalid
    | none => exact .discarded
    | other _ => exact .discarded

end OrderManager

/-- The order consumes exposure in the slot. -/
def OrderRecord.occupies (order : OrderRecord) (owner : StrategyName) (symbol : Symbol)
    (slot : QuoteSlot) : Bool :=
  order.symbol = symbol && order.ownership.matches owner slot && order.consumesExposure

/-- Two forms of one order: the identity, the instrument and the owner agree. -/
structure OrderRecord.SameOrder (before after : OrderRecord) : Prop where
  logicalId : after.logicalId = before.logicalId
  symbol : after.symbol = before.symbol
  side : after.side = before.side
  strategy : after.ownership.strategy = before.ownership.strategy
  slot : after.ownership.slot = before.ownership.slot

namespace OrderRecord.SameOrder

@[refl]
theorem refl (order : OrderRecord) : SameOrder order order := ⟨rfl, rfl, rfl, rfl, rfl⟩

theorem transition {before edited : OrderRecord} (h : SameOrder before edited)
    (target : OrderState) (now : Nanos) : SameOrder before (edited.transition target now) where
  logicalId := by rw [transition_logicalId, h.logicalId]
  symbol := by rw [transition_symbol, h.symbol]
  side := by rw [transition_side, h.side]
  strategy := by rw [transition_ownership, h.strategy]
  slot := by rw [transition_ownership, h.slot]

theorem settled {before edited : OrderRecord} (h : SameOrder before edited) :
    SameOrder before edited.settled := ⟨h.1, h.2, h.3, h.4, h.5⟩

theorem replaceDropped {before edited : OrderRecord} (h : SameOrder before edited) :
    SameOrder before edited.replaceDropped := ⟨h.1, h.2, h.3, h.4, h.5⟩

/-- An edited record occupies the same slot as long as it consumes exposure. -/
theorem occupies_eq {before after : OrderRecord} (h : SameOrder before after)
    (owner : StrategyName) (symbol : Symbol) (slot : QuoteSlot) :
    after.occupies owner symbol slot =
      (before.symbol = symbol && before.ownership.matches owner slot &&
        after.consumesExposure) := by
  rw [OrderRecord.occupies, OrderOwnership.matches, h.symbol, h.strategy, h.slot]
  rfl

end OrderRecord.SameOrder

namespace OmsState

/-- The state with other client and venue indices. -/
def withIndices (s : OmsState) (byClientId : IdMap ClientOrderId)
    (byExchangeId : IdMap ExchangeOrderId) : OmsState :=
  { s with byClientId := byClientId, byExchangeId := byExchangeId }

theorem bindExchangeId_eq_some {s base : OmsState} {order bound : OrderRecord}
    {id : ExchangeOrderId} (h : s.bindExchangeId order id = some (base, bound)) :
    (id.isEmpty = true ∧ base = s ∧ bound = order) ∨
      id.isEmpty = false ∧ bound = { order with exchangeOrderId := id } ∧
        (∀ k existing, s.findByExchangeId id = some (k, existing) →
          existing.logicalId = order.logicalId) ∧
        (s.byLogicalId.lookup order.logicalId = none ∧ base = s ∨
          ∃ index, s.byLogicalId.lookup order.logicalId = some index ∧
            base = s.withIndices s.byClientId (s.byExchangeId.insert id index)) := by
  rw [bindExchangeId] at h
  by_cases hempty : id.isEmpty = true
  · rw [if_pos hempty] at h
    cases h
    exact .inl ⟨hempty, rfl, rfl⟩
  · rw [if_neg hempty] at h
    by_cases htaken : s.identityTaken order id = true
    · rw [if_pos htaken] at h
      cases h
    · rw [if_neg htaken] at h
      refine .inr ⟨by simpa using hempty, ?_⟩
      have hfree : ∀ k existing, s.findByExchangeId id = some (k, existing) →
          existing.logicalId = order.logicalId := by
        intro k existing hfound
        simpa [identityTaken, hfound] using htaken
      cases hlookup : s.byLogicalId.lookup order.logicalId with
      | none =>
          rw [hlookup] at h
          cases h
          exact ⟨rfl, hfree, .inl ⟨rfl, rfl⟩⟩
      | some index =>
          rw [hlookup] at h
          cases h
          exact ⟨rfl, hfree, .inr ⟨index, rfl, rfl⟩⟩

theorem bindExchangeId_free {s base : OmsState} {order bound : OrderRecord} {id : ExchangeOrderId}
    (h : s.bindExchangeId order id = some (base, bound)) :
    (id.isEmpty || !s.identityTaken order id) = true := by
  by_contra htaken
  rw [Bool.not_eq_true, Bool.or_eq_false_iff, Bool.not_eq_false'] at htaken
  simp [bindExchangeId, htaken] at h

/-- True of an acknowledgement that is not discarded. -/
def ackIsNews (s : OmsState) (order : OrderRecord) (ack : OrderAckEvent) : Bool :=
  (ack.seq = kNoSeq || order.lastAppliedSequence = kNoSeq ||
      decide (order.lastAppliedSequence ≤ ack.seq)) &&
    order.acknowledgedNs = 0 &&
      (ack.exchangeOrderId.isEmpty || !s.identityTaken order ack.exchangeOrderId)

theorem ackIsNews_of_bind {s base : OmsState} {order bound : OrderRecord} {ack : OrderAckEvent}
    (hnews : ack.seq = kNoSeq ∨ order.lastAppliedSequence = kNoSeq ∨
      order.lastAppliedSequence ≤ ack.seq)
    (hfirst : order.acknowledgedNs = 0)
    (hbind : s.bindExchangeId order ack.exchangeOrderId = some (base, bound)) :
    s.ackIsNews order ack = true := by
  simp [ackIsNews, hfirst, bindExchangeId_free hbind, or_assoc, hnews]

/-- The identities and indices an accepted replacement leaves, for an indexed order. -/
theorem swapIdentity_eq {s : OmsState} {order : OrderRecord} {replace : OrderReplaceEvent}
    {index : Nat} (hindex : s.byLogicalId.lookup order.logicalId = some index) :
    s.swapIdentity order replace =
      (s.withIndices
        (if order.pendingClientOrderId.isEmpty then s.byClientId
          else (s.byClientId.erase order.clientOrderId).insert order.pendingClientOrderId index)
        (if replace.newExchangeOrderId.isEmpty then s.byExchangeId
          else (s.byExchangeId.erase order.exchangeOrderId).insert replace.newExchangeOrderId
            index),
        { order with
          clientOrderId :=
            if order.pendingClientOrderId.isEmpty then order.clientOrderId
            else order.pendingClientOrderId
          exchangeOrderId :=
            if replace.newExchangeOrderId.isEmpty then order.exchangeOrderId
            else replace.newExchangeOrderId }) := by
  rw [swapIdentity]
  rw [hindex]
  by_cases hclient : order.pendingClientOrderId.isEmpty = true <;>
    by_cases hexchange : replace.newExchangeOrderId.isEmpty = true <;>
    simp [hclient, hexchange, withIndices]

theorem swapIdentity_unindexed {s : OmsState} {order : OrderRecord} {replace : OrderReplaceEvent}
    (hindex : s.byLogicalId.lookup order.logicalId = none) :
    s.swapIdentity order replace = (s, order) := by
  rw [swapIdentity]
  rw [hindex]

/-- Binding and swapping identities change nothing else of the record. -/
theorem bindExchangeId_record {s base : OmsState} {order bound : OrderRecord}
    {id : ExchangeOrderId} (h : s.bindExchangeId order id = some (base, bound)) :
    bound = { order with exchangeOrderId := bound.exchangeOrderId } := by
  rcases bindExchangeId_eq_some h with ⟨_, _, rfl⟩ | ⟨_, rfl, _⟩
  all_goals rfl

theorem swapIdentity_record {s base : OmsState} {order swapped : OrderRecord}
    {replace : OrderReplaceEvent} (h : s.swapIdentity order replace = (base, swapped)) :
    swapped =
      { order with
        clientOrderId := swapped.clientOrderId
        exchangeOrderId := swapped.exchangeOrderId } := by
  cases hindex : s.byLogicalId.lookup order.logicalId with
  | none =>
      rw [swapIdentity_unindexed hindex] at h
      cases h
      rfl
  | some index =>
      rw [swapIdentity_eq hindex] at h
      cases h
      rfl

theorem swapIdentity_base {s base : OmsState} {order swapped : OrderRecord}
    {replace : OrderReplaceEvent} (h : s.swapIdentity order replace = (base, swapped)) :
    ∃ byClientId byExchangeId, base = s.withIndices byClientId byExchangeId := by
  cases hindex : s.byLogicalId.lookup order.logicalId with
  | none =>
      rw [swapIdentity_unindexed hindex] at h
      cases h
      exact ⟨_, _, rfl⟩
  | some index =>
      rw [swapIdentity_eq hindex] at h
      cases h
      exact ⟨_, _, rfl⟩

/-- A booked fill: the sum fits the order, and only fill data changes. -/
theorem bookFill_eq_ok {order booked : OrderRecord} {fill : FillEvent}
    (h : order.bookFill fill = .ok booked) :
    booked.cumulativeQuantity.raw = order.cumulativeQuantity.raw + fill.quantity.raw ∧
      booked.cumulativeQuantity.raw ≤ order.originalQuantity.raw ∧
      booked =
        { order with
          cumulativeQuantity := booked.cumulativeQuantity
          averageFillPrice := booked.averageFillPrice
          cumulativeFees := booked.cumulativeFees
          venueNs := fill.transactNs
          lastAppliedSequence := fill.seq } := by
  rw [OrderRecord.bookFill] at h
  split at h
  · cases h
  · rename_i newCumulative hsum
    split at h
    · cases h
    · rename_i hsize
      split at h
      · split at h
        · cases h
        · cases h
          exact ⟨Fixed.checkedAdd_eq_some_iff.mp hsum, Int.not_lt.mp hsize, rfl⟩
      · cases h

theorem RequestEdit.sameOrder {s base : OmsState} {action : OrderAction}
    {order record : OrderRecord} {observed : List Observation}
    (h : RequestEdit s action order record base observed) : order.SameOrder record := by
  have hrequested : order.SameOrder (order.requested (s.nextRequestId + 1) s.clock) :=
    ⟨rfl, rfl, rfl, rfl, rfl⟩
  have hreplacing (id : ClientOrderId) :
      order.SameOrder (order.replacing action id (s.nextRequestId + 1) s.clock) :=
    ⟨rfl, rfl, rfl, rfl, rfl⟩
  cases h with
  | cancelSent => exact hrequested.transition _ _
  | cancelReturned => exact (hrequested.transition _ _).settled.transition _ _
  | coalesced => exact ⟨rfl, rfl, rfl, rfl, rfl⟩
  | replaceSent => exact (hreplacing _).transition _ _
  | replaceReturned => exact ((hreplacing _).transition _ _).replaceDropped.transition _ _

/-- The edit of an event keeps the order and, before its transition, its state. -/
theorem EventEdit.sameOrder {s base : OmsState} {order edited : OrderRecord}
    {event : ExecutionEvent} {target : OrderState} {answers resolves : Bool}
    (h : EventEdit s order event edited target answers resolves base) :
    order.SameOrder edited ∧ edited.state = order.state := by
  cases h with
  | ack _ _ hbind =>
      rw [bindExchangeId_record hbind]
      exact ⟨⟨rfl, rfl, rfl, rfl, rfl⟩, rfl⟩
  | fillComplete _ _ hbook =>
      rw [(bookFill_eq_ok hbook).2.2]
      exact ⟨⟨rfl, rfl, rfl, rfl, rfl⟩, rfl⟩
  | fillPartial _ _ hbook =>
      rw [(bookFill_eq_ok hbook).2.2]
      exact ⟨⟨rfl, rfl, rfl, rfl, rfl⟩, rfl⟩
  | replaceAccepted _ hswap =>
      rw [swapIdentity_record hswap]
      exact ⟨⟨rfl, rfl, rfl, rfl, rfl⟩, rfl⟩
  | reject | fillRefused | cancelAccepted | cancelRejected | cancelTooLate | cancelUnknown
  | replaceUnknown | replaceRefused | failureNotSent | failureUnknown =>
      exact ⟨⟨rfl, rfl, rfl, rfl, rfl⟩, rfl⟩

/-- An event changes no part of the state but records and the two venue-facing indices. -/
theorem EventEdit.base_eq {s base : OmsState} {order edited : OrderRecord}
    {event : ExecutionEvent} {target : OrderState} {answers resolves : Bool}
    (h : EventEdit s order event edited target answers resolves base) :
    ∃ byClientId byExchangeId, base = s.withIndices byClientId byExchangeId := by
  cases h with
  | ack _ _ hbind =>
      rcases bindExchangeId_eq_some hbind with ⟨_, rfl, _⟩ | ⟨_, _, _, ⟨_, rfl⟩ | ⟨_, _, rfl⟩⟩
      all_goals exact ⟨_, _, rfl⟩
  | replaceAccepted _ hswap => exact swapIdentity_base hswap
  | reject | fillRefused | fillComplete | fillPartial | cancelAccepted | cancelRejected
  | cancelTooLate | cancelUnknown | replaceUnknown | replaceRefused | failureNotSent
  | failureUnknown => exact ⟨_, _, rfl⟩

/-! ## Lookups return records -/

theorem findSlotOrder_eq_some_iff {s : OmsState} {owner : StrategyName} {symbol : Symbol}
    {slot : QuoteSlot} {i : Nat} {order : OrderRecord} :
    s.findSlotOrder owner symbol slot = some (i, order) ↔
      s.orders[i]? = some order ∧ order.occupies owner symbol slot = true ∧
        ∀ (j : Nat) (other : OrderRecord), j < i → s.orders[j]? = some other →
          other.occupies owner symbol slot = false := by
  rw [findSlotOrder]
  rw [entryAt_eq_some_iff, List.findIdx?_eq_some_iff_getElem]
  constructor
  · rintro ⟨⟨hlt, hfirst, hbefore⟩, horder⟩
    have hget := List.getElem?_eq_getElem hlt
    rw [horder] at hget
    cases hget
    refine ⟨horder, hfirst, fun j other hj hother => ?_⟩
    obtain ⟨_, hother⟩ := List.getElem?_eq_some_iff.mp hother
    have hnot := hbefore j hj
    rw [hother] at hnot
    exact Bool.eq_false_iff.mpr hnot
  · rintro ⟨horder, hfirst, hbefore⟩
    obtain ⟨hlt, hget⟩ := List.getElem?_eq_some_iff.mp horder
    refine ⟨⟨hlt, ?_, fun j hj => ?_⟩, horder⟩
    · rw [hget]
      exact hfirst
    · have hnot := hbefore j _ hj (List.getElem?_eq_getElem (Nat.lt_trans hj hlt))
      exact Bool.eq_false_iff.mp hnot

theorem findSlotOrder_eq_none_iff {s : OmsState} {owner : StrategyName} {symbol : Symbol}
    {slot : QuoteSlot} :
    s.findSlotOrder owner symbol slot = none ↔
      ∀ order ∈ s.orders, order.occupies owner symbol slot = false := by
  rw [findSlotOrder]
  constructor
  · intro hnone
    cases hindex : s.orders.findIdx? fun order =>
        order.symbol = symbol && order.ownership.matches owner slot && order.consumesExposure with
    | none => exact List.findIdx?_eq_none_iff.mp hindex
    | some i =>
        obtain ⟨hlt, _⟩ := List.findIdx?_eq_some_iff_getElem.mp hindex
        simp [hindex, entryAt, List.getElem?_eq_getElem hlt] at hnone
  · intro hfree
    have hindex : (s.orders.findIdx? fun order =>
        order.symbol = symbol && order.ownership.matches owner slot &&
          order.consumesExposure) = none := List.findIdx?_eq_none_iff.mpr hfree
    rw [hindex]
    rfl

theorem findSlotOrder_getElem {s : OmsState} {owner : StrategyName} {symbol : Symbol}
    {slot : QuoteSlot} {i : Nat} {order : OrderRecord}
    (h : s.findSlotOrder owner symbol slot = some (i, order)) : s.orders[i]? = some order :=
  (entryAt_eq_some_iff.mp h).2

theorem findTarget_getElem {s : OmsState} {action : OrderAction} {byVenue : Bool} {i : Nat}
    {order : OrderRecord} (h : s.findTarget action byVenue = some (i, order)) :
    s.orders[i]? = some order := by
  rw [findTarget] at h
  rcases Option.or_eq_some_iff.mp h with hclient | ⟨_, hlater⟩
  · split at hclient
    · cases hclient
    · exact (findByClientId_eq_some_iff.mp hclient).2
  · rcases Option.or_eq_some_iff.mp hlater with hvenue | ⟨_, hslot⟩
    · split at hvenue
      · cases hvenue
      · exact (findByExchangeId_eq_some_iff.mp hvenue).2
    · exact findSlotOrder_getElem hslot

theorem findSubject_getElem {s : OmsState} {event : ExecutionEvent} {i : Nat}
    {order : OrderRecord} (h : s.findSubject event = some (i, order)) :
    s.orders[i]? = some order := by
  cases event with
  | orderAck | orderReject | fill | orderReplace | requestFailure =>
      exact (findByClientId_eq_some_iff.mp h).2
  | orderCancel cancel =>
      rcases Option.or_eq_some_iff.mp h with hclient | ⟨_, hvenue⟩
      · exact (findByClientId_eq_some_iff.mp hclient).2
      · split at hvenue
        · cases hvenue
        · exact (findByExchangeId_eq_some_iff.mp hvenue).2
  | none | other => cases h

end OmsState

end MmEngine.Oms
