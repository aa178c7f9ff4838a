/-
# What a refused transition leaves behind

Every handler of an event edits the record first and asks the table for the transition
last. A transition the table refuses is counted, and the state stays; the edit stays as
well. Whether anything of it shows depends on the event and on what the record held
before.
-/

import MmEngine.Oms.RefusedFill
import MmEngine.Oms.Release

namespace MmEngine.Oms

open MmEngine.Exchange MmEngine.Quote MmEngine.Risk OmsState OrderManager

variable {σ : Type}

section Count

variable (m : OrderManager) (order : OrderRecord) (target : OrderState) (event : OrderEventType)
  (detail : OrderJournalRecord)

/-- A transition is counted when the table refuses it. -/
theorem transition_illegalTransitions :
    (m.transition order target event detail).1.metrics.illegalTransitions =
      m.metrics.illegalTransitions + if isLegalTransition order.state target then 0 else 1 := by
  rw [OrderManager.transition]
  split
  · dsimp only
    split <;> rfl
  · rfl

theorem move_illegalTransitions (index : Nat) :
    (m.move index order target event detail).metrics.illegalTransitions =
      m.metrics.illegalTransitions + if isLegalTransition order.state target then 0 else 1 :=
  transition_illegalTransitions m order target event detail

end Count

section Release

variable (port : IExchangeExecution σ)

theorem sendNew_illegalTransitions {index : Nat} {created : OrderRecord} (w : World σ)
    (hstate : created.state = .created) :
    (sendNew port index created w).2.oms.metrics.illegalTransitions =
      w.oms.metrics.illegalTransitions := by
  have hsubmitted (request : RequestId) (now : Nanos) :
      (created.submitted request now).state = .created := hstate
  have hpending : isLegalTransition .created .pendingNew = true := rfl
  have hrejected : isLegalTransition .pendingNew .rejected = true := rfl
  rw [sendNew]
  split
  · rfl
  · dsimp only
    split
    · simp [World.observe, OrderManager.store, OrderManager.count, OrderManager.onState,
        transition_illegalTransitions, OrderRecord.settled, OrderRecord.transition_state, landing,
        hsubmitted, hpending, hrejected]
    · simp [World.observe, OrderManager.store, OrderManager.count, OrderManager.onState,
        transition_illegalTransitions, hsubmitted, hpending]

theorem createOrder_illegalTransitions (action : OrderAction) (w : World σ) :
    (createOrder port action w).2.oms.metrics.illegalTransitions =
      w.oms.metrics.illegalTransitions := by
  rw [createOrder]
  split
  · rfl
  · dsimp only
    split
    · rfl
    · exact sendNew_illegalTransitions port _ rfl

theorem handleNew_illegalTransitions (action : OrderAction) (w : World σ) :
    (handleNew port action w).2.oms.metrics.illegalTransitions =
      w.oms.metrics.illegalTransitions := by
  rw [handleNew]
  split
  · rfl
  split
  · exact createOrder_illegalTransitions port action w
  · split
    · rw [deferNew]
      split <;> rfl
    split
    · rfl
    · exact createOrder_illegalTransitions port action w

/-- A release asks the table only for what it grants. -/
theorem release_illegalTransitions (resolved : Option LogicalOrderId) (w : World σ) :
    (w.release port resolved).oms.metrics.illegalTransitions =
      w.oms.metrics.illegalTransitions := by
  refine release_invariant (I := fun after : World σ =>
    after.oms.metrics.illegalTransitions = w.oms.metrics.illegalTransitions) port ?_ rfl
  intro id _ after k hafter
  rw [releaseEntry]
  split
  · split
    · exact (handleNew_illegalTransitions port _ _).trans hafter
    · exact hafter
  · exact hafter

end Release

/-- The event reaches the table with the order, and the table refuses the transition. -/
def OmsState.RefusedBy (s : OmsState) (order : OrderRecord) : ExecutionEvent → Prop
  | .orderAck ack =>
      s.ackIsNews order ack = true ∧
        isLegalTransition order.state (OrderRecord.ackTarget ack.status) = false
  | .orderReject _ => isLegalTransition order.state .rejected = false
  -- The table treats a partial fill and a complete one alike.
  | .fill fill =>
      order.seenTrades.contains fill.tradeId = false ∧ order.Fits fill ∧
        isLegalTransition order.state .filled = false
  | .orderCancel cancel =>
      isLegalTransition order.state (match cancel.cancelStatus with
        | .accepted => .cancelled
        | .rejected => order.restingState
        | .tooLate => .filled
        | .orderNotFound | .unknown => .unknown) = false
  | .orderReplace replace =>
      isLegalTransition order.state
        (if replace.accepted = false ∧ replace.error.outcome = .unknown then .unknown
        else order.restingState) = false
  | .requestFailure failure =>
      isLegalTransition order.state
        (if failure.error.outcome = .notSent then .rejected else .unknown) = false
  | .none | .other _ => False

/-- What a handler leaves is one transition of the edited order, on a manager that has
counted no refusal. -/
structure OrderManager.Moves (m : OrderManager) (event : ExecutionEvent) (i : Nat)
    (order edited : OrderRecord) (target : OrderState) (answers resolves : Bool)
    (base : OrderManager) (handled : Handled) : Prop where
  manager : ∃ type detail, handled.manager = base.move i edited target type detail
  counted : base.metrics.illegalTransitions = m.metrics.illegalTransitions
  edit : EventEdit m.toOmsState order event edited target answers resolves base.toOmsState
  resolved : handled.resolved = if resolves then some order.logicalId else none

/-- A handler that an event reaches with a live order discards the event or moves the
order, and moves it to what the table refuses exactly when `RefusedBy` says so. -/
def OrderManager.Handles (m : OrderManager) (event : ExecutionEvent) (i : Nat)
    (order : OrderRecord) (handled : Handled) : Prop :=
  (handled.manager.metrics.illegalTransitions = m.metrics.illegalTransitions ∧
      ¬ m.toOmsState.RefusedBy order event) ∨
    ∃ edited target answers resolves base,
      m.Moves event i order edited target answers resolves base handled ∧
        (m.toOmsState.RefusedBy order event ↔ isLegalTransition order.state target = false)

section Handlers

variable {m : OrderManager} {i : Nat} {order : OrderRecord}

theorem applyAck_handles {ack : OrderAckEvent}
    (hfound : m.findByClientId ack.clientOrderId = some (i, order))
    (hlive : order.isTerminal = false) : m.Handles (.orderAck ack) i order (m.applyAck ack) := by
  rw [applyAck, hfound]
  dsimp only
  rw [if_neg (by simp [hlive])]
  split
  · rename_i hstale
    refine .inl ⟨rfl, fun hrefused => ?_⟩
    have hnews := hrefused.1
    simp only [Bool.and_eq_true, decide_eq_true_eq] at hstale
    simp [ackIsNews, hstale, not_le.mpr hstale.2] at hnews
  rename_i hnews
  split
  · rename_i hfirst
    refine .inl ⟨rfl, fun hrefused => ?_⟩
    have hnews := hrefused.1
    simp [ackIsNews, hfirst] at hnews
  rename_i hfirst
  cases hbind : m.toOmsState.bindExchangeId order ack.exchangeOrderId with
  | none =>
      refine .inl ⟨rfl, fun hrefused => ?_⟩
      have hfree := (Bool.and_eq_true_iff.mp hrefused.1).2
      rw [bindExchangeId] at hbind
      simp only [Bool.or_eq_true, Bool.not_eq_true'] at hfree
      rcases hfree with hempty | htaken
      · simp [hempty] at hbind
      · rw [htaken] at hbind
        split at hbind
        · cases hbind
        · dsimp only at hbind
          split at hbind
          · contradiction
          · split at hbind <;> cases hbind
  | some result =>
      obtain ⟨base, bound⟩ := result
      have hnews := sequence_of_not_stale hnews
      have hfirst : order.acknowledgedNs = 0 := by simpa using hfirst
      refine .inr ⟨_, _, true, false, _, ⟨⟨_, _, rfl⟩, rfl, .ack hnews hfirst hbind, rfl⟩, ?_⟩
      rw [RefusedBy, and_iff_right (ackIsNews_of_bind hnews hfirst hbind)]

theorem applyReject_handles {reject : OrderRejectEvent}
    (hfound : m.findByClientId reject.clientOrderId = some (i, order))
    (hlive : order.isTerminal = false) :
    m.Handles (.orderReject reject) i order (m.applyReject reject) := by
  rw [applyReject, hfound]
  dsimp only
  rw [if_neg (by simp [hlive])]
  exact .inr ⟨_, _, true, true, _, ⟨⟨_, _, rfl⟩, rfl, .reject, rfl⟩, Iff.rfl⟩

/-- The table refuses a partial fill exactly where it refuses a complete one. -/
theorem isLegalTransition_fills :
    ∀ {source : OrderState}, source.isTerminal = false →
      isLegalTransition source .partiallyFilled = isLegalTransition source .filled := by
  decide

theorem applyFill_handles {fill : FillEvent}
    (hfound : m.findByClientId fill.clientOrderId = some (i, order))
    (hlive : order.isTerminal = false) (hquantity : 0 < fill.quantity.raw)
    (hprice : 0 < fill.price.raw) : m.Handles (.fill fill) i order (m.applyFill fill) := by
  have hpositive : (!fill.quantity.isPositive || !fill.price.isPositive) = false := by
    simp [hquantity, hprice]
  rw [applyFill, hfound]
  dsimp only
  rw [if_neg (by simp [hlive]), hpositive, if_neg Bool.false_ne_true]
  cases hinsert : order.seenTrades.insert fill.tradeId with
  | none =>
      refine .inl ⟨rfl, fun hrefused => ?_⟩
      simp [SeenTradeIds.insert, hrefused.1] at hinsert
  | some seen =>
      have hunseen := SeenTradeIds.contains_eq_false_of_insert hinsert
      have hfits : (∃ reason, (order.withTrades seen).bookFill fill = .error reason) ↔
          ¬ order.Fits fill :=
        (bookFill_error_iff hquantity).trans
          (not_congr ⟨fun h => ⟨h.size, h.value⟩, fun h => ⟨h.size, h.value⟩⟩)
      dsimp only
      cases hbook : (order.withTrades seen).bookFill fill with
      | error reason =>
          refine .inl ⟨rfl, fun hrefused => ?_⟩
          exact hfits.mp ⟨reason, hbook⟩ hrefused.2.1
      | ok booked =>
          have hfit : order.Fits fill := by
            by_contra hnot
            obtain ⟨reason, herror⟩ := hfits.mpr hnot
            rw [hbook] at herror
            cases herror
          have hrefused : m.toOmsState.RefusedBy order (.fill fill) ↔
              isLegalTransition order.state .filled = false := by
            rw [RefusedBy, and_iff_right hunseen, and_iff_right hfit]
          dsimp only
          cases hremaining : booked.remaining.isZero with
          | true =>
              exact .inr ⟨_, _, false, true, _, ⟨⟨_, _, rfl⟩, rfl,
                .fillComplete hquantity hinsert hbook hremaining, rfl⟩, hrefused⟩
          | false =>
              rw [← isLegalTransition_fills hlive] at hrefused
              exact .inr ⟨_, _, false, false, _, ⟨⟨_, _, rfl⟩, rfl,
                .fillPartial hquantity hinsert hbook hremaining, rfl⟩, hrefused⟩

theorem applyCancel_handles {cancel : OrderCancelEvent}
    (hfound : m.findSubject (.orderCancel cancel) = some (i, order))
    (hlive : order.isTerminal = false) :
    m.Handles (.orderCancel cancel) i order (m.applyCancel cancel) := by
  rw [findSubject] at hfound
  rw [applyCancel, hfound]
  dsimp only
  rw [if_neg (by simp [hlive])]
  cases hstatus : cancel.cancelStatus with
  | accepted =>
      refine .inr ⟨_, _, true, true, _, ⟨⟨_, _, rfl⟩, rfl, .cancelAccepted hstatus, rfl⟩, ?_⟩
      rw [RefusedBy, hstatus]
  | rejected =>
      refine .inr ⟨_, _, true, false, _, ⟨⟨_, _, rfl⟩, rfl, .cancelRejected hstatus, rfl⟩, ?_⟩
      rw [RefusedBy, hstatus]
  | tooLate =>
      refine .inr ⟨_, _, true, true, _, ⟨⟨_, _, rfl⟩, rfl, .cancelTooLate hstatus, rfl⟩, ?_⟩
      rw [RefusedBy, hstatus]
  | orderNotFound =>
      refine .inr ⟨_, _, true, false, _, ⟨⟨_, _, rfl⟩, rfl, .cancelUnknown (.inl hstatus), rfl⟩, ?_⟩
      rw [RefusedBy, hstatus]
  | unknown =>
      refine .inr ⟨_, _, true, false, _, ⟨⟨_, _, rfl⟩, rfl, .cancelUnknown (.inr hstatus), rfl⟩, ?_⟩
      rw [RefusedBy, hstatus]

theorem applyReplace_handles {replace : OrderReplaceEvent}
    (hfound : m.findByClientId replace.originalClientOrderId = some (i, order))
    (hlive : order.isTerminal = false) :
    m.Handles (.orderReplace replace) i order (m.applyReplace replace) := by
  rw [applyReplace, hfound]
  dsimp only
  rw [if_neg (by simp [hlive])]
  split
  · rename_i haccepted
    cases hswap : m.toOmsState.swapIdentity (order.stamped replace.transactNs) replace with
    | mk base swapped =>
        have hresting : swapped.restingState = order.restingState := by
          rw [swapIdentity_record hswap]
          rfl
        refine .inr ⟨_, _, true, false, _, ⟨⟨_, _, rfl⟩, rfl, .replaceAccepted haccepted hswap,
          rfl⟩, ?_⟩
        rw [RefusedBy, if_neg (by simp [haccepted]), hresting]
  · rename_i haccepted
    rw [Bool.not_eq_true] at haccepted
    split
    · rename_i hunknown
      refine .inr ⟨_, _, true, false, _, ⟨⟨_, _, rfl⟩, rfl, .replaceUnknown haccepted hunknown,
        rfl⟩, ?_⟩
      rw [RefusedBy, if_pos ⟨haccepted, hunknown⟩]
    · rename_i hunknown
      refine .inr ⟨_, _, true, false, _, ⟨⟨_, _, rfl⟩, rfl, .replaceRefused haccepted hunknown,
        rfl⟩, ?_⟩
      rw [RefusedBy, if_neg (fun h => hunknown h.2)]

theorem applyFailure_handles {failure : RequestFailureEvent}
    (hfound : m.findByClientId failure.clientOrderId = some (i, order))
    (hlive : order.isTerminal = false) :
    m.Handles (.requestFailure failure) i order (m.applyFailure failure) := by
  rw [applyFailure, hfound]
  dsimp only
  rw [if_neg (by simp [hlive])]
  split
  · rename_i hsent
    refine .inr ⟨_, _, true, true, _, ⟨⟨_, _, rfl⟩, rfl, .failureNotSent hsent, rfl⟩, ?_⟩
    rw [RefusedBy, if_pos hsent]
  · rename_i hsent
    refine .inr ⟨_, _, true, false, _, ⟨⟨_, _, rfl⟩, rfl, .failureUnknown hsent, rfl⟩, ?_⟩
    rw [RefusedBy, if_neg hsent]

theorem dispatch_handles {event : ExecutionEvent}
    (hvalid : (validateExecutionEvent event).isError = false)
    (hfound : m.findSubject event = some (i, order)) (hlive : order.isTerminal = false) :
    m.Handles event i order (m.dispatch event) := by
  simp only [dispatch, hvalid, Bool.false_eq_true, if_false]
  cases event with
  | orderAck ack => exact applyAck_handles hfound hlive
  | orderReject reject => exact applyReject_handles hfound hlive
  | fill fill =>
      obtain ⟨hquantity, hprice⟩ := FillEvent.positive_of_validate hvalid
      exact applyFill_handles hfound hlive hquantity hprice
  | orderCancel cancel => exact applyCancel_handles hfound hlive
  | orderReplace replace => exact applyReplace_handles hfound hlive
  | requestFailure failure => exact applyFailure_handles hfound hlive
  | none | other => cases hfound

/-- An event that no handler lets near a live order is counted elsewhere. -/
theorem dispatch_discards {event : ExecutionEvent}
    (h : (validateExecutionEvent event).isError = true ∨
      ∀ i order, m.findSubject event = some (i, order) → order.isTerminal = true) :
    (m.dispatch event).manager.metrics.illegalTransitions = m.metrics.illegalTransitions := by
  simp only [dispatch]
  split
  · rfl
  rename_i hvalid
  replace h := h.resolve_left hvalid
  cases event with
  | orderAck ack =>
      dsimp only
      rw [applyAck]
      cases hfound : m.findByClientId ack.clientOrderId with
      | none => rfl
      | some found =>
          dsimp only
          rw [if_pos (h found.1 found.2 hfound)]
          rfl
  | orderReject reject =>
      dsimp only
      rw [applyReject]
      cases hfound : m.findByClientId reject.clientOrderId with
      | none => rfl
      | some found =>
          dsimp only
          rw [if_pos (h found.1 found.2 hfound)]
          rfl
  | fill fill =>
      dsimp only
      rw [applyFill]
      cases hfound : m.findByClientId fill.clientOrderId with
      | none => rfl
      | some found =>
          dsimp only
          rw [if_pos (h found.1 found.2 hfound)]
          rfl
  | orderCancel cancel =>
      dsimp only
      rw [applyCancel]
      dsimp only
      split
      · rfl
      · rename_i index order hfound
        rw [if_pos (h index order hfound)]
        rfl
  | orderReplace replace =>
      dsimp only
      rw [applyReplace]
      cases hfound : m.findByClientId replace.originalClientOrderId with
      | none => rfl
      | some found =>
          dsimp only
          rw [if_pos (h found.1 found.2 hfound)]
          rfl
  | requestFailure failure =>
      dsimp only
      rw [applyFailure]
      cases hfound : m.findByClientId failure.clientOrderId with
      | none => rfl
      | some found =>
          dsimp only
          rw [if_pos (h found.1 found.2 hfound)]
          rfl
  | none | other => rfl

/-- The count of refusals moves exactly when an event reaches the table with a live order
and the table refuses it. -/
theorem dispatch_refuses_iff {event : ExecutionEvent} :
    m.metrics.illegalTransitions < (m.dispatch event).manager.metrics.illegalTransitions ↔
      ∃ i order, (validateExecutionEvent event).isError = false ∧
        m.findSubject event = some (i, order) ∧ order.isTerminal = false ∧
        m.toOmsState.RefusedBy order event := by
  constructor
  · intro hcounted
    by_contra hnone
    have hsame : (m.dispatch event).manager.metrics.illegalTransitions =
        m.metrics.illegalTransitions := by
      cases hvalid : (validateExecutionEvent event).isError with
      | true => exact dispatch_discards (.inl hvalid)
      | false =>
          cases hfound : m.findSubject event with
          | none =>
              exact dispatch_discards (.inr fun i order h => by
                rw [hfound] at h
                cases h)
          | some found =>
              obtain ⟨i, order⟩ := found
              cases hterminal : order.isTerminal with
              | true =>
                  refine dispatch_discards (.inr fun j other h => ?_)
                  rw [hfound] at h
                  cases h
                  exact hterminal
              | false =>
                  rcases dispatch_handles hvalid hfound hterminal with ⟨hsame, -⟩ |
                    ⟨edited, target, answers, resolves, base, hmoves, hiff⟩
                  · exact hsame
                  · obtain ⟨type, detail, hmanager⟩ := hmoves.manager
                    have hlegal : isLegalTransition order.state target = true := by
                      by_contra hillegal
                      rw [Bool.not_eq_true] at hillegal
                      exact hnone ⟨i, order, hvalid, hfound, hterminal, hiff.mpr hillegal⟩
                    rw [hmanager, move_illegalTransitions, hmoves.edit.sameOrder.2, hlegal,
                      if_pos rfl, Nat.add_zero, hmoves.counted]
    rw [hsame] at hcounted
    exact Nat.lt_irrefl _ hcounted
  · rintro ⟨i, order, hvalid, hfound, hlive, hrefused⟩
    rcases dispatch_handles hvalid hfound hlive with ⟨-, hnot⟩ |
      ⟨edited, target, answers, resolves, base, hmoves, hiff⟩
    · exact absurd hrefused hnot
    · obtain ⟨type, detail, hmanager⟩ := hmoves.manager
      rw [hmanager, move_illegalTransitions, hmoves.edit.sameOrder.2, hiff.mp hrefused,
        if_neg Bool.false_ne_true, hmoves.counted]
      exact Nat.lt_succ_self _

end Handlers

/-! ## What an event spares -/

/-- Two forms of an order that agree in state, price, quantities, identities, fees, and
in everything about what is outstanding. -/
structure OrderRecord.SameTerms (before after : OrderRecord) : Prop where
  state : after.state = before.state
  price : after.price = before.price
  originalQuantity : after.originalQuantity = before.originalQuantity
  cumulativeQuantity : after.cumulativeQuantity = before.cumulativeQuantity
  logicalId : after.logicalId = before.logicalId
  clientOrderId : after.clientOrderId = before.clientOrderId
  exchangeOrderId : after.exchangeOrderId = before.exchangeOrderId
  cumulativeFees : after.cumulativeFees = before.cumulativeFees
  pendingRequest : after.pendingRequest = before.pendingRequest
  pendingSinceNs : after.pendingSinceNs = before.pendingSinceNs
  pendingPrice : after.pendingPrice = before.pendingPrice
  pendingQuantity : after.pendingQuantity = before.pendingQuantity
  pendingClientOrderId : after.pendingClientOrderId = before.pendingClientOrderId

/-- The order the event names keeps its terms, and no order is created. -/
def ChangesNothing (before after : OmsState) (event : ExecutionEvent) : Prop :=
  after.orders.length = before.orders.length ∧
    ∀ i order, before.findSubject event = some (i, order) →
      ∃ record, after.orders[i]? = some record ∧ order.SameTerms record

/-- The order already holds what the event's edit would give it. -/
def OrderRecord.SparedBy (order : OrderRecord) : ExecutionEvent → Prop
  | .orderAck ack =>
      order.pendingRequest = 0 ∧ order.pendingSinceNs = 0 ∧
        (ack.exchangeOrderId.isEmpty = true ∨ ack.exchangeOrderId = order.exchangeOrderId)
  | .orderReject _ | .requestFailure _ => order.pendingRequest = 0
  | .fill _ => False
  | .orderCancel cancel =>
      order.pendingRequest = 0 ∧
        (cancel.cancelStatus = .tooLate → order.cumulativeQuantity = order.originalQuantity)
  | .orderReplace replace =>
      order.pendingRequest = 0 ∧ order.pendingClientOrderId = .empty ∧
        (replace.accepted = true →
          order.price = order.pendingPrice ∧ order.originalQuantity = order.pendingQuantity ∧
            (replace.newExchangeOrderId.isEmpty = true ∨
              replace.newExchangeOrderId = order.exchangeOrderId))
  | .none | .other _ => True

/-- The events whose handlers end in a release, a complete fill apart. -/
def releasing : ExecutionEvent → Bool
  | .orderReject _ => true
  | .orderCancel cancel => cancel.cancelStatus = .accepted || cancel.cancelStatus = .tooLate
  | .requestFailure failure => failure.error.outcome = .notSent
  | .none | .orderAck _ | .fill _ | .orderReplace _ | .other _ => false

/-- The order holds what the event's edit would give it, and nothing that waits on it
would become an order. -/
def OmsState.Spares (s : OmsState) (order : OrderRecord) (event : ExecutionEvent) : Prop :=
  order.SparedBy event ∧ (releasing event = true → s.releasesNone order.logicalId = true)

section Edit

variable {s base : OmsState} {order edited : OrderRecord} {event : ExecutionEvent}
  {target : OrderState} {answers resolves : Bool}

/-- The edit in front of a refused transition keeps the terms exactly of an order that
already holds what the edit would give it. -/
theorem OmsState.EventEdit.sameTerms_iff
    (h : EventEdit s order event edited target answers resolves base) {k : Nat}
    (hindexed : s.byLogicalId.lookup order.logicalId = some k)
    (hillegal : isLegalTransition order.state target = false) :
    order.SameTerms edited ↔ order.SparedBy event := by
  cases h with
  | @ack ack bound base hnews hfirst hbind =>
      rcases bindExchangeId_eq_some hbind with ⟨hempty, rfl, rfl⟩ | ⟨hnamed, rfl, -, -⟩
      · constructor
        · exact fun hsame => ⟨hsame.pendingRequest.symm, hsame.pendingSinceNs.symm, .inl hempty⟩
        · rintro ⟨hrequest, hsince, -⟩
          exact ⟨rfl, rfl, rfl, rfl, rfl, rfl, rfl, rfl, hrequest.symm, hsince.symm, rfl, rfl, rfl⟩
      · constructor
        · exact fun hsame => ⟨hsame.pendingRequest.symm, hsame.pendingSinceNs.symm,
            .inr hsame.exchangeOrderId⟩
        · rintro ⟨hrequest, hsince, hempty | hid⟩
          · rw [hnamed] at hempty
            cases hempty
          · exact ⟨rfl, rfl, rfl, rfl, rfl, rfl, hid, rfl, hrequest.symm, hsince.symm, rfl, rfl,
              rfl⟩
  | fillRefused => simp [isLegalTransition] at hillegal
  | @fillComplete fill seen booked hquantity _ hbook _ =>
      refine iff_of_false (fun hsame => ?_) not_false
      have hsum := (bookFill_eq_ok hbook).1
      rw [hsame.cumulativeQuantity] at hsum
      simp only [OrderRecord.withTrades] at hsum
      omega
  | @fillPartial fill seen booked hquantity _ hbook _ =>
      refine iff_of_false (fun hsame => ?_) not_false
      have hsum := (bookFill_eq_ok hbook).1
      rw [hsame.cumulativeQuantity] at hsum
      simp only [OrderRecord.withTrades] at hsum
      omega
  | reject | failureNotSent | failureUnknown =>
      constructor
      · exact fun hsame => hsame.pendingRequest.symm
      · exact fun hrequest =>
          ⟨rfl, rfl, rfl, rfl, rfl, rfl, rfl, rfl, Eq.symm hrequest, rfl, rfl, rfl, rfl⟩
  | cancelAccepted hstatus | cancelRejected hstatus =>
      constructor
      · exact fun hsame => ⟨hsame.pendingRequest.symm, by simp [hstatus]⟩
      · rintro ⟨hrequest, -⟩
        exact ⟨rfl, rfl, rfl, rfl, rfl, rfl, rfl, rfl, hrequest.symm, rfl, rfl, rfl, rfl⟩
  | cancelTooLate hstatus =>
      constructor
      · exact fun hsame => ⟨hsame.pendingRequest.symm, fun _ => hsame.cumulativeQuantity.symm⟩
      · rintro ⟨hrequest, hfilled⟩
        exact ⟨rfl, rfl, rfl, (hfilled hstatus).symm, rfl, rfl, rfl, rfl, hrequest.symm, rfl, rfl,
          rfl, rfl⟩
  | cancelUnknown hstatus =>
      constructor
      · refine fun hsame => ⟨hsame.pendingRequest.symm, fun hlate => ?_⟩
        rcases hstatus with hstatus | hstatus <;> cases hstatus.symm.trans hlate
      · rintro ⟨hrequest, -⟩
        exact ⟨rfl, rfl, rfl, rfl, rfl, rfl, rfl, rfl, hrequest.symm, rfl, rfl, rfl, rfl⟩
  | replaceUnknown haccepted | replaceRefused haccepted =>
      constructor
      · exact fun hsame => ⟨hsame.pendingRequest.symm, hsame.pendingClientOrderId.symm,
          by simp [haccepted]⟩
      · rintro ⟨hrequest, hclient, -⟩
        exact ⟨rfl, rfl, rfl, rfl, rfl, rfl, rfl, rfl, hrequest.symm, rfl, rfl, rfl, hclient.symm⟩
  | @replaceAccepted replace swapped base haccepted hswap =>
      have hlookup : s.byLogicalId.lookup (order.stamped replace.transactNs).logicalId = some k :=
        hindexed
      rw [swapIdentity_eq hlookup] at hswap
      obtain ⟨rfl, rfl⟩ := Prod.mk.inj hswap
      constructor
      · intro hsame
        refine ⟨hsame.pendingRequest.symm, hsame.pendingClientOrderId.symm, fun _ =>
          ⟨hsame.price.symm, hsame.originalQuantity.symm, ?_⟩⟩
        have hexchange := hsame.exchangeOrderId
        simp only [OrderRecord.amended, OrderRecord.stamped] at hexchange
        split at hexchange
        · rename_i hempty
          exact .inl hempty
        · exact .inr hexchange
      · rintro ⟨hrequest, hclient, hterms⟩
        obtain ⟨hprice, hquantity, hid⟩ := hterms haccepted
        have hempty : (order.stamped replace.transactNs).pendingClientOrderId.isEmpty = true := by
          simp [OrderRecord.stamped, hclient, InlineString.isEmpty, InlineString.empty]
        refine ⟨rfl, hprice.symm, hquantity.symm, rfl, rfl, ?_, ?_, rfl, hrequest.symm, rfl, rfl,
            rfl,
          hclient.symm⟩
        · simp only [OrderRecord.amended, hempty, if_true]
          rfl
        · simp only [OrderRecord.amended]
          split
          · rfl
          · rename_i hnamed
            exact hid.resolve_left hnamed

/-- In front of a refused transition, an edit that is followed by a release is stored in
the state it was made in. -/
theorem OmsState.EventEdit.resolves_eq
    (h : EventEdit s order event edited target answers resolves base)
    (hillegal : isLegalTransition order.state target = false) (hspared : order.SparedBy event) :
    resolves = releasing event ∧ (resolves = true → base = s) := by
  cases h with
  | reject => exact ⟨rfl, fun _ => rfl⟩
  | fillRefused => simp [isLegalTransition] at hillegal
  | fillComplete | fillPartial => exact hspared.elim
  | cancelAccepted hstatus | cancelTooLate hstatus =>
      exact ⟨by simp [releasing, hstatus], fun _ => rfl⟩
  | cancelRejected hstatus => exact ⟨by simp [releasing, hstatus], fun _ => rfl⟩
  | cancelUnknown hstatus =>
      rcases hstatus with hstatus | hstatus <;>
        exact ⟨by simp [releasing, hstatus], fun _ => rfl⟩
  | failureNotSent houtcome => exact ⟨by simp [releasing, houtcome], fun _ => rfl⟩
  | failureUnknown houtcome => exact ⟨by simp [releasing, houtcome], fun _ => rfl⟩
  | ack | replaceAccepted => exact ⟨rfl, fun h => absurd h Bool.false_ne_true⟩
  | replaceUnknown | replaceRefused => exact ⟨rfl, fun _ => rfl⟩

end Edit

theorem findIdx?_set_of_eq {α : Type} {l : List α} {i : Nat} {a b : α} {p : α → Bool}
    (hget : l[i]? = some a) (hp : p b = p a) : (l.set i b).findIdx? p = l.findIdx? p := by
  have hmap : (l.set i b).map p = l.map p := by
    apply List.ext_getElem?
    intro j
    rw [List.map_set, hp]
    by_cases hij : i = j
    · subst hij
      rw [List.getElem?_set_self (by simpa using (List.getElem?_eq_some_iff.mp hget).1),
        List.getElem?_map, hget]
      rfl
    · rw [List.getElem?_set_ne hij]
  have hwhole (l : List α) : (l.map p).findIdx? id = l.findIdx? p := by
    rw [List.findIdx?_map]
    rfl
  rw [← hwhole, hmap, hwhole]

/-- A New is admitted as before when the order that is rewritten keeps its state and its
outstanding request. -/
theorem OmsState.admits_store {s : OmsState} {i : Nat} {order edited : OrderRecord}
    (horder : s.orders[i]? = some order) (hsame : order.SameOrder edited)
    (hstate : edited.state = order.state) (hrequest : edited.pendingRequest = order.pendingRequest)
    (action : OrderAction) : (s.store i edited).admits action = s.admits action := by
  have hlt := (List.getElem?_eq_some_iff.mp horder).1
  have hindex := findIdx?_set_of_eq (b := edited)
    (p := fun order => order.occupies action.identity.name action.symbol action.slot) horder (by
      rw [hsame.occupies_eq, OrderRecord.occupies, OrderRecord.consumesExposure,
        OrderRecord.consumesExposure, hstate])
  rw [admits, admits, findSlotOrder, findSlotOrder]
  show (decide ((s.orders.set i edited).length < s.config.maxOrders) &&
    ((s.store i edited).entryAt ((s.orders.set i edited).findIdx? fun order =>
      order.occupies action.identity.name action.symbol action.slot)).all _) =
    (_ && (s.entryAt (s.orders.findIdx? fun order =>
      order.occupies action.identity.name action.symbol action.slot)).all _)
  rw [hindex, List.length_set]
  cases s.orders.findIdx? fun order =>
      order.occupies action.identity.name action.symbol action.slot with
  | none => rfl
  | some k =>
      simp only [entryAt, OmsState.store]
      by_cases hk : i = k
      · subst hk
        rw [List.getElem?_set_self hlt, horder]
        simp [OrderRecord.hasPendingRequest, hstate, hrequest]
      · rw [List.getElem?_set_ne hk]

/-- A release after the order has been rewritten creates what it would have before. -/
theorem OmsState.releasesNone_store {s : OmsState} {i : Nat} {order edited : OrderRecord}
    (horder : s.orders[i]? = some order) (hsame : order.SameOrder edited)
    (hstate : edited.state = order.state) (hrequest : edited.pendingRequest = order.pendingRequest)
    (id : LogicalOrderId) : (s.store i edited).releasesNone id = s.releasesNone id := by
  rw [releasesNone, releasesNone]
  exact congrArg _ (createsNone_congr id (admits_store horder hsame hstate hrequest) rfl _ _)

/-- Where an event reaches the table with a live order and is refused, its step changes
nothing exactly when the state before spares the order. -/
theorem changesNothing_iff_spares (port : IExchangeExecution σ) {w : World σ}
    (hnumbered : w.oms.toOmsState.Numbered) {event : ExecutionEvent} {i : Nat}
    {order : OrderRecord} (hvalid : (validateExecutionEvent event).isError = false)
    (hfound : w.oms.findSubject event = some (i, order)) (hlive : order.isTerminal = false)
    (hrefused : w.oms.toOmsState.RefusedBy order event) :
    ChangesNothing w.oms.toOmsState (step port (.apply event) w).oms.toOmsState event ↔
      w.oms.toOmsState.Spares order event := by
  obtain ⟨-, hnot⟩ | ⟨edited, target, answers, resolves, base, hmoves, hiff⟩ :=
    dispatch_handles hvalid hfound hlive
  · exact absurd hrefused hnot
  have hillegal := hiff.mp hrefused
  have horder := findSubject_getElem hfound
  have hlt := (List.getElem?_eq_some_iff.mp horder).1
  obtain ⟨type, detail, hmanager⟩ := hmoves.manager
  obtain ⟨hsame, hstate⟩ := hmoves.edit.sameOrder
  obtain ⟨byClientId, byExchangeId, hbase⟩ := hmoves.edit.base_eq
  have hindexed : w.oms.byLogicalId.lookup order.logicalId = some i :=
    (hnumbered.lookup _ _).mpr ⟨hnumbered.logicalId i order horder, hlt⟩
  have hterms := hmoves.edit.sameTerms_iff hindexed hillegal
  -- The transition is refused, so the edited record is what is stored.
  have hkept : edited.transition target base.clock = edited := by
    simp [OrderRecord.transition, hstate, hillegal]
  have hafter : (w.oms.dispatch event).manager.toOmsState = base.toOmsState.store i edited := by
    rw [hmanager, move_toOmsState, hkept]
  have horders : (w.oms.dispatch event).manager.orders = w.oms.orders.set i edited := by
    rw [hafter, hbase]
    rfl
  have hrecord : (w.oms.dispatch event).manager.orders[i]? = some edited := by
    rw [horders, List.getElem?_set_self hlt]
  have hlength : (w.oms.dispatch event).manager.orders.length = w.oms.orders.length := by
    rw [horders, List.length_set]
  have hstep : step port (.apply event) w = (w.adopt (w.oms.dispatch event)).release port
      (if resolves then some order.logicalId else none) := by
    rw [← hmoves.resolved]
    rfl
  have hreleases (hspared : order.SparedBy event) (hresolves : resolves = true) :
      (w.oms.dispatch event).manager.toOmsState.releasesNone order.logicalId =
        w.oms.toOmsState.releasesNone order.logicalId := by
    rw [hafter, (hmoves.edit.resolves_eq hillegal hspared).2 hresolves]
    exact releasesNone_store horder hsame hstate
      (hterms.mpr hspared).pendingRequest order.logicalId
  constructor
  · rintro ⟨hcount, hkeeps⟩
    obtain ⟨record, hfinal, hedited⟩ := hkeeps i order hfound
    obtain rfl := Option.some.inj (hfinal.symm.trans (step_getElem port (.apply event) w hrecord))
    have hspared := hterms.mp hedited
    refine ⟨hspared, fun hreleasing => ?_⟩
    have hresolves : resolves = true :=
      (hmoves.edit.resolves_eq hillegal hspared).1.trans hreleasing
    rw [← hreleases hspared hresolves]
    by_contra hcreates
    rw [Bool.not_eq_true] at hcreates
    have hlonger := (release_orders port order.logicalId
      (w.adopt (w.oms.dispatch event))).2 hcreates
    rw [hstep, hresolves, if_pos rfl] at hcount
    have hadopted : (w.adopt (w.oms.dispatch event)).oms.orders.length = w.oms.orders.length :=
      hlength
    omega
  · rintro ⟨hspared, hnone⟩
    refine ⟨?_, fun j other hother => ?_⟩
    · rw [hstep]
      cases hresolves : resolves with
      | false => exact hlength
      | true =>
          have hreleasing := (hmoves.edit.resolves_eq hillegal hspared).1.symm.trans hresolves
          have hquiet := (release_orders port order.logicalId (w.adopt (w.oms.dispatch event))).1
            ((hreleases hspared hresolves).trans (hnone hreleasing))
          rw [if_pos rfl, hquiet]
          exact hlength
    · rw [hfound] at hother
      cases hother
      exact ⟨edited, step_getElem port (.apply event) w hrecord, hterms.mpr hspared⟩

/-- In every state of every run, an event whose transition the table refuses changes
nothing, exactly if the state before spares the order it names. -/
theorem refused_transition_changes_nothing_iff (port : IExchangeExecution σ) (config : OmsConfig)
    (clock : Nanos) (venue : σ) (ops : List (Op σ)) (event : ExecutionEvent) :
    ((World.reached port config clock venue ops).oms.metrics.illegalTransitions <
          (step port (.apply event)
            (World.reached port config clock venue ops)).oms.metrics.illegalTransitions →
        ChangesNothing (World.reached port config clock venue ops).oms.toOmsState
          (step port (.apply event)
            (World.reached port config clock venue ops)).oms.toOmsState event) ↔
      ∀ i order, (validateExecutionEvent event).isError = false →
        (World.reached port config clock venue ops).oms.findSubject event = some (i, order) →
          order.isTerminal = false →
            (World.reached port config clock venue ops).oms.toOmsState.RefusedBy order event →
              (World.reached port config clock venue ops).oms.toOmsState.Spares order event := by
  have hnumbered := run_numbered port config clock venue ops
  have hcount : (step port (.apply event)
      (World.reached port config clock venue ops)).oms.metrics.illegalTransitions =
      ((World.reached port config clock venue ops).oms.dispatch
        event).manager.metrics.illegalTransitions :=
    release_illegalTransitions port _ _
  rw [hcount, dispatch_refuses_iff]
  constructor
  · intro hchanges i order hvalid hfound hlive hrefused
    exact (changesNothing_iff_spares port hnumbered hvalid hfound hlive hrefused).mp
      (hchanges ⟨i, order, hvalid, hfound, hlive, hrefused⟩)
  · rintro hspares ⟨i, order, hvalid, hfound, hlive, hrefused⟩
    exact (changesNothing_iff_spares port hnumbered hvalid hfound hlive hrefused).mpr
      (hspares i order hvalid hfound hlive hrefused)

namespace Sample

/-- An order of ten, with a fill of four before its acknowledgement. -/
def filledFirst : World Unit := after [.attachExecution, submitNew 10, fill '1' 'a' 4]

theorem filledFirst_orders : 0 < filledFirst.oms.orders.length := by decide +kernel

/-- The acknowledgement that comes late, of an order at work under the name `x`. -/
def lateAck : ExecutionEvent := .orderAck (ackEvent '1' (exchangeId 'x') .new 0)

end Sample

/-- The acknowledgement asks for `working` from `partiallyFilled`. It is refused and
counted, and yet binds the venue's identity and clears the outstanding request. -/
theorem late_ack_refused_and_bound :
    Sample.filledFirst.oms.metrics.illegalTransitions <
        (step Sample.acceptAll (.apply Sample.lateAck)
          Sample.filledFirst).oms.metrics.illegalTransitions ∧
      ¬ ChangesNothing Sample.filledFirst.oms.toOmsState
        (step Sample.acceptAll (.apply Sample.lateAck) Sample.filledFirst).oms.toOmsState
        Sample.lateAck := by
  refine ⟨by decide +kernel, fun hchanges => ?_⟩
  have hfound : Sample.filledFirst.oms.findSubject Sample.lateAck =
      some (0, Sample.filledFirst.oms.orders.get ⟨0, Sample.filledFirst_orders⟩) :=
    findByClientId_eq_some_iff.mpr
      ⟨by decide +kernel, List.getElem?_eq_getElem Sample.filledFirst_orders⟩
  obtain ⟨record, hrecord, hsame⟩ := hchanges.2 0 _ hfound
  have hrequest : ((step Sample.acceptAll (.apply Sample.lateAck)
      Sample.filledFirst).oms.orders[0]?).map OrderRecord.pendingRequest = some 0 := by
    decide +kernel
  rw [hrecord, Option.map_some, hsame.pendingRequest] at hrequest
  revert hrequest
  decide +kernel

end MmEngine.Oms
