/-
# Requests that failed on our side

A request that never left the process, or whose outcome nobody knows, says
nothing against the order it was about, unless it was the submission of that
order. The failure handler does not ask which request failed: it takes every
request that was not sent for the submission, and rejects the order wherever the
table of transitions lets it. A cancel that could not be sent so ends a working
order at home and leaves it resting at the venue.
-/

import MmEngine.Oms.ClientIdentity

namespace MmEngine.Oms

open MmEngine.Exchange MmEngine.Quote MmEngine.Risk OmsState OrderManager

variable {σ : Type}

/-- The failure ends no order it names, and takes none out of the exposure. -/
def SparesOrder (port : IExchangeExecution σ) (w : World σ) (failure : RequestFailureEvent) :
    Prop :=
  ∀ (i : Nat) (order record : OrderRecord), w.oms.orders[i]? = some order →
    order.clientOrderId = failure.clientOrderId → order.isTerminal = false →
      (step port (.apply (.requestFailure failure)) w).oms.orders[i]? = some record →
        record.isTerminal = false ∧
          (order.consumesExposure = true → record.consumesExposure = true)

/-- True of a failure that is quarantined, that may have been sent, or that finds
no order the transition to rejected is open to. -/
def OmsState.failureSpares (s : OmsState) (failure : RequestFailureEvent) : Bool :=
  (validateExecutionEvent (.requestFailure failure)).isError ||
    failure.error.outcome ≠ .notSent ||
      match s.findByClientId failure.clientOrderId with
      | none => true
      | some (_, order) => order.isTerminal || !isLegalTransition order.state .rejected

/-- Becoming unknown ends no order and releases no exposure. -/
theorem OrderRecord.transition_unknown_spares (order : OrderRecord) (now : Nanos)
    (hlive : order.isTerminal = false) :
    (order.transition .unknown now).isTerminal = false ∧
      (order.consumesExposure = true →
        (order.transition .unknown now).consumesExposure = true) := by
  have htable : ∀ state : OrderState, state.isTerminal = false →
      (landing state .unknown).isTerminal = false ∧
        (state.consumesExposure = true → (landing state .unknown).consumesExposure = true) := by
    decide
  simpa only [OrderRecord.isTerminal, OrderRecord.consumesExposure, OrderRecord.transition_state]
    using htable order.state hlive

/-- What the handler does to the order it finds. -/
theorem primary_failure (port : IExchangeExecution σ) {w : World σ} {failure : RequestFailureEvent}
    {i : Nat} {order : OrderRecord}
    (hvalid : (validateExecutionEvent (.requestFailure failure)).isError = false)
    (hfound : w.oms.findByClientId failure.clientOrderId = some (i, order))
    (hlive : order.isTerminal = false) :
    (primary port (.apply (.requestFailure failure)) w).1.oms.orders =
      w.oms.orders.set i (order.settled.transition
        (if failure.error.outcome = .notSent then .rejected else .unknown) w.oms.clock) := by
  by_cases hsent : failure.error.outcome = .notSent <;>
    simp [primary, World.adopt, dispatch, hvalid, applyFailure, hfound, hlive, hsent,
      OmsState.store]

theorem step_failure (port : IExchangeExecution σ) {w : World σ} {failure : RequestFailureEvent}
    {i : Nat} {order : OrderRecord}
    (hvalid : (validateExecutionEvent (.requestFailure failure)).isError = false)
    (hfound : w.oms.findByClientId failure.clientOrderId = some (i, order))
    (hlive : order.isTerminal = false) :
    (step port (.apply (.requestFailure failure)) w).oms.orders[i]? =
      some (order.settled.transition
        (if failure.error.outcome = .notSent then .rejected else .unknown) w.oms.clock) := by
  apply step_getElem
  rw [primary_failure port hvalid hfound hlive]
  have horder := (findByClientId_eq_some_iff.mp hfound).2
  exact List.getElem?_set_self (List.getElem?_eq_some_iff.mp horder).1

/-- A quarantined failure changes no record. -/
theorem step_failure_invalid (port : IExchangeExecution σ) {w : World σ}
    {failure : RequestFailureEvent}
    (hinvalid : (validateExecutionEvent (.requestFailure failure)).isError = true) :
    (step port (.apply (.requestFailure failure)) w).oms.orders = w.oms.orders := by
  simp [step, primary, World.adopt, World.release, dispatch, hinvalid]

/-- A failure spares the orders it names exactly when it does not reject one. -/
theorem sparesOrder_iff (port : IExchangeExecution σ) {w : World σ}
    (hclient : ClientIdentities w.oms.toOmsState) (failure : RequestFailureEvent) :
    SparesOrder port w failure ↔ w.oms.toOmsState.failureSpares failure = true := by
  by_cases hvalid : (validateExecutionEvent (.requestFailure failure)).isError = true
  · have hspares : SparesOrder port w failure := by
      intro i order record horder _ hlive hrecord
      rw [step_failure_invalid port hvalid, horder] at hrecord
      cases hrecord
      exact ⟨hlive, id⟩
    simp [hspares, OmsState.failureSpares, hvalid]
  rw [Bool.not_eq_true] at hvalid
  constructor
  · intro hspares
    by_contra hrejects
    simp only [OmsState.failureSpares, hvalid, Bool.false_or, Bool.or_eq_true,
      decide_eq_true_eq, not_or, not_not] at hrejects
    obtain ⟨hsent, hopen⟩ := hrejects
    cases hfound : w.oms.toOmsState.findByClientId failure.clientOrderId with
    | none => simp [hfound] at hopen
    | some found =>
        obtain ⟨i, order⟩ := found
        simp only [hfound, Bool.or_eq_true, Bool.not_eq_true', not_or, Bool.not_eq_true,
          Bool.not_eq_false] at hopen
        obtain ⟨hlive, hlegal⟩ := hopen
        obtain ⟨horder, hid⟩ := hclient.findByClientId_iff.mp hfound
        have hrecord := step_failure port hvalid hfound hlive
        rw [if_pos hsent] at hrecord
        have hkept := (hspares i order _ horder hid hlive hrecord).1
        have hrejected : landing order.state .rejected = .rejected := if_pos hlegal
        rw [OrderRecord.isTerminal, OrderRecord.transition_state, OrderRecord.settled,
          hrejected] at hkept
        cases hkept
  · intro hspares i order record horder hid hlive hrecord
    have hfound : w.oms.findByClientId failure.clientOrderId = some (i, order) :=
      hclient.findByClientId_iff.mpr ⟨horder, hid⟩
    rw [step_failure port hvalid hfound hlive] at hrecord
    cases hrecord
    have hsettled : order.settled.isTerminal = false := hlive
    by_cases hsent : failure.error.outcome = .notSent
    · -- The transition to rejected is refused, so nothing moves.
      have hillegal : isLegalTransition order.state .rejected = false := by
        simpa [OmsState.failureSpares, hvalid, hsent, hfound, hlive] using hspares
      have hstays : landing order.state .rejected = order.state := by
        rw [landing, hillegal]
        rfl
      rw [if_pos hsent]
      simp only [OrderRecord.isTerminal, OrderRecord.consumesExposure,
        OrderRecord.transition_state, OrderRecord.settled, hstays]
      exact ⟨hlive, id⟩
    · rw [if_neg hsent]
      exact order.settled.transition_unknown_spares w.oms.clock hsettled

/-- In every state of every run, a failure of a request, of whatever kind, spares
the orders it names exactly when it is quarantined, may have been sent, or finds
no order the transition to rejected is open to. -/
theorem request_failure_spares_iff (port : IExchangeExecution σ) (config : OmsConfig)
    (clock : Nanos) (venue : σ) (ops : List (Op σ)) (failure : RequestFailureEvent) :
    let w := Machine.run (step port) ops (World.init config clock venue)
    SparesOrder port w failure ↔ w.oms.toOmsState.failureSpares failure = true := by
  intro w
  exact sparesOrder_iff port (run_clientTracked port config clock venue ops).client failure

/-- A cancel that was not sent. -/
def Sample.cancelNotSent : RequestFailureEvent where
  kind := .cancel
  clientOrderId := Sample.clientId '1'
  exchangeOrderId := .empty
  symbol := .empty
  error := ⟨.connectionFailure, .notSent, .none⟩

/-- An acknowledged order is rejected because a cancel of it was not sent. -/
theorem unsent_cancel_rejects_order :
    ¬ SparesOrder Sample.acceptAll
      (Sample.after [.attachExecution, Sample.submitNew 10, Sample.ack '1' 'x'])
      Sample.cancelNotSent := by
  intro hspares
  have hbefore : (Sample.after [.attachExecution, Sample.submitNew 10,
      Sample.ack '1' 'x']).oms.orders[0]?.map
        (fun order => (order.clientOrderId, order.state)) =
          some (Sample.clientId '1', .working) := by decide +kernel
  have hafter : (Sample.after [.attachExecution, Sample.submitNew 10, Sample.ack '1' 'x',
      .apply (.requestFailure Sample.cancelNotSent)]).oms.orders[0]?.map OrderRecord.state =
        some .rejected := by decide +kernel
  obtain ⟨order, horder, hworking⟩ := Option.map_eq_some_iff.mp hbefore
  obtain ⟨record, hrecord, hrejected⟩ := Option.map_eq_some_iff.mp hafter
  obtain ⟨hid, hstate⟩ := Prod.mk.inj hworking
  have hlive : order.isTerminal = false := by
    rw [OrderRecord.isTerminal, hstate]
    rfl
  have hkept := (hspares 0 order record horder hid hlive hrecord).1
  rw [OrderRecord.isTerminal, hrejected] at hkept
  cases hkept

end MmEngine.Oms
