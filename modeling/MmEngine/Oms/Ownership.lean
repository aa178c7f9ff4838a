/-
# Requests for another strategy's order

A cancel or a replace is checked against the owner of the order it resolves to, by
whichever lookup it does, before anything else is looked at. The check has a gate: an
action without a strategy name is not a strategy's, and passes.
-/

import MmEngine.Oms.Run

namespace MmEngine.Oms

open MmEngine.Exchange MmEngine.Quote MmEngine.Risk OmsState OrderManager

variable {σ : Type}

/-- An approved cancel or replace that resolves to an order of another name. -/
structure ForeignRequest (s : OmsState) (approved : ApprovedAction) : Prop where
  valid : approved.valid = true
  modifies : approved.action.type = .cancel ∨ approved.action.type = .replace
  target : ∃ i order, s.findTarget approved.action (approved.action.type = .cancel) =
      some (i, order) ∧ approved.action.identity.name ≠ order.ownership.strategy

/-- The submission is refused for its owner: no record changes, and the adapter is not
called. -/
structure RefusedForOwner (port : IExchangeExecution σ) (approved : ApprovedAction)
    (w : World σ) : Prop where
  orders : (submit port approved w).2.oms.orders = w.oms.orders
  venue : (submit port approved w).2.venue = w.venue
  silent : (submit port approved w).2.trace = w.trace
  reject : (submit port approved w).1.reject = .ownershipViolation

/-- A name violates the ownership of every order that is not its own. -/
theorem ownershipViolated_of_named {action : OrderAction} {order : OrderRecord}
    (hnamed : action.identity.name.isEmpty = false)
    (hforeign : action.identity.name ≠ order.ownership.strategy) :
    ownershipViolated action order = true := by
  have hnot : order.ownership.matches action.identity.name order.ownership.slot = false := by
    simp [OrderOwnership.matches, Ne.symm hforeign]
  rw [ownershipViolated, hnamed, hnot]
  rfl

section Submit

variable (port : IExchangeExecution σ) {w : World σ} {action : OrderAction} {i : Nat}
  {order : OrderRecord}

/-- Nothing but the owner is reported as a violation of ownership. -/
theorem handleCancel_reject_ne (hfound : w.oms.findTarget action true = some (i, order))
    (howned : ownershipViolated action order = false) :
    (handleCancel port action w).1.reject ≠ .ownershipViolation := by
  rw [handleCancel, hfound]
  dsimp only
  rw [howned, if_neg Bool.false_ne_true]
  split
  · intro h; cases h
  split
  · intro h; cases h
  split
  · intro h; cases h
  rw [sendCancel]
  dsimp only
  split <;> intro h <;> cases h

theorem handleReplace_reject_ne (hfound : w.oms.findTarget action false = some (i, order))
    (howned : ownershipViolated action order = false) :
    (handleReplace port action w).1.reject ≠ .ownershipViolation := by
  rw [handleReplace, hfound]
  dsimp only
  rw [howned, if_neg Bool.false_ne_true]
  split
  · intro h; cases h
  split
  · intro h; cases h
  split
  · intro h; cases h
  split
  · intro h; cases h
  split
  · intro h; cases h
  split
  · intro h; cases h
  rw [sendReplace]
  dsimp only
  split <;> intro h <;> cases h

end Submit

/-- A cancel or replace of another's order is refused for its owner, with every record
as it was and nothing sent, exactly when it carries a name. -/
theorem foreign_request_refused_iff (port : IExchangeExecution σ) {w : World σ}
    {approved : ApprovedAction} (h : ForeignRequest w.oms.toOmsState approved) :
    RefusedForOwner port approved w ↔ approved.action.identity.name.isEmpty = false := by
  obtain ⟨i, order, hfound, hforeign⟩ := h.target
  constructor
  · intro hrefused
    by_contra hnameless
    have howned : ownershipViolated approved.action order = false := by
      rw [Bool.not_eq_false] at hnameless
      simp [ownershipViolated, hnameless]
    have hreject := hrefused.reject
    rcases h.modifies with htype | htype
    · rw [htype] at hfound
      simp only [submit, h.valid, htype] at hreject
      exact handleCancel_reject_ne port hfound howned hreject
    · rw [htype] at hfound
      simp only [submit, h.valid, htype] at hreject
      exact handleReplace_reject_ne port hfound howned hreject
  · intro hnamed
    have hviolated := ownershipViolated_of_named hnamed hforeign
    rcases h.modifies with htype | htype
    · have hcancel : w.oms.findTarget approved.action true = some (i, order) := by
        simpa [htype] using hfound
      have hsubmit : submit port approved w = handleCancel port approved.action w := by
        simp [submit, h.valid, htype]
      rw [handleCancel, hcancel] at hsubmit
      simp only [hviolated, if_true] at hsubmit
      constructor <;> rw [hsubmit] <;> rfl
    · have hreplace : w.oms.findTarget approved.action false = some (i, order) := by
        simpa [htype] using hfound
      have hsubmit : submit port approved w = handleReplace port approved.action w := by
        simp [submit, h.valid, htype]
      rw [handleReplace, hreplace] at hsubmit
      simp only [hviolated, if_true] at hsubmit
      constructor <;> rw [hsubmit] <;> rfl

namespace Sample

/-- An acknowledged order of the strategy `mm`. -/
def owned : World Unit :=
  World.reached acceptAll {} 1 () [.attachExecution, submitNew 10, ack '1' 'x']

theorem owned_orders : 0 < owned.oms.orders.length := by decide +kernel

/-- A cancel of that order by its client identity, under the given name. -/
def cancelAs (name : StrategyName) : ApprovedAction where
  action := { type := .cancel, targetClientOrderId := clientId '1', identity := { name := name } }
  valid := true

theorem owned_foreign {name : StrategyName} (hname : name ≠ ⟨['m', 'm'], by decide⟩) :
    ForeignRequest owned.oms.toOmsState (cancelAs name) where
  valid := rfl
  modifies := .inl rfl
  target := by
    have howner : (owned.oms.orders.get ⟨0, owned_orders⟩).ownership.strategy =
        ⟨['m', 'm'], by decide⟩ := by decide +kernel
    have hfound : owned.oms.findByClientId (clientId '1') =
        some (0, owned.oms.orders.get ⟨0, owned_orders⟩) :=
      findByClientId_eq_some_iff.mpr ⟨by decide +kernel, List.getElem?_eq_getElem owned_orders⟩
    refine ⟨0, owned.oms.orders.get ⟨0, owned_orders⟩, ?_, howner ▸ hname⟩
    have hclient : (cancelAs name).action.targetClientOrderId = clientId '1' := rfl
    rw [findTarget, hclient, if_neg (by decide), hfound]
    rfl

end Sample

/-- Another strategy does not cancel the order. -/
theorem foreign_request_refused_sample :
    RefusedForOwner Sample.acceptAll (Sample.cancelAs ⟨['t'], by decide⟩) Sample.owned :=
  (foreign_request_refused_iff Sample.acceptAll (Sample.owned_foreign (by decide))).mpr rfl

/-- A cancel without a name is not the order's owner's, and cancels it. -/
theorem nameless_request_accepted :
    ForeignRequest Sample.owned.oms.toOmsState (Sample.cancelAs .empty) ∧
      ¬ RefusedForOwner Sample.acceptAll (Sample.cancelAs .empty) Sample.owned ∧
      (submit Sample.acceptAll (Sample.cancelAs .empty) Sample.owned).2.oms.orders.map
        OrderRecord.state = [.pendingCancel] := by
  refine ⟨Sample.owned_foreign (by decide), fun hrefused => ?_, by decide +kernel⟩
  have hreject := hrefused.reject
  revert hreject
  decide +kernel

end MmEngine.Oms
