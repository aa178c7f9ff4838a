/-
# Withdrawing the quotes

A manager takes its quotes down when it is told to, and when it refuses an intent
because the intent is outdated, the market data is stale or the system does not run.
Both ways go through one pass over the slots, apart from the ordinary resolution: it
cancels what the manager owns and has not already asked to cancel, whatever else is
outstanding or uncertain about it, and it touches nothing else.
-/

import Mathlib.Data.List.Forall2
import MmEngine.Quote.SlotExits

namespace MmEngine.Quote

open MmEngine.Exchange
open MmEngine.Strategy

/-- The slots, in the order they are considered. -/
def slots : List QuoteSlot := [.bid, .ask]

/-- The order is the owner's to withdraw from the slot: it is live, it is theirs, and
no cancel for it is in flight. -/
def WorkingOrder.isWithdrawable (order : WorkingOrder) (owner : StrategyName)
    (slot : QuoteSlot) : Bool :=
  order.isLive && order.owner.matchesSlot owner slot && decide (order.pending ≠ .cancel)

/-- The slots whose orders are the owner's to withdraw. -/
def WorkingQuoteState.withdrawable (working : WorkingQuoteState) (owner : StrategyName) :
    List QuoteSlot :=
  slots.filter fun slot => (working.slot slot).isWithdrawable owner slot

/-- The working orders once every withdrawal is in flight. -/
def WorkingQuoteState.withdrawing (working : WorkingQuoteState) (owner : StrategyName) :
    WorkingQuoteState :=
  let marked (slot : QuoteSlot) : WorkingOrder :=
    if (working.slot slot).isWithdrawable owner slot then
      { working.slot slot with pending := .cancel }
    else working.slot slot
  { working with bid := marked .bid, ask := marked .ask }

theorem WorkingQuoteState.slot_withdrawing (working : WorkingQuoteState) (owner : StrategyName)
    (slot : QuoteSlot) :
    (working.withdrawing owner).slot slot =
      if (working.slot slot).isWithdrawable owner slot then
        { working.slot slot with pending := .cancel }
      else working.slot slot := by
  cases slot <;> rfl

/-- Once the withdrawals are in flight there is nothing left to withdraw. -/
theorem WorkingQuoteState.withdrawable_withdrawing (working : WorkingQuoteState)
    (owner : StrategyName) : (working.withdrawing owner).withdrawable owner = [] := by
  apply List.filter_eq_nil_iff.mpr
  intro slot _
  rw [slot_withdrawing]
  split
  · simp [WorkingOrder.isWithdrawable]
  · assumption

/-- The action cancels the order in the slot, by the ids the venue and the manager's
side know it under. -/
structure OrderAction.Cancels (action : OrderAction) (slot : QuoteSlot) (order : WorkingOrder) :
    Prop where
  type : action.type = .cancel
  slot : action.slot = slot
  clientOrderId : action.targetClientOrderId = order.clientOrderId
  exchangeOrderId : action.targetExchangeOrderId = order.exchangeOrderId

namespace QuoteManager

variable {D : Type} {manager : QuoteManager D} {input : QuoteManagerInput} {now : Nanos}

theorem addressed_cancels (slot : QuoteSlot) (reason : ActionReason) (intent : QuoteIntent)
    (input : QuoteManagerInput) (now : Nanos) (order : WorkingOrder) :
    (addressed (makeAction .cancel slot reason intent input now) order).Cancels slot order :=
  ⟨rfl, rfl, rfl, rfl⟩

/-- How one slot's withdrawal ends: with the cancel of the order when it is the
manager's to withdraw, and with no action otherwise. -/
inductive WithdrawalExit (manager : QuoteManager D) (slot : QuoteSlot)
    (input : QuoteManagerInput) : SlotDecision → List OrderAction → Prop
  | cancel {decision : SlotDecision} {action : OrderAction} (houtcome : decision.outcome = .cancel)
      (hwithdrawable : (input.working.slot slot).isWithdrawable manager.owner slot = true)
      (hcancels : action.Cancels slot (input.working.slot slot)) :
      WithdrawalExit manager slot input decision [action]
  | quiet {decision : SlotDecision} (houtcome : decision.outcome.requests = [])
      (hkept : (input.working.slot slot).isWithdrawable manager.owner slot = false) :
      WithdrawalExit manager slot input decision []

/-- Every exit of the pass over a slot. -/
theorem disableSlot_withdraws {slot : QuoteSlot} {result : QuoteManagerResult}
    (hroom : result.actions.length ≤ 2) (reason : ActionReason) :
    EndsIn (manager.WithdrawalExit slot input) manager result
      (manager.disableSlot slot input reason result now) := by
  simp only [disableSlot]
  split
  · rename_i hforeign
    rw [Bool.and_eq_true, Bool.not_eq_true'] at hforeign
    exact endsIn_quiet (.quiet rfl (by simp [WorkingOrder.isWithdrawable, hforeign.2]))
      (.tally _ _)
  · rename_i howned
    split
    · rename_i hdead
      have hdead : (input.working.slot slot).isLive = false := by
        rw [Bool.or_eq_true, Bool.not_eq_true', Bool.not_eq_true'] at hdead
        rcases hdead with habsent | hdead
        · rw [WorkingOrder.isLive, habsent, Bool.false_and]
        · exact hdead
      exact endsIn_quiet (.quiet rfl (by simp [WorkingOrder.isWithdrawable, hdead])) (.refl _)
    · rename_i hlive
      rw [Bool.or_eq_true, not_or, Bool.not_eq_true', Bool.not_eq_true', Bool.not_eq_false,
        Bool.not_eq_false] at hlive
      split
      · rename_i hpending
        exact endsIn_quiet (.quiet rfl (by simp [WorkingOrder.isWithdrawable, hpending]))
          (.tally _ _)
      · rename_i hpending
        have hmatches := owned_of_not_foreign howned hlive.1
        exact endsIn_push (.refl _) hroom
          (.cancel rfl (by simp [WorkingOrder.isWithdrawable, hlive.2, hmatches, hpending])
            (addressed_cancels _ _ _ _ _ _))

/-- What a slot contributes: its cancel if it has one to contribute. -/
theorem WithdrawalExit.contribution {slot : QuoteSlot} {decision : SlotDecision}
    {actions : List OrderAction} (h : manager.WithdrawalExit slot input decision actions) :
    List.Forall₂ (fun slot action => action.Cancels slot (input.working.slot slot))
      ([slot].filter fun slot => (input.working.slot slot).isWithdrawable manager.owner slot)
      actions := by
  cases h with
  | cancel _ hwithdrawable hcancels =>
      simp only [List.filter_cons, List.filter_nil, hwithdrawable, if_true]
      exact .cons hcancels .nil
  | quiet _ hkept =>
      simp only [List.filter_cons, List.filter_nil, hkept, Bool.false_eq_true, if_false]
      exact .nil

/-- The exits read the owner and nothing else of the manager. -/
theorem Keeps.withdrawalExit {before after : QuoteManager D} (h : Keeps before after)
    {slot : QuoteSlot} {decision : SlotDecision} {actions : List OrderAction}
    (hexit : after.WithdrawalExit slot input decision actions) :
    before.WithdrawalExit slot input decision actions := by
  cases hexit with
  | cancel houtcome hwithdrawable hcancels =>
      exact .cancel houtcome (h.owner ▸ hwithdrawable) hcancels
  | quiet houtcome hkept => exact .quiet houtcome (h.owner ▸ hkept)

theorem WithdrawalExit.length_le {slot : QuoteSlot} {decision : SlotDecision}
    {actions : List OrderAction} (h : manager.WithdrawalExit slot input decision actions) :
    actions.length ≤ 2 := by
  cases h <;> simp

/-- The result of a withdrawal: one cancel for each order that is the manager's to
withdraw, nothing else, and the same owner. -/
structure Withdrawn (manager : QuoteManager D) (input : QuoteManagerInput)
    (outcome : QuoteManagerResult × QuoteManager D) : Prop where
  actions :
    List.Forall₂ (fun slot action => action.Cancels slot (input.working.slot slot))
      (input.working.withdrawable manager.owner) outcome.1.actions
  owner : outcome.2.owner = manager.owner

theorem disableAllQuotes_withdrawn (manager : QuoteManager D) (input : QuoteManagerInput)
    (reason : ActionReason) (now : Nanos) :
    Withdrawn manager input (manager.disableAllQuotes input reason now) := by
  let start : QuoteManagerResult := { intentAccepted := true, generation := manager.lastGeneration }
  have hbid : EndsIn (manager.WithdrawalExit .bid input) manager start
      (manager.disableSlot .bid input reason start now) :=
    disableSlot_withdraws (Nat.zero_le _) reason
  obtain ⟨bidActions, hbidExit, hbidResult, hbidKeeps⟩ := hbid
  have hroom :
      (manager.disableSlot .bid input reason start now).2.2.actions.length ≤ 2 := by
    rw [hbidResult]
    exact hbidExit.length_le
  have hask : EndsIn
      ((manager.disableSlot .bid input reason start now).2.1.WithdrawalExit .ask input)
      (manager.disableSlot .bid input reason start now).2.1
      (manager.disableSlot .bid input reason start now).2.2
      ((manager.disableSlot .bid input reason start now).2.1.disableSlot .ask input reason
        (manager.disableSlot .bid input reason start now).2.2 now) :=
    disableSlot_withdraws hroom reason
  obtain ⟨askActions, haskExit, haskResult, haskKeeps⟩ := hask
  constructor
  · have hactions : (manager.disableAllQuotes input reason now).1.actions =
        bidActions ++ askActions := by
      rw [disableAllQuotes, haskResult, hbidResult, List.nil_append]
    have hslots : input.working.withdrawable manager.owner =
        ([.bid].filter fun slot => (input.working.slot slot).isWithdrawable manager.owner slot) ++
          [.ask].filter fun slot =>
            (input.working.slot slot).isWithdrawable manager.owner slot :=
      List.filter_append [QuoteSlot.bid] [.ask]
    rw [hactions, hslots]
    exact List.rel_append hbidExit.contribution (hbidKeeps.withdrawalExit haskExit).contribution
  · exact (hbidKeeps.trans haskKeeps).owner

/-- The ways the quotes are withdrawn: by a call that says so, and by an intent the
screen refuses as outdated, on stale data or out of hours. -/
inductive Withdrawal [Double D] (manager : QuoteManager D) (input : QuoteManagerInput)
    (now : Nanos) : QuoteManagerResult × QuoteManager D → Prop
  | disabled (reason : ActionReason) :
      Withdrawal manager input now (manager.disableAllQuotes input reason now)
  | refused (intent : QuoteIntent)
      (hrejected : impliesWithdraw (manager.evaluate intent input now).1.rejection = true) :
      Withdrawal manager input now (manager.evaluate intent input now)

@[simp] theorem raiseGeneration_owner (manager : QuoteManager D) (generation : Nat) :
    (manager.raiseGeneration generation).owner = manager.owner := by
  rw [raiseGeneration]
  split <;> rfl

/-- An intent refused for a reason that withdraws is a withdrawal. -/
theorem refuse_withdrawn (manager : QuoteManager D) {rejection : QuoteRejection}
    (hwithdraw : impliesWithdraw rejection = true) (intent : QuoteIntent)
    (input : QuoteManagerInput) (now : Nanos) :
    Withdrawn manager input (manager.refuse rejection intent input now) := by
  have hdisabled := (manager.tally (countRejection · rejection)).disableAllQuotes_withdrawn input
    (withdrawReason rejection) now
  rw [refuse, if_pos hwithdraw]
  exact ⟨hdisabled.actions, (raiseGeneration_owner _ _).trans hdisabled.owner⟩

theorem Withdrawal.withdrawn [Double D] {outcome : QuoteManagerResult × QuoteManager D}
    (h : manager.Withdrawal input now outcome) : Withdrawn manager input outcome := by
  cases h with
  | disabled reason => exact manager.disableAllQuotes_withdrawn input reason now
  | refused intent hrejected =>
      rw [evaluate_rejection] at hrejected
      have hscreen : (manager.receive intent input).screen intent input now =
        manager.screen intent input now := rfl
      have hrefused : manager.screen intent input now ≠ .none := by
        intro hnone
        rw [hnone] at hrejected
        cases hrejected
      rw [evaluate, hscreen, if_pos hrefused]
      have hwithdrawn :=
        (manager.receive intent input).refuse_withdrawn hrejected intent input now
      exact ⟨hwithdrawn.actions, hwithdrawn.owner⟩

/-- A withdrawal cancels, by its ids, every order that is live, the manager's for its
slot and without a cancel in flight, each once, and requests nothing else. Once those
cancels are in flight, a further withdrawal requests nothing at all. -/
theorem withdrawal_complete_confined [Double D] (manager : QuoteManager D)
    (input : QuoteManagerInput) (now : Nanos) (outcome : QuoteManagerResult × QuoteManager D)
    (h : manager.Withdrawal input now outcome) :
    List.Forall₂ (fun slot action => action.Cancels slot (input.working.slot slot))
        (input.working.withdrawable manager.owner) outcome.1.actions ∧
      ∀ (later : QuoteManagerInput) (moment : Nanos)
        (following : QuoteManagerResult × QuoteManager D),
        later.working = input.working.withdrawing manager.owner →
          outcome.2.Withdrawal later moment following → following.1.actions = [] := by
  refine ⟨h.withdrawn.actions, ?_⟩
  intro later moment following hworking hfollowing
  have hactions := hfollowing.withdrawn.actions
  rw [hworking, h.withdrawn.owner, WorkingQuoteState.withdrawable_withdrawing] at hactions
  exact List.forall₂_nil_left_iff.mp hactions

/-- A desk that quotes both sides of a symbol. -/
def quotedDesk : QuoteManager ℚ where
  owner := (InlineString.assign "desk".toList).1
  config := { minQuantityMoveFraction := 0 }

/-- Its bid rests; an order of nobody it knows stands where its ask would be. -/
def quotedInput : QuoteManagerInput where
  working :=
    { bid :=
        { present := true
          owner := { strategy := quotedDesk.owner, slot := .bid }
          price := .narrow 100
          originalQuantity := .narrow 10
          status := .new
          clientOrderId := (InlineString.assign "q1".toList).1 }
      ask := { present := true, status := .new } }

/-- The desk is told to stop: it cancels its bid, leaves the other order alone, and an
intent that then finds the system down repeats nothing. -/
theorem withdrawal_complete_confined_sample :
    List.Forall₂
        (fun slot action => OrderAction.Cancels action slot (quotedInput.working.slot slot)) [.bid]
        (quotedDesk.disableAllQuotes quotedInput .operatorDisabled 5).1.actions ∧
      ((quotedDesk.disableAllQuotes quotedInput .operatorDisabled 5).2.evaluate
        { identity := { name := quotedDesk.owner } }
        { quotedInput with
          working := quotedInput.working.withdrawing quotedDesk.owner, systemReady := false }
        6).1.actions = [] := by
  have hslots : quotedInput.working.withdrawable quotedDesk.owner = [.bid] := by decide +kernel
  have h := withdrawal_complete_confined quotedDesk quotedInput 5 _ (.disabled .operatorDisabled)
  rw [hslots] at h
  exact ⟨h.1, h.2 _ 6 _ rfl (.refused _ (by decide +kernel))⟩

end QuoteManager

end MmEngine.Quote
