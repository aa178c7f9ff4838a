/-
# Risk only shrinks

An evaluation lets an action through as it is, or the same action for a smaller size
on the lot grid that the engine's own checks accept, or refuses it with nothing to
send. What it lets through carries a token for exactly that action, with a sequence
that no earlier token of the engine has reached.
-/

import MmEngine.Risk.Permission

namespace MmEngine.Risk

open MmEngine.Quote

namespace RiskEngine

variable {D : Type} [Double D] {engine : RiskEngine D} {action : OrderAction} {input : RiskInput}
  {now : Nanos}

/-- The same action for less: a size on the lot grid that both checks accept. -/
structure Smaller (engine : RiskEngine D) (action : OrderAction) (input : RiskInput)
    (approved : OrderAction) : Prop where
  same : approved = { action with quantity := approved.quantity }
  positive : 0 < approved.quantity.raw
  less : approved.quantity.raw < action.quantity.raw
  accepted : ∃ spec limits, input.instrument = some spec ∧
    engine.limits.find input.symbol = some limits ∧ spec.isValid = true ∧
    spec.lotSize.raw ∣ approved.quantity.raw ∧
    (engine.checkOrderBounds approved approved.quantity input spec limits {}).toBool = true ∧
    (engine.checkExposure approved approved.quantity input limits {}).toBool = true

/-- A verdict and the action it comes with. -/
inductive Shrinks (engine : RiskEngine D) (action : OrderAction) (input : RiskInput)
    (decision : RiskDecision) : Prop
  | approve (verdict : decision.verdict = .approve) (same : decision.approved = action)
  | reduce (verdict : decision.verdict = .reduce)
      (smaller : engine.Smaller action input decision.approved)
  | reject (verdict : decision.verdict = .reject) (noop : decision.approved.type = .noop)
      (invalid : decision.approval.valid = false)

/-- Every evaluation shrinks; it stamps what it lets through, or refuses. -/
structure Judged (engine : RiskEngine D) (action : OrderAction) (input : RiskInput)
    (result : RiskDecision × RiskEngine D) : Prop where
  shrinks : engine.Shrinks action input result.1
  stamped : result.1.verdict ≠ .reject → engine.Stamped result.1.approved result
  refused : result.1.verdict = .reject → engine.Refused result

omit [Double D] in
theorem Stamped.self {approved : OrderAction} {result : RiskDecision × RiskEngine D}
    (h : engine.Stamped approved result) : engine.Stamped result.1.approved result := by
  rw [h.carries]
  exact h

theorem Refused.judged {result : RiskDecision × RiskEngine D} (h : engine.Refused result) :
    engine.Judged action input result where
  shrinks := .reject h.verdict h.noop h.invalid
  stamped := fun hverdict => absurd h.verdict hverdict
  refused := fun _ => h

theorem Stamped.judged_approve {result : RiskDecision × RiskEngine D}
    (h : engine.Stamped action result) (hverdict : result.1.verdict = .approve) :
    engine.Judged action input result where
  shrinks := .approve hverdict h.carries
  stamped := fun _ => h.self
  refused := fun hrejected => by
    rw [hverdict] at hrejected
    cases hrejected

/-- A smaller size that fits is accepted as an action of its own. -/
theorem Cleared.smaller {spec : InstrumentSpec} {limits : SymbolLimits} {quantity : Qty}
    (hcleared : engine.Cleared action input spec limits now)
    (hadmissible : engine.Admissible action input spec limits quantity)
    (hless : quantity.raw < action.quantity.raw) :
    engine.Smaller action input { action with quantity := quantity } where
  same := rfl
  positive := hadmissible.positive
  less := hless
  accepted := by
    obtain ⟨hbounds, hexposure⟩ := (fits_iff quantity).mp hadmissible.fits
    exact ⟨spec, limits, hcleared.instrument, hcleared.configured, hcleared.isValid,
      hadmissible.onGrid, hbounds, hexposure⟩

theorem judged_evaluateExposure :
    engine.Judged action input (engine.evaluateExposure action input now) := by
  rcases evaluateExposure_cases engine action input now with
    ⟨hrefused, -⟩ | ⟨spec, limits, hcleared, hmeasured⟩
  · exact hrefused.judged
  cases hmeasured with
  | approve hverdict hfits hstamped => exact hstamped.judged_approve hverdict
  | reduce quantity hverdict hless hreducible hadmissible hgreatest hstamped =>
      refine ⟨.reduce hverdict ?_, fun _ => hstamped.self, fun hrejected => ?_⟩
      · rw [hstamped.carries]
        exact hcleared.smaller hadmissible hless
      · rw [hverdict] at hrejected
        cases hrejected
  | reject hrefused hnone => exact hrefused.judged

/-- A refused cancel has used up a sequence, which no token carries. -/
theorem judged_approveCancel :
    engine.Judged action input (engine.approveCancel action input now) := by
  simp only [approveCancel]
  by_cases hviolated : ownershipViolated action input = true
  · rw [if_pos hviolated]
    have hrefused : engine.Refused
        ((engine.stampApproval (engine.approving action action .approve .none {} now)).2.rejectWith
          action .ownershipViolation now) := ⟨rfl, rfl, rfl, Nat.le_succ _⟩
    exact hrefused.judged
  · rw [if_neg hviolated]
    refine Stamped.judged_approve ⟨rfl, rfl, ?_⟩ rfl
    split
    · rfl
    · rfl

theorem judged_evaluate (engine : RiskEngine D) (action : OrderAction) (input : RiskInput)
    (now : Nanos) : engine.Judged action input (engine.evaluate action input now) := by
  rw [evaluate]
  split
  · exact (stamped_approving (.inl rfl)).judged_approve rfl
  · exact judged_approveCancel
  · exact judged_evaluateExposure
  · exact judged_evaluateExposure

/-- The token a call hands out; only an evaluation hands out a valid one. -/
def token (op : Op) (engine : RiskEngine D) : ApprovedAction :=
  match op with
  | .evaluate action input now => (engine.evaluate action input now).1.approval
  | _ => {}

/-- The valid tokens of a run, in the order they were handed out. -/
def tokens (ops : List Op) (engine : RiskEngine D) : List ApprovedAction :=
  (Machine.outputs step token ops engine).filter (·.valid)

omit [Double D] in
theorem approvalSequence_transition (target : RiskState) (reason : RiskReason) :
    (engine.transition target reason).approvalSequence = engine.approvalSequence := by
  rw [transition]
  split
  · rfl
  · rfl

/-- A call takes the sequence no lower, and a token it hands out no higher than where it
leaves the sequence. -/
theorem sequence_step (op : Op) (engine : RiskEngine D) :
    engine.approvalSequence ≤ (step op engine).approvalSequence ∧
      ((token op engine).valid = true →
        (token op engine).sequence ≤ (step op engine).approvalSequence) := by
  cases op with
  | arm =>
      refine ⟨le_of_eq ?_, fun h => absurd h Bool.false_ne_true⟩
      simp only [step, arm]
      split
      · rfl
      · split
        · exact (approvalSequence_transition ..).symm
        · rfl
  | warn reason => exact ⟨(approvalSequence_transition ..).ge, fun h => absurd h Bool.false_ne_true⟩
  | kill reason =>
      refine ⟨le_of_eq ?_, fun h => absurd h Bool.false_ne_true⟩
      rw [step, kill, approvalSequence_transition]
  | fault reason => exact ⟨(approvalSequence_transition ..).ge, fun h =>
      absurd h Bool.false_ne_true⟩
  | rearm =>
      refine ⟨le_of_eq ?_, fun h => absurd h Bool.false_ne_true⟩
      simp only [step, rearm]
      split
      · rfl
      · rfl
  | evaluate action input now =>
      have hjudged := judged_evaluate engine action input now
      simp only [step, token]
      by_cases hverdict : (engine.evaluate action input now).1.verdict = .reject
      · have hrefused := hjudged.refused hverdict
        refine ⟨hrefused.sequence, fun hvalid => ?_⟩
        rw [hrefused.invalid] at hvalid
        cases hvalid
      · have hstamped := hjudged.stamped hverdict
        rw [hstamped.sequence, hstamped.token]
        exact ⟨Nat.le_succ _, fun _ => le_rfl⟩

theorem sequence_run (ops : List Op) (engine : RiskEngine D) :
    engine.approvalSequence ≤ (Machine.run step ops engine).approvalSequence ∧
      ∀ earlier ∈ tokens ops engine,
        earlier.sequence ≤ (Machine.run step ops engine).approvalSequence := by
  induction ops generalizing engine with
  | nil => exact ⟨le_rfl, fun earlier hearlier => absurd hearlier List.not_mem_nil⟩
  | cons op ops ih =>
      obtain ⟨hmono, htoken⟩ := sequence_step op engine
      obtain ⟨hrest, htokens⟩ := ih (step op engine)
      refine ⟨hmono.trans hrest, fun earlier hearlier => ?_⟩
      rw [tokens, Machine.outputs, List.filter_cons] at hearlier
      split at hearlier
      · rename_i hvalid
        rcases List.mem_cons.mp hearlier with rfl | hlater
        · exact (htoken hvalid).trans hrest
        · exact htokens earlier hlater
      · exact htokens earlier hearlier

/-- Whatever the engine has been through, it lets an action through as it is, or for a
smaller size that its own checks accept, or it refuses; and what it lets through carries
a valid token for exactly that, later than every token before it. -/
theorem evaluate_shrinks (engine : RiskEngine D) (ops : List Op) (action : OrderAction)
    (input : RiskInput) (now : Nanos) :
    (Machine.run step ops engine).Shrinks action input
        ((Machine.run step ops engine).evaluate action input now).1 ∧
      (((Machine.run step ops engine).evaluate action input now).1.verdict ≠ .reject →
        ((Machine.run step ops engine).evaluate action input now).1.approval.valid = true ∧
        ((Machine.run step ops engine).evaluate action input now).1.approval.action =
          ((Machine.run step ops engine).evaluate action input now).1.approved ∧
        ∀ earlier ∈ tokens ops engine, earlier.sequence <
          ((Machine.run step ops engine).evaluate action input now).1.approval.sequence) := by
  have hjudged := judged_evaluate (Machine.run step ops engine) action input now
  refine ⟨hjudged.shrinks, fun hverdict => ?_⟩
  have hstamped := hjudged.stamped hverdict
  rw [hstamped.token]
  refine ⟨rfl, rfl, fun earlier hearlier => ?_⟩
  exact Nat.lt_succ_of_le ((sequence_run ops engine).2 earlier hearlier)

end RiskEngine

end MmEngine.Risk
