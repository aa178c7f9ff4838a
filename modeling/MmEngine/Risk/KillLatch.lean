/-
# The kill latch

A kill or a fault holds until an operator has rearmed the engine and then armed it
again, whatever else is called in between: no order is created or moved before that.
Withdrawing is never blocked. A cancel is approved in every state, unless it claims
to come from somebody other than the owner it is checked against.
-/

import MmEngine.Lib.Machine
import MmEngine.Risk.RiskEngine

namespace MmEngine.Risk

open MmEngine.Quote

namespace RiskEngine

variable {D : Type} {engine : RiskEngine D}

/-- The engine is neither armed nor reduce-only. -/
def Blocked (engine : RiskEngine D) : Prop :=
  engine.state = .disarmed ∨ engine.state = .killed ∨ engine.state = .faulted

/-- Killed or faulted: only an operator gets the engine out. -/
def Latched (engine : RiskEngine D) : Prop :=
  engine.state = .killed ∨ engine.state = .faulted

/-- The decision lets no order be created or moved, neither by itself nor through
the token it carries. -/
def NoExposure (decision : RiskDecision) : Prop :=
  decision.permitsNewExposure = false ∧
    ¬(decision.approval.valid = true ∧ decision.approval.action.addsExposure = true)

theorem Latched.blocked (h : engine.Latched) : engine.Blocked := .inr h

theorem ownershipViolated_iff {action : OrderAction} {input : RiskInput} :
    ownershipViolated action input = true ↔
      input.expectedOwner.isEmpty = false ∧ action.identity.name.isEmpty = false ∧
        action.identity.name ≠ input.expectedOwner := by
  simp [ownershipViolated, and_assoc]

theorem screen_of_blocked (h : engine.Blocked) (action : OrderAction) (input : RiskInput)
    (now : Nanos) : engine.screen action input now ≠ .none := by
  rw [screen]
  by_cases hviolated : ownershipViolated action input = true
  · rw [if_pos hviolated]
    decide
  · rw [if_neg hviolated]
    rcases h with hstate | hstate | hstate
    · rw [if_pos hstate]
      decide
    · rw [if_neg (by rw [hstate]; decide), if_pos hstate]
      decide
    · rw [if_neg (by rw [hstate]; decide), if_neg (by rw [hstate]; decide), if_pos hstate]
      decide

theorem noExposure_rejected (action : OrderAction) (reason : RiskReason) (state : RiskState)
    (now : Nanos) : NoExposure (RiskDecision.rejected action reason state now) := by
  constructor
  · rfl
  · rintro ⟨hvalid, -⟩
    cases hvalid

/-- An approved action that adds no exposure. -/
theorem noExposure_stamped {decision : RiskDecision}
    (hadds : decision.approved.addsExposure = false)
    (happroval : decision.approval = {}) :
    NoExposure (engine.stampApproval decision).1 := by
  rw [stampApproval]
  split
  · constructor
    · simp [RiskDecision.permitsNewExposure, hadds]
    · simp [happroval]
  · constructor
    · simp [RiskDecision.permitsNewExposure, hadds]
    · simp [hadds]

@[simp]
theorem record_state (decision : RiskDecision) : (engine.record decision).state = engine.state :=
  rfl

@[simp]
theorem stampApproval_state (decision : RiskDecision) :
    (engine.stampApproval decision).2.state = engine.state := by
  rw [stampApproval]
  split <;> rfl

@[simp]
theorem approveWith_state (decision : RiskDecision) :
    (engine.approveWith decision).2.state = engine.state :=
  stampApproval_state decision

theorem approveWith_decision (decision : RiskDecision) :
    (engine.approveWith decision).1 = (engine.stampApproval decision).1 := rfl

@[simp]
theorem rejectWith_state (action : OrderAction) (reason : RiskReason) (now : Nanos) :
    (engine.rejectWith action reason now).2.state = engine.state := rfl

section Evaluate

variable [Double D]

theorem approveCancel_state (cancel : OrderAction) (input : RiskInput) (now : Nanos) :
    (engine.approveCancel cancel input now).2.state = engine.state := by
  simp only [approveCancel]
  split
  · rw [rejectWith_state, stampApproval_state]
  · split <;> exact stampApproval_state _

theorem acquireBudget_state (action : OrderAction) (now : Nanos) :
    (engine.acquireBudget action now).2.state = engine.state := by
  simp only [acquireBudget]
  split <;> split <;> rfl

theorem reduceAction_state (action : OrderAction) (input : RiskInput) (spec : InstrumentSpec)
    (limits : SymbolLimits) (context : LimitContext) (failure : RiskReason) (now : Nanos) :
    (engine.reduceAction action input spec limits context failure now).2.state = engine.state := by
  simp only [reduceAction]
  split
  · rfl
  split
  · rfl
  split
  · rfl
  · simp

theorem measure_state (action : OrderAction) (input : RiskInput) (spec : InstrumentSpec)
    (limits : SymbolLimits) (now : Nanos) :
    (engine.measure action input spec limits now).2.state = engine.state := by
  simp only [measure]
  split
  · simp
  · exact reduceAction_state ..

theorem evaluateExposure_state (action : OrderAction) (input : RiskInput) (now : Nanos) :
    (engine.evaluateExposure action input now).2.state = engine.state := by
  rw [evaluateExposure]
  split
  · simp only
    split
    · rw [rejectWith_state, acquireBudget_state]
    · rw [measure_state, acquireBudget_state]
  · rfl
  · rfl
  · rfl

/-- Judging an action does not move the engine. -/
theorem evaluate_state (action : OrderAction) (input : RiskInput) (now : Nanos) :
    (engine.evaluate action input now).2.state = engine.state := by
  rw [evaluate]
  split
  · exact approveWith_state _
  · exact approveCancel_state action input now
  · exact evaluateExposure_state action input now
  · exact evaluateExposure_state action input now

theorem noExposure_evaluateExposure (h : engine.Blocked) (action : OrderAction)
    (input : RiskInput) (now : Nanos) :
    NoExposure (engine.evaluateExposure action input now).1 := by
  have hscreen := screen_of_blocked h action input now
  rw [evaluateExposure]
  split
  · contradiction
  · contradiction
  · contradiction
  · exact noExposure_rejected ..

/-- A blocked engine lets no order be created or moved. -/
theorem noExposure_evaluate (h : engine.Blocked) (action : OrderAction) (input : RiskInput)
    (now : Nanos) : NoExposure (engine.evaluate action input now).1 := by
  rw [evaluate]
  split
  · rename_i htype
    have hadds : action.addsExposure = false := by simp [OrderAction.addsExposure, htype]
    rw [approveWith_decision]
    exact noExposure_stamped hadds rfl
  · rename_i htype
    have hadds : action.addsExposure = false := by simp [OrderAction.addsExposure, htype]
    simp only [approveCancel]
    split
    · exact noExposure_rejected ..
    · exact noExposure_stamped hadds rfl
  · exact noExposure_evaluateExposure h action input now
  · exact noExposure_evaluateExposure h action input now

/-- A cancel is refused for its owner only. -/
theorem approveCancel_decision (cancel : OrderAction) (input : RiskInput) (now : Nanos) :
    (engine.approveCancel cancel input now).1 =
      if ownershipViolated cancel input then
        RiskDecision.rejected cancel .ownershipViolation engine.state now
      else (engine.stampApproval (engine.approving cancel cancel .approve .none {} now)).1 := by
  simp only [approveCancel]
  split
  · simp [rejectWith]
  · rfl

end Evaluate

/-! ## Runs -/

/-- The calls on the engine, by the operator and by the trading thread. -/
inductive Op
  | arm
  | warn (reason : RiskReason)
  | kill (reason : RiskReason)
  | fault (reason : RiskReason)
  | rearm
  | evaluate (action : OrderAction) (input : RiskInput) (now : Nanos)
  deriving DecidableEq

/-- The calls that halt the engine. -/
def Op.halts : Op → Bool
  | .kill _ => true
  | .fault _ => true
  | _ => false

variable [Double D]

def step (op : Op) (engine : RiskEngine D) : RiskEngine D :=
  match op with
  | .arm => engine.arm.2
  | .warn reason => engine.warn reason
  | .kill reason => engine.kill reason
  | .fault reason => engine.fault reason
  | .rearm => engine.rearm.2
  | .evaluate action input now => (engine.evaluate action input now).2

/-- A call that arms the engine. -/
def ArmsAt (op : Op) (engine : RiskEngine D) : Prop := op = .arm ∧ engine.arm.1 = .ok

/-- Somewhere in the run the engine is rearmed, and later in it armed. -/
def Recovered : List Op → RiskEngine D → Prop
  | [], _ => False
  | op :: ops, engine =>
      op = .rearm ∧ engine.rearm.1 = .ok ∧ Machine.Sometime step ArmsAt ops (step op engine) ∨
        Recovered ops (step op engine)

/-- A kill or a fault latches from any state. -/
theorem latched_step_of_halts {op : Op} (h : op.halts = true) (engine : RiskEngine D) :
    (step op engine).Latched := by
  cases op with
  | kill reason =>
      left
      simp only [step, kill, transition]
      cases engine.state <;> rfl
  | fault reason =>
      right
      simp only [step, fault, transition]
      cases engine.state <;> rfl
  | arm => cases h
  | warn reason => cases h
  | rearm => cases h
  | evaluate action input now => cases h

/-- A blocked engine stays blocked until it is armed. -/
theorem blocked_step {op : Op} (h : engine.Blocked) (harms : ¬ArmsAt op engine) :
    (step op engine).Blocked := by
  cases op with
  | arm =>
      simp only [ArmsAt, true_and] at harms
      simp only [step, arm] at *
      split
      · exact h
      · rename_i hstate
        rw [if_neg hstate] at harms
        split
        · rename_i hvalid
          rw [hvalid] at harms
          simp at harms
        · exact h
  | warn reason =>
      simp only [step, warn, transition]
      rcases id h with hstate | hstate | hstate
      · rw [if_neg (by rw [hstate]; decide)]
        exact h
      · rw [if_neg (by rw [hstate]; decide)]
        exact h
      · rw [if_neg (by rw [hstate]; decide)]
        exact h
  | kill reason => exact (latched_step_of_halts rfl engine).blocked
  | fault reason => exact (latched_step_of_halts rfl engine).blocked
  | rearm =>
      simp only [step, rearm]
      split
      · exact h
      · exact .inl rfl
  | evaluate action input now =>
      simp only [step, Blocked, evaluate_state]
      exact h

theorem blocked_run {ops : List Op} (h : engine.Blocked)
    (harms : ¬Machine.Sometime step ArmsAt ops engine) : (Machine.run step ops engine).Blocked := by
  induction ops generalizing engine with
  | nil => exact h
  | cons op ops ih =>
      simp only [Machine.Sometime, not_or] at harms
      exact ih (blocked_step h harms.1) harms.2

/-- A latched engine stays latched, or it is rearmed and disarmed. -/
theorem latched_step (op : Op) (h : engine.Latched) :
    (step op engine).Latched ∨
      op = .rearm ∧ engine.rearm.1 = .ok ∧ (step op engine).Blocked := by
  have hneeds : needsOperatorRecovery engine.state = true := by
    rcases h with hstate | hstate
    · rw [hstate]
      rfl
    · rw [hstate]
      rfl
  cases op with
  | arm =>
      simp only [step, arm, if_pos hneeds]
      exact .inl h
  | warn reason =>
      simp only [step, warn, transition]
      rcases id h with hstate | hstate
      · rw [if_neg (by rw [hstate]; decide)]
        exact .inl h
      · rw [if_neg (by rw [hstate]; decide)]
        exact .inl h
  | kill reason => exact .inl (latched_step_of_halts rfl engine)
  | fault reason => exact .inl (latched_step_of_halts rfl engine)
  | rearm =>
      refine .inr ⟨rfl, ?_, .inl ?_⟩
      · simp [rearm, hneeds]
      · simp [step, rearm, hneeds]
  | evaluate action input now =>
      simp only [step, Latched, evaluate_state]
      exact .inl h

/-- A latched engine stays blocked until it has been rearmed and then armed. -/
theorem blocked_run_of_latched {ops : List Op} (h : engine.Latched)
    (hrecovered : ¬Recovered ops engine) : (Machine.run step ops engine).Blocked := by
  induction ops generalizing engine with
  | nil => exact h.blocked
  | cons op ops ih =>
      simp only [Recovered, not_or] at hrecovered
      rw [Machine.run_cons]
      rcases latched_step op h with hlatched | ⟨hrearm, hok, hblocked⟩
      · exact ih hlatched hrecovered.2
      · exact blocked_run hblocked fun harms => hrecovered.1 ⟨hrearm, hok, harms⟩

/-- After a kill or a fault nothing permits a new or moved order until the engine has
been rearmed and later armed; and in every state a cancel is approved with a valid
token, unless its owner and the expected one are both named and differ. -/
theorem kill_latch (engine : RiskEngine D) :
    (∀ (before : List Op) (halt : Op) (after : List Op), halt.halts = true →
        ¬Recovered after (Machine.run step (before ++ [halt]) engine) →
        ∀ (action : OrderAction) (input : RiskInput) (now : Nanos),
          NoExposure ((Machine.run step (before ++ [halt] ++ after) engine).evaluate action input
            now).1) ∧
      ∀ (ops : List Op) (cancel : OrderAction) (input : RiskInput) (now : Nanos),
        cancel.type = .cancel →
        (((Machine.run step ops engine).evaluate cancel input now).1.verdict = .approve ∧
            ((Machine.run step ops engine).evaluate cancel input now).1.approval.valid = true ∧
            ((Machine.run step ops engine).evaluate cancel input now).1.approval.action = cancel ↔
          ¬(input.expectedOwner.isEmpty = false ∧ cancel.identity.name.isEmpty = false ∧
            cancel.identity.name ≠ input.expectedOwner)) := by
  constructor
  · intro before halt after hhalt hrecovered action input now
    rw [Machine.run_concat] at hrecovered
    rw [Machine.run_append, Machine.run_concat]
    have hlatched := latched_step_of_halts hhalt (Machine.run step before engine)
    exact noExposure_evaluate (blocked_run_of_latched hlatched hrecovered) action input now
  · intro ops cancel input now htype
    simp only [evaluate, htype, approveCancel_decision]
    rw [← ownershipViolated_iff]
    by_cases hviolated : ownershipViolated cancel input = true
    · rw [if_pos hviolated]
      exact iff_of_false (fun happroved => nomatch happroved.1) (not_not_intro hviolated)
    · rw [if_neg hviolated]
      exact iff_of_true ⟨rfl, rfl, rfl⟩ hviolated

end RiskEngine

end MmEngine.Risk
