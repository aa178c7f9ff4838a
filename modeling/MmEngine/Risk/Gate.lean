/-
# The risk engine as a gate

What the risk engine approves is within the bounds of a configured symbol, and no call
changes its limits. Between a kill and the arming after the next rearming it is blocked,
whatever it is asked.
-/

import MmEngine.Risk.KillLatch
import MmEngine.Risk.Shrinking

namespace MmEngine.Risk

open MmEngine.Quote

/-- The bounds of a configured symbol allow an order of this price and quantity. -/
def RiskLimits.Permits (limits : RiskLimits) (price : Px) (quantity : Qty) : Prop :=
  ∃ symbol bounds, limits.find symbol = some bounds ∧
    RiskEngine.WithinOrderBounds bounds price quantity

namespace RiskEngine

variable {D : Type} {engine : RiskEngine D}

/-- An approved order is within the bounds of a configured symbol. -/
theorem approval_permitted [Double D] {action : OrderAction} {input : RiskInput} {now : Nanos}
    (happroved : (engine.evaluate action input now).1.isApproved = true)
    (hadds : (engine.evaluate action input now).1.approval.action.addsExposure = true) :
    engine.limits.Permits (engine.evaluate action input now).1.approval.action.price
      (engine.evaluate action input now).1.approval.action.quantity := by
  have hjudged := judged_evaluate engine action input now
  have hverdict : (engine.evaluate action input now).1.verdict ≠ .reject := by
    intro hrejected
    simp [RiskDecision.isApproved, hrejected] at happroved
  have hstamped := hjudged.stamped hverdict
  have hsame : (engine.evaluate action input now).1.approved.type = action.type ∧
      (engine.evaluate action input now).1.approved.price = action.price := by
    cases hjudged.shrinks with
    | approve _ hunchanged => rw [hunchanged]; exact ⟨rfl, rfl⟩
    | reduce _ hsmaller => rw [hsmaller.same]; exact ⟨rfl, rfl⟩
    | reject hrejected => exact absurd hrejected hverdict
  rw [hstamped.token] at hadds ⊢
  have htype : action.type = .new ∨ action.type = .replace := by
    simpa [OrderAction.addsExposure, hsame.1] using hadds
  dsimp only
  rw [hsame.2]
  rw [evaluate_of_addsExposure htype] at happroved hverdict ⊢
  rcases evaluateExposure_cases engine action input now with
    ⟨hrefused, -⟩ | ⟨spec, bounds, hcleared, -⟩
  · exact absurd hrefused.verdict hverdict
  · obtain ⟨_, hchecked⟩ := evaluateExposure_checked hcleared.configured happroved
    exact ⟨input.symbol, bounds, hcleared.configured, hchecked.within.1⟩

theorem transition_limits (target : RiskState) (reason : RiskReason) :
    (engine.transition target reason).limits = engine.limits := by
  rw [transition]
  split
  · rfl
  · rfl

theorem stampApproval_limits (decision : RiskDecision) :
    (engine.stampApproval decision).2.limits = engine.limits := by
  rw [stampApproval]
  split
  · rfl
  · rfl

theorem approveWith_limits (decision : RiskDecision) :
    (engine.approveWith decision).2.limits = engine.limits :=
  stampApproval_limits decision

theorem approveCancel_limits (cancel : OrderAction) (input : RiskInput) (now : Nanos)
    [Double D] : (engine.approveCancel cancel input now).2.limits = engine.limits := by
  simp only [approveCancel]
  split
  · exact stampApproval_limits _
  · split
    · exact stampApproval_limits _
    · exact stampApproval_limits _

variable [Double D]

theorem acquireBudget_limits (action : OrderAction) (now : Nanos) :
    (engine.acquireBudget action now).2.limits = engine.limits := by
  simp only [acquireBudget]
  split <;> split <;> rfl

theorem measure_limits (action : OrderAction) (input : RiskInput) (spec : InstrumentSpec)
    (limits : SymbolLimits) (now : Nanos) :
    (engine.measure action input spec limits now).2.limits = engine.limits := by
  simp only [measure]
  split
  · exact approveWith_limits _
  · simp only [reduceAction]
    split
    · rfl
    split
    · rfl
    split
    · rfl
    · exact approveWith_limits _

theorem evaluate_limits (action : OrderAction) (input : RiskInput) (now : Nanos) :
    (engine.evaluate action input now).2.limits = engine.limits := by
  have hexposure : (engine.evaluateExposure action input now).2.limits = engine.limits := by
    rw [evaluateExposure]
    split
    · simp only
      split
      · exact acquireBudget_limits action now
      · rw [measure_limits, acquireBudget_limits]
    · rfl
    · rfl
    · rfl
  rw [evaluate]
  split
  · exact approveWith_limits _
  · exact approveCancel_limits action input now
  · exact hexposure
  · exact hexposure

/-- The limits are set once. -/
theorem step_limits (op : Op) (engine : RiskEngine D) :
    (step op engine).limits = engine.limits := by
  cases op with
  | arm =>
      simp only [step, arm]
      split
      · rfl
      · split
        · exact transition_limits _ _
        · rfl
  | warn reason => exact transition_limits _ _
  | kill reason =>
      simp only [step, kill]
      exact transition_limits _ _
  | fault reason => exact transition_limits _ _
  | rearm =>
      simp only [step, rearm]
      split
      · rfl
      · rfl
  | evaluate action input now => exact evaluate_limits action input now

theorem not_recovered_of_not_mem {ops : List Op} (h : .rearm ∉ ops) : ¬Recovered ops engine := by
  induction ops generalizing engine with
  | nil => exact id
  | cons op ops ih =>
      rw [List.mem_cons, not_or] at h
      rintro (⟨hrearm, -, -⟩ | hlater)
      · exact h.1 hrearm.symm
      · exact ih h.2 hlater

/-- The engine is blocked and stays so over the calls to come. -/
def Halted (later : List Op) (engine : RiskEngine D) : Prop :=
  engine.Latched ∧ ¬Recovered later engine ∨
    engine.Blocked ∧ ¬Machine.Sometime step ArmsAt later engine

theorem Halted.blocked {later : List Op} (h : Halted later engine) : engine.Blocked := by
  rcases h with ⟨hlatched, -⟩ | ⟨hblocked, -⟩
  · exact hlatched.blocked
  · exact hblocked

theorem Halted.step {op : Op} {later : List Op} (h : Halted (op :: later) engine) :
    Halted later (RiskEngine.step op engine) := by
  rcases h with ⟨hlatched, hrecovered⟩ | ⟨hblocked, harms⟩
  · simp only [Recovered, not_or] at hrecovered
    rcases latched_step op hlatched with hnext | ⟨hrearm, hok, hblocked⟩
    · exact .inl ⟨hnext, hrecovered.2⟩
    · exact .inr ⟨hblocked, fun harms => hrecovered.1 ⟨hrearm, hok, harms⟩⟩
  · simp only [Machine.Sometime, not_or] at harms
    exact .inr ⟨blocked_step hblocked harms.1, harms.2⟩

theorem Halted.run {ops later : List Op} (h : Halted (ops ++ later) engine) :
    Halted later (Machine.run RiskEngine.step ops engine) := by
  induction ops generalizing engine with
  | nil => exact h
  | cons op ops ih => exact ih h.step

end RiskEngine

end MmEngine.Risk
