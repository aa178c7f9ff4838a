/-
# The rate of approvals

Over the rationals each limiter is a token bucket: what it grants is paid for, and an
order is let through only when the bucket of its kind and the bucket of all actions
have granted it. So in any window of any run the orders let through are bounded by the
burst allowance and what accrues at the configured rate.
-/

import Mathlib.Data.List.ReduceOption
import MmEngine.Lib.TokenBucket
import MmEngine.Risk.Permission

namespace MmEngine.Risk

open MmEngine.Quote TokenBucket

namespace RateLimiter

/-- A limiter as the library sees it. -/
def toBucket (limiter : RateLimiter ℚ) : Bucket ℚ := ⟨limiter.tokens, limiter.lastRefillNs⟩

/-- Tokens that accrue in a nanosecond. -/
def perNano (rate : Int) : ℚ := rate / 1000000000

/-- A limiter of the given size: its tokens are within the capacity, and before the first
refill they are all there. -/
structure Sized (capacity rate : Int) (limiter : RateLimiter ℚ) : Prop where
  size : limiter.capacity = capacity
  speed : limiter.perSecond = rate
  nonneg : 0 ≤ limiter.tokens
  capped : limiter.tokens ≤ capacity
  refilled : 0 ≤ limiter.lastRefillNs
  full : limiter.lastRefillNs = 0 → limiter.tokens = capacity

variable {limiter : RateLimiter ℚ} {capacity rate : Int} {now : Nanos}

theorem sized_new (h : 0 ≤ capacity) : Sized capacity rate (RateLimiter.new capacity rate) where
  size := rfl
  speed := rfl
  nonneg := Int.cast_nonneg h
  capped := le_rfl
  refilled := le_rfl
  full := fun _ => rfl

/-- A refill stays within the capacity and adds no more than has accrued. -/
theorem Sized.projectedTokens (h : Sized capacity rate limiter) (hrate : 0 < rate)
    (hlast : limiter.lastRefillNs ≤ now) :
    0 ≤ limiter.projectedTokens now ∧ limiter.projectedTokens now ≤ capacity ∧
      limiter.projectedTokens now ≤
        limiter.tokens + perNano rate * (now - limiter.lastRefillNs) := by
  have hcapacity : (0 : ℚ) ≤ capacity := h.nonneg.trans h.capped
  have helapsed : (0 : ℚ) ≤ now - limiter.lastRefillNs := by
    rw [sub_nonneg]
    exact_mod_cast hlast
  have hperNano : 0 ≤ perNano rate := div_nonneg (Int.cast_nonneg hrate.le) (by norm_num)
  have haccrued := mul_nonneg hperNano helapsed
  rw [RateLimiter.projectedTokens]
  split
  · rename_i hfresh
    have hcap : (Double.ofInt limiter.capacity : ℚ) = capacity := congrArg _ h.size
    rw [hcap]
    refine ⟨hcapacity, le_rfl, ?_⟩
    linarith [h.full hfresh]
  · dsimp only
    split
    · exact ⟨h.nonneg, h.capped, by linarith⟩
    · have hcap : (Double.ofInt limiter.capacity : ℚ) = capacity := congrArg _ h.size
      have hrefilled : limiter.tokens +
            Double.ofInt (now - limiter.lastRefillNs) / Double.ofInt 1000000000 *
              Double.ofInt limiter.perSecond =
          limiter.tokens + perNano rate * (now - limiter.lastRefillNs) := by
        rw [h.speed, perNano]
        simp only [Double.ofInt]
        push_cast
        ring
      rw [hcap, hrefilled]
      have hnonneg := h.nonneg
      by_cases hover : (capacity : ℚ) < limiter.tokens +
          perNano rate * (now - limiter.lastRefillNs)
      · rw [if_pos (by simpa [Double.lt] using hover)]
        exact ⟨hcapacity, le_rfl, hover.le⟩
      · rw [if_neg (by simpa [Double.lt] using hover)]
        exact ⟨by linarith, not_lt.mp hover, le_rfl⟩

/-- A draw on a limiter is a draw on its bucket. -/
theorem Sized.tryAcquire (h : Sized capacity rate limiter) (hrate : 0 < rate) (hnow : 0 < now)
    (hlast : limiter.lastRefillNs ≤ now) :
    Sized capacity rate (limiter.tryAcquire now).2 ∧
      Draw (capacity : ℚ) (perNano rate) limiter.toBucket now (limiter.tryAcquire now).1
        (limiter.tryAcquire now).2.toBucket := by
  obtain ⟨hnonneg, hcapped, haccrued⟩ := h.projectedTokens hrate hlast
  have hlater : (limiter.lastRefillNs : ℚ) ≤ now := by exact_mod_cast hlast
  rw [RateLimiter.tryAcquire, if_neg (by rw [h.speed]; omega)]
  dsimp only
  split
  · refine ⟨⟨h.size, h.speed, hnonneg, hcapped, hnow.le, ?_⟩,
      ⟨hlater, rfl, hnonneg, ?_, ?_⟩⟩
    · exact fun hzero => absurd hzero hnow.ne'
    · simpa [toBucket, refill] using hcapped
    · simpa [toBucket, refill] using haccrued
  · rename_i hgranted
    have hone : 1 ≤ limiter.projectedTokens now := by
      simpa [Double.lt, refill, Double.ofInt] using hgranted
    have htokens : limiter.projectedTokens now - Double.ofInt 1 =
        limiter.projectedTokens now - 1 := by simp [Double.ofInt]
    simp only [refill, htokens]
    refine ⟨⟨h.size, h.speed, sub_nonneg.mpr hone, by dsimp only; linarith, hnow.le, ?_⟩,
      ⟨hlater, rfl, sub_nonneg.mpr hone, ?_, ?_⟩⟩
    · exact fun hzero => absurd hzero hnow.ne'
    · simpa [toBucket] using hcapped
    · simpa [toBucket] using haccrued

end RateLimiter

namespace RiskEngine

section Budgets

variable {D : Type} {engine : RiskEngine D} {action : OrderAction} {input : RiskInput}
  {spec : InstrumentSpec} {limits : SymbolLimits} {now : Nanos}

/-- The limiters that can refuse: of new orders, of replaces, and of both together. -/
def budgets (engine : RiskEngine D) : RateLimiter D × RateLimiter D × RateLimiter D :=
  (engine.newOrders, engine.replaces, engine.allActions)

theorem budgets_transition (target : RiskState) (reason : RiskReason) :
    (engine.transition target reason).budgets = engine.budgets := by
  rw [transition]
  split
  · rfl
  · rfl

theorem budgets_stampApproval (decision : RiskDecision) :
    (engine.stampApproval decision).2.budgets = engine.budgets := by
  rw [stampApproval]
  split
  · rfl
  · rfl

theorem budgets_approveWith (decision : RiskDecision) :
    (engine.approveWith decision).2.budgets = engine.budgets :=
  budgets_stampApproval decision

variable [Double D]

theorem budgets_measure :
    (engine.measure action input spec limits now).2.budgets = engine.budgets := by
  rw [measure]
  split
  · exact budgets_approveWith _
  · rw [reduceAction]
    dsimp only
    split
    · rfl
    split
    · rfl
    split
    · rfl
    · exact budgets_approveWith _

theorem budgets_approveCancel :
    (engine.approveCancel action input now).2.budgets = engine.budgets := by
  simp only [approveCancel]
  split
  · exact budgets_stampApproval _
  · split
    · exact budgets_stampApproval _
    · exact budgets_stampApproval _

/-- Only an action that adds exposure draws on the buckets, and it goes through only when
they have granted it. -/
theorem evaluate_budgets (engine : RiskEngine D) (action : OrderAction) (input : RiskInput)
    (now : Nanos) :
    (engine.evaluate action input now).2.budgets = engine.budgets ∧
        (action.addsExposure = true → (engine.evaluate action input now).1.isApproved = false) ∨
      action.addsExposure = true ∧
        (engine.evaluate action input now).2.budgets =
          (engine.acquireBudget action now).2.budgets ∧
        ((engine.evaluate action input now).1.isApproved = true →
          (engine.acquireBudget action now).1 = true) := by
  by_cases htype : action.type = .new ∨ action.type = .replace
  · have hadds : action.addsExposure = true := by simpa [OrderAction.addsExposure] using htype
    rw [evaluate_of_addsExposure htype, evaluateExposure]
    split
    · dsimp only
      split
      · exact .inr ⟨hadds, rfl, fun h => absurd h Bool.false_ne_true⟩
      · rename_i hgranted
        exact .inr ⟨hadds, budgets_measure, fun _ => by simpa using hgranted⟩
    · exact .inl ⟨rfl, fun _ => rfl⟩
    · exact .inl ⟨rfl, fun _ => rfl⟩
    · exact .inl ⟨rfl, fun _ => rfl⟩
  · have hadds : ¬action.addsExposure = true := by simpa [OrderAction.addsExposure] using htype
    refine .inl ⟨?_, fun h => absurd h hadds⟩
    rw [evaluate]
    split
    · exact budgets_approveWith _
    · exact budgets_approveCancel
    · rename_i hnew
      exact absurd (.inl hnew) htype
    · rename_i hreplace
      exact absurd (.inr hreplace) htype

/-- A limiter meters a kind of action: it is drawn on by evaluations only, and an action
of the kind goes through only when it has granted. -/
structure Meters (limiter : RiskEngine D → RateLimiter D) (counts : OrderAction → Bool) : Prop where
  budgets : ∀ engine other : RiskEngine D, engine.budgets = other.budgets →
    limiter engine = limiter other
  exposes : ∀ action, counts action = true → action.addsExposure = true
  acquires : ∀ (engine : RiskEngine D) action now, action.addsExposure = true →
    limiter (engine.acquireBudget action now).2 = limiter engine ∧
        (counts action = true → (engine.acquireBudget action now).1 = false) ∨
      limiter (engine.acquireBudget action now).2 = ((limiter engine).tryAcquire now).2 ∧
        (counts action = true → (engine.acquireBudget action now).1 = true →
          ((limiter engine).tryAcquire now).1 = true)

def isNew (action : OrderAction) : Bool := action.type = .new

def isReplace (action : OrderAction) : Bool := action.type = .replace

omit [Double D] in
theorem limiter_eq {engine other : RiskEngine D} (h : engine.budgets = other.budgets) :
    engine.newOrders = other.newOrders ∧ engine.replaces = other.replaces ∧
      engine.allActions = other.allActions := by
  simpa only [budgets, Prod.mk.injEq] using h

/-- The bucket of the kind is drawn on first; the other kind's is left alone. -/
theorem acquireBudget_new (engine : RiskEngine D) (now : Nanos) (htype : action.type = .new) :
    (engine.acquireBudget action now).2.newOrders = (engine.newOrders.tryAcquire now).2 ∧
      (engine.acquireBudget action now).2.replaces = engine.replaces ∧
      ((engine.acquireBudget action now).1 = true →
        (engine.newOrders.tryAcquire now).1 = true) := by
  simp only [acquireBudget, if_pos htype]
  split
  · exact ⟨rfl, rfl, fun h => absurd h Bool.false_ne_true⟩
  · rename_i hgranted
    exact ⟨rfl, rfl, fun _ => by simpa using hgranted⟩

theorem acquireBudget_replace (engine : RiskEngine D) (now : Nanos)
    (htype : action.type = .replace) :
    (engine.acquireBudget action now).2.replaces = (engine.replaces.tryAcquire now).2 ∧
      (engine.acquireBudget action now).2.newOrders = engine.newOrders ∧
      ((engine.acquireBudget action now).1 = true →
        (engine.replaces.tryAcquire now).1 = true) := by
  have hnew : ¬action.type = .new := by simp [htype]
  simp only [acquireBudget, if_neg hnew]
  split
  · exact ⟨rfl, rfl, fun h => absurd h Bool.false_ne_true⟩
  · rename_i hgranted
    exact ⟨rfl, rfl, fun _ => by simpa using hgranted⟩

theorem meters_newOrders : Meters (fun engine : RiskEngine D => engine.newOrders) isNew where
  budgets := fun _ _ h => (limiter_eq h).1
  exposes := fun action hnew => by
    simp only [isNew, decide_eq_true_eq] at hnew
    simp [OrderAction.addsExposure, hnew]
  acquires := fun engine action now hadds => by
    simp only [OrderAction.addsExposure, Bool.or_eq_true, decide_eq_true_eq] at hadds
    rcases hadds with hnew | hreplace
    · obtain ⟨hdrawn, -, hgranted⟩ := acquireBudget_new engine now hnew
      exact .inr ⟨hdrawn, fun _ => hgranted⟩
    · obtain ⟨-, hkept, -⟩ := acquireBudget_replace engine now hreplace
      exact .inl ⟨hkept, fun hnew => by simp [isNew, hreplace] at hnew⟩

theorem meters_replaces : Meters (fun engine : RiskEngine D => engine.replaces) isReplace where
  budgets := fun _ _ h => (limiter_eq h).2.1
  exposes := fun action hreplace => by
    simp only [isReplace, decide_eq_true_eq] at hreplace
    simp [OrderAction.addsExposure, hreplace]
  acquires := fun engine action now hadds => by
    simp only [OrderAction.addsExposure, Bool.or_eq_true, decide_eq_true_eq] at hadds
    rcases hadds with hnew | hreplace
    · obtain ⟨-, hkept, -⟩ := acquireBudget_new engine now hnew
      exact .inl ⟨hkept, fun hreplace => by simp [isReplace, hnew] at hreplace⟩
    · obtain ⟨hdrawn, -, hgranted⟩ :=
        acquireBudget_replace engine now hreplace
      exact .inr ⟨hdrawn, fun _ => hgranted⟩

/-- The bucket of all actions is drawn on when the first one has granted. -/
theorem meters_allActions :
    Meters (fun engine : RiskEngine D => engine.allActions) OrderAction.addsExposure where
  budgets := fun _ _ h => (limiter_eq h).2.2
  exposes := fun _ h => h
  acquires := fun engine action now _ => by
    simp only [acquireBudget]
    split
    · split
      · exact .inl ⟨rfl, fun _ => rfl⟩
      · exact .inr ⟨rfl, fun _ h => h⟩
    · split
      · exact .inl ⟨rfl, fun _ => rfl⟩
      · exact .inr ⟨rfl, fun _ h => h⟩

end Budgets

/-! ## Runs -/

/-- An evaluation in a run: when it was made, of what, and what it decided. -/
structure Judgement where
  now : Nanos
  action : OrderAction
  decision : RiskDecision

section Runs

variable {D : Type} [Double D]

def judge (op : Op) (engine : RiskEngine D) : Option Judgement :=
  match op with
  | .evaluate action input now => some ⟨now, action, (engine.evaluate action input now).1⟩
  | _ => none

/-- The evaluations of a run, in order. -/
def judgements (ops : List Op) (engine : RiskEngine D) : List Judgement :=
  (Machine.outputs step judge ops engine).reduceOption

/-- The time an evaluation is made at. -/
def Op.time : Op → Option Nanos
  | .evaluate _ _ now => some now
  | _ => none

/-- Evaluations at positive times that do not go back. -/
structure Chronological (ops : List Op) : Prop where
  positive : ∀ now ∈ ops.filterMap Op.time, 0 < now
  sorted : (ops.filterMap Op.time).Pairwise (· ≤ ·)

/-- The actions of a kind let through within a window, in full or reduced. -/
def approvals (counts : OrderAction → Bool) (since till : Nanos) (ops : List Op)
    (engine : RiskEngine D) : Nat :=
  (judgements ops engine).countP fun judgement =>
    counts judgement.action && judgement.decision.isApproved &&
      decide (since ≤ judgement.now) && decide (judgement.now ≤ till)

end Runs

/-- The evaluations of a run as draws on a bucket: those that count let an action of the
kind through. -/
def draws (counts : OrderAction → Bool) (judgements : List Judgement) : List (ℚ × Bool) :=
  judgements.map fun judgement =>
    (judgement.now, counts judgement.action && judgement.decision.isApproved)

theorem countWithin_draws (counts : OrderAction → Bool) (since till : Nanos) (ops : List Op)
    (engine : RiskEngine ℚ) :
    countWithin (since : ℚ) till (draws counts (judgements ops engine)) =
      approvals counts since till ops engine := by
  rw [countWithin, draws, List.countP_map, approvals]
  congr 1
  funext judgement
  simp [Int.cast_le]

variable {limiter : RiskEngine ℚ → RateLimiter ℚ} {counts : OrderAction → Bool}
  {capacity rate : Int}

/-- The calls of the operator draw on no limiter. -/
theorem Meters.step_eq (h : Meters limiter counts) {op : Op} (htime : op.time = none)
    (engine : RiskEngine ℚ) : limiter (step op engine) = limiter engine := by
  apply h.budgets
  cases op with
  | arm =>
      simp only [step, arm]
      split
      · rfl
      · split
        · exact budgets_transition _ _
        · rfl
  | warn reason => exact budgets_transition _ _
  | kill reason => exact budgets_transition _ _
  | fault reason => exact budgets_transition _ _
  | rearm =>
      simp only [step, rearm]
      split
      · rfl
      · rfl
  | evaluate action input now => cases htime

/-- An evaluation leaves the limiter alone and does not count, or draws on it and counts
only when granted. -/
theorem Meters.evaluate (h : Meters limiter counts) (engine : RiskEngine ℚ) (action : OrderAction)
    (input : RiskInput) (now : Nanos) :
    limiter (engine.evaluate action input now).2 = limiter engine ∧
        (counts action && (engine.evaluate action input now).1.isApproved) = false ∨
      limiter (engine.evaluate action input now).2 = ((limiter engine).tryAcquire now).2 ∧
        ((counts action && (engine.evaluate action input now).1.isApproved) = true →
          ((limiter engine).tryAcquire now).1 = true) := by
  have hnone : ∀ approved : Bool, (counts action = true → approved = false) →
      (counts action && approved) = false := by
    intro approved himp
    cases hcounts : counts action with
    | false => rfl
    | true => exact himp hcounts
  rcases evaluate_budgets engine action input now with ⟨hbudgets, hrefused⟩ |
    ⟨hadds, hbudgets, hgranted⟩
  · exact .inl ⟨h.budgets _ _ hbudgets,
      hnone _ fun hcounts => hrefused (h.exposes action hcounts)⟩
  · rw [h.budgets _ _ hbudgets]
    rcases h.acquires engine action now hadds with ⟨hkept, hdenied⟩ | ⟨hdrawn, hcounted⟩
    · refine .inl ⟨hkept, hnone _ fun hcounts => ?_⟩
      by_contra happroved
      rw [Bool.not_eq_false] at happroved
      rw [hdenied hcounts] at hgranted
      exact absurd (hgranted happroved) (by decide)
    · refine .inr ⟨hdrawn, fun hcounts => ?_⟩
      rw [Bool.and_eq_true] at hcounts
      exact hcounted hcounts.1 (hgranted hcounts.2)

theorem Chronological.tail {op : Op} {ops : List Op} (h : Chronological (op :: ops)) :
    Chronological ops ∧
      ∀ now ∈ op.time, 0 < now ∧ ∀ later ∈ ops.filterMap Op.time, now ≤ later := by
  obtain ⟨hpositive, hsorted⟩ := h
  rw [List.filterMap_cons] at hpositive hsorted
  cases htime : op.time with
  | none =>
      rw [htime] at hpositive hsorted
      exact ⟨⟨hpositive, hsorted⟩, fun now hnow => absurd hnow (Option.not_mem_none now)⟩
  | some first =>
      rw [htime] at hpositive hsorted
      rw [List.pairwise_cons] at hsorted
      refine ⟨⟨fun now hnow => hpositive now (.tail _ hnow), hsorted.2⟩, ?_⟩
      rintro _ ⟨⟩
      exact ⟨hpositive first (.head _), hsorted.1⟩

/-- Along a run the evaluations are draws on the limiter's bucket. -/
theorem Meters.trace (h : Meters limiter counts) (hrate : 0 < rate) {ops : List Op}
    (hchronological : Chronological ops) {engine : RiskEngine ℚ}
    (hsized : (limiter engine).Sized capacity rate)
    (hlast : ∀ now ∈ ops.filterMap Op.time, (limiter engine).lastRefillNs ≤ now) :
    Trace (capacity : ℚ) (RateLimiter.perNano rate) (limiter engine).toBucket
      (draws counts (judgements ops engine)) := by
  induction ops generalizing engine with
  | nil => exact .nil _
  | cons op ops ih =>
      obtain ⟨hrest, hfirst⟩ := hchronological.tail
      rw [List.filterMap_cons] at hlast
      cases htime : op.time with
      | none =>
          have hkept := h.step_eq htime engine
          rw [htime] at hlast
          have hjudge : judge op engine = none := by
            cases op <;> first | rfl | cases htime
          rw [judgements, Machine.outputs, hjudge, List.reduceOption_cons_of_none, ← hkept]
          rw [← hkept] at hsized hlast
          exact ih hrest hsized hlast
      | some now =>
          rw [htime] at hlast
          obtain ⟨hnow, hlater⟩ := hfirst now htime
          obtain ⟨action, input, rfl⟩ : ∃ action input, op = .evaluate action input now := by
            cases op with
            | evaluate action input time =>
                cases htime
                exact ⟨action, input, rfl⟩
            | _ => cases htime
          rw [judgements, Machine.outputs, judge, List.reduceOption_cons_of_some, draws,
            List.map_cons]
          have hprior := hlast now (.head _)
          rcases h.evaluate engine action input now with ⟨hkept, hcounts⟩ | ⟨hdrawn, hcounts⟩
          · rw [hcounts]
            refine .idle _ ?_
            rw [← hkept] at hsized ⊢
            refine ih hrest hsized fun later hmem => ?_
            exact hkept ▸ hprior.trans (hlater later hmem)
          · obtain ⟨hsized', hdraw⟩ := hsized.tryAcquire hrate hnow hprior
            rw [← hdrawn] at hsized' hdraw
            refine .draw hdraw hcounts (ih hrest hsized' fun later hmem => ?_)
            have hrefilled : (limiter (engine.evaluate action input now).2).lastRefillNs = now :=
              Int.cast_injective hdraw.last
            exact hrefilled.trans_le (hlater later hmem)

/-- In any window what a limiter meters is within its capacity and what accrues. -/
theorem Meters.approvals_le (h : Meters limiter counts) (hrate : 0 < rate) {ops : List Op}
    (hchronological : Chronological ops) {engine : RiskEngine ℚ}
    (hsized : (limiter engine).Sized capacity rate) (hfresh : (limiter engine).lastRefillNs = 0)
    (since : Nanos) {width : Nanos} (hwidth : 0 ≤ width) :
    (approvals counts since (since + width) ops engine : ℚ) ≤
      capacity + rate * width / 1000000000 := by
  have htrace := h.trace hrate hchronological hsized fun now hnow =>
    hfresh.le.trans (hchronological.positive now hnow).le
  have hwithin : (countWithin (since : ℚ) (since + width)
        (draws counts (judgements ops engine)) : ℚ) ≤
      capacity + RateLimiter.perNano rate * width :=
    htrace.countWithin_le (div_nonneg (Int.cast_nonneg hrate.le) (by norm_num))
      (hsized.nonneg.trans hsized.capped) (Int.cast_nonneg hwidth)
  rw [← Int.cast_add, countWithin_draws] at hwithin
  calc
    (approvals counts since (since + width) ops engine : ℚ)
        ≤ capacity + RateLimiter.perNano rate * width := hwithin
    _ = capacity + rate * width / 1000000000 := by
        rw [RateLimiter.perNano]
        ring

/-- A new engine starts with full buckets. -/
theorem sized_bucket (global : GlobalLimits) {rate : Int} (hrate : 0 < rate) :
    (bucket global rate : RateLimiter ℚ).Sized (bucket global rate : RateLimiter ℚ).capacity
      rate := by
  rw [bucket]
  apply RateLimiter.sized_new
  split
  · rename_i hburst
    exact le_of_lt hburst
  · exact hrate.le

/-- Over every run of a new engine with evaluations at positive times that do not go back,
the new orders let through in a window are within the burst allowance and what accrues
at their rate; and so are the replaces, and both together. -/
theorem approvals_within_rate (limits : RiskLimits) {ops : List Op} (hops : Chronological ops)
    (since : Nanos) {width : Nanos} (hwidth : 0 ≤ width) :
    (0 < limits.global.maxNewOrdersPerSecond →
        (approvals isNew since (since + width) ops (RiskEngine.new limits : RiskEngine ℚ) : ℚ) ≤
          (RiskEngine.new limits : RiskEngine ℚ).newOrders.capacity +
            limits.global.maxNewOrdersPerSecond * width / 1000000000) ∧
      (0 < limits.global.maxReplacesPerSecond →
        (approvals isReplace since (since + width) ops (RiskEngine.new limits : RiskEngine ℚ) :
            ℚ) ≤
          (RiskEngine.new limits : RiskEngine ℚ).replaces.capacity +
            limits.global.maxReplacesPerSecond * width / 1000000000) ∧
      (0 < limits.global.maxActionsPerSecond →
        (approvals OrderAction.addsExposure since (since + width) ops
            (RiskEngine.new limits : RiskEngine ℚ) : ℚ) ≤
          (RiskEngine.new limits : RiskEngine ℚ).allActions.capacity +
            limits.global.maxActionsPerSecond * width / 1000000000) := by
  refine ⟨fun hrate => ?_, fun hrate => ?_, fun hrate => ?_⟩
  · exact meters_newOrders.approvals_le hrate hops (sized_bucket limits.global hrate) rfl since
      hwidth
  · exact meters_replaces.approvals_le hrate hops (sized_bucket limits.global hrate) rfl since
      hwidth
  · exact meters_allActions.approvals_le hrate hops (sized_bucket limits.global hrate) rfl since
      hwidth

/-- The small market, for two new orders a second. -/
def pacedLimits : RiskLimits where
  global := { maxNewOrdersPerSecond := 2 }
  symbols := [sampleLimits]
  length_le := sampleLimits_length

/-- Four bids within a millisecond, of an armed engine. -/
def pacedRun : List Op :=
  .arm :: [1, 2, 3, 1000000].map fun now => .evaluate (sampleAction .new) (sampleInput 0) now

/-- Two of the four pass. -/
theorem approvals_within_rate_sample :
    approvals isNew 0 1000000 pacedRun (RiskEngine.new pacedLimits : RiskEngine ℚ) = 2 ∧
      (approvals isNew 0 (0 + 1000000) pacedRun (RiskEngine.new pacedLimits : RiskEngine ℚ) :
        ℚ) ≤ 2 + 2 * 1000000 / 1000000000 := by
  refine ⟨by decide +kernel, ?_⟩
  have hops : Chronological pacedRun := ⟨by decide, by decide⟩
  have hbound := (approvals_within_rate pacedLimits hops 0 (by decide : (0 : Int) ≤ 1000000)).1
    (by decide)
  have hcapacity : (RiskEngine.new pacedLimits : RiskEngine ℚ).newOrders.capacity = 2 := rfl
  have hrate : pacedLimits.global.maxNewOrdersPerSecond = 2 := rfl
  rw [hcapacity, hrate] at hbound
  simpa using hbound

end RiskEngine

end MmEngine.Risk
