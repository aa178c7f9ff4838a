/-
# What an evaluation decides

Every exit of an evaluation is one of three: the action as it was asked for, the same
action with the largest smaller size that fits, or a refusal. An order goes through
exactly when nothing but its size is objected to and its size passes the checks, or
one that a reduction finds does.
-/

import MmEngine.Risk.Reduction

namespace MmEngine.Risk

open MmEngine.Quote

namespace RiskEngine

variable {D : Type} [Double D] {engine : RiskEngine D} {action : OrderAction} {input : RiskInput}
  {spec : InstrumentSpec} {limits : SymbolLimits} {now : Nanos}

/-- Nothing but the size of the action is left to judge: it is screened, its symbol has
limits, and both of its buckets have a token. -/
structure Cleared (engine : RiskEngine D) (action : OrderAction) (input : RiskInput)
    (spec : InstrumentSpec) (limits : SymbolLimits) (now : Nanos) : Prop where
  screened : engine.screen action input now = .none
  instrument : input.instrument = some spec
  configured : engine.limits.find input.symbol = some limits
  budget : (engine.acquireBudget action now).1 = true

/-- The action fails for a reason that a smaller one may avoid, and a single lot of it
fits. -/
structure Reducible (engine : RiskEngine D) (action : OrderAction) (input : RiskInput)
    (spec : InstrumentSpec) (limits : SymbolLimits) : Prop where
  failure : ∃ reason, engine.checkBoth action action.quantity input spec limits {} =
    .error reason ∧ reducible reason = true
  lot : engine.fits action spec.lotSize input spec limits = true

/-- The size is the one asked for, which fits, or the largest one on the lot grid that
fits in its place. -/
def Granted (engine : RiskEngine D) (action : OrderAction) (input : RiskInput)
    (spec : InstrumentSpec) (limits : SymbolLimits) (quantity : Qty) : Prop :=
  engine.fits action action.quantity input spec limits = true ∧ quantity = action.quantity ∨
    engine.Reducible action input spec limits ∧
      engine.Admissible action input spec limits quantity ∧
      ∀ other, engine.Admissible action input spec limits other → other.raw ≤ quantity.raw

theorem Granted.fits {quantity : Qty} (h : engine.Granted action input spec limits quantity) :
    engine.fits action quantity input spec limits = true := by
  rcases h with ⟨hfits, rfl⟩ | ⟨-, hadmissible, -⟩
  · exact hfits
  · exact hadmissible.fits

/-- What a screened action can rely on. -/
structure Screened (engine : RiskEngine D) (input : RiskInput) (now : Nanos) : Prop where
  active : ¬engine.Blocked
  instrument : input.instrument.any InstrumentSpec.isValid = true
  sane : input.bbo.isSane = true
  position : input.position.valid = true
  determinate : input.exposure.determinate = true
  portfolio : engine.screenPortfolio input now = .none

theorem of_ite_reason_eq_none {refused : Prop} [Decidable refused] {reason rest : RiskReason}
    (h : (if refused then reason else rest) = .none) (hreason : reason ≠ .none) :
    ¬refused ∧ rest = .none := by
  by_cases hrefused : refused
  · rw [if_pos hrefused] at h
    exact absurd h hreason
  · rw [if_neg hrefused] at h
    exact ⟨hrefused, h⟩

omit [Double D] in
theorem screened_of_screen_eq_none (h : engine.screen action input now = .none) :
    engine.Screened input now := by
  have hactive : ¬engine.Blocked := fun hblocked => screen_of_blocked hblocked action input now h
  rw [screen] at h
  iterate 5 replace h := (of_ite_reason_eq_none h (by decide)).2
  obtain ⟨hinstrument, h⟩ := of_ite_reason_eq_none h (by decide)
  obtain ⟨-, h⟩ := of_ite_reason_eq_none h (by decide)
  obtain ⟨hsane, h⟩ := of_ite_reason_eq_none h (by decide)
  obtain ⟨hposition, h⟩ := of_ite_reason_eq_none h (by decide)
  obtain ⟨-, h⟩ := of_ite_reason_eq_none h (by decide)
  obtain ⟨hdeterminate, h⟩ := of_ite_reason_eq_none h (by decide)
  exact ⟨hactive, by simpa using hinstrument, by simpa using hsane, by simpa using hposition,
    by simpa using hdeterminate, h⟩

theorem Cleared.isValid (h : engine.Cleared action input spec limits now) :
    spec.isValid = true := by
  have hvalid := (screened_of_screen_eq_none h.screened).instrument
  rw [h.instrument] at hvalid
  exact hvalid

theorem Cleared.lot_pos (h : engine.Cleared action input spec limits now) :
    0 < spec.lotSize.raw := by
  have hvalid := h.isValid
  simp only [InstrumentSpec.isValid, Bool.and_eq_true, Fixed.isPositive_iff] at hvalid
  exact hvalid.2

theorem map_ite_error {α β ε : Type} {refused : Prop} [Decidable refused] {reason : ε}
    {rest : Except ε α} (f : α → β) :
    (if refused then .error reason else rest).map f =
      if refused then .error reason else rest.map f := by
  split
  · rfl
  · rfl

theorem checkOrderBounds_context (quantity : Qty) (context : LimitContext) :
    engine.checkOrderBounds action quantity input spec limits context =
      (engine.checkOrderBounds action quantity input spec limits {}).map fun checked =>
        { context with orderNotional := checked.orderNotional } := by
  unfold checkOrderBounds
  simp only [map_ite_error]
  cases checkedNotionalOf action.price quantity with
  | none => rfl
  | some notional =>
      simp only [map_ite_error]
      rfl

omit [Double D] in
theorem checkExposure_context (quantity : Qty) (context : LimitContext) :
    engine.checkExposure action quantity input limits context =
      (engine.checkExposure action quantity input limits {}).map fun checked =>
        { context with
          peakAbsoluteExposure := checked.peakAbsoluteExposure
          workingBuy := checked.workingBuy
          workingSell := checked.workingSell } := by
  unfold checkExposure
  rw [map_ite_error]
  cases projectedExposure action input with
  | none => rfl
  | some projected =>
      dsimp only
      cases computeWorstCaseWith input.position projected action.side quantity with
      | none => rfl
      | some worst =>
          simp only [map_ite_error]
          rfl

/-- A check fails for the same reason whatever is recorded about it. -/
theorem checkBoth_error_iff (quantity : Qty) (context : LimitContext) (reason : RiskReason) :
    engine.checkBoth action quantity input spec limits context = .error reason ↔
      engine.checkBoth action quantity input spec limits {} = .error reason := by
  unfold checkBoth
  rw [checkOrderBounds_context]
  cases engine.checkOrderBounds action quantity input spec limits {} with
  | error failure => rfl
  | ok checked =>
      simp only [Except.map, Except.bind]
      rw [checkExposure_context, checkExposure_context quantity checked]
      cases engine.checkExposure action quantity input limits {} with
      | error failure => rfl
      | ok measured => simp [Except.map]

/-! ## Engines in one state -/

theorem fits_congr {other : RiskEngine D} (h : other.state = engine.state) (quantity : Qty) :
    other.fits action quantity input spec limits =
      engine.fits action quantity input spec limits := by
  rw [fits, checkBoth_congr h]
  rfl

theorem granted_congr {other : RiskEngine D} (h : other.state = engine.state) {quantity : Qty}
    (hgranted : other.Granted action input spec limits quantity) :
    engine.Granted action input spec limits quantity := by
  rcases hgranted with ⟨hfits, hquantity⟩ | ⟨⟨hfailure, hlot⟩, hadmissible, hgreatest⟩
  · exact .inl ⟨fits_congr h _ ▸ hfits, hquantity⟩
  · refine .inr ⟨⟨?_, fits_congr h _ ▸ hlot⟩, admissible_congr h.symm hadmissible, ?_⟩
    · simpa only [checkBoth_congr h] using hfailure
    · exact fun quantity hquantity => hgreatest quantity (admissible_congr h hquantity)

/-- The token of a decision carries the approved action and the next sequence. -/
structure Stamped (engine : RiskEngine D) (approved : OrderAction)
    (result : RiskDecision × RiskEngine D) : Prop where
  carries : result.1.approved = approved
  token : result.1.approval = ⟨approved, engine.approvalSequence + 1, true⟩
  sequence : result.2.approvalSequence = engine.approvalSequence + 1

/-- A refusal carries nothing that could be sent. -/
structure Refused (engine : RiskEngine D) (result : RiskDecision × RiskEngine D) : Prop where
  verdict : result.1.verdict = .reject
  noop : result.1.approved.type = .noop
  invalid : result.1.approval.valid = false
  sequence : engine.approvalSequence ≤ result.2.approvalSequence

omit [Double D] in
theorem stamped_approving {approved : OrderAction} {verdict : RiskVerdict} {reason : RiskReason}
    {context : LimitContext} (h : verdict = .approve ∨ verdict = .reduce) :
    engine.Stamped approved
      (engine.approveWith (engine.approving action approved verdict reason context now)) := by
  have happroved :
      (engine.approving action approved verdict reason context now).isApproved = true := by
    rcases h with rfl | rfl
    · rfl
    · rfl
  rw [approveWith, stampApproval, if_neg (by simp [happroved])]
  exact ⟨rfl, rfl, rfl⟩

omit [Double D] in
theorem refused_rejectWith (reason : RiskReason) :
    engine.Refused (engine.rejectWith action reason now) :=
  ⟨rfl, rfl, rfl, le_rfl⟩

/-- How the judgement of a size ends. -/
inductive Measured (engine : RiskEngine D) (action : OrderAction) (input : RiskInput)
    (spec : InstrumentSpec) (limits : SymbolLimits) (result : RiskDecision × RiskEngine D) : Prop
  | approve (verdict : result.1.verdict = .approve)
      (fits : engine.fits action action.quantity input spec limits = true)
      (stamped : engine.Stamped action result)
  | reduce (quantity : Qty) (verdict : result.1.verdict = .reduce)
      (less : quantity.raw < action.quantity.raw)
      (reducible : engine.Reducible action input spec limits)
      (admissible : engine.Admissible action input spec limits quantity)
      (greatest : ∀ other, engine.Admissible action input spec limits other →
        other.raw ≤ quantity.raw)
      (stamped : engine.Stamped { action with quantity := quantity } result)
  | reject (refused : engine.Refused result)
      (none : ∀ quantity, ¬engine.Granted action input spec limits quantity)

theorem fits_of_checkBoth_ok {quantity : Qty} {context checked : LimitContext}
    (h : engine.checkBoth action quantity input spec limits context = .ok checked) :
    engine.fits action quantity input spec limits = true := by
  rw [fits_eq_toBool_checkBoth quantity context, h]
  rfl

theorem not_fits_of_checkBoth_error {quantity : Qty} {context : LimitContext} {reason : RiskReason}
    (h : engine.checkBoth action quantity input spec limits context = .error reason) :
    engine.fits action quantity input spec limits = false := by
  rw [fits_eq_toBool_checkBoth quantity context, h]
  rfl

/-- Where the size asked for fails, what is granted in its place is reducible. -/
theorem Granted.reducible {quantity : Qty} {context : LimitContext} {reason : RiskReason}
    (h : engine.Granted action input spec limits quantity)
    (hfailure : engine.checkBoth action action.quantity input spec limits context =
      .error reason) :
    Risk.reducible reason = true ∧ engine.Reducible action input spec limits ∧
      spec.lotSize.raw ≤ action.quantity.raw := by
  rcases h with ⟨hfits, -⟩ | ⟨hreducible, hadmissible, -⟩
  · rw [not_fits_of_checkBoth_error hfailure] at hfits
    cases hfits
  · obtain ⟨failure, hsame, hfailed⟩ := hreducible.failure
    rw [checkBoth_error_iff] at hfailure
    rw [hfailure] at hsame
    cases hsame
    refine ⟨hfailed, hreducible, ?_⟩
    exact (Int.le_of_dvd hadmissible.positive hadmissible.onGrid).trans hadmissible.requested

theorem reduceAction_measured {context : LimitContext} {failure : RiskReason}
    (hlotSize : 0 < spec.lotSize.raw)
    (hfailure : engine.checkBoth action action.quantity input spec limits context =
      .error failure) :
    engine.Measured action input spec limits
      (engine.reduceAction action input spec limits context failure now) := by
  have hunfit := not_fits_of_checkBoth_error hfailure
  rw [reduceAction]
  by_cases hreducible : reducible failure = true
  · rw [if_neg (by simp [hreducible])]
    dsimp only
    by_cases hlot : engine.fits action spec.lotSize input spec limits = true ∧
        spec.lotSize.raw ≤ action.quantity.raw
    · -- The largest size is admissible, so it is positive, less than asked for, and fits.
      obtain ⟨hadmissible, hgreatest⟩ :=
        largestPermittedQuantity_of_fits_lot hlotSize hlot.1 hlot.2
      generalize engine.largestPermittedQuantity action input spec limits = permitted
        at hadmissible hgreatest
      have hless : permitted.raw < action.quantity.raw := by
        refine lt_of_le_of_ne hadmissible.requested fun heq => ?_
        have hfits := hadmissible.fits
        rw [Fixed.ext heq, hunfit] at hfits
        cases hfits
      have hpositive := (Fixed.isPositive_iff _).mpr hadmissible.positive
      rw [if_neg (by simp [hpositive, hless])]
      obtain ⟨revalidated, hrecheck⟩ := exists_checkBoth_of_fits hadmissible.fits context
      rw [hrecheck]
      dsimp only
      refine .reduce permitted rfl hless ⟨⟨failure, ?_, hreducible⟩, hlot.1⟩ hadmissible
        hgreatest (stamped_approving (.inr rfl))
      exact (checkBoth_error_iff _ _ _).mp hfailure
    · have hzero : engine.largestPermittedQuantity action input spec limits = .zero := by
        apply largestPermittedQuantity_eq_zero hlotSize
        rw [not_and_or, not_le] at hlot
        simpa using hlot
      rw [hzero, if_pos (by simp)]
      refine .reject (refused_rejectWith failure) fun quantity hgranted => hlot ?_
      obtain ⟨-, hreduced, hle⟩ := hgranted.reducible hfailure
      exact ⟨hreduced.lot, hle⟩
  · rw [if_pos (by simp [hreducible])]
    refine .reject (refused_rejectWith failure) fun quantity hgranted => hreducible ?_
    exact (hgranted.reducible hfailure).1

theorem measure_measured (hlotSize : 0 < spec.lotSize.raw) :
    engine.Measured action input spec limits (engine.measure action input spec limits now) := by
  rw [measure]
  split
  · rename_i checked hchecked
    exact .approve rfl (fits_of_checkBoth_ok hchecked) (stamped_approving (.inl rfl))
  · rename_i failure hfailure
    exact reduceAction_measured hlotSize hfailure

omit [Double D] in
theorem Stamped.congr {other : RiskEngine D} {approved : OrderAction}
    {result : RiskDecision × RiskEngine D}
    (h : other.approvalSequence = engine.approvalSequence)
    (hstamped : other.Stamped approved result) :
    engine.Stamped approved result := by
  obtain ⟨hcarries, htoken, hsequence⟩ := hstamped
  rw [h] at htoken hsequence
  exact ⟨hcarries, htoken, hsequence⟩

/-- Engines in one state that have drawn the same sequences judge alike. -/
theorem Measured.congr {other : RiskEngine D} {result : RiskDecision × RiskEngine D}
    (hstate : other.state = engine.state)
    (hsequence : other.approvalSequence = engine.approvalSequence)
    (h : other.Measured action input spec limits result) :
    engine.Measured action input spec limits result := by
  cases h with
  | approve hverdict hfits hstamped =>
      exact .approve hverdict (fits_congr hstate _ ▸ hfits) (hstamped.congr hsequence)
  | reduce quantity hverdict hless hreducible hadmissible hgreatest hstamped =>
      refine .reduce quantity hverdict hless ⟨?_, fits_congr hstate _ ▸ hreducible.lot⟩
        (admissible_congr hstate.symm hadmissible) ?_ (hstamped.congr hsequence)
      · simpa only [checkBoth_congr hstate] using hreducible.failure
      · exact fun quantity hquantity => hgreatest quantity (admissible_congr hstate hquantity)
  | reject hrefused hnone =>
      refine .reject { hrefused with sequence := hsequence ▸ hrefused.sequence } ?_
      exact fun quantity hgranted => hnone quantity (granted_congr hstate.symm hgranted)

theorem acquireBudget_approvalSequence (engine : RiskEngine D) (action : OrderAction)
    (now : Nanos) :
    (engine.acquireBudget action now).2.approvalSequence = engine.approvalSequence := by
  simp only [acquireBudget]
  split <;> split <;> rfl

/-- An action that adds exposure is refused, or it is cleared and its size is judged. -/
theorem evaluateExposure_cases (engine : RiskEngine D) (action : OrderAction) (input : RiskInput)
    (now : Nanos) :
    (engine.Refused (engine.evaluateExposure action input now) ∧
        ∀ spec limits, ¬engine.Cleared action input spec limits now) ∨
      ∃ spec limits, engine.Cleared action input spec limits now ∧
        engine.Measured action input spec limits (engine.evaluateExposure action input now) := by
  rw [evaluateExposure]
  split
  · rename_i spec limits hscreen hinstrument hlimits
    dsimp only
    split
    · rename_i hdenied
      refine .inl ⟨?_, fun spec limits hcleared => ?_⟩
      · have hrefused := @refused_rejectWith D (engine.acquireBudget action now).2 action now
          .rateLimit
        exact { hrefused with
          sequence := acquireBudget_approvalSequence engine action now ▸ hrefused.sequence }
      · rw [hcleared.budget] at hdenied
        cases hdenied
    · rename_i hgranted
      have hcleared : engine.Cleared action input spec limits now :=
        ⟨hscreen, hinstrument, hlimits, by simpa using hgranted⟩
      exact .inr ⟨spec, limits, hcleared, (measure_measured hcleared.lot_pos).congr
        (acquireBudget_state ..) (acquireBudget_approvalSequence ..)⟩
  · rename_i hlimits
    refine .inl ⟨refused_rejectWith _, fun spec limits hcleared => ?_⟩
    rw [hcleared.configured] at hlimits
    cases hlimits
  · rename_i hinstrument
    refine .inl ⟨refused_rejectWith _, fun spec limits hcleared => ?_⟩
    rw [hcleared.instrument] at hinstrument
    cases hinstrument
  · rename_i hcleared _
    refine .inl ⟨refused_rejectWith _, fun spec limits h => ?_⟩
    exact hcleared spec limits h.screened h.instrument h.configured

theorem Cleared.evaluateExposure_eq (h : engine.Cleared action input spec limits now) :
    engine.evaluateExposure action input now =
      (engine.acquireBudget action now).2.measure action input spec limits now := by
  rw [evaluateExposure, h.screened, h.instrument, h.configured]
  dsimp only
  rw [if_neg (by simp [h.budget])]

/-- An order goes through with a size exactly when it is cleared and the size is
granted. -/
theorem permitted_iff (htype : action.type = .new ∨ action.type = .replace) {quantity : Qty} :
    (engine.evaluate action input now).1.isApproved = true ∧
        (engine.evaluate action input now).1.approved.quantity = quantity ↔
      ∃ spec limits, engine.Cleared action input spec limits now ∧
        engine.Granted action input spec limits quantity := by
  rw [evaluate_of_addsExposure htype]
  rcases evaluateExposure_cases engine action input now with
    ⟨hrefused, hnone⟩ | ⟨spec, limits, hcleared, hmeasured⟩
  · constructor
    · rintro ⟨happroved, -⟩
      simp [RiskDecision.isApproved, hrefused.verdict] at happroved
    · rintro ⟨spec, limits, hcleared, -⟩
      exact absurd hcleared (hnone spec limits)
  have hsame : (∃ spec limits, engine.Cleared action input spec limits now ∧
      engine.Granted action input spec limits quantity) ↔
      engine.Granted action input spec limits quantity := by
    constructor
    · rintro ⟨other, others, hother, hgranted⟩
      obtain rfl := Option.some.inj (hother.instrument.symm.trans hcleared.instrument)
      obtain rfl := Option.some.inj (hother.configured.symm.trans hcleared.configured)
      exact hgranted
    · exact fun hgranted => ⟨spec, limits, hcleared, hgranted⟩
  rw [hsame]
  cases hmeasured with
  | approve hverdict hfits hstamped =>
      simp only [RiskDecision.isApproved, hverdict, hstamped.carries]
      constructor
      · exact fun h => .inl ⟨hfits, h.2.symm⟩
      · rintro (⟨-, hquantity⟩ | ⟨hreducible, -⟩)
        · exact ⟨rfl, hquantity.symm⟩
        · obtain ⟨reason, hreason, -⟩ := hreducible.failure
          rw [not_fits_of_checkBoth_error hreason] at hfits
          cases hfits
  | reduce found hverdict hless hreducible hadmissible hgreatest hstamped =>
      simp only [RiskDecision.isApproved, hverdict, hstamped.carries]
      constructor
      · rintro ⟨-, rfl⟩
        exact .inr ⟨hreducible, hadmissible, hgreatest⟩
      · rintro (⟨hfits, -⟩ | ⟨-, hother, hothers⟩)
        · obtain ⟨reason, hreason, -⟩ := hreducible.failure
          rw [not_fits_of_checkBoth_error hreason] at hfits
          cases hfits
        · exact ⟨rfl, Fixed.ext (le_antisymm (hothers found hadmissible) (hgreatest _ hother))⟩
  | reject hrefused hnone =>
      constructor
      · rintro ⟨happroved, -⟩
        simp [RiskDecision.isApproved, hrefused.verdict] at happroved
      · exact fun hgranted => absurd hgranted (hnone quantity)

end RiskEngine

end MmEngine.Risk
