/-
# What an approval is worth

An approved order, as it is or reduced, keeps the position within its limit however
the working orders fill: any part of every bid with any part of every ask. The worst
cases bound all of these outcomes, and a limit below the greatest quantity cannot be
met by an absolute value that saturated. The other bounds on the order and on its
side hold of the quantity approved.
-/

import MmEngine.Risk.RiskEngine

namespace MmEngine.Risk

open MmEngine.Exchange MmEngine.Quote

/-- What works on a side once an order has been approved: the side of the order
loses the remainder of the order it atomically replaces, down to zero, and gains the
approved quantity. -/
def workingAfter (action : OrderAction) (input : RiskInput) (quantity : Qty) (side : Side) : Int :=
  if side = action.side then
    (if action.type = .replace ∧ input.atomicReplace = true ∧ 0 < input.replacedOrderRemaining.raw
      then max 0 ((input.exposure.working side).raw - input.replacedOrderRemaining.raw)
      else (input.exposure.working side).raw) + quantity.raw
  else (input.exposure.working side).raw

/-- The engine's projection takes the replaced order off its side. -/
theorem projectedExposure_working {action : OrderAction} {input : RiskInput}
    {projected : ExposureSnapshot} (h : projectedExposure action input = some projected)
    (quantity : Qty) (side : Side) :
    (projected.working side).raw + (if side = action.side then quantity.raw else 0) =
      workingAfter action input quantity side := by
  rw [projectedExposure] at h
  rw [workingAfter]
  split at h
  · rename_i hreplaces
    simp only [Bool.and_eq_true, decide_eq_true_eq, Fixed.isPositive_iff, and_assoc] at hreplaces
    obtain ⟨reduced, hreduced, rfl⟩ := Option.map_eq_some_iff.mp h
    rw [Fixed.checkedSub_eq_some_iff] at hreduced
    rw [ExposureSnapshot.withWorking_working]
    by_cases hside : side = action.side
    · subst hside
      rw [if_pos rfl, if_pos rfl, if_pos rfl, if_pos hreplaces, ← hreduced]
      split
      · rename_i hpositive
        rw [Fixed.isPositive_iff] at hpositive
        rw [max_eq_right hpositive.le]
      · rename_i hpositive
        rw [Fixed.isPositive_iff, Int.not_lt] at hpositive
        rw [max_eq_left hpositive, Fixed.zero_raw]
    · rw [if_neg (Ne.symm hside), if_neg hside, if_neg hside, add_zero]
  · rename_i hreplaces
    simp only [Bool.and_eq_true, decide_eq_true_eq, Fixed.isPositive_iff, and_assoc] at hreplaces
    cases h
    by_cases hside : side = action.side
    · rw [if_pos hside, if_pos hside, if_neg hreplaces]
    · rw [if_neg hside, if_neg hside, add_zero]

/-- The worst cases are those of the sides with the order added. -/
theorem computeWorstCaseWith_eq_some {position : PositionSnapshot} {exposure : ExposureSnapshot}
    {side : Side} {quantity : Qty} {worst : WorstCaseExposure}
    (h : computeWorstCaseWith position exposure side quantity = some worst) :
    worst.worstCaseLong.raw = position.quantity.raw + ((exposure.working .buy).raw +
        if Side.buy = side then quantity.raw else 0) ∧
      worst.worstCaseShort.raw = position.quantity.raw - ((exposure.working .sell).raw +
        if Side.sell = side then quantity.raw else 0) := by
  simp only [computeWorstCaseWith, Option.bind_eq_bind, Option.bind_eq_some_iff] at h
  obtain ⟨total, htotal, h⟩ := h
  rw [computeWorstCase] at h
  split at h
  · cases h
  simp only [Option.bind_eq_bind, Option.bind_eq_some_iff] at h
  obtain ⟨long, hlong, short, hshort, hworst⟩ := h
  rw [Fixed.checkedAdd_eq_some_iff] at htotal hlong
  rw [Fixed.checkedSub_eq_some_iff] at hshort
  cases hworst
  cases side with
  | buy =>
      simp only [ExposureSnapshot.withWorking, ExposureSnapshot.working] at *
      simp [hlong, hshort, htotal]
  | sell =>
      simp only [ExposureSnapshot.withWorking, ExposureSnapshot.working] at *
      simp [hlong, hshort, htotal]

/-- A peak within a limit that is not the greatest quantity bounds both worst cases
exactly. -/
theorem WorstCaseExposure.abs_le_of_peakAbsolute_le {worst : WorstCaseExposure} {limit : Int}
    (h : worst.peakAbsolute.raw ≤ limit) (hlimit : limit < rawMax) :
    |worst.worstCaseLong.raw| ≤ limit ∧ |worst.worstCaseShort.raw| ≤ limit := by
  simp only [peakAbsolute] at h
  constructor
  · apply Fixed.abs_raw_le_of_saturatingAbs_le _ hlimit
    split at h <;> omega
  · apply Fixed.abs_raw_le_of_saturatingAbs_le _ hlimit
    split at h <;> omega

/-- Between the two worst cases lies every outcome of partial fills. -/
theorem abs_outcome_le {position buys sells limit bought sold : Int}
    (hlong : |position + buys| ≤ limit) (hshort : |position - sells| ≤ limit)
    (hbought : 0 ≤ bought) (hbuys : bought ≤ buys) (hsold : 0 ≤ sold) (hsells : sold ≤ sells) :
    |position + bought - sold| ≤ limit := by
  rw [abs_le] at *
  constructor
  · omega
  · omega

namespace RiskEngine

variable {D : Type} {engine : RiskEngine D}

/-- The bounds on one order hold of a quantity. -/
structure WithinOrderBounds (limits : SymbolLimits) (price : Px) (quantity : Qty) : Prop where
  quantity_pos : 0 < quantity.raw
  order_quantity : 0 < limits.maxOrderQuantity.raw → quantity.raw ≤ limits.maxOrderQuantity.raw
  order_notional : 0 < limits.maxOrderNotional.raw →
    (price.raw * quantity.raw).tdiv Fixed.kScale ≤ limits.maxOrderNotional.raw

/-- The position and exposure limits hold once a quantity is working, however the
working orders fill. -/
structure WithinExposure (limits : SymbolLimits) (position : Int) (buys sells side : Int) :
    Prop where
  position_bound : 0 < limits.maxPosition.raw → limits.maxPosition.raw < rawMax →
    ∀ bought sold : Int, 0 ≤ bought → bought ≤ buys → 0 ≤ sold → sold ≤ sells →
      |position + bought - sold| ≤ limits.maxPosition.raw
  side_exposure : 0 < limits.maxSideExposure.raw → side ≤ limits.maxSideExposure.raw
  working_exposure : 0 < limits.maxWorkingExposure.raw →
    buys + sells ≤ limits.maxWorkingExposure.raw

/-- A check that did not refuse was passed, and so was what follows it. -/
theorem of_ite_error_eq_ok {α ε : Type} {refused : Prop} [Decidable refused] {reason : ε}
    {rest : Except ε α} {result : α}
    (h : (if refused then .error reason else rest) = .ok result) :
    ¬refused ∧ rest = .ok result := by
  by_cases hrefused : refused
  · rw [if_pos hrefused] at h
    cases h
  · rw [if_neg hrefused] at h
    exact ⟨hrefused, h⟩

theorem checkOrderBounds_ok [Double D] {action : OrderAction} {quantity : Qty} {input : RiskInput}
    {spec : InstrumentSpec} {limits : SymbolLimits} {context result : LimitContext}
    (h : engine.checkOrderBounds action quantity input spec limits context = .ok result) :
    WithinOrderBounds limits action.price quantity := by
  rw [checkOrderBounds] at h
  obtain ⟨hquantity, h⟩ := of_ite_error_eq_ok h
  obtain ⟨-, h⟩ := of_ite_error_eq_ok h
  obtain ⟨horder, h⟩ := of_ite_error_eq_ok h
  split at h
  · cases h
  rename_i orderNotional hnotional
  obtain ⟨hbound, -⟩ := of_ite_error_eq_ok h
  simp only [Bool.and_eq_true, Fixed.isPositive_iff, decide_eq_true_eq, not_and, Int.not_lt,
    Bool.not_eq_true', Bool.not_eq_false] at hquantity horder hbound
  rw [checkedNotionalOf, Fixed.fromRaw?_eq_some_iff] at hnotional
  rw [hnotional] at hbound
  exact ⟨hquantity, horder, hbound⟩

/-- The working quantities stay within the limits on the side and on both. -/
theorem checkWorking_eq_none {action : OrderAction} {quantity : Qty}
    {projected : ExposureSnapshot} {limits : SymbolLimits}
    (h : checkWorking action quantity projected limits = .none) :
    (0 < limits.maxSideExposure.raw →
        (projected.working action.side).raw + quantity.raw ≤ limits.maxSideExposure.raw) ∧
      (0 < limits.maxWorkingExposure.raw →
        projected.workingBuy.raw + projected.workingSell.raw + quantity.raw ≤
          limits.maxWorkingExposure.raw) := by
  rw [checkWorking] at h
  split at h
  · cases h
  rename_i side hside
  rw [Fixed.checkedAdd_eq_some_iff] at hside
  split at h
  · cases h
  rename_i hbound
  simp only [Bool.and_eq_true, Fixed.isPositive_iff, decide_eq_true_eq, not_and,
    Int.not_lt] at hbound
  rw [hside] at hbound
  split at h
  · rename_i hunset
    simp only [Bool.not_eq_true', Fixed.isPositive_eq_false_iff] at hunset
    exact ⟨hbound, fun hset => absurd hset (by omega)⟩
  split at h
  · cases h
  rename_i gross hgross
  obtain ⟨both, hboth, hgross⟩ := Option.bind_eq_some_iff.mp hgross
  rw [Fixed.checkedAdd_eq_some_iff] at hboth hgross
  split at h
  · cases h
  rename_i hlimit
  exact ⟨hbound, fun _ => by omega⟩

theorem checkExposure_ok {action : OrderAction} {quantity : Qty} {input : RiskInput}
    {limits : SymbolLimits} {context result : LimitContext}
    (h : engine.checkExposure action quantity input limits context = .ok result) :
    WithinExposure limits input.position.quantity.raw
      (workingAfter action input quantity .buy) (workingAfter action input quantity .sell)
      (workingAfter action input quantity action.side) := by
  rw [checkExposure] at h
  obtain ⟨-, h⟩ := of_ite_error_eq_ok h
  split at h
  · cases h
  rename_i projected hprojected
  split at h
  · cases h
  rename_i worst hworst
  obtain ⟨hpeak, h⟩ := of_ite_error_eq_ok h
  obtain ⟨-, h⟩ := of_ite_error_eq_ok h
  obtain ⟨hworking, -⟩ := of_ite_error_eq_ok h
  simp only [Bool.and_eq_true, Fixed.isPositive_iff, decide_eq_true_eq, not_and,
    Int.not_lt] at hpeak
  rw [not_not] at hworking
  obtain ⟨hside, hboth⟩ := checkWorking_eq_none hworking
  obtain ⟨hlong, hshort⟩ := computeWorstCaseWith_eq_some hworst
  have hworkingAfter := projectedExposure_working hprojected quantity
  rw [hworkingAfter] at hlong hshort
  exact
    { position_bound := by
        intro hset hlimit bought sold hbought hbuys hsold hsells
        obtain ⟨hlongLe, hshortLe⟩ :=
          WorstCaseExposure.abs_le_of_peakAbsolute_le (hpeak hset) hlimit
        rw [hlong] at hlongLe
        rw [hshort] at hshortLe
        exact abs_outcome_le hlongLe hshortLe hbought hbuys hsold hsells
      side_exposure := by
        intro hset
        rw [← hworkingAfter action.side, if_pos rfl]
        exact hside hset
      working_exposure := by
        intro hset
        have htotal := hboth hset
        rw [← hworkingAfter .buy, ← hworkingAfter .sell]
        cases hactionSide : action.side <;>
          simp only [ExposureSnapshot.working, reduceCtorEq, if_true, if_false] <;> omega }

/-! ## Every approval -/

variable [Double D]

/-- The approved action passed both checks, with the quantity it carries. -/
def Checked (engine : RiskEngine D) (action approved : OrderAction) (input : RiskInput)
    (limits : SymbolLimits) : Prop :=
  ∃ quantity spec context result, approved = { action with quantity := quantity } ∧
    engine.checkBoth approved quantity input spec limits context = .ok result

theorem Checked.within {action approved : OrderAction} {input : RiskInput} {limits : SymbolLimits}
    (h : engine.Checked action approved input limits) :
    WithinOrderBounds limits action.price approved.quantity ∧
      WithinExposure limits input.position.quantity.raw
        (workingAfter action input approved.quantity .buy)
        (workingAfter action input approved.quantity .sell)
        (workingAfter action input approved.quantity action.side) := by
  obtain ⟨quantity, spec, context, result, rfl, hchecked⟩ := h
  rw [checkBoth] at hchecked
  cases hbounds : engine.checkOrderBounds { action with quantity := quantity } quantity input spec
      limits context with
  | error reason =>
      rw [hbounds] at hchecked
      cases hchecked
  | ok bounded =>
      rw [hbounds] at hchecked
      have hwithin := checkOrderBounds_ok hbounds
      exact ⟨hwithin, checkExposure_ok hchecked⟩

omit [Double D] in
theorem isApproved_rejectWith (action : OrderAction) (reason : RiskReason) (now : Nanos) :
    (engine.rejectWith action reason now).1.isApproved = false := rfl

omit [Double D] in
theorem approveWith_approved (decision : RiskDecision) :
    (engine.approveWith decision).1.approved = decision.approved := by
  have hstamped : (engine.stampApproval decision).1.approved = decision.approved := by
    rw [stampApproval]
    split <;> rfl
  exact hstamped

theorem reduceAction_checked {action : OrderAction} {input : RiskInput} {spec : InstrumentSpec}
    {limits : SymbolLimits} {context : LimitContext} {failure : RiskReason} {now : Nanos}
    (h : (engine.reduceAction action input spec limits context failure now).1.isApproved = true) :
    engine.Checked action
      (engine.reduceAction action input spec limits context failure now).1.approved input
      limits := by
  simp only [reduceAction] at h ⊢
  split
  · rename_i hreducible
    rw [if_pos hreducible, isApproved_rejectWith] at h
    cases h
  rename_i hreducible
  rw [if_neg hreducible] at h
  split
  · rename_i hpermitted
    rw [if_pos hpermitted, isApproved_rejectWith] at h
    cases h
  rename_i hpermitted
  rw [if_neg hpermitted] at h
  split
  · rename_i recheck hrecheck
    rw [hrecheck] at h
    cases h
  · rename_i revalidated hrecheck
    rw [approveWith_approved]
    exact ⟨_, spec, context, revalidated, rfl, hrecheck⟩

theorem measure_checked {action : OrderAction} {input : RiskInput} {spec : InstrumentSpec}
    {limits : SymbolLimits} {now : Nanos}
    (h : (engine.measure action input spec limits now).1.isApproved = true) :
    engine.Checked action (engine.measure action input spec limits now).1.approved input
      limits := by
  simp only [measure] at h ⊢
  split
  · rename_i context hchecked
    rw [approveWith_approved]
    exact ⟨action.quantity, spec, _, context, rfl, hchecked⟩
  · rename_i failure hfailure
    rw [hfailure] at h
    exact reduceAction_checked h

/-- An action that adds exposure is approved only within the bounds of its symbol. -/
theorem evaluateExposure_checked {action : OrderAction} {input : RiskInput} {now : Nanos}
    {limits : SymbolLimits} (hlimits : engine.limits.find input.symbol = some limits)
    (h : (engine.evaluateExposure action input now).1.isApproved = true) :
    ∃ engine' : RiskEngine D, engine'.Checked action
      (engine.evaluateExposure action input now).1.approved input limits := by
  revert h
  rw [evaluateExposure]
  split
  · rename_i spec found hscreen hinstrument hfound
    rw [hlimits] at hfound
    cases hfound
    simp only
    split
    · intro h
      cases h
    · intro h
      exact ⟨_, measure_checked h⟩
  · rename_i hmissing
    rw [hlimits] at hmissing
    cases hmissing
  · intro h
    cases h
  · intro h
    cases h

theorem evaluate_of_addsExposure {action : OrderAction} {input : RiskInput} {now : Nanos}
    (htype : action.type = .new ∨ action.type = .replace) :
    engine.evaluate action input now = engine.evaluateExposure action input now := by
  rw [evaluate]
  rcases htype with htype | htype
  · rw [htype]
  · rw [htype]

/-- Whatever is approved respects every bound of its symbol, and keeps the position
within its limit however the working orders fill. -/
theorem approved_within_limits {action : OrderAction} {input : RiskInput} {now : Nanos}
    {limits : SymbolLimits} (htype : action.type = .new ∨ action.type = .replace)
    (hlimits : engine.limits.find input.symbol = some limits)
    (h : (engine.evaluate action input now).1.verdict = .approve ∨
      (engine.evaluate action input now).1.verdict = .reduce) :
    WithinOrderBounds limits action.price (engine.evaluate action input now).1.approved.quantity ∧
      WithinExposure limits input.position.quantity.raw
        (workingAfter action input (engine.evaluate action input now).1.approved.quantity .buy)
        (workingAfter action input (engine.evaluate action input now).1.approved.quantity .sell)
        (workingAfter action input (engine.evaluate action input now).1.approved.quantity
          action.side) := by
  rw [evaluate_of_addsExposure htype] at h ⊢
  have happroved : (engine.evaluateExposure action input now).1.isApproved = true := by
    simpa [RiskDecision.isApproved] using h
  obtain ⟨engine', hchecked⟩ := evaluateExposure_checked hlimits happroved
  exact hchecked.within

/-- A small raw value. -/
def units {tag : FixedTag} (n : Int) : Fixed tag := .narrow n

def sampleSymbol : Symbol := ⟨"SOLUSDT".toList, by decide⟩

/-- At most ten units of position; the limits that arming asks for are wide. -/
def sampleLimits : SymbolLimits where
  symbol := sampleSymbol
  maxPosition := units 10
  maxOrderQuantity := units 1000
  maxOrderNotional := units 1000
  maxOpenOrders := 10

theorem sampleLimits_length : [sampleLimits].length ≤ 32 := by decide

/-- An armed engine over the one symbol. -/
def sampleEngine : RiskEngine ℚ := (RiskEngine.new { symbols := [sampleLimits] }).arm.2

/-- A bid for six units at one. -/
def sampleAction (type : OrderActionType) : OrderAction where
  type := type
  symbol := sampleSymbol
  side := .buy
  price := units 100000000
  quantity := units 6

/-- A flat position on an atomic venue; the caller reports what is left of the order
being replaced. -/
def sampleInput (remaining : Int) : RiskInput where
  symbol := sampleSymbol
  instrument := some
    { symbol := sampleSymbol
      tickSize := units 1
      lotSize := units 1
      status := .trading }
  position := { valid := true, symbol := sampleSymbol }
  bbo := { bidPx := units 99000000, bidQty := units 1, askPx := units 101000000, askQty := units 1 }
  atomicReplace := true
  replacedOrderRemaining := units remaining

theorem approved_within_limits_sample :
    (sampleEngine.evaluate (sampleAction .new) (sampleInput 0) 1).1.verdict = .approve ∧
      ∀ bought sold : Int, 0 ≤ bought → bought ≤ 6 → 0 ≤ sold → sold ≤ 0 →
        |bought - sold| ≤ 10 := by
  have happroved :
      (sampleEngine.evaluate (sampleAction .new) (sampleInput 0) 1).1.verdict = .approve := by
    decide +kernel
  have hlimits : sampleEngine.limits.find (sampleInput 0).symbol = some sampleLimits := by
    decide +kernel
  have hbound := (approved_within_limits (.inl rfl) hlimits (.inl happroved)).2.position_bound
    (by decide) (by decide)
  have hbuys : workingAfter (sampleAction .new) (sampleInput 0)
      (sampleEngine.evaluate (sampleAction .new) (sampleInput 0) 1).1.approved.quantity
        .buy = 6 := by
    decide +kernel
  have hsells : workingAfter (sampleAction .new) (sampleInput 0)
      (sampleEngine.evaluate (sampleAction .new) (sampleInput 0) 1).1.approved.quantity
        .sell = 0 := by
    decide +kernel
  have hposition : (sampleInput 0).position.quantity.raw = 0 := rfl
  have hmax : sampleLimits.maxPosition.raw = 10 := by decide
  rw [hbuys, hsells, hposition, hmax] at hbound
  refine ⟨happroved, fun bought sold hbought hfilled hsold hoffered => ?_⟩
  simpa using hbound bought sold hbought hfilled hsold hoffered

/-- A negative remainder is not taken off the side. Read as one that is, it would
allow eleven units to fill against a limit of ten. -/
theorem negative_remainder_not_subtracted :
    (sampleEngine.evaluate (sampleAction .replace) (sampleInput (-5)) 1).1.verdict = .approve ∧
      ∃ bought : Int, 0 ≤ bought ∧
        bought ≤ max 0 ((sampleInput (-5)).exposure.workingBuy.raw -
            (sampleInput (-5)).replacedOrderRemaining.raw) +
          (sampleEngine.evaluate (sampleAction .replace)
            (sampleInput (-5)) 1).1.approved.quantity.raw ∧
        sampleLimits.maxPosition.raw <
          |(sampleInput (-5)).position.quantity.raw + bought - 0| := by
  refine ⟨by decide +kernel, 11, by decide, ?_, by decide⟩
  decide +kernel

end RiskEngine

end MmEngine.Risk
