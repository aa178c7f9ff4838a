/-
# Convergence of a replacement

A replacement asks for the desired size as the order's new size, and the venue counts
what has been filled against it; the manager compares the desired size with what
rests. The two readings agree when nothing has been filled. After a fill the amended
order rests short of the desired size by the filled quantity, and the same intent asks
for the same replacement again, unless the shortfall is below the configured fraction.
-/

import MmEngine.Oms.Terminal
import MmEngine.Quote.Watermark

namespace MmEngine.Quote

open MmEngine.Exchange
open MmEngine.Strategy

/-- The order after its replacement was accepted: it shows the new price and the new
size, keeps what was filled, and nothing about it is open. -/
structure Amended (before after : WorkingOrder) (price : Px) (quantity : Qty) : Prop where
  live : after.isLive = true
  certain : after.isUncertain = false
  settled : after.hasPendingRequest = false
  owner : after.owner = before.owner
  price_eq : after.price = price
  original_eq : after.originalQuantity = quantity
  cumulative_eq : after.cumulativeQuantity = before.cumulativeQuantity

/-- How far what rests after an accepted replacement misses the size that was asked
for: the part of it that was already filled. A negative fill, which no venue reports,
rests in excess, until the excess is not representable. -/
def shortfall (quantity cumulative : Qty) : Qty :=
  if 0 ≤ cumulative.raw then
    if cumulative.raw ≤ quantity.raw then cumulative else quantity
  else if quantity.raw - cumulative.raw ≤ rawMax then .zero - cumulative
  else quantity

namespace WorkingOrder

variable {order : WorkingOrder}

theorem present_of_isLive (h : order.isLive = true) : order.present = true := by
  rw [isLive, Bool.and_eq_true] at h
  exact h.1

theorem remaining_raw_of_nonneg (hquantity : 0 < order.originalQuantity.raw)
    (hfilled : 0 ≤ order.cumulativeQuantity.raw) :
    order.remaining.raw = max 0 (order.originalQuantity.raw - order.cumulativeQuantity.raw) := by
  have hmax := order.originalQuantity.raw_le
  have hmax' := order.cumulativeQuantity.raw_le
  have hleft : (order.originalQuantity - order.cumulativeQuantity).raw =
      order.originalQuantity.raw - order.cumulativeQuantity.raw := by
    apply Fixed.sub_raw <;> simp only [rawMin, rawMax] at * <;> omega
  simp only [remaining, Fixed.isPositive_iff, hleft]
  split
  · rw [hleft]
    omega
  · rw [Fixed.zero_raw]
    omega

theorem remaining_raw_of_neg (hfilled : order.cumulativeQuantity.raw < 0)
    (hfits : order.originalQuantity.raw - order.cumulativeQuantity.raw ≤ rawMax)
    (hquantity : 0 < order.originalQuantity.raw) :
    order.remaining.raw = order.originalQuantity.raw - order.cumulativeQuantity.raw := by
  have hleft : (order.originalQuantity - order.cumulativeQuantity).raw =
      order.originalQuantity.raw - order.cumulativeQuantity.raw := by
    apply Fixed.sub_raw <;> simp only [rawMin, rawMax] at * <;> omega
  simp only [remaining, Fixed.isPositive_iff, hleft]
  rw [if_pos (by omega), hleft]

/-- A remainder that is not representable wraps below zero. -/
theorem remaining_raw_of_overflow (hfilled : order.cumulativeQuantity.raw < 0)
    (hwraps : rawMax < order.originalQuantity.raw - order.cumulativeQuantity.raw) :
    order.remaining.raw = 0 := by
  have hmax := order.originalQuantity.raw_le
  have hmin := order.cumulativeQuantity.rawMin_le
  have hleft : (order.originalQuantity - order.cumulativeQuantity).raw =
      Int.bmod (order.originalQuantity.raw - order.cumulativeQuantity.raw) (2 ^ 64) := rfl
  have hnegative : (order.originalQuantity - order.cumulativeQuantity).raw < 0 := by
    rw [hleft, Int.bmod_def]
    simp only [rawMin, rawMax] at *
    omega
  simp only [remaining, Fixed.isPositive_iff]
  rw [if_neg (by omega), Fixed.zero_raw]

/-- What rests of an amended order differs from its size by the shortfall. -/
theorem difference_eq_shortfall {quantity : Qty} (hquantity : 0 < quantity.raw)
    (horiginal : order.originalQuantity = quantity) :
    (if quantity.raw < order.remaining.raw then order.remaining - quantity
      else quantity - order.remaining) = shortfall quantity order.cumulativeQuantity := by
  subst horiginal
  have hmax := order.originalQuantity.raw_le
  have hmin := order.cumulativeQuantity.rawMin_le
  simp only [shortfall]
  by_cases hfilled : 0 ≤ order.cumulativeQuantity.raw
  · have hremaining := remaining_raw_of_nonneg hquantity hfilled
    rw [if_pos hfilled, if_neg (by omega)]
    ext1
    rw [Fixed.sub_raw, hremaining]
    · split <;> omega
    · simp only [rawMin, rawMax] at *
      omega
    · simp only [rawMax] at *
      omega
  · rw [if_neg hfilled]
    by_cases hfits : order.originalQuantity.raw - order.cumulativeQuantity.raw ≤ rawMax
    · have hremaining := remaining_raw_of_neg (by omega) hfits hquantity
      rw [if_pos hfits, if_pos (by omega)]
      ext1
      rw [Fixed.sub_raw, hremaining, Fixed.zero_sub_raw]
      · omega
      · simp only [rawMin, rawMax] at *
        omega
      · simp only [rawMin, rawMax] at *
        omega
      · simp only [rawMin, rawMax] at *
        omega
    · have hremaining := remaining_raw_of_overflow (by omega) (Int.not_le.mp hfits)
      rw [if_neg hfits, if_neg (by omega)]
      ext1
      rw [Fixed.sub_raw, hremaining]
      · omega
      · simp only [rawMin, rawMax] at *
        omega
      · simp only [rawMax] at *
        omega

end WorkingOrder

namespace QuoteManager

variable {D : Type} [Double D] {manager : QuoteManager D}

/-! ## When the amended order is kept -/

/-- Nothing has been filled, or what is missing is below the fraction that justifies a
replacement. -/
def Absorbed (config : QuoteManagerConfig D) (quantity cumulative : Qty) : Prop :=
  cumulative.raw = 0 ∨
    Double.le config.minQuantityMoveFraction (Double.ofInt 0) = false ∧
      Double.lt (ratio D (shortfall quantity cumulative) quantity) config.minQuantityMoveFraction =
        true

omit [Double D] in
theorem shortfall_raw_eq_zero_iff {quantity cumulative : Qty} (hquantity : 0 < quantity.raw) :
    (shortfall quantity cumulative).raw = 0 ↔ cumulative.raw = 0 := by
  have hmin := cumulative.rawMin_le
  simp only [shortfall]
  split
  · split <;> omega
  · split
    · rw [Fixed.zero_sub_raw]
      · omega
      · simp only [rawMin, rawMax] at *
        omega
    · omega

/-- The price of the amended order is the desired one, so the sizes decide. -/
theorem represents_amended_iff (hticks : 1 ≤ manager.config.minPriceMoveTicks)
    (hreplenish : manager.config.replenishPartialFills = true) {order : WorkingOrder}
    {desired : DesiredQuote} (hlive : order.isLive = true) (hwanted : desired.wanted = true)
    (hprice : order.price = desired.price) (horiginal : order.originalQuantity = desired.quantity)
    (hquantity : 0 < desired.quantity.raw) (spec : InstrumentSpec) :
    manager.represents order desired spec = true ↔
      Absorbed manager.config desired.quantity order.cumulativeQuantity := by
  have hdifference := WorkingOrder.difference_eq_shortfall hquantity horiginal
  have hstill : ¬manager.config.minPriceMoveTicks ≤ 0 := by omega
  simp only [represents, hdifference, Absorbed, hprice, ticksBetween_self, hlive, hwanted,
    hreplenish, Fixed.isZero, shortfall_raw_eq_zero_iff hquantity, hstill]
  by_cases hfilled : order.cumulativeQuantity.raw = 0
  · simp [hfilled]
  · cases hfraction : Double.le manager.config.minQuantityMoveFraction (Double.ofInt 0) <;>
      simp [hfilled]

section Run

variable {intent : QuoteIntent} {input input' : QuoteManagerInput} {now now' : Nanos}

/-- Only an accepted intent moves an order, and only one that may be quoted. -/
theorem ready_of_replace {action : OrderAction}
    (hemitted : action ∈ (manager.evaluate intent input now).1.actions)
    (hreplace : action.type = .replace) :
    manager.SlotReady action.slot (desiredQuote intent input.working action.slot) input now ∧
      (input.working.slot action.slot).isLive = true ∧
      action.price = (desiredQuote intent input.working action.slot).price ∧
      action.quantity = (desiredQuote intent input.working action.slot).quantity := by
  have hadds := addsExposure_of_type (.inr hreplace)
  rcases manager.evaluate_evaluated intent input now with
    ⟨-, -, hboth, -⟩ | ⟨-, -, hboth, -⟩ | ⟨-, hresult, -⟩
  · have hsafe := hboth.actionSafe hemitted
    obtain ⟨hready, hprice, hquantity⟩ := hsafe.quotes hadds
    exact ⟨hready, hsafe.live hreplace, hprice, hquantity⟩
  · cases ((hboth.actionSafe hemitted).quotes hadds).1.wanted
  · rw [hresult] at hemitted
    cases hemitted

/-- The same venue rules apply to both calls. -/
structure SameVenue (input input' : QuoteManagerInput) : Prop where
  symbol : input'.symbol = input.symbol
  instrument : input'.instrument = input.instrument
  capabilities : input'.capabilities = input.capabilities

omit [Double D] in
/-- Validation looks at the venue's rules and the quote, not at the time. -/
theorem SameVenue.validate_eq (h : SameVenue input input') (slot : QuoteSlot)
    (desired : DesiredQuote) :
    validate slot desired input' now' = validate slot desired input now := by
  have hobjection : objection slot desired input' now' = objection slot desired input now := by
    have hprobe : probe slot desired input' now' =
        { probe slot desired input now with createdNs := now' } := by
      simp only [probe, h.symbol]
    rw [objection, objection, hprobe, validateOrder_createdNs, h.instrument, h.capabilities]
  simp only [validate, hobjection]

/-- A slot that is kept receives no action. -/
theorem BothEnd.no_action_of_keep {wanted : QuoteSlot → DesiredQuote} {result : QuoteManagerResult}
    (h : manager.BothEnd wanted intent input now result) {slot : QuoteSlot}
    (hkeep : (result.decision slot).outcome = .keep) :
    ∀ action ∈ result.actions, action.slot ≠ slot := by
  intro action hmem hslot
  have hmove : (slot, action.type) ∈ moves result :=
    List.mem_map.mpr ⟨action, hmem, by rw [hslot]⟩
  rw [h.moves_eq, List.mem_append] at hmove
  cases slot with
  | bid =>
      rcases hmove with hmove | hmove
      · rw [show result.bid.outcome = .keep from hkeep] at hmove
        cases hmove
      · cases fst_of_mem_announced hmove
  | ask =>
      rcases hmove with hmove | hmove
      · cases fst_of_mem_announced hmove
      · rw [show result.ask.outcome = .keep from hkeep] at hmove
        cases hmove

/-- Managers of the same owner under the same controls. -/
def SameControls (a b : QuoteManager D) : Prop := b.owner = a.owner ∧ b.config = a.config

omit [Double D] in
theorem sameControls_of_keeps_raise {after : QuoteManager D} {generation : Nat}
    (h : Keeps (manager.raiseGeneration generation) after) : SameControls manager after := by
  have hraise : SameControls manager (manager.raiseGeneration generation) := by
    rw [raiseGeneration]
    split <;> exact ⟨rfl, rfl⟩
  exact ⟨h.owner.trans hraise.1, h.config.trans hraise.2⟩

theorem sameControls_step (op : QuoteCall) (manager : QuoteManager D) :
    SameControls manager (step op manager) := by
  cases op with
  | disableAllQuotes input reason now =>
      have hkeeps := (manager.disableAllQuotes_spec input reason now).2
      exact ⟨hkeeps.owner, hkeeps.config⟩
  | evaluate intent input now =>
      rcases manager.evaluate_evaluated intent input now with
        ⟨-, -, -, hkeeps⟩ | ⟨-, -, -, hkeeps⟩ | ⟨-, -, hsame⟩
      · exact sameControls_of_keeps_raise hkeeps
      · exact sameControls_of_keeps_raise hkeeps
      · have howner := congrArg (fun m : QuoteManager D => m.owner) hsame
        have hconfig := congrArg (fun m : QuoteManager D => m.config) hsame
        exact ⟨howner, hconfig⟩

theorem sameControls_run (calls : List QuoteCall) (manager : QuoteManager D) :
    SameControls manager (Machine.run step calls manager) :=
  Machine.relation_run (R := SameControls) (J := fun _ => True) (fun _ => ⟨rfl, rfl⟩)
    (fun _ _ _ h h' => ⟨h'.1.trans h.1, h'.2.trans h.2⟩) (fun _ _ => id)
    (fun op s _ => sameControls_step op s) calls trivial

/-- An intent that was not refused was resolved in both slots. -/
theorem bothEnd_of_accepted (h : (manager.evaluate intent input now).1.rejection = .none) :
    manager.BothEnd (desiredQuote intent input.working) intent input now
      (manager.evaluate intent input now).1 := by
  rcases manager.evaluate_evaluated intent input now with
    ⟨-, -, hboth, -⟩ | ⟨hwithdraw, hrejection, -, -⟩ | ⟨hscreen, hresult, -⟩
  · exact hboth
  · rw [← hrejection, h] at hwithdraw
    cases hwithdraw
  · rw [hresult] at h
    exact absurd h hscreen

/-- Whether the same quote is kept once its replacement was accepted: the amended
order is kept exactly when the replacement found nothing filled, or when what is
missing is below the configured fraction. -/
theorem replace_converges_iff (hticks : 1 ≤ manager.config.minPriceMoveTicks)
    (hreplenish : manager.config.replenishPartialFills = true) {action : OrderAction}
    (hemitted : action ∈ (manager.evaluate intent input now).1.actions)
    (hreplace : action.type = .replace) (calls : List QuoteCall) (intent' : QuoteIntent)
    (input' : QuoteManagerInput) (now' : Nanos) (hvenue : SameVenue input input')
    (hquote : desiredQuote intent' input'.working action.slot =
      desiredQuote intent input.working action.slot)
    (hamended : Amended (input.working.slot action.slot) (input'.working.slot action.slot)
      action.price action.quantity)
    {later : QuoteManager D}
    (hlater : later = Machine.run step calls (manager.evaluate intent input now).2)
    (haccepted : (later.evaluate intent' input' now').1.rejection = .none) :
    ((later.evaluate intent' input' now').1.decision action.slot).outcome = .keep ∧
        (∀ further ∈ (later.evaluate intent' input' now').1.actions, further.slot ≠ action.slot) ↔
      Absorbed manager.config action.quantity
        (input.working.slot action.slot).cumulativeQuantity := by
  obtain ⟨hready, hlive, hprice, hquantity⟩ := ready_of_replace hemitted hreplace
  obtain ⟨howner, hconfig⟩ : SameControls manager later := by
    rw [hlater]
    exact sameControls_run (.evaluate intent input now :: calls) manager
  have hpositive : 0 < (desiredQuote intent input.working action.slot).quantity.raw :=
    quantity_pos_of_validateOrder (objection_eq_none_of_validate hready.wanted hready.valid)
  have hboth := bothEnd_of_accepted haccepted
  obtain ⟨actions, hexit⟩ := hboth.exit action.slot
  rw [hquote] at hexit
  -- The amended order is the manager's and nothing about it is open, so what decides
  -- is whether it represents the quote.
  have hready' : later.SlotReady action.slot (desiredQuote intent input.working action.slot) input'
      now' := by
    refine ⟨?_, hamended.certain, hamended.settled, hready.wanted, ?_⟩
    · intro _
      rw [hamended.owner, howner]
      exact hready.owned (WorkingOrder.present_of_isLive hlive)
    · exact (hvenue.validate_eq action.slot _).trans hready.valid
  have hrepresents : later.represents (input'.working.slot action.slot)
      (desiredQuote intent input.working action.slot) (input'.instrument.getD {}) = true ↔
      Absorbed later.config (desiredQuote intent input.working action.slot).quantity
        (input'.working.slot action.slot).cumulativeQuantity :=
    represents_amended_iff (hconfig ▸ hticks) (hconfig ▸ hreplenish) hamended.live hready.wanted
      (hamended.price_eq.trans hprice) (hamended.original_eq.trans hquantity) hpositive _
  rw [hconfig, hamended.cumulative_eq, ← hquantity] at hrepresents
  calc
    _ ↔ ((later.evaluate intent' input' now').1.decision action.slot).outcome = .keep :=
      and_iff_left_of_imp hboth.no_action_of_keep
    _ ↔ later.Represented action.slot (desiredQuote intent input.working action.slot) input' now' :=
      hexit.keep_iff
    _ ↔ later.represents (input'.working.slot action.slot)
          (desiredQuote intent input.working action.slot) (input'.instrument.getD {}) = true :=
      ⟨fun h => h.represents, fun h => ⟨hready', hamended.live, h⟩⟩
    _ ↔ _ := hrepresents

end Run

/-- An unfilled bid moved by a tick is kept once the venue has moved it. -/
theorem replace_converges_unfilled :
    ((sampleManager.evaluate { sampleIntent with bidPrice := .narrow 101 }
          (sampleInput (sampleOrder 0)) 1).2.evaluate { sampleIntent with bidPrice := .narrow 101 }
          (sampleInput { sampleOrder 0 with price := .narrow 101 }) 2).1.bid.outcome = .keep := by
  obtain ⟨action, hemitted, hslot, hreplace, hprice, hquantity⟩ :
      ∃ action ∈ (sampleManager.evaluate { sampleIntent with bidPrice := .narrow 101 }
          (sampleInput (sampleOrder 0)) 1).1.actions,
        action.slot = .bid ∧ action.type = .replace ∧ action.price = .narrow 101 ∧
          action.quantity = .narrow 10 := by
    decide +kernel
  have hconverges := (replace_converges_iff (by decide) rfl hemitted hreplace []
    { sampleIntent with bidPrice := .narrow 101 }
    (sampleInput { sampleOrder 0 with price := .narrow 101 }) 2 ⟨rfl, rfl, rfl⟩ ?_ ?_ rfl ?_).mpr ?_
  · rw [hslot] at hconverges
    exact hconverges.1
  · rw [hslot]
    rfl
  · rw [hslot, hprice, hquantity]
    exact ⟨by decide, by decide, by decide, rfl, rfl, rfl, rfl⟩
  · decide +kernel
  · rw [hslot]
    exact .inl (by decide)

/-- A bid of ten with four filled: the replacement asks for ten, which the order
already is, so an accepted replacement leaves six resting and is requested again. -/
theorem partial_fill_replaced_again :
    ∃ action ∈ (sampleManager.evaluate sampleIntent (sampleInput (sampleOrder 4)) 1).1.actions,
      action.slot = .bid ∧ action.type = .replace ∧
        Amended (sampleOrder 4) (sampleOrder 4) action.price action.quantity ∧
        ((sampleManager.evaluate sampleIntent (sampleInput (sampleOrder 4)) 1).2.evaluate
          sampleIntent (sampleInput (sampleOrder 4)) 2).1.rejection = .none ∧
        ((sampleManager.evaluate sampleIntent (sampleInput (sampleOrder 4)) 1).2.evaluate
          sampleIntent (sampleInput (sampleOrder 4)) 2).1.bid.outcome = .replace := by
  obtain ⟨action, hemitted, hslot, hreplace, hprice, hquantity⟩ :
      ∃ action ∈ (sampleManager.evaluate sampleIntent (sampleInput (sampleOrder 4)) 1).1.actions,
        action.slot = .bid ∧ action.type = .replace ∧ action.price = .narrow 100 ∧
          action.quantity = .narrow 10 := by
    decide +kernel
  refine ⟨action, hemitted, hslot, hreplace, ?_, by decide +kernel, by decide +kernel⟩
  rw [hprice, hquantity]
  exact ⟨by decide, by decide, by decide, rfl, rfl, rfl, rfl⟩

end QuoteManager

end MmEngine.Quote
