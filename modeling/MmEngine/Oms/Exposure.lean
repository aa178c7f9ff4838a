/-
# Working exposure

What risk reads before it approves anything further: per side, the quantity the
venue may still execute. A pending new counts in full and every other order for
what is left of it; an order whose fate is unknown makes the whole answer
indeterminate, and so does a total that does not fit.

A pending replace counts for what is left of the *old* order, which is what the
snapshot documents: the new size counts once the venue has confirmed it.
-/

import MmEngine.Oms.FillBound
import MmEngine.Risk.PositionState

namespace MmEngine.Risk.ExposureSnapshot

open MmEngine.Oms

/-- Adds the notional of a contribution to its side; one that does not fit is
dropped. -/
def addNotional (snapshot : ExposureSnapshot) (side : Side) (price : Px) (quantity : Qty) :
    ExposureSnapshot :=
  match checkedNotionalOf price quantity, side with
  | none, _ => snapshot
  | some value, .buy =>
      { snapshot with
        workingBuyNotional :=
          (Fixed.checkedAdd snapshot.workingBuyNotional value).getD snapshot.workingBuyNotional }
  | some value, .sell =>
      { snapshot with
        workingSellNotional :=
          (Fixed.checkedAdd snapshot.workingSellNotional value).getD snapshot.workingSellNotional }

def countOpen (snapshot : ExposureSnapshot) : ExposureSnapshot :=
  { snapshot with openOrderCount := snapshot.openOrderCount + 1 }

/-- What an order adds to its side. -/
def contribution (order : OrderRecord) : Qty :=
  if order.state = .pendingNew then order.originalQuantity else order.remaining

/-- One iteration of the count. -/
def addOrder (symbol : Symbol) (snapshot : ExposureSnapshot) (order : OrderRecord) :
    ExposureSnapshot :=
  if order.symbol ≠ symbol || !order.consumesExposure then snapshot
  else if order.state = .unknown then
    { snapshot with
      determinate := false
      indeterminateOrderCount := snapshot.indeterminateOrderCount + 1 }
  else if !(contribution order).isPositive then snapshot
  else
    match Fixed.checkedAdd (snapshot.working order.side) (contribution order) with
    | none => { snapshot with determinate := false }
    | some total =>
        ((snapshot.withWorking order.side total).addNotional order.side order.price
          (contribution order)).countOpen

@[simp]
theorem countOpen_working (snapshot : ExposureSnapshot) (side : Side) :
    snapshot.countOpen.working side = snapshot.working side := by
  cases side <;> rfl

@[simp]
theorem addNotional_working (snapshot : ExposureSnapshot) (side side' : Side) (price : Px)
    (quantity : Qty) : (snapshot.addNotional side' price quantity).working side =
      snapshot.working side := by
  simp only [addNotional]
  split <;> cases side <;> rfl

@[simp]
theorem addNotional_determinate (snapshot : ExposureSnapshot) (side : Side) (price : Px)
    (quantity : Qty) :
    (snapshot.addNotional side price quantity).determinate = snapshot.determinate := by
  simp only [addNotional]
  split <;> rfl

/-- True of the orders that may still trade on a side of a symbol. -/
def counts (symbol : Symbol) (side : Side) (order : OrderRecord) : Bool :=
  order.symbol = symbol && order.consumesExposure && order.side = side

end MmEngine.Risk.ExposureSnapshot

namespace MmEngine.Oms

open MmEngine.Exchange MmEngine.Quote MmEngine.Risk OmsState OrderManager

variable {σ : Type}

/-- The exposure of the working orders on a symbol. -/
def OmsState.exposure (s : OmsState) (symbol : Symbol) : ExposureSnapshot :=
  s.orders.foldl (ExposureSnapshot.addOrder symbol) { determinate := true }

/-- The orders of a symbol that may still trade on a side. -/
def OmsState.exposedOn (s : OmsState) (symbol : Symbol) (side : Side) : List OrderRecord :=
  s.orders.filter (ExposureSnapshot.counts symbol side)

namespace OrderRecord

/-- What may still fill of an order, as its live parameters have it. -/
def stillOpen (order : OrderRecord) : Int :=
  if order.state = .pendingNew then order.originalQuantity.raw
  else order.originalQuantity.raw - order.cumulativeQuantity.raw

/-- What may still fill of an order whether or not its pending replace has taken
effect. -/
def stillOpenEitherWay (order : OrderRecord) : Int :=
  if order.state = .pendingReplace then
    max order.originalQuantity.raw order.pendingQuantity.raw - order.cumulativeQuantity.raw
  else order.stillOpen

end OrderRecord

end MmEngine.Oms

namespace MmEngine.Risk.ExposureSnapshot

open MmEngine.Oms

/-- A contribution covers what may still fill, once the filled quantity is not
negative: the subtraction can then only leave the range downwards. -/
theorem stillOpen_le_contribution {order : OrderRecord} (h : 0 ≤ order.cumulativeQuantity.raw) :
    order.stillOpen ≤ max 0 (contribution order).raw := by
  rw [OrderRecord.stillOpen, contribution]
  by_cases hpending : order.state = .pendingNew
  · rw [if_pos hpending, if_pos hpending]
    exact le_max_right _ _
  · rw [if_neg hpending, if_neg hpending]
    have hmax := order.originalQuantity.raw_le
    rw [OrderRecord.remaining]
    cases hleft : Fixed.checkedSub order.originalQuantity order.cumulativeQuantity with
    | none =>
        have hrange := Fixed.fromRaw?_eq_none_iff.mp hleft
        have hmin : rawMin < 0 := by decide
        apply le_max_of_le_left
        omega
    | some left =>
        have hraw := Fixed.checkedSub_eq_some_iff.mp hleft
        dsimp only
        by_cases hpositive : left.isPositive = true
        · rw [if_pos hpositive]
          exact le_max_of_le_right (le_of_eq hraw.symm)
        · rw [if_neg hpositive]
          have hnot : left.raw ≤ 0 := by simpa using hpositive
          apply le_max_of_le_left
          omega

theorem addOrder_covers {symbol : Symbol} {snapshot : ExposureSnapshot} {order : OrderRecord}
    (h : 0 ≤ order.cumulativeQuantity.raw)
    (hdeterminate : (snapshot.addOrder symbol order).determinate = true) (side : Side) :
    snapshot.determinate = true ∧
      (snapshot.working side).raw + (if counts symbol side order then order.stillOpen else 0) ≤
        ((snapshot.addOrder symbol order).working side).raw := by
  have hcovers := stillOpen_le_contribution h
  rw [addOrder] at hdeterminate ⊢
  split at hdeterminate
  · rename_i hskip
    rw [if_pos hskip]
    have hno : counts symbol side order = false := by
      rw [counts]
      rcases Bool.or_eq_true_iff.mp hskip with hsymbol | hexposure
      · simp [of_decide_eq_true hsymbol]
      · simp [Bool.not_eq_true' _ ▸ hexposure]
    simp [hno, hdeterminate]
  · rename_i hcount
    rw [if_neg hcount]
    split at hdeterminate
    · cases hdeterminate
    · rename_i hknown
      rw [if_neg hknown]
      split at hdeterminate
      · rename_i hsmall
        rw [if_pos hsmall]
        have hnot : (contribution order).raw ≤ 0 := by simpa using hsmall
        have hopen : order.stillOpen ≤ 0 := hcovers.trans (by omega)
        refine ⟨hdeterminate, ?_⟩
        split <;> omega
      · rename_i hpositive
        rw [if_neg hpositive]
        have hpositive : 0 < (contribution order).raw := by simpa using hpositive
        cases hsum : Fixed.checkedAdd (snapshot.working order.side) (contribution order) with
        | none =>
            rw [hsum] at hdeterminate
            cases hdeterminate
        | some total =>
            rw [hsum] at hdeterminate
            have htotal := Fixed.checkedAdd_eq_some_iff.mp hsum
            have hopen : order.stillOpen ≤ (contribution order).raw := by omega
            have hcounts : counts symbol side order = decide (order.side = side) := by
              simp only [Bool.or_eq_true, not_or, decide_eq_true_eq, not_not,
                Bool.not_eq_true', Bool.not_eq_false] at hcount
              simp [counts, hcount]
            refine ⟨by simpa [countOpen] using hdeterminate, ?_⟩
            rw [hcounts]
            dsimp only
            rw [countOpen_working, addNotional_working, withWorking_working]
            by_cases hside : order.side = side
            · subst hside
              simp only [decide_true, if_true]
              omega
            · simp [hside]

/-- A determinate count covers what may still fill of every order counted. -/
theorem foldl_addOrder_covers {symbol : Symbol} {orders : List OrderRecord}
    (h : ∀ order ∈ orders, 0 ≤ order.cumulativeQuantity.raw) (side : Side)
    (snapshot : ExposureSnapshot)
    (hdeterminate : (orders.foldl (addOrder symbol) snapshot).determinate = true) :
    snapshot.determinate = true ∧
      (snapshot.working side).raw +
          ((orders.filter (counts symbol side)).map OrderRecord.stillOpen).sum ≤
        ((orders.foldl (addOrder symbol) snapshot).working side).raw := by
  induction orders generalizing snapshot with
  | nil => simpa using hdeterminate
  | cons order orders ih =>
      rw [List.foldl_cons] at hdeterminate ⊢
      obtain ⟨hrest, hle⟩ := ih (fun o ho => h o (List.mem_cons_of_mem order ho)) _ hdeterminate
      obtain ⟨hfirst, hcovers⟩ := addOrder_covers (h order List.mem_cons_self) hrest side
      refine ⟨hfirst, ?_⟩
      by_cases hcounts : counts symbol side order = true
      · rw [if_pos hcounts] at hcovers
        rw [List.filter_cons_of_pos hcounts, List.map_cons, List.sum_cons]
        omega
      · rw [if_neg hcounts] at hcovers
        rw [List.filter_cons_of_neg hcounts]
        omega

end MmEngine.Risk.ExposureSnapshot

namespace MmEngine.Oms

open MmEngine.Exchange MmEngine.Quote MmEngine.Risk OmsState OrderManager

variable {σ : Type}

/-! ## Whole runs -/

/-- No quantity of the record is negative. -/
structure OrderRecord.NonNegative (order : OrderRecord) : Prop where
  cumulative : 0 ≤ order.cumulativeQuantity.raw
  original : 0 ≤ order.originalQuantity.raw
  pending : 0 ≤ order.pendingQuantity.raw

theorem OmsState.RequestEdit.nonNegative {s base : OmsState} {action : OrderAction}
    {order record : OrderRecord} {observed : List Observation}
    (h : RequestEdit s action order record base observed)
    (hpositive : action.addsExposure = true → 0 < action.quantity.raw)
    (horder : order.NonNegative) : record.NonNegative := by
  obtain ⟨hcumulative, horiginal⟩ := h.quantities
  refine ⟨hcumulative ▸ horder.cumulative, horiginal ▸ horder.original, ?_⟩
  have hreplace : action.type = .replace → 0 ≤ action.quantity.raw := fun htype =>
    le_of_lt (hpositive (by simp [OrderAction.addsExposure, htype]))
  cases h with
  | cancelSent => simpa [OrderRecord.requested] using horder.pending
  | cancelReturned => simpa [OrderRecord.requested, OrderRecord.settled] using horder.pending
  | coalesced htype => exact hreplace htype
  | replaceSent htype =>
      simpa [OrderRecord.replacing, OrderRecord.requested, OrderRecord.amending]
        using hreplace htype
  | replaceReturned htype =>
      simpa [OrderRecord.replacing, OrderRecord.requested, OrderRecord.amending,
        OrderRecord.replaceDropped, OrderRecord.settled] using hreplace htype

theorem OmsState.EventEdit.nonNegative {s base : OmsState} {order edited : OrderRecord}
    {event : ExecutionEvent} {target : OrderState} {answers resolves : Bool}
    (h : EventEdit s order event edited target answers resolves base)
    (horder : order.NonNegative) : edited.NonNegative := by
  obtain ⟨hcumulative, horiginal, hpending⟩ := horder
  cases h with
  | ack _ _ hbind =>
      rw [bindExchangeId_record hbind]
      exact ⟨hcumulative, horiginal, hpending⟩
  | fillComplete hquantity _ hbook =>
      obtain ⟨hsum, _, heq⟩ := bookFill_eq_ok hbook
      simp only [OrderRecord.withTrades] at hsum
      exact ⟨by omega, by rw [heq]; exact horiginal, by rw [heq]; exact hpending⟩
  | fillPartial hquantity _ hbook =>
      obtain ⟨hsum, _, heq⟩ := bookFill_eq_ok hbook
      simp only [OrderRecord.withTrades] at hsum
      exact ⟨by omega, by rw [heq]; exact horiginal, by rw [heq]; exact hpending⟩
  | cancelTooLate => exact ⟨horiginal, horiginal, hpending⟩
  | replaceAccepted _ hswap =>
      rw [swapIdentity_record hswap]
      exact ⟨hcumulative, hpending, hpending⟩
  | reject | fillRefused | cancelAccepted | cancelRejected | cancelUnknown | replaceUnknown
  | replaceRefused | failureNotSent | failureUnknown => exact ⟨hcumulative, horiginal, hpending⟩

theorem Edited.nonNegative {s : OmsState} {i : Nat} {order record : OrderRecord} {op : Op σ}
    (h : Edited s i order op record) (hpositive : PositiveQuantity op)
    (horder : order.NonNegative) : record.NonNegative := by
  cases h with
  | request hvalid _ _ hedit => exact hedit.nonNegative (hpositive hvalid) horder
  | event _ _ _ hedit =>
      obtain ⟨hcumulative, horiginal, hpending⟩ := hedit.nonNegative horder
      exact ⟨by simpa using hcumulative, by simpa using horiginal, by simpa using hpending⟩
  | timedOut =>
      exact ⟨by simpa [OrderRecord.settled] using horder.cumulative,
        by simpa [OrderRecord.settled] using horder.original,
        by simpa [OrderRecord.settled] using horder.pending⟩
  | omitted =>
      exact ⟨by simpa using horder.cumulative, by simpa using horder.original,
        by simpa using horder.pending⟩
  | resolved =>
      rw [concluded]
      split <;> exact ⟨horder.1, horder.2, horder.3⟩
  | restarted =>
      rw [recovered]
      split <;> exact ⟨horder.1, horder.2, horder.3⟩

theorem Born.nonNegative {now : Nanos} {record : OrderRecord}
    (h : Born (fun action => 0 < action.quantity.raw) now record) : record.NonNegative := by
  have hsize := h.withinSize
  refine ⟨hsize.1, hsize.1.trans hsize.2, ?_⟩
  obtain ⟨_, _, hrecord⟩ := h
  cases hrecord with
  | unattached => exact le_rfl
  | accepted => simp [OrderRecord.submitted, OrderRecord.requested, newOrder]
  | rejected =>
      simp [OrderRecord.submitted, OrderRecord.requested, OrderRecord.settled, newOrder]

/-- What carries the exposure bound along a run. -/
structure ExposureInvariant (w : World σ) : Prop where
  tracked : Tracked (fun action => 0 < action.quantity.raw) w
  nonNegative : ∀ order ∈ w.oms.orders, order.NonNegative

theorem ExposureInvariant.init (config : OmsConfig) (clock : Nanos) (venue : σ) :
    ExposureInvariant (World.init config clock venue) :=
  ⟨tracked_init _ config clock venue, fun order horder => by
    simp [World.init, OrderManager.init] at horder⟩

theorem ExposureInvariant.step {w : World σ} (hw : ExposureInvariant w)
    (port : IExchangeExecution σ) {op : Op σ} (hpositive : PositiveQuantity op) :
    ExposureInvariant (step port op w) := by
  have hevolves := step_evolves port op w hw.tracked.numbered hw.tracked.held hpositive.admits
  refine ⟨hw.tracked.step port hpositive.admits, ?_⟩
  refine hevolves.forall_entries hw.nonNegative ?_ (fun _ hborn => hborn.nonNegative)
  rintro i a b ha (rfl | hedited)
  · exact ha
  · exact hedited.nonNegative hpositive ha

/-- In every reachable state, a determinate exposure covers what may still fill
of every order by its live parameters: a pending new in full, any other order,
a pending replace included, for what is left of it. -/
theorem exposure_covers_live_parameters (port : IExchangeExecution σ) (config : OmsConfig)
    (clock : Nanos) (venue : σ) (ops : List (Op σ)) (hpositive : ∀ op ∈ ops, PositiveQuantity op)
    (symbol : Symbol) (side : Side) :
    let s := (Machine.run (step port) ops (World.init config clock venue)).oms.toOmsState
    (s.exposure symbol).determinate = true →
      ((s.exposedOn symbol side).map OrderRecord.stillOpen).sum ≤
        ((s.exposure symbol).working side).raw := by
  intro s hdeterminate
  have hinvariant : ExposureInvariant
      (Machine.run (step port) ops (World.init config clock venue)) :=
    Machine.invariant_run (fun _ _ hw hop => hw.step port hop)
      (ExposureInvariant.init config clock venue) (Machine.along_label_iff.mpr hpositive)
  have hfilled : ∀ order ∈ s.orders, 0 ≤ order.cumulativeQuantity.raw :=
    fun order horder => (hinvariant.nonNegative order horder).cumulative
  have hcovers := (ExposureSnapshot.foldl_addOrder_covers hfilled side _ hdeterminate).2
  have hzero : (({ determinate := true } : ExposureSnapshot).working side).raw = 0 := by
    cases side <;> rfl
  rw [hzero, zero_add] at hcovers
  exact hcovers

/-- A half-filled order with a replace to twice its size outstanding counts for
the half that is left. -/
theorem exposure_covers_pending_replace :
    let s := (Sample.after [.attachExecution, Sample.submitNew 10, Sample.ack '1' 'x',
      Sample.fill '1' 'a' 5, Sample.submitReplace 20]).oms.toOmsState
    ((s.exposedOn .empty .buy).map OrderRecord.stillOpen).sum ≤
      ((s.exposure .empty).working .buy).raw :=
  exposure_covers_live_parameters Sample.acceptAll {} 1 () _ (by decide +kernel) .empty .buy
    (by decide +kernel)

/-- The same order may fill for more than the exposure says, if the replace has
already taken effect. -/
theorem exposure_below_pending_replace :
    let s := (Sample.after [.attachExecution, Sample.submitNew 10, Sample.ack '1' 'x',
      Sample.fill '1' 'a' 5, Sample.submitReplace 20]).oms.toOmsState
    (s.exposure .empty).determinate = true ∧
      ((s.exposure .empty).working .buy).raw <
        ((s.exposedOn .empty .buy).map OrderRecord.stillOpenEitherWay).sum := by
  decide +kernel

end MmEngine.Oms
