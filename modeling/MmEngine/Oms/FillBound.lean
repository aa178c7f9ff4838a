/-
# Filled never exceeds ordered

Over whole runs, every record has filled at least nothing and at most its size,
and what it has filled never shrinks. Fills and too-late cancels respect the
bound on their own. An accepted replace does not check it: it takes the pending
quantity for the new size, whatever has filled already and whether or not a
replace was pending at all. The bound holds in exactly the runs whose accepted
replaces cover what has filled.
-/

import MmEngine.Oms.Run

namespace MmEngine.Oms

open MmEngine.Exchange MmEngine.Quote MmEngine.Risk OmsState OrderManager

variable {σ : Type}

/-- The record has filled between nothing and its size. -/
def OrderRecord.WithinSize (order : OrderRecord) : Prop :=
  0 ≤ order.cumulativeQuantity.raw ∧ order.cumulativeQuantity.raw ≤ order.originalQuantity.raw

instance (order : OrderRecord) : Decidable order.WithinSize :=
  inferInstanceAs (Decidable (_ ∧ _))

/-- Every record is within its size. -/
def FillBounded (s : OmsState) : Prop := ∀ order ∈ s.orders, order.WithinSize

instance (s : OmsState) : Decidable (FillBounded s) :=
  inferInstanceAs (Decidable (∀ order ∈ s.orders, order.WithinSize))

/-- No record has filled less than before. -/
def FillsGrow (s after : OmsState) : Prop :=
  ∀ (i : Nat) (a b : OrderRecord), s.orders[i]? = some a → after.orders[i]? = some b →
    a.cumulativeQuantity.raw ≤ b.cumulativeQuantity.raw

/-- Every approved New or Replace the operation submits has a positive quantity. -/
def PositiveQuantity : Op σ → Prop
  | .submit approved =>
      approved.valid = true → approved.action.addsExposure = true → 0 < approved.action.quantity.raw
  | _ => True

instance : ∀ op : Op σ, Decidable (PositiveQuantity op)
  | .submit approved =>
      inferInstanceAs (Decidable (approved.valid = true → approved.action.addsExposure = true →
        0 < approved.action.quantity.raw))
  | .apply _ | .onTimer | .reconcile _ | .resolve _ _ | .attachExecution | .advance _ | .venue _
  | .restart _ => .isTrue trivial

theorem PositiveQuantity.admits {op : Op σ} (h : PositiveQuantity op) :
    Admits (fun action => 0 < action.quantity.raw) op := by
  cases op with
  | submit approved =>
      intro hvalid htype
      exact h hvalid (by simp [OrderAction.addsExposure, htype])
  | apply | onTimer | reconcile | resolve | attachExecution | advance | venue | restart =>
      trivial

/-- An accepted replace that reaches an order which can still change is for at
least what has filled. -/
def replaceCovers (s : OmsState) : Op σ → Bool
  | .apply (.orderReplace replace) =>
      match s.findByClientId replace.originalClientOrderId with
      | none => true
      | some (_, order) =>
          (validateExecutionEvent (.orderReplace replace)).isError || !replace.accepted ||
            order.isTerminal ||
            decide (order.cumulativeQuantity.raw ≤ order.pendingQuantity.raw)
  | _ => true

theorem OmsState.RequestEdit.quantities {s base : OmsState} {action : OrderAction}
    {order record : OrderRecord} {observed : List Observation}
    (h : RequestEdit s action order record base observed) :
    record.cumulativeQuantity = order.cumulativeQuantity ∧
      record.originalQuantity = order.originalQuantity := by
  cases h <;>
    simp [OrderRecord.requested, OrderRecord.settled, OrderRecord.amending,
      OrderRecord.replacing, OrderRecord.replaceDropped]

/-- One event keeps a record within its size and never takes a fill back, as
long as an accepted replace covers what has filled. -/
theorem OmsState.EventEdit.withinSize {s base : OmsState} {order edited : OrderRecord}
    {event : ExecutionEvent} {target : OrderState} {answers resolves : Bool}
    (h : EventEdit s order event edited target answers resolves base)
    (hcovers : ∀ replace, event = .orderReplace replace → replace.accepted = true →
      order.cumulativeQuantity.raw ≤ order.pendingQuantity.raw)
    (hsize : order.WithinSize) :
    edited.WithinSize ∧ order.cumulativeQuantity.raw ≤ edited.cumulativeQuantity.raw := by
  obtain ⟨hlo, hhi⟩ := hsize
  cases h with
  | ack _ _ hbind =>
      rw [bindExchangeId_record hbind]
      exact ⟨⟨hlo, hhi⟩, le_rfl⟩
  | fillComplete hquantity _ hbook =>
      obtain ⟨hsum, hfits, heq⟩ := bookFill_eq_ok hbook
      have hsize : edited.originalQuantity = order.originalQuantity := by rw [heq]; rfl
      simp only [OrderRecord.withTrades] at hsum hfits
      exact ⟨⟨by omega, by rw [hsize]; exact hfits⟩, by omega⟩
  | fillPartial hquantity _ hbook =>
      obtain ⟨hsum, hfits, heq⟩ := bookFill_eq_ok hbook
      have hsize : edited.originalQuantity = order.originalQuantity := by rw [heq]; rfl
      simp only [OrderRecord.withTrades] at hsum hfits
      exact ⟨⟨by omega, by rw [hsize]; exact hfits⟩, by omega⟩
  | cancelTooLate => exact ⟨⟨le_trans hlo hhi, le_rfl⟩, hhi⟩
  | @replaceAccepted replace _ _ haccepted hswap =>
      rw [swapIdentity_record hswap]
      exact ⟨⟨hlo, hcovers replace rfl haccepted⟩, le_rfl⟩
  | reject | fillRefused | cancelAccepted | cancelRejected | cancelUnknown | replaceUnknown
  | replaceRefused | failureNotSent | failureUnknown => exact ⟨⟨hlo, hhi⟩, le_rfl⟩

theorem Edited.withinSize {s : OmsState} {i : Nat} {order record : OrderRecord} {op : Op σ}
    (h : Edited s i order op record) (hcovers : replaceCovers s op = true)
    (hsize : order.WithinSize) :
    record.WithinSize ∧ order.cumulativeQuantity.raw ≤ record.cumulativeQuantity.raw := by
  cases h with
  | request _ _ _ hedit =>
      obtain ⟨hfilled, horiginal⟩ := hedit.quantities
      simp only [OrderRecord.WithinSize, hfilled, horiginal]
      exact ⟨hsize, le_rfl⟩
  | event hvalid hfound hterminal hedit =>
      have hkept := hedit.withinSize (fun replace hevent haccepted => by
        subst hevent
        have hlookup : s.findByClientId replace.originalClientOrderId = some (i, order) := hfound
        simpa [replaceCovers, hlookup, hvalid, haccepted, hterminal] using hcovers) hsize
      simpa [OrderRecord.WithinSize] using hkept
  | timedOut => simpa [OrderRecord.WithinSize, OrderRecord.settled] using hsize
  | omitted => simpa [OrderRecord.WithinSize] using hsize
  | resolved =>
      unfold concluded
      split <;> exact ⟨hsize, le_rfl⟩
  | restarted =>
      unfold recovered
      split <;> exact ⟨hsize, le_rfl⟩

theorem Born.withinSize {now : Nanos} {record : OrderRecord}
    (h : Born (fun action => 0 < action.quantity.raw) now record) : record.WithinSize := by
  obtain ⟨_, hquantity, hrecord⟩ := h
  have hpositive := le_of_lt hquantity
  cases hrecord with
  | unattached => exact ⟨le_rfl, hpositive⟩
  | accepted =>
      simpa [OrderRecord.WithinSize, OrderRecord.submitted, OrderRecord.requested, newOrder]
        using hpositive
  | rejected =>
      simpa [OrderRecord.WithinSize, OrderRecord.submitted, OrderRecord.requested,
        OrderRecord.settled, newOrder] using hpositive

/-- What carries the bound along a run. -/
structure FillInvariant (w : World σ) : Prop where
  tracked : Tracked (fun action => 0 < action.quantity.raw) w
  bounded : FillBounded w.oms.toOmsState

theorem FillInvariant.init (config : OmsConfig) (clock : Nanos) (venue : σ) :
    FillInvariant (World.init config clock venue) :=
  ⟨tracked_init _ config clock venue, fun order horder => by
    simp [World.init, OrderManager.init] at horder⟩

/-- A step whose replace covers what has filled keeps the bound and takes no
fill back. -/
theorem FillInvariant.step {w : World σ} (hw : FillInvariant w) (port : IExchangeExecution σ)
    {op : Op σ} (hpositive : PositiveQuantity op)
    (hcovers : replaceCovers w.oms.toOmsState op = true) :
    FillInvariant (step port op w) ∧
      FillsGrow w.oms.toOmsState (step port op w).oms.toOmsState := by
  have hevolves := step_evolves port op w hw.tracked.numbered hw.tracked.held hpositive.admits
  refine ⟨⟨hw.tracked.step port hpositive.admits, ?_⟩, ?_⟩
  · refine hevolves.forall_entries hw.bounded ?_ (fun _ hborn => hborn.withinSize)
    rintro i a b ha (rfl | hedited)
    · exact ha
    · exact (hedited.withinSize hcovers ha).1
  · intro i a b ha hb
    obtain ⟨b', hb', hrewrite⟩ := hevolves.old i a ha
    obtain rfl : b' = b := Option.some.inj (hb'.symm.trans hb)
    rcases hrewrite with rfl | hedited
    · exact le_rfl
    · exact (hedited.withinSize hcovers (hw.bounded a (List.mem_of_getElem? ha))).2

/-- In every run of positive quantities whose accepted replaces cover what has
filled, every record stays within its size in every state and no step takes a
fill back. -/
theorem fill_bounded_along (port : IExchangeExecution σ) (config : OmsConfig) (clock : Nanos)
    (venue : σ) (ops : List (Op σ)) (op : Op σ)
    (hpositive : ∀ op' ∈ ops ++ [op], PositiveQuantity op')
    (hcovers : Machine.Along (step port)
      (fun op' w => replaceCovers w.oms.toOmsState op' = true) (ops ++ [op])
      (World.init config clock venue)) :
    let before := (Machine.run (step port) ops (World.init config clock venue)).oms.toOmsState
    let after := (Machine.run (step port) (ops ++ [op])
      (World.init config clock venue)).oms.toOmsState
    FillBounded before ∧ FillBounded after ∧ FillsGrow before after := by
  intro before after
  have hboth : Machine.Along (step port)
      (fun op' w => PositiveQuantity op' ∧ replaceCovers w.oms.toOmsState op' = true) (ops ++ [op])
      (World.init config clock venue) :=
    (Machine.along_label_iff.mpr hpositive).and hcovers
  obtain ⟨hinit, hlast, _⟩ := Machine.Along.append_iff.mp hboth
  have hbefore : FillInvariant (Machine.run (step port) ops (World.init config clock venue)) :=
    Machine.invariant_run (fun _ _ hw hop => (hw.step port hop.1 hop.2).1)
      (FillInvariant.init config clock venue) hinit
  have hstep := hbefore.step port hlast.1 hlast.2
  have hafter : after = (step port op
      (Machine.run (step port) ops (World.init config clock venue))).oms.toOmsState := by
    simp only [after, Machine.run_concat]
  rw [hafter]
  exact ⟨hbefore.bounded, hstep.1.bounded, hstep.2⟩

/-- A replace the order manager asked for, to twice the size, after half has
filled. -/
theorem fill_bounded_along_solicited_replace :
    let ops : List (Op Unit) := [.attachExecution, Sample.submitNew 10, Sample.ack '1' 'x',
      Sample.fill '1' 'a' 5, Sample.submitReplace 20]
    FillBounded (Sample.after ops).oms.toOmsState ∧
      FillBounded (Sample.after (ops ++ [Sample.replaceAccepted '1' '2' .empty])).oms.toOmsState ∧
      FillsGrow (Sample.after ops).oms.toOmsState
        (Sample.after (ops ++ [Sample.replaceAccepted '1' '2' .empty])).oms.toOmsState :=
  fill_bounded_along Sample.acceptAll {} 1 () _ _ (by decide +kernel) (by decide +kernel)

/-- An accepted replace nobody asked for sets the size of a half-filled order to
zero. -/
theorem unsolicited_replace_breaks_fill_bound :
    let ops : List (Op Unit) := [.attachExecution, Sample.submitNew 10, Sample.ack '1' 'x',
      Sample.fill '1' 'a' 5, Sample.replaceAccepted '1' '2' .empty]
    (∀ op ∈ ops, PositiveQuantity op) ∧ ¬ FillBounded (Sample.after ops).oms.toOmsState := by
  decide +kernel

end MmEngine.Oms
