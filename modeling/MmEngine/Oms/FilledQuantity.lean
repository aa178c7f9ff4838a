/-
# Filled orders are filled

An order that is reported filled has its whole quantity accounted for. Fills and
too-late cancels see to it. An acknowledgement does not: it may carry the status
filled, and then it ends the order with whatever had been booked before, which is
usually nothing. Later fills of the order are quarantined, because it has ended,
so the loss is for good: a run arrives at a state where every filled order is
accounted for exactly when no step of it ended one short.
-/

import MmEngine.Oms.AckOrder
import MmEngine.Oms.Deferral
import MmEngine.Oms.Terminal

namespace MmEngine.Oms

open MmEngine.Exchange MmEngine.Quote MmEngine.Risk OmsState OrderManager

variable {σ : Type}

/-- A filled record has filled its size. -/
def OrderRecord.FilledWhole (order : OrderRecord) : Prop :=
  order.state = .filled → order.cumulativeQuantity = order.originalQuantity

instance (order : OrderRecord) : Decidable order.FilledWhole :=
  inferInstanceAs (Decidable (_ → _))

def FilledWhole (s : OmsState) : Prop := ∀ order ∈ s.orders, order.FilledWhole

instance (s : OmsState) : Decidable (FilledWhole s) :=
  inferInstanceAs (Decidable (∀ order ∈ s.orders, order.FilledWhole))

/-- The operator does not conclude that an order has filled. -/
def NeverConcludesFilled : Op σ → Prop
  | .resolve _ target => target ≠ .filled
  | _ => True

instance : ∀ op : Op σ, Decidable (NeverConcludesFilled op)
  | .resolve _ target => inferInstanceAs (Decidable (target ≠ .filled))
  | .submit _ | .apply _ | .onTimer | .reconcile _ | .attachExecution | .advance _ | .venue _
  | .restart _ => .isTrue trivial

/-- True of an event that, if it ends the order as filled, ends it whole: an
acknowledgement that reports it filled finds its quantity booked, and a fill that
is taken to complete it is for what was open. -/
def OmsState.completesWhole (s : OmsState) (order : OrderRecord) : ExecutionEvent → Bool
  | .orderAck ack =>
      !s.ackIsNews order ack || ack.status ≠ .filled || !isLegalTransition order.state .filled ||
        order.cumulativeQuantity = order.originalQuantity
  | .fill fill =>
      !order.completedBy fill || !isLegalTransition order.state .filled ||
        order.cumulativeQuantity.raw + fill.quantity.raw = order.originalQuantity.raw
  | _ => true

/-- True of a step that ends no order short. -/
def endsWhole (s : OmsState) : Op σ → Bool
  | .apply event =>
      (validateExecutionEvent event).isError ||
        match s.findSubject event with
        | none => true
        | some (_, order) => order.isTerminal || s.completesWhole order event
  | _ => true

/-- A record becomes filled by a legal transition to filled, or was filled. -/
theorem OrderRecord.filled_of_transition {order : OrderRecord} {target : OrderState} {now : Nanos}
    (h : (order.transition target now).state = .filled) :
    order.state = .filled ∨ target = .filled ∧ isLegalTransition order.state .filled = true := by
  rw [transition_state, landing] at h
  split at h
  · rename_i hlegal
    subst h
    exact .inr ⟨rfl, hlegal⟩
  · exact .inl h

theorem OrderRecord.state_ne_filled {order : OrderRecord} (hlive : order.isTerminal = false) :
    order.state ≠ .filled := by
  intro hfilled
  rw [OrderRecord.isTerminal, hfilled] at hlive
  cases hlive

/-- A record that is not filled does not become so by a transition elsewhere. -/
theorem OrderRecord.not_filled_of_transition {order : OrderRecord} {target : OrderState}
    {now : Nanos} (hstate : order.state ≠ .filled) (htarget : target ≠ .filled) :
    (order.transition target now).state ≠ .filled := by
  intro hfilled
  rcases OrderRecord.filled_of_transition hfilled with hwas | ⟨hnow, _⟩
  · exact hstate hwas
  · exact htarget hnow

theorem OmsState.RequestEdit.not_filled {s base : OmsState} {action : OrderAction}
    {order record : OrderRecord} {observed : List Observation}
    (h : RequestEdit s action order record base observed) (hstate : order.state ≠ .filled) :
    record.state ≠ .filled := by
  have hsent : ∀ {requested : OrderRecord} {target : OrderState},
      requested.state = order.state → target ≠ .filled →
        (requested.transition target s.clock).state ≠ .filled := by
    intro requested target hsame htarget
    apply OrderRecord.not_filled_of_transition _ htarget
    rwa [hsame]
  cases h with
  | cancelSent => exact hsent rfl (by decide)
  | cancelReturned =>
      apply OrderRecord.not_filled_of_transition _ (by decide)
      exact hsent rfl (by decide)
  | coalesced => exact hstate
  | replaceSent => exact hsent rfl (by decide)
  | replaceReturned =>
      apply OrderRecord.not_filled_of_transition _ (by decide)
      exact hsent rfl (by decide)

/-- What an event does to a record it ends as filled. -/
theorem OmsState.EventEdit.filledWhole {s base : OmsState} {order edited : OrderRecord}
    {event : ExecutionEvent} {target : OrderState} {answers resolves : Bool} {now : Nanos}
    (h : EventEdit s order event edited target answers resolves base)
    (hlive : order.isTerminal = false) (hwhole : s.completesWhole order event = true) :
    (edited.transition target now).FilledWhole := by
  intro hfilled
  have hopen := OrderRecord.state_ne_filled hlive
  have hsame := h.sameOrder.2
  rcases OrderRecord.filled_of_transition hfilled with hwas | ⟨htarget, hlegal⟩
  · exact absurd (hsame.symm.trans hwas) hopen
  rw [hsame] at hlegal
  rw [OrderRecord.transition_cumulativeQuantity, OrderRecord.transition_originalQuantity]
  cases h with
  | @ack ack _ _ hnews hfirst hbind =>
      have hisNews := ackIsNews_of_bind hnews hfirst hbind
      have hstatus : ack.status = .filled := by
        cases hstatus : ack.status <;> simp [OrderRecord.ackTarget, fromVenueStatus, hstatus]
          at htarget ⊢
      have hbooked : order.cumulativeQuantity = order.originalQuantity := by
        simpa [OmsState.completesWhole, hisNews, hstatus, hlegal] using hwhole
      rw [bindExchangeId_record hbind]
      exact hbooked
  | @fillComplete fill seen booked hquantity hinsert hbook hremaining =>
      obtain ⟨hsum, _, heq⟩ := bookFill_eq_ok hbook
      have hcompletes : order.completedBy fill = true := by
        simp [OrderRecord.completedBy, hinsert, hbook, hremaining]
      have hexact : order.cumulativeQuantity.raw + fill.quantity.raw =
          order.originalQuantity.raw := by
        simpa [OmsState.completesWhole, hcompletes, hlegal] using hwhole
      have hsize : edited.originalQuantity = order.originalQuantity := by rw [heq]; rfl
      apply Fixed.ext
      rw [hsize, ← hexact]
      exact hsum
  | cancelTooLate => rfl
  | fillRefused => exact absurd htarget hopen
  | cancelRejected | replaceRefused =>
      exact absurd htarget (by unfold OrderRecord.restingState; split <;> decide)
  | replaceAccepted =>
      exact absurd htarget (by unfold OrderRecord.restingState; split <;> decide)
  | reject | fillPartial | cancelAccepted | cancelUnknown | replaceUnknown | failureNotSent
  | failureUnknown => cases htarget

theorem Edited.filledWhole {s : OmsState} {i : Nat} {order record : OrderRecord} {op : Op σ}
    (h : Edited s i order op record) (hresolve : NeverConcludesFilled op)
    (hwhole : endsWhole s op = true) (horder : order.FilledWhole) : record.FilledWhole := by
  cases h with
  | request _ _ hlive hedit =>
      intro hfilled
      exact absurd hfilled (hedit.not_filled (OrderRecord.state_ne_filled hlive))
  | event hvalid hfound hlive hedit =>
      apply hedit.filledWhole hlive
      simpa [endsWhole, hvalid, hfound, hlive] using hwhole
  | timedOut =>
      intro hfilled
      rcases OrderRecord.filled_of_transition hfilled with hwas | ⟨hfalse, _⟩
      · simpa [OrderRecord.settled] using horder hwas
      · cases hfalse
  | omitted =>
      intro hfilled
      rcases OrderRecord.filled_of_transition hfilled with hwas | ⟨hfalse, _⟩
      · simpa using horder hwas
      · cases hfalse
  | resolved =>
      intro hfilled
      rw [concluded_state] at hfilled
      exact absurd hfilled hresolve
  | restarted =>
      unfold recovered
      split
      · intro hfilled
        cases hfilled
      · exact horder

theorem Born.filledWhole {Q : OrderAction → Prop} {now : Nanos} {record : OrderRecord}
    (h : Born Q now record) : record.FilledWhole := by
  obtain ⟨_, _, hrecord⟩ := h
  intro hfilled
  have hpending : ∀ {order : OrderRecord} {now : Nanos}, order.state = .created →
      (order.transition .pendingNew now).state ≠ .filled := by
    intro order now hcreated
    apply OrderRecord.not_filled_of_transition _ (by decide)
    rw [hcreated]
    decide
  cases hrecord with
  | unattached => cases hfilled
  | accepted => exact absurd hfilled (hpending rfl)
  | rejected =>
      refine absurd hfilled (OrderRecord.not_filled_of_transition ?_ (by decide))
      exact hpending rfl

theorem step_filledWhole (port : IExchangeExecution σ) (op : Op σ) {w : World σ}
    (hnumbered : w.oms.toOmsState.Numbered) (hresolve : NeverConcludesFilled op)
    (hwhole : endsWhole w.oms.toOmsState op = true) (hw : FilledWhole w.oms.toOmsState) :
    FilledWhole (step port op w).oms.toOmsState := by
  have hheld : Held (fun _ => True) w.oms.toOmsState := fun _ _ _ => trivial
  have hevolves := step_evolves port op w hnumbered hheld (admits_true op)
  refine hevolves.forall_entries hw ?_ (fun _ hborn => hborn.filledWhole)
  intro i a b ha hrewrite
  rcases hrewrite with rfl | hedited
  · exact ha
  · exact hedited.filledWhole hresolve hwhole ha

/-- A record of the primary phase that is filled short breaks the accounting. -/
theorem not_filledWhole_of_record (port : IExchangeExecution σ) {op : Op σ} {w : World σ} {i : Nat}
    {record : OrderRecord} (hrecord : (primary port op w).1.oms.orders[i]? = some record)
    (hfilled : record.state = .filled)
    (hshort : record.cumulativeQuantity ≠ record.originalQuantity) :
    ¬ FilledWhole (step port op w).oms.toOmsState := by
  intro hwhole
  have hafter := step_getElem port op w hrecord
  exact hshort (hwhole record (List.mem_of_getElem? hafter) hfilled)

theorem ack_ends_short (port : IExchangeExecution σ) {w : World σ} {ack : OrderAckEvent} {i : Nat}
    {order : OrderRecord} (hvalid : (validateExecutionEvent (.orderAck ack)).isError = false)
    (hfound : w.oms.findByClientId ack.clientOrderId = some (i, order))
    (hlive : order.isTerminal = false)
    (hshort : w.oms.toOmsState.completesWhole order (.orderAck ack) = false) :
    ¬ FilledWhole (step port (.apply (.orderAck ack)) w).oms.toOmsState := by
  simp only [OmsState.completesWhole, Bool.or_eq_false_iff, Bool.not_eq_false',
    decide_eq_false_iff_not, not_not] at hshort
  obtain ⟨⟨⟨hnews, hstatus⟩, hlegal⟩, hquantity⟩ := hshort
  obtain ⟨base, bound, hbind⟩ := exists_bind_of_ackIsNews hnews
  have hstate := applyAck_bound hfound hlive hnews hbind
  have hbound := bindExchangeId_record hbind
  have hlt : i < base.orders.length := by
    have horder := (findByClientId_eq_some_iff.mp hfound).2
    have hbase : base.orders = w.oms.orders := by
      rcases bindExchangeId_eq_some hbind with ⟨_, rfl, _⟩ | ⟨_, _, _, ⟨_, rfl⟩ | ⟨_, _, rfl⟩⟩
      all_goals rfl
    rw [hbase]
    exact (List.getElem?_eq_some_iff.mp horder).1
  have hrecord : (primary port (.apply (.orderAck ack)) w).1.oms.orders[i]? =
      some ((bound.acknowledged ack base.clock).transition
        (OrderRecord.ackTarget ack.status) base.clock) := by
    have hdispatch : w.oms.dispatch (.orderAck ack) = w.oms.applyAck ack := by
      simp [dispatch, hvalid]
    show (w.oms.dispatch (.orderAck ack)).manager.orders[i]? = _
    rw [hdispatch, hstate]
    exact List.getElem?_set_self hlt
  apply not_filledWhole_of_record port hrecord
  · have hsource : (bound.acknowledged ack base.clock).state = order.state := by rw [hbound]; rfl
    have htarget : OrderRecord.ackTarget ack.status = .filled := by rw [hstatus]; rfl
    rw [OrderRecord.transition_state, hsource, htarget]
    exact if_pos hlegal
  · rw [OrderRecord.transition_cumulativeQuantity, OrderRecord.transition_originalQuantity, hbound]
    exact hquantity

theorem fill_ends_short (port : IExchangeExecution σ) {w : World σ} {fill : FillEvent} {i : Nat}
    {order : OrderRecord} (hvalid : (validateExecutionEvent (.fill fill)).isError = false)
    (hfound : w.oms.findByClientId fill.clientOrderId = some (i, order))
    (hlive : order.isTerminal = false)
    (hshort : w.oms.toOmsState.completesWhole order (.fill fill) = false) :
    ¬ FilledWhole (step port (.apply (.fill fill)) w).oms.toOmsState := by
  simp only [OmsState.completesWhole, Bool.or_eq_false_iff, Bool.not_eq_false',
    decide_eq_false_iff_not] at hshort
  obtain ⟨⟨hcompletes, hlegal⟩, hquantity⟩ := hshort
  obtain ⟨hpositive, hprice⟩ := FillEvent.positive_of_validate hvalid
  unfold OrderRecord.completedBy at hcompletes
  cases hinsert : order.seenTrades.insert fill.tradeId with
  | none => simp [hinsert] at hcompletes
  | some seen =>
      cases hbook : (order.withTrades seen).bookFill fill with
      | error reason => simp [hinsert, hbook] at hcompletes
      | ok booked =>
          have hremaining : booked.remaining.isZero = true := by
            simpa [hinsert, hbook] using hcompletes
          obtain ⟨hsum, _, heq⟩ := bookFill_eq_ok hbook
          have hstate := (applyFill_booked hfound hlive hpositive hprice hinsert hbook).1
          rw [if_pos hremaining] at hstate
          have horder := (findByClientId_eq_some_iff.mp hfound).2
          have hrecord : (primary port (.apply (.fill fill)) w).1.oms.orders[i]? =
              some (booked.transition .filled w.oms.clock) := by
            have hdispatch : w.oms.dispatch (.fill fill) = w.oms.applyFill fill := by
              simp [dispatch, hvalid]
            show (w.oms.dispatch (.fill fill)).manager.orders[i]? = _
            rw [hdispatch, hstate]
            exact List.getElem?_set_self (List.getElem?_eq_some_iff.mp horder).1
          apply not_filledWhole_of_record port hrecord
          · have hsource : booked.state = order.state := by rw [heq]; rfl
            rw [OrderRecord.transition_state, hsource]
            exact if_pos hlegal
          · rw [OrderRecord.transition_cumulativeQuantity,
              OrderRecord.transition_originalQuantity]
            intro hsame
            apply hquantity
            have hsize : booked.originalQuantity = order.originalQuantity := by rw [heq]; rfl
            rw [hsize] at hsame
            rw [← hsame]
            exact hsum.symm

/-- A step that ends an order short breaks the accounting. -/
theorem not_filledWhole_of_ends_short (port : IExchangeExecution σ) (op : Op σ) {w : World σ}
    (hshort : endsWhole w.oms.toOmsState op = false) :
    ¬ FilledWhole (step port op w).oms.toOmsState := by
  cases op with
  | apply event =>
      simp only [endsWhole, Bool.or_eq_false_iff] at hshort
      obtain ⟨hvalid, hends⟩ := hshort
      cases hfound : w.oms.toOmsState.findSubject event with
      | none => simp [hfound] at hends
      | some found =>
          obtain ⟨i, order⟩ := found
          simp only [hfound, Bool.or_eq_false_iff] at hends
          obtain ⟨hlive, hcompletes⟩ := hends
          cases event with
          | orderAck ack => exact ack_ends_short port hvalid hfound hlive hcompletes
          | fill fill => exact fill_ends_short port hvalid hfound hlive hcompletes
          | none | orderReject | orderCancel | orderReplace | requestFailure | other =>
              cases hcompletes
  | submit | onTimer | reconcile | resolve | attachExecution | advance | venue | restart =>
      cases hshort

/-! ## Whole runs -/

/-- A filled order that is short stays short. -/
theorem not_filledWhole_run (port : IExchangeExecution σ) (ops : List (Op σ)) {w : World σ}
    (hnumbered : w.oms.toOmsState.Numbered) (hw : ¬ FilledWhole w.oms.toOmsState) :
    ¬ FilledWhole (Machine.run (step port) ops w).oms.toOmsState := by
  simp only [FilledWhole, OrderRecord.FilledWhole, not_forall] at hw
  obtain ⟨order, hmem, hfilled, hshort⟩ := hw
  obtain ⟨i, horder⟩ := List.mem_iff_getElem?.mp hmem
  have hterminal : order.isTerminal = true := by
    rw [OrderRecord.isTerminal, hfilled]
    rfl
  obtain ⟨record, hrecord, hsettled⟩ := run_settled port ops hnumbered horder hterminal
  intro hwhole
  apply hshort
  rw [← hsettled.cumulativeQuantity, ← hsettled.originalQuantity]
  exact hwhole record (List.mem_of_getElem? hrecord) (hsettled.state.trans hfilled)

theorem filledWhole_run_iff (port : IExchangeExecution σ) (ops : List (Op σ)) {w : World σ}
    (hnumbered : w.oms.toOmsState.Numbered) (hresolve : ∀ op ∈ ops, NeverConcludesFilled op)
    (hw : FilledWhole w.oms.toOmsState) :
    FilledWhole (Machine.run (step port) ops w).oms.toOmsState ↔
      Machine.Along (step port) (fun op w => endsWhole w.oms.toOmsState op = true) ops w := by
  induction ops generalizing w with
  | nil => exact ⟨fun _ => trivial, fun _ => hw⟩
  | cons op ops ih =>
      have hnext := step_numbered port op w hnumbered
      have hlater : ∀ op' ∈ ops, NeverConcludesFilled op' :=
        fun op' hop' => hresolve op' (List.mem_cons_of_mem op hop')
      have hstep : endsWhole w.oms.toOmsState op = true →
          FilledWhole (step port op w).oms.toOmsState := fun hwhole =>
        step_filledWhole port op hnumbered (hresolve op List.mem_cons_self) hwhole hw
      rw [Machine.run_cons]
      constructor
      · intro hend
        have hwhole : endsWhole w.oms.toOmsState op = true := by
          by_contra hshort
          have hbroken := not_filledWhole_of_ends_short port op ((Bool.not_eq_true _).mp hshort)
          exact not_filledWhole_run port ops hnext hbroken hend
        exact ⟨hwhole, (ih hnext hlater (hstep hwhole)).mp hend⟩
      · intro halong
        exact (ih hnext hlater (hstep halong.1)).mpr halong.2

/-- In a run whose operator never concludes that an order has filled, every filled
order has its whole quantity accounted for exactly when no step ended an order
short. -/
theorem filled_whole_along (port : IExchangeExecution σ) (config : OmsConfig) (clock : Nanos)
    (venue : σ) (ops : List (Op σ)) (hresolve : ∀ op ∈ ops, NeverConcludesFilled op) :
    FilledWhole (Machine.run (step port) ops (World.init config clock venue)).oms.toOmsState ↔
      Machine.Along (step port) (fun op w => endsWhole w.oms.toOmsState op = true) ops
        (World.init config clock venue) := by
  apply filledWhole_run_iff port ops (numbered_init config clock) hresolve
  intro order horder
  simp [World.init, OrderManager.init] at horder

/-- An order filled in two parts, and one the venue filled before it could be
cancelled. -/
theorem filled_whole_along_fills :
    let ops : List (Op Unit) := [.attachExecution, Sample.submitNew 10, Sample.ack '1' 'x',
      Sample.fill '1' 'a' 4, Sample.fill '1' 'b' 6, Sample.submitNew 10, Sample.ack '2' 'y',
      Sample.submitCancel, Sample.cancelAnswer '2' .tooLate]
    (∀ op ∈ ops, NeverConcludesFilled op) ∧ FilledWhole (Sample.after ops).oms.toOmsState := by
  intro ops
  have hresolve : ∀ op ∈ ops, NeverConcludesFilled op := by decide +kernel
  exact ⟨hresolve, (filled_whole_along Sample.acceptAll {} 1 () ops hresolve).mpr
      (by decide +kernel)⟩

/-- An acknowledgement that reports the order filled, with its whole quantity, ends
it with nothing booked. -/
theorem filled_ack_books_nothing :
    let ops : List (Op Unit) := [.attachExecution, Sample.submitNew 10,
      .apply (.orderAck { Sample.ackEvent '1' (Sample.exchangeId 'x') .filled 1 with
        cumulativeQty := Sample.amount 10 })]
    (∀ op ∈ ops, NeverConcludesFilled op) ∧ ¬ FilledWhole (Sample.after ops).oms.toOmsState := by
  decide +kernel

end MmEngine.Oms
