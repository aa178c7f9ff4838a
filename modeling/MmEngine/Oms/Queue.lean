/-
# The inbound queue

Events wait in a queue between the venue and the order manager. Only its two ends touch
it: an event that arrives is appended, and draining it empties it. Everything else that the
order manager does leaves it alone, and a restart begins with an empty one.
-/

import MmEngine.Oms.Run

namespace MmEngine.Oms

open MmEngine.Exchange MmEngine.Quote MmEngine.Risk OmsState OrderManager

variable {σ : Type}

namespace OrderManager

variable (m : OrderManager)

@[simp]
theorem transition_queue (order : OrderRecord) (target : OrderState) (event : OrderEventType)
    (detail : OrderJournalRecord) : (m.transition order target event detail).1.queue = m.queue := by
  unfold transition
  split
  · dsimp only
    split
    · rfl
    · rfl
  · rfl

@[simp]
theorem move_queue (index : Nat) (order : OrderRecord) (target : OrderState)
    (event : OrderEventType) (detail : OrderJournalRecord) :
    (m.move index order target event detail).queue = m.queue :=
  m.transition_queue order target event detail

theorem dispatch_queue (event : ExecutionEvent) : (m.dispatch event).manager.queue = m.queue := by
  unfold dispatch
  split
  · rfl
  split
  · unfold applyAck
    repeat' split
    all_goals first | rfl | exact move_queue _ _ _ _ _ _
  · unfold applyReject
    repeat' split
    all_goals first | rfl | exact move_queue _ _ _ _ _ _
  · unfold applyFill
    split
    · rfl
    split
    · rfl
    split
    · rfl
    split
    · rfl
    · dsimp only
      repeat' split
      all_goals first | rfl | exact move_queue _ _ _ _ _ _
  · unfold applyCancel
    dsimp only
    repeat' split
    all_goals first | rfl | exact move_queue _ _ _ _ _ _
  · unfold applyReplace
    repeat' split
    all_goals first | rfl | exact move_queue _ _ _ _ _ _
  · unfold applyFailure
    repeat' split
    all_goals first | rfl | exact move_queue _ _ _ _ _ _
  · rfl
  · rfl

theorem onTimer_queue : m.onTimer.queue = m.queue := by
  refine Table.foldl_invariant (I := fun n : OrderManager => n.queue = m.queue) ?_ _ rfl
  intro n index hn
  rw [← hn, expireAt]
  repeat' split
  all_goals first | rfl | exact move_queue _ _ _ _ _ _

theorem compareAll_queue (snapshot : VenueSnapshot) :
    (m.compareAll snapshot).1.queue = m.queue := by
  refine Table.foldl_invariant
    (I := fun state : OrderManager × ReconciliationReport => state.1.queue = m.queue) ?_ _ rfl
  intro state listed hstate
  rw [← hstate, compareListed]
  dsimp only
  repeat' split
  all_goals rfl

theorem markMissing_queue (snapshotNs : Nanos) (id : LogicalOrderId) :
    (markMissing snapshotNs m id).queue = m.queue := by
  unfold markMissing
  repeat' split
  all_goals first | rfl | exact move_queue _ _ _ _ _ _

theorem journalDiscrepancy_queue (d : Discrepancy) :
    (m.journalDiscrepancy d).queue = m.queue := by
  unfold journalDiscrepancy
  repeat' split
  all_goals rfl

theorem reconcile_queue (snapshot : VenueSnapshot) :
    (m.reconcile snapshot).2.queue = m.queue := by
  unfold reconcile
  split
  · rfl
  · dsimp only
    refine Table.foldl_invariant (I := fun n : OrderManager => n.queue = m.queue)
      (fun n d hn => (journalDiscrepancy_queue n d).trans hn) _ ?_
    refine Table.foldl_invariant (I := fun n : OrderManager => n.queue = m.queue)
      (fun n id hn => (markMissing_queue n _ id).trans hn) _ ?_
    exact compareAll_queue _ snapshot

theorem resolve_queue (id : LogicalOrderId) (target : OrderState) :
    (m.resolve id target).2.manager.queue = m.queue := by
  unfold resolve
  repeat' split
  all_goals rfl

/-- A restarted order manager has an empty queue. -/
theorem restart_queue {config : OmsConfig} (h : (m.restart config).1.isError = false) :
    (m.restart config).2.queue = [] := by
  unfold restart restore at *
  split at h
  · cases h
  split at h
  · cases h
  · rename_i hempty hroom
    rw [if_neg hempty, if_neg hroom]
    refine Table.foldl_invariant (I := fun n : OrderManager => n.queue = []) ?_ _ rfl
    intro n index hn
    rw [← hn, recoverAt]
    repeat' split
    all_goals rfl

end OrderManager

section Submissions

variable (port : IExchangeExecution σ) (action : OrderAction) (w : World σ)

theorem sendNew_queue (index : Nat) (created : OrderRecord) :
    (sendNew port index created w).2.oms.queue = w.oms.queue := by
  unfold sendNew
  split
  · rfl
  · dsimp only
    split
    · exact (transition_queue _ _ _ _ _).trans (transition_queue _ _ _ _ _)
    · exact transition_queue _ _ _ _ _

theorem createOrder_queue : (createOrder port action w).2.oms.queue = w.oms.queue := by
  unfold createOrder
  split
  · rfl
  · dsimp only
    split
    · rfl
    · exact sendNew_queue port _ _ _

theorem handleNew_queue : (handleNew port action w).2.oms.queue = w.oms.queue := by
  unfold handleNew
  split
  · rfl
  split
  · exact createOrder_queue port action w
  split
  · unfold deferNew
    split
    · rfl
    · rfl
  split
  · rfl
  · exact createOrder_queue port action w

theorem sendCancel_queue (index : Nat) (order : OrderRecord) :
    (sendCancel port index order w).2.oms.queue = w.oms.queue := by
  unfold sendCancel
  dsimp only
  split
  · exact (transition_queue _ _ _ _ _).trans (transition_queue _ _ _ _ _)
  · exact transition_queue _ _ _ _ _

theorem handleCancel_queue : (handleCancel port action w).2.oms.queue = w.oms.queue := by
  unfold handleCancel
  split
  · rfl
  split
  · rfl
  split
  · rfl
  split
  · rfl
  split
  · rfl
  · exact sendCancel_queue port w _ _

theorem sendReplace_queue (index : Nat) (order : OrderRecord) (replacementId : ClientOrderId) :
    (sendReplace port action index order replacementId w).2.oms.queue = w.oms.queue := by
  unfold sendReplace
  dsimp only
  split
  · exact (transition_queue _ _ _ _ _).trans (transition_queue _ _ _ _ _)
  · exact transition_queue _ _ _ _ _

theorem handleReplace_queue : (handleReplace port action w).2.oms.queue = w.oms.queue := by
  unfold handleReplace
  split
  · rfl
  split
  · rfl
  split
  · rfl
  split
  · rfl
  split
  · rfl
  split
  · rfl
  split
  · rfl
  split
  · rfl
  · exact sendReplace_queue port action (w.withOms fun m => m.onState burnClientId) _ _ _

theorem submit_queue (approved : ApprovedAction) :
    (submit port approved w).2.oms.queue = w.oms.queue := by
  unfold submit
  split
  · rfl
  split
  · exact handleNew_queue port _ w
  · exact handleCancel_queue port _ w
  · exact handleReplace_queue port _ w
  · rfl

end Submissions

theorem releaseEntry_queue (port : IExchangeExecution σ) (resolved : LogicalOrderId) (w : World σ)
    (entry : Nat) : (releaseEntry port resolved w entry).oms.queue = w.oms.queue := by
  unfold releaseEntry
  split
  · split
    · exact handleNew_queue port _ (w.withOms fun m => m.onState fun s => s.vacate entry)
    · rfl
  · rfl

/-- No operation appends to the queue, and none but a restart empties it. -/
theorem step_queue (port : IExchangeExecution σ) (op : Op σ) (w : World σ) :
    (step port op w).oms.queue = w.oms.queue ∨
      (step port op w).oms.queue = [] ∧ ∃ config, op = .restart config := by
  have hrelease : (step port op w).oms.queue = (primary port op w).1.oms.queue :=
    release_invariant (I := fun after : World σ =>
      after.oms.queue = (primary port op w).1.oms.queue) port
      (fun id _ after entry hafter => (releaseEntry_queue port id after entry).trans hafter) rfl
  rw [hrelease]
  cases op with
  | submit approved => exact .inl (submit_queue port w approved)
  | apply event => exact .inl (dispatch_queue w.oms event)
  | onTimer => exact .inl w.oms.onTimer_queue
  | reconcile snapshot => exact .inl (w.oms.reconcile_queue snapshot)
  | resolve id target => exact .inl (w.oms.resolve_queue id target)
  | restart config =>
      show (restartWith config w.oms).queue = _ ∨ (restartWith config w.oms).queue = [] ∧ _
      rw [restartWith]
      split
      · exact .inl rfl
      · rename_i hok
        exact .inr ⟨w.oms.restart_queue (by simpa using hok), config, rfl⟩
  | _ => exact .inl rfl

/-- Draining leaves the queue empty. -/
theorem processEvents_queue (port : IExchangeExecution σ) (w : World σ) :
    (processEvents port w).2.oms.queue = [] := by
  rw [processEvents_eq_run]
  refine Machine.invariant_run (C := fun op _ => ∃ event, op = Op.apply event)
    (I := fun after : World σ => after.oms.queue = []) ?_ rfl ?_
  · rintro _ after hafter ⟨event, rfl⟩
    rcases step_queue port (.apply event) after with hsame | ⟨hempty, -⟩
    · exact hsame.trans hafter
    · exact hempty
  · rw [Machine.along_label_iff]
    intro op hop
    obtain ⟨event, -, rfl⟩ := List.mem_map.mp hop
    exact ⟨event, rfl⟩

end MmEngine.Oms
