/-
# What the order manager makes of the fills

The order manager takes fills off its queue long after the sink has seen them, loses those
that do not fit, and refuses some of the others; but it books none that the sink has not
seen, none out of turn and none twice, on one order or on two, however many trades the ring
of an order has forgotten.
-/

import MmEngine.Oms.Bookings
import MmEngine.Pipeline.FillFlow

namespace MmEngine.Pipeline

open MmEngine.Exchange MmEngine.Exchange.Paper MmEngine.Oms MmEngine.Risk

namespace AccountingPipeline

/-- The world as draining the queue begins. -/
def draining (p : AccountingPipeline) : World PaperExecution :=
  p.trading.withOms fun m => { m with queue := [] }

/-- What the order manager books in an operation, and on which order. -/
def booked (op : Op) (p : AccountingPipeline) : List (Nat × FillEvent) :=
  match op with
  | .processEvents =>
      allBookings PaperExecution.port (p.trading.oms.queue.map .apply) p.draining
  | _ => []

/-- Everything that the order manager books along a run. -/
def bookings (ops : List Op) (p : AccountingPipeline) : List (Nat × FillEvent) :=
  (Machine.outputs step booked ops p).flatten

/-- What has been booked and what is queued are some of the fills in the sink, in their
order. -/
def InTurn (past : List (Nat × FillEvent)) (p : AccountingPipeline) : Prop :=
  (past.map Prod.snd ++ fillsIn p.trading.oms.queue).Sublist (fillsIn p.sink.fills)

theorem InTurn.of_queue {past : List (Nat × FillEvent)} {p q : AccountingPipeline}
    (h : InTurn past p) (hsink : q.sink = p.sink)
    (hqueue : q.trading.oms.queue = p.trading.oms.queue ∨ q.trading.oms.queue = []) :
    InTurn past q := by
  rw [InTurn, hsink]
  rcases hqueue with hsame | hempty
  · rw [hsame]
    exact h
  · rw [hempty, fillsIn_nil, List.append_nil]
    exact (List.sublist_append_left _ _).trans h

theorem InTurn.onExecution {past : List (Nat × FillEvent)} {p : AccountingPipeline}
    (h : InTurn past p) (event : ExecutionEvent) : InTurn past (p.onExecution event) := by
  rw [InTurn, onExecution_fills, onExecution_oms, OrderManager.onExecution]
  split
  · show (past.map Prod.snd ++ fillsIn (p.trading.oms.queue ++ [event])).Sublist _
    rw [fillsIn_append, ← List.append_assoc]
    exact h.append (.refl _)
  · exact h.trans (List.sublist_append_left _ _)

theorem InTurn.manage {past : List (Nat × FillEvent)} {p : AccountingPipeline}
    (h : InTurn past p) (op : Oms.Op PaperExecution) : InTurn past (p.manage op) :=
  h.of_queue rfl ((step_queue PaperExecution.port op p.trading).imp id And.left)

theorem InTurn.step {past : List (Nat × FillEvent)} {p : AccountingPipeline}
    (h : InTurn past p) (op : Op) : InTurn (past ++ booked op p) (step op p) := by
  have hquiet : booked op p = [] → InTurn past (AccountingPipeline.step op p) →
      InTurn (past ++ booked op p) (AccountingPipeline.step op p) := by
    intro hnone hnext
    rw [hnone, List.append_nil]
    exact hnext
  cases op with
  | processEvents =>
      have hempty : (AccountingPipeline.step .processEvents p).trading.oms.queue = [] :=
        processEvents_queue PaperExecution.port p.trading
      rw [InTurn, hempty, fillsIn_nil, List.append_nil, List.map_append]
      exact ((List.Sublist.refl _).append (allBookings_apply_sublist _ _ _)).trans h
  | venue call =>
      refine hquiet rfl (Table.foldl_invariant (I := InTurn past)
        (fun q event hq => hq.onExecution event) _ ?_)
      exact (h.manage _).manage _
  | registerSymbol _ | onMark _ | onBalance _ | clearFault _ =>
      exact hquiet rfl (h.of_queue rfl (.inl rfl))
  | _ => exact hquiet rfl (h.manage _)

theorem run_inTurn (ops : List Op) {p : AccountingPipeline} (h : InTurn [] p) :
    InTurn (bookings ops p) (Machine.run AccountingPipeline.step ops p) := by
  have halong : Machine.Along AccountingPipeline.step (fun _ _ => True) ops p :=
    Machine.along_label_iff.mpr fun _ _ => trivial
  have hrun := Machine.history_run (P := InTurn) booked (fun op _ _ hq _ => hq.step op) h halong
  rwa [List.nil_append] at hrun

/-- No cancel in the queue has come too late when the queue is drained. -/
def DrainsTimely (op : Op) (p : AccountingPipeline) : Prop :=
  op = .processEvents → ∀ event ∈ p.trading.oms.queue, Timely (.apply event : Oms.Op PaperExecution)

/-- The order manager's orders have filled what has been booked on them. -/
structure FilledByBookings (past : List (Nat × FillEvent)) (p : AccountingPipeline) : Prop where
  numbered : p.trading.oms.toOmsState.Numbered
  whole : BookedWhole past p.trading.oms.toOmsState

theorem FilledByBookings.manage {past : List (Nat × FillEvent)} {p : AccountingPipeline}
    (h : FilledByBookings past p) (op : Oms.Op PaperExecution)
    (hnone : p.trading.oms.toOmsState.bookings op = []) (htimely : Timely op) :
    FilledByBookings past (p.manage op) where
  numbered := step_numbered _ op p.trading h.numbered
  whole := by
    have hstep := h.whole.step PaperExecution.port h.numbered htimely
    rwa [hnone, List.append_nil] at hstep

theorem FilledByBookings.processEvents {past : List (Nat × FillEvent)} {p : AccountingPipeline}
    (h : FilledByBookings past p)
    (htimely : ∀ event ∈ p.trading.oms.queue, Timely (.apply event : Oms.Op PaperExecution)) :
    FilledByBookings (past ++ booked .processEvents p) (step .processEvents p) := by
  have halong : Machine.Along (Oms.step PaperExecution.port) (fun op _ => Timely op)
      (p.trading.oms.queue.map .apply) p.draining := by
    rw [Machine.along_label_iff]
    intro op hop
    obtain ⟨event, hmem, rfl⟩ := List.mem_map.mp hop
    exact htimely event hmem
  have hrun := Machine.history_run
    (P := fun past (w : World PaperExecution) =>
      w.oms.toOmsState.Numbered ∧ BookedWhole past w.oms.toOmsState)
    (fun op w => w.oms.toOmsState.bookings op)
    (fun op w _ hw hop => ⟨step_numbered _ op w hw.1, hw.2.step _ hw.1 hop⟩)
    (show _ ∧ BookedWhole past p.draining.oms.toOmsState from ⟨h.numbered, h.whole⟩) halong
  have hdrained : (AccountingPipeline.step .processEvents p).trading =
      Machine.run (Oms.step PaperExecution.port) (p.trading.oms.queue.map .apply) p.draining :=
    processEvents_eq_run PaperExecution.port p.trading
  rw [← hdrained] at hrun
  exact ⟨hrun.1, hrun.2⟩

theorem FilledByBookings.step {past : List (Nat × FillEvent)} {p : AccountingPipeline}
    (h : FilledByBookings past p) {op : Op} (htimely : DrainsTimely op p) :
    FilledByBookings (past ++ booked op p) (step op p) := by
  have hquiet : booked op p = [] → FilledByBookings past (AccountingPipeline.step op p) →
      FilledByBookings (past ++ booked op p) (AccountingPipeline.step op p) := by
    intro hnone hnext
    rw [hnone, List.append_nil]
    exact hnext
  cases op with
  | processEvents => exact h.processEvents (htimely rfl)
  | venue call =>
      obtain ⟨-, homs, -⟩ := p.callVenue_spec call
      have hadvanced : FilledByBookings past
          ((p.manage (.venue (PaperExecution.step call))).manage (.advance (elapsed call))) :=
        (h.manage (.venue (PaperExecution.step call)) rfl trivial).manage
          (.advance (elapsed call)) rfl trivial
      exact hquiet rfl ⟨homs ▸ hadvanced.numbered, homs ▸ hadvanced.whole⟩
  | registerSymbol _ | onMark _ | onBalance _ | clearFault _ =>
      exact hquiet rfl ⟨h.numbered, h.whole⟩
  | submit approved => exact hquiet rfl (h.manage (.submit approved) rfl trivial)
  | onTimer => exact hquiet rfl (h.manage .onTimer rfl trivial)
  | reconcile snapshot => exact hquiet rfl (h.manage (.reconcile snapshot) rfl trivial)
  | resolve id target => exact hquiet rfl (h.manage (.resolve id target) rfl trivial)
  | attachExecution => exact hquiet rfl (h.manage .attachExecution rfl trivial)
  | restart config => exact hquiet rfl (h.manage (.restart config) rfl trivial)

theorem run_filledByBookings {ops : List Op} {p : AccountingPipeline} (h : FilledByBookings [] p)
    (htimely : Machine.Along AccountingPipeline.step DrainsTimely ops p) :
    FilledByBookings (bookings ops p) (Machine.run AccountingPipeline.step ops p) := by
  have hrun := Machine.history_run (P := FilledByBookings) (C := DrainsTimely) booked
    (fun _ _ _ hq hop => hq.step hop) h htimely
  rwa [List.nil_append] at hrun

/-- Over every run in which no event is repeated, what the order manager books is a part of
what the sink was handed, in the order it was handed it. Until the count of trades goes round
no trade is booked twice, on one order or on two. And unless a cancel came too late, what
an order has filled is the sum of what was booked on it. -/
theorem fills_booked_once (oms : OmsConfig) (venue : PaperExecutionConfig)
    (accounting : Portfolio.AccountingConfig) (clock wall : Nanos) (ops : List Op)
    (hunrepeating : Unrepeating ops) :
    let start := init oms venue accounting clock wall
    let p := Machine.run step ops start
    ((bookings ops start).map Prod.snd).Sublist (fillsIn p.sink.fills) ∧
      ((trades ops start).length ≤ 2 ^ 64 →
        ((bookings ops start).map fun booking => booking.2.tradeId).Nodup) ∧
      (Machine.Along step DrainsTimely ops start → ∀ (i : Nat) (order : OrderRecord),
        p.trading.oms.orders[i]? = some order →
          order.cumulativeQuantity.raw =
            ((bookedAt (bookings ops start) i).map fun fill => fill.quantity.raw).sum) := by
  intro start p
  have hinit : InTurn [] start := List.nil_sublist _
  have hinTurn : ((bookings ops start).map Prod.snd).Sublist (fillsIn p.sink.fills) :=
    (List.sublist_append_left _ _).trans (run_inTurn ops hinit)
  refine ⟨hinTurn, fun hcount => ?_, fun htimely i order horder => ?_⟩
  · have hids := (hinTurn.map FillEvent.tradeId).nodup
      (nodup_delivered oms venue accounting clock wall hunrepeating hcount)
    rwa [List.map_map] at hids
  · have hstart : FilledByBookings [] start :=
      ⟨numbered_init oms clock, bookedWhole_init oms clock⟩
    exact (run_filledByBookings hstart htimely).whole.cumulativeQuantity horder

theorem fills_booked_once_bought :
    (bookings Sample.ops Sample.start).length = 1 ∧
      ((bookings Sample.ops Sample.start).map fun booking => booking.2.tradeId).Nodup :=
  ⟨by decide,
    (fills_booked_once { maxOrders := 2 } Paper.Sample.config {} 0 0 Sample.ops
      Sample.ops_unrepeating).2.1 (by decide)⟩

end AccountingPipeline

end MmEngine.Pipeline
