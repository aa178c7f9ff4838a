/-
# From the venue to the sink

A fill is made when the venue executes, waits, and reaches the sink: once at most, and
once exactly when nothing is dropped from the queue and the transport stays open. The order
manager's own requests get in the way of none of it, whatever they are and whenever they
are made.
-/

import MmEngine.Pipeline.VenueRuns

namespace MmEngine.Exchange.Paper.PaperExecution

/-- The fills of a run have identities of their own until the count of trades goes round. -/
theorem nodup_history {calls : List Op} {v : PaperExecution}
    (hcount : (history calls v).length ≤ 2 ^ 64) :
    ((history calls v).map fun e => e.fill.tradeId).Nodup := by
  rw [(history_numbered calls v).ids]
  refine List.Nodup.map_on ?_ List.nodup_range'
  intro j hj k hk hsame
  have hmod := mint_inj.mp hsame
  rw [List.mem_range'_1] at hj hk
  omega

end MmEngine.Exchange.Paper.PaperExecution

namespace MmEngine.Pipeline

open MmEngine.Exchange MmEngine.Exchange.Paper MmEngine.Oms MmEngine.Quote MmEngine.Risk

namespace AccountingPipeline

/-- No call of the venue injects a fault that repeats an event. -/
def Unrepeating (ops : List Op) : Prop := ∀ call, Op.venue call ∈ ops → call.Unrepeating

/-- No call closes the transport. -/
def StaysOpen (ops : List Op) : Prop := Op.venue .stop ∉ ops

/-- What holds of the requests of the order manager and of the calls a run makes, holds of
every call. -/
theorem forall_callOf {Q : OrderAction → Prop} {P : PaperExecution.Op → Prop} {ops : List Op}
    {calls : List PaperExecution.Op} (hcalls : ∀ call ∈ calls, CallOf Q ops call)
    (hrequest : ∀ request, P (requestCall request)) (hvenue : ∀ call, .venue call ∈ ops → P call) :
    ∀ call ∈ calls, P call := by
  intro call hmem
  rcases hcalls call hmem with hown | ⟨request, -, rfl⟩
  · exact hvenue call hown
  · exact hrequest request

theorem Unrepeating.calls {Q : OrderAction → Prop} {ops : List Op}
    {calls : List PaperExecution.Op} (h : Unrepeating ops)
    (hcalls : ∀ call ∈ calls, CallOf Q ops call) : ∀ call ∈ calls, call.Unrepeating :=
  forall_callOf hcalls (fun request => by cases request <;> trivial) h

theorem StaysOpen.calls {Q : OrderAction → Prop} {ops : List Op}
    {calls : List PaperExecution.Op} (h : StaysOpen ops)
    (hcalls : ∀ call ∈ calls, CallOf Q ops call) : ∀ call ∈ calls, call ≠ .stop := by
  refine forall_callOf hcalls (fun request => by cases request <;> simp [requestCall]) ?_
  rintro call hmem rfl
  exact h hmem

section Delivered

variable (oms : OmsConfig) (venue : PaperExecutionConfig) (accounting : Portfolio.AccountingConfig)
  (clock wall : Nanos) {ops : List Op} (hunrepeating : Unrepeating ops)

/-- The venue's part of a run from the start. -/
theorem exists_venuePart_init (ops : List Op) :
    ∃ calls, (∀ call ∈ calls, CallOf (fun _ => True) ops call) ∧
      VenuePart calls ops (init oms venue accounting clock wall) :=
  exists_venuePart (submits_true ops) (standing_init oms venue accounting clock wall)

include hunrepeating in
/-- What the sink holds and what waits is part of what was executed. -/
theorem delivered_le :
    (fillsIn (Machine.run step ops (init oms venue accounting clock wall)).sink.fills :
        Multiset FillEvent) +
        waitingFills
          (Machine.run step ops (init oms venue accounting clock wall)).trading.venue.pending ≤
      executedFills (trades ops (init oms venue accounting clock wall)) := by
  obtain ⟨calls, hcalls, hpart⟩ := exists_venuePart_init oms venue accounting clock wall ops
  have hle := PaperExecution.run_passes_le (hunrepeating.calls hcalls)
    (v := PaperExecution.init venue clock wall) rfl
  rw [hpart.fills, hpart.trades, hpart.venue]
  exact hle.trans (zero_add _).le

include hunrepeating in
/-- And is all of it when nothing was lost on the way. -/
theorem delivered_eq (hopen : StaysOpen ops)
    (hdropped : (Machine.run step ops
      (init oms venue accounting clock wall)).trading.venue.metrics.eventsDropped = 0) :
    (fillsIn (Machine.run step ops (init oms venue accounting clock wall)).sink.fills :
        Multiset FillEvent) +
        waitingFills
          (Machine.run step ops (init oms venue accounting clock wall)).trading.venue.pending =
      executedFills (trades ops (init oms venue accounting clock wall)) := by
  obtain ⟨calls, hcalls, hpart⟩ := exists_venuePart_init oms venue accounting clock wall ops
  rw [hpart.venue] at hdropped
  have heq := PaperExecution.run_passes_eq (hunrepeating.calls hcalls)
    (v := PaperExecution.init venue clock wall) rfl (hopen.calls hcalls) hdropped
  rw [hpart.fills, hpart.trades, hpart.venue]
  exact heq.trans (zero_add _)

include hunrepeating in
theorem nodup_delivered
    (hcount : (trades ops (init oms venue accounting clock wall)).length ≤ 2 ^ 64) :
    ((fillsIn (Machine.run step ops (init oms venue accounting clock wall)).sink.fills).map
      FillEvent.tradeId).Nodup := by
  have hsub := (Multiset.le_add_right _ _).trans
    (delivered_le oms venue accounting clock wall hunrepeating)
  obtain ⟨calls, -, hpart⟩ := exists_venuePart_init oms venue accounting clock wall ops
  have hids := Multiset.map_le_map (f := FillEvent.tradeId) hsub
  rw [hpart.trades] at hcount hids
  rw [executedFills, Multiset.map_coe, Multiset.map_coe, List.map_map] at hids
  exact Multiset.coe_nodup.mp
    (Multiset.nodup_of_le hids (Multiset.coe_nodup.mpr (PaperExecution.nodup_history hcount)))

end Delivered

/-- Over every run in which no event is repeated, the fills in the sink and those that still
wait are among the fills the venue has executed, and are all of them if none was dropped and
the transport stayed open. Until the count of trades goes round no two fills in the sink have
the same identity. -/
theorem fills_delivered_once (oms : OmsConfig) (venue : PaperExecutionConfig)
    (accounting : Portfolio.AccountingConfig) (clock wall : Nanos) (ops : List Op)
    (hunrepeating : Unrepeating ops) :
    let start := init oms venue accounting clock wall
    let p := Machine.run step ops start
    (fillsIn p.sink.fills : Multiset FillEvent) + waitingFills p.trading.venue.pending ≤
        executedFills (trades ops start) ∧
      (StaysOpen ops → p.trading.venue.metrics.eventsDropped = 0 →
        (fillsIn p.sink.fills : Multiset FillEvent) + waitingFills p.trading.venue.pending =
          executedFills (trades ops start)) ∧
      ((trades ops start).length ≤ 2 ^ 64 →
        ((fillsIn p.sink.fills).map FillEvent.tradeId).Nodup) :=
  ⟨delivered_le oms venue accounting clock wall hunrepeating,
    delivered_eq oms venue accounting clock wall hunrepeating,
    nodup_delivered oms venue accounting clock wall hunrepeating⟩

namespace Sample

def buy : ApprovedAction where
  action :=
    { Oms.Sample.action .new 3 with
      symbol := Paper.Sample.symbol, price := Paper.Sample.price }
  valid := true

theorem raw_four_pos : 0 < Paper.Sample.four.raw := by decide

/-- One order crosses a book that offers four, and is acknowledged and filled. -/
def ops : List Op :=
  [.registerSymbol Paper.Sample.symbol, .venue .start,
    .venue (.attachBook Paper.Sample.symbol (Paper.Sample.offer Paper.Sample.four raw_four_pos)),
    .venue (.onMarketUpdate Paper.Sample.symbol 0), .attachExecution, .submit buy, .venue .poll,
    .processEvents, .venue .poll]

def start : AccountingPipeline := init { maxOrders := 2 } Paper.Sample.config {} 0 0

theorem ops_unrepeating : Unrepeating ops := by
  intro call hmem
  simp only [ops, List.mem_cons, List.not_mem_nil, Op.venue.injEq, reduceCtorEq, false_or,
    or_false] at hmem
  rcases hmem with rfl | rfl | rfl | rfl | rfl <;> trivial

theorem ops_staysOpen : StaysOpen ops := by
  simp [StaysOpen, ops]

end Sample

theorem fills_delivered_once_bought :
    ((Machine.run step Sample.ops Sample.start).sink.seenFills = 1 ∧
        (trades Sample.ops Sample.start).length = 1) ∧
      (fillsIn (Machine.run step Sample.ops Sample.start).sink.fills : Multiset FillEvent) +
          waitingFills (Machine.run step Sample.ops Sample.start).trading.venue.pending =
        executedFills (trades Sample.ops Sample.start) :=
  ⟨by decide,
    (fills_delivered_once { maxOrders := 2 } Paper.Sample.config {} 0 0 Sample.ops
      Sample.ops_unrepeating).2.1 Sample.ops_staysOpen (by decide)⟩

end AccountingPipeline

end MmEngine.Pipeline
