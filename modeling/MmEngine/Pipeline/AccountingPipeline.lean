/-
# The accounting pipeline

The order manager trades on the simulated venue, and one sink hands every event of the
venue to the order manager and every fill to the ledger as well. The two consumers answer
different questions, and neither derives its answer from the other.

What the pipeline does to the venue is a run of calls of the venue, so whatever is known
of those runs is known of the venue inside the pipeline.
-/

import MmEngine.Oms.AdapterCalls
import MmEngine.Exchange.Paper.FillReports
import MmEngine.Portfolio.LostFill

namespace MmEngine.Pipeline

open MmEngine.Exchange MmEngine.Exchange.Paper MmEngine.Oms MmEngine.Portfolio MmEngine.Quote
  MmEngine.Risk

/-- Routes execution events to the order manager and to accounting. -/
structure LedgerSink where
  seenFills : Nat := 0
  rejected : Nat := 0
  /-- The fill events the venue produced. -/
  fills : List ExecutionEvent := []

structure AccountingPipeline where
  trading : World PaperExecution
  accounting : PortfolioAccountant
  sink : LedgerSink := {}

namespace AccountingPipeline

/-- What can happen to the pipeline. Time is a call of the venue. -/
inductive Op
  | submit (approved : ApprovedAction)
  | processEvents
  | onTimer
  | reconcile (snapshot : VenueSnapshot)
  | resolve (id : LogicalOrderId) (target : OrderState)
  | attachExecution
  | restart (config : OmsConfig)
  | venue (call : PaperExecution.Op)
  | registerSymbol (symbol : Symbol)
  | onMark (mark : MarkPrice)
  | onBalance (update : BalanceUpdateEvent)
  | clearFault (symbol : Symbol)

/-- One call of the order manager. -/
def manage (op : Oms.Op PaperExecution) (p : AccountingPipeline) : AccountingPipeline :=
  { p with trading := Oms.step PaperExecution.port op p.trading }

/-- One call of the accountant. -/
def account (op : PortfolioAccountant.Op) (p : AccountingPipeline) : AccountingPipeline :=
  { p with accounting := PortfolioAccountant.step op p.accounting }

/-- The sink is handed an event. -/
def onExecution (p : AccountingPipeline) (event : ExecutionEvent) : AccountingPipeline :=
  let p := { p with trading := p.trading.withOms fun m => m.onExecution event }
  match event with
  | .fill fill =>
      let (out, accounting) := p.accounting.onFill fill
      { p with
        accounting := accounting
        sink :=
          { seenFills := p.sink.seenFills + 1
            rejected :=
              if corruptsLedger out.error then p.sink.rejected + 1 else p.sink.rejected
            fills := p.sink.fills ++ [event] } }
  | _ => p

/-- How far a call moves the one clock that everything reads. -/
def elapsed : PaperExecution.Op → Nat
  | .advance elapsed => elapsed
  | _ => 0

/-- A call of the venue, and what it hands to the sink. -/
def callVenue (call : PaperExecution.Op) (p : AccountingPipeline) : AccountingPipeline :=
  (PaperExecution.emitted call p.trading.venue).foldl onExecution
    ((p.manage (.venue (PaperExecution.step call))).manage (.advance (elapsed call)))

def step (op : Op) (p : AccountingPipeline) : AccountingPipeline :=
  match op with
  | .submit approved => p.manage (.submit approved)
  | .processEvents => { p with trading := (processEvents PaperExecution.port p.trading).2 }
  | .onTimer => p.manage .onTimer
  | .reconcile snapshot => p.manage (.reconcile snapshot)
  | .resolve id target => p.manage (.resolve id target)
  | .attachExecution => p.manage .attachExecution
  | .restart config => p.manage (.restart config)
  | .venue call => p.callVenue call
  | .registerSymbol symbol => p.account (.registerSymbol symbol)
  | .onMark mark => p.account (.mark mark p.trading.oms.clock)
  | .onBalance update => p.account (.balance update p.trading.oms.clock)
  | .clearFault symbol => p.account (.clearFault symbol)

/-- What the venue executes in an operation. -/
def executed (op : Op) (p : AccountingPipeline) : List Execution :=
  match op with
  | .venue call => PaperExecution.executions call p.trading.venue
  | _ => []

/-- Everything that the venue executes along a run. -/
def trades (ops : List Op) (p : AccountingPipeline) : List Execution :=
  (Machine.outputs step executed ops p).flatten

/-- The pipeline before the venue is started. -/
def init (oms : OmsConfig) (venue : PaperExecutionConfig) (accounting : AccountingConfig)
    (clock wall : Nanos) : AccountingPipeline where
  trading := World.init oms clock (PaperExecution.init venue clock wall)
  accounting := .new accounting

section Sink

variable (p : AccountingPipeline) (event : ExecutionEvent)

@[simp]
theorem onExecution_venue : (p.onExecution event).trading.venue = p.trading.venue := by
  cases event <;> rfl

@[simp]
theorem onExecution_oms : (p.onExecution event).trading.oms = p.trading.oms.onExecution event := by
  cases event <;> rfl

/-- The sink keeps the fills it is handed. -/
theorem onExecution_fills :
    fillsIn (p.onExecution event).sink.fills = fillsIn p.sink.fills ++ fillsIn [event] := by
  cases event with
  | fill fill => exact fillsIn_append p.sink.fills [.fill fill]
  | _ => exact (List.append_nil _).symm

end Sink

/-- An event that waits in the order manager's queue, or is lost before it gets there,
changes nothing that the order manager decides on. -/
@[simp]
theorem onExecution_toOmsState (m : OrderManager) (event : ExecutionEvent) :
    (m.onExecution event).toOmsState = m.toOmsState := by
  unfold OrderManager.onExecution
  split
  · rfl
  · rfl

theorem foldl_onExecution (events : List ExecutionEvent) (p : AccountingPipeline) :
    (events.foldl onExecution p).trading.venue = p.trading.venue ∧
      (events.foldl onExecution p).trading.oms.toOmsState = p.trading.oms.toOmsState ∧
      fillsIn (events.foldl onExecution p).sink.fills = fillsIn p.sink.fills ++ fillsIn events := by
  induction events generalizing p with
  | nil => exact ⟨rfl, rfl, (List.append_nil _).symm⟩
  | cons event events ih =>
      obtain ⟨hvenue, homs, hfills⟩ := ih (p.onExecution event)
      refine ⟨hvenue.trans (p.onExecution_venue event), ?_, ?_⟩
      · rw [List.foldl_cons, homs, onExecution_oms, onExecution_toOmsState]
      · rw [List.foldl_cons, hfills, onExecution_fills, List.append_assoc, ← fillsIn_append]
        rfl

/-- A request as the venue is called with it. -/
def requestCall : AdapterCall → PaperExecution.Op
  | .submit request => .submit request
  | .cancel request => .cancel request
  | .replace request => .replace request

theorem step_requestCall (call : AdapterCall) (venue : PaperExecution) :
    PaperExecution.step (requestCall call) venue = (call.make PaperExecution.port venue).2 := by
  cases call <;> rfl

/-- A request executes nothing and is answered by events that are scheduled, never at
once. -/
theorem requestCall_quiet (call : AdapterCall) (venue : PaperExecution) :
    PaperExecution.emitted (requestCall call) venue = [] ∧
      PaperExecution.executions (requestCall call) venue = [] := by
  cases call <;> exact ⟨rfl, rfl⟩

/-- The requests an adapter is handed are calls of the venue that execute nothing and hand over
nothing. -/
theorem exists_calls_of_handed {P : AdapterCall → Prop} {venue after : PaperExecution}
    (h : Handed PaperExecution.port P venue after) :
    ∃ calls : List AdapterCall, (∀ call ∈ calls, P call) ∧
      after = Machine.run PaperExecution.step (calls.map requestCall) venue ∧
      PaperExecution.allEmitted (calls.map requestCall) venue = [] ∧
      PaperExecution.history (calls.map requestCall) venue = [] := by
  induction h with
  | refl => exact ⟨[], by simp, rfl, rfl, rfl⟩
  | tail _ hlast ih =>
      obtain ⟨call, hallowed, rfl⟩ := hlast
      obtain ⟨calls, hcalls, rfl, hhanded, hexecuted⟩ := ih
      obtain ⟨hquiet, hidle⟩ := requestCall_quiet call
        (Machine.run PaperExecution.step (calls.map requestCall) venue)
      refine ⟨calls ++ [call], ?_, ?_, ?_, ?_⟩
      · intro other hother
        rcases List.mem_append.mp hother with hearlier | hlast
        · exact hcalls other hearlier
        · exact List.mem_singleton.mp hlast ▸ hallowed
      · rw [List.map_append, Machine.run_append]
        exact (step_requestCall call _).symm
      · rw [List.map_append, PaperExecution.allEmitted_append, hhanded]
        exact congrArg (· ++ []) hquiet
      · rw [List.map_append, PaperExecution.history_append, hexecuted]
        exact congrArg (· ++ []) hidle

end AccountingPipeline

end MmEngine.Pipeline
