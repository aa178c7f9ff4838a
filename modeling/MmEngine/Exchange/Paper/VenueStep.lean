/-
# One call of the paper venue

The calls the venue answers, as the steps of one machine, and what each part of a
call leaves alone: scheduling an event touches the queue, its counter, the fault it
uses up and the metrics, and nothing else.
-/

import MmEngine.Exchange.Paper.PaperExecution
import MmEngine.Lib.Machine

namespace MmEngine.Exchange.Paper

namespace PaperExecution

/-- Everything that can happen to the venue: its calls, time, and what is injected. -/
inductive Op
  | start
  | stop
  | setConnection (state : ConnectionState)
  | setAuthenticated (authenticated : Bool)
  | inject (faults : PaperFaults)
  | submit (request : OrderRequest)
  | cancel (request : CancelRequest)
  | cancelAll (symbol : Symbol)
  | replace (request : ReplaceRequest)
  | queryOpenOrders (symbol : Symbol)
  | queryOrder (clientOrderId : ClientOrderId) (exchangeOrderId : ExchangeOrderId)
  | attachBook (symbol : Symbol) (book : BookView)
  | onMarketUpdate (symbol : Symbol) (updateNs : Nanos)
  | poll
  | advance (elapsed : Nat)
  | setWall (wall : Nanos)

/-- The venue after one call. -/
def step (op : Op) (v : PaperExecution) : PaperExecution :=
  match op with
  | .start => v.start.2
  | .stop => v.stop.2
  | .setConnection state => (v.setConnection state).2
  | .setAuthenticated authenticated => v.setAuthenticated authenticated
  | .inject faults => v.inject faults
  | .submit request => (v.submit request).2
  | .cancel request => (v.cancel request).2
  | .cancelAll symbol => (v.cancelAll symbol).2
  | .replace request => (v.replace request).2
  | .queryOpenOrders symbol => (v.queryOpenOrders symbol).2
  | .queryOrder clientOrderId exchangeOrderId => (v.queryOrder clientOrderId exchangeOrderId).2
  | .attachBook symbol book => v.attachBook symbol book
  | .onMarketUpdate symbol updateNs => v.onMarketUpdate symbol updateNs
  | .poll => v.poll.2
  | .advance elapsed => v.advance elapsed
  | .setWall wall => { v with wall := wall }

end PaperExecution

/-- The venue's orders, their indices and the counters that number them. -/
structure Table where
  orders : List PaperOrder
  byClientId : AList fun _ : ClientOrderId => Nat
  byExchangeId : AList fun _ : ExchangeOrderId => Nat
  nextExchangeSeq : Nat
  nextTradeSeq : Nat
  nextArrivalSeq : Nat

/-- What the venue is set up with and told, and what is on its way to it. -/
structure Setting where
  config : PaperExecutionConfig
  clock : Nanos
  wall : Nanos
  started : Bool
  connection : ConnectionState
  authenticated : Bool
  books : AList fun _ : Symbol => BookView
  bookUpdatedNs : AList fun _ : Symbol => Nanos
  inFlight : List PendingRequest

namespace PaperExecution

def table (v : PaperExecution) : Table where
  orders := v.orders
  byClientId := v.byClientId
  byExchangeId := v.byExchangeId
  nextExchangeSeq := v.nextExchangeSeq
  nextTradeSeq := v.nextTradeSeq
  nextArrivalSeq := v.nextArrivalSeq

def setting (v : PaperExecution) : Setting where
  config := v.config
  clock := v.clock
  wall := v.wall
  started := v.started
  connection := v.connection
  authenticated := v.authenticated
  books := v.books
  bookUpdatedNs := v.bookUpdatedNs
  inFlight := v.inFlight

variable (v : PaperExecution)

/-- Scheduling writes the queue, the emission counter, the faults and the metrics. -/
theorem scheduleAt_frame (dueNs : Nanos) (event : ExecutionEvent) :
    ∃ pending nextOrdinal faults metrics, v.scheduleAt dueNs event =
      { v with
        pending := pending
        nextOrdinal := nextOrdinal
        faults := faults
        metrics := metrics } := by
  unfold scheduleAt
  split
  · exact ⟨_, _, _, _, rfl⟩
  · dsimp only
    split
    · exact ⟨_, _, _, _, rfl⟩
    · exact ⟨_, _, _, _, rfl⟩

theorem schedule_frame (delay : Nanos) (event : ExecutionEvent) :
    ∃ pending nextOrdinal faults metrics, v.schedule delay event =
      { v with
        pending := pending
        nextOrdinal := nextOrdinal
        faults := faults
        metrics := metrics } :=
  v.scheduleAt_frame _ event

@[simp]
theorem schedule_table (delay : Nanos) (event : ExecutionEvent) :
    (v.schedule delay event).table = v.table := by
  obtain ⟨_, _, _, _, h⟩ := v.schedule_frame delay event
  rw [h]
  rfl

@[simp]
theorem schedule_setting (delay : Nanos) (event : ExecutionEvent) :
    (v.schedule delay event).setting = v.setting := by
  obtain ⟨_, _, _, _, h⟩ := v.schedule_frame delay event
  rw [h]
  rfl

/-- A fill uses up a trade number. -/
@[simp]
theorem scheduleFill_table (order : PaperOrder) (result : MatchResult) (delay : Nanos) :
    (v.scheduleFill order result delay).table =
      { v.table with nextTradeSeq := v.nextTradeSeq + 1 } :=
  schedule_table _ _ _

@[simp]
theorem scheduleFill_setting (order : PaperOrder) (result : MatchResult) (delay : Nanos) :
    (v.scheduleFill order result delay).setting = v.setting :=
  schedule_setting _ _ _

theorem setConnection_table (state : ConnectionState) :
    (v.setConnection state).2.table = v.table := by
  unfold setConnection
  split
  · rfl
  · rfl

theorem start_table : v.start.2.table = v.table :=
  (setConnection_table _ _).trans (setConnection_table _ _)

theorem stop_table : v.stop.2.table = v.table := by
  unfold stop
  split
  · rfl
  · exact setConnection_table _ _

theorem takeRequest_table (request : Request) (delay : Nanos) :
    (v.takeRequest request delay).table = v.table := by
  unfold takeRequest
  split
  · rfl
  · rfl

theorem submit_table (request : OrderRequest) : (v.submit request).2.table = v.table := by
  unfold submit
  repeat' split
  all_goals first | rfl | exact takeRequest_table _ _ _

theorem cancel_table (request : CancelRequest) : (v.cancel request).2.table = v.table := by
  unfold cancel
  repeat' split
  all_goals first | rfl | exact takeRequest_table _ _ _

theorem replace_table (request : ReplaceRequest) : (v.replace request).2.table = v.table := by
  unfold replace
  repeat' split
  all_goals first | rfl | exact takeRequest_table _ _ _

theorem cancelEach_table (symbol : Symbol) (orders : List PaperOrder) :
    (cancelEach symbol orders v).2.table = v.table := by
  induction orders generalizing v with
  | nil => rfl
  | cons order orders ih =>
      rw [cancelEach]
      split
      · exact ih v
      dsimp only
      split
      · exact v.cancel_table _
      · exact (ih _).trans (v.cancel_table _)

theorem cancelAll_table (symbol : Symbol) : (v.cancelAll symbol).2.table = v.table := by
  unfold cancelAll
  split
  · rfl
  · exact v.cancelEach_table symbol v.orders

theorem scheduleEach_table (delay : Nanos) (event : ExecutionEvent) (chunks : Nat) :
    (scheduleEach delay event chunks v).table = v.table := by
  induction chunks generalizing v with
  | zero => rfl
  | succ chunks ih => exact (ih _).trans (v.schedule_table delay event)

theorem queryOpenOrders_table (symbol : Symbol) :
    (v.queryOpenOrders symbol).2.table = v.table := by
  unfold queryOpenOrders
  split
  · rfl
  · exact scheduleEach_table _ _ _ _

theorem queryOrder_table (clientOrderId : ClientOrderId) (exchangeOrderId : ExchangeOrderId) :
    (v.queryOrder clientOrderId exchangeOrderId).2.table = v.table := by
  unfold queryOrder
  split
  · rfl
  split
  · exact schedule_table _ _ _
  · exact schedule_table _ _ _

/-- Only a poll and a market update touch the venue's orders. -/
theorem step_table {op : Op} (hpoll : op ≠ .poll)
    (hupdate : ∀ symbol updateNs, op ≠ .onMarketUpdate symbol updateNs) :
    (step op v).table = v.table := by
  cases op with
  | start => exact v.start_table
  | stop => exact v.stop_table
  | setConnection state => exact v.setConnection_table state
  | setAuthenticated authenticated => rfl
  | inject faults => rfl
  | submit request => exact v.submit_table request
  | cancel request => exact v.cancel_table request
  | cancelAll symbol => exact v.cancelAll_table symbol
  | replace request => exact v.replace_table request
  | queryOpenOrders symbol => exact v.queryOpenOrders_table symbol
  | queryOrder clientOrderId exchangeOrderId =>
      exact v.queryOrder_table clientOrderId exchangeOrderId
  | attachBook symbol book => rfl
  | onMarketUpdate symbol updateNs => exact absurd rfl (hupdate symbol updateNs)
  | poll => exact absurd rfl hpoll
  | advance elapsed => rfl
  | setWall wall => rfl

end PaperExecution

end MmEngine.Exchange.Paper
