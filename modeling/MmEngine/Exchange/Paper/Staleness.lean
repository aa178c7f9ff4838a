/-
# Fills and the age of the book

A market update matches nothing against a book that is too old. An order that
arrives is matched against the book as it stands, whatever its age, so a fill is
fresh exactly when no order takes on arrival from a book that is out of date.
-/

import MmEngine.Exchange.Paper.Liquidity

namespace MmEngine.Exchange.Paper

namespace PaperExecution

/-- The last update of the symbol's book is known and not too old. -/
def bookIsFresh (v : PaperExecution) (symbol : Symbol) : Bool :=
  (v.bookUpdatedNs.lookup symbol).any fun updateNs =>
    decide (v.clock - updateNs ≤ v.config.maxBookAgeNs)

/-- Everything a call executes it executes against a fresh book. -/
def FillsFresh (op : Op) (v : PaperExecution) : Prop :=
  ∀ e ∈ executions op v, (step op v).bookIsFresh e.order.symbol = true

instance (op : Op) (v : PaperExecution) : Decidable (FillsFresh op v) :=
  inferInstanceAs (Decidable (∀ e ∈ executions op v, _))

/-- A new order that nothing refuses and that finds something to take. -/
def takesOnArrival (request : OrderRequest) (v : PaperExecution) : Bool :=
  v.faults.errorNextRequest = 0 && v.faults.rejectNextNew = 0 &&
    (v.findOrder request.clientOrderId).isNone &&
    (v.books.lookup request.symbol).any fun book =>
      let order := v.arrivingOrder request
      isMarketableOnArrival order book && !order.postOnly &&
        (matchAgainstBook order book v.config.fillModel v.config.queueShareBps).quantity.isPositive

/-- A request does not take on arrival from a book that is out of date. -/
def ArrivalFresh (pending : PendingRequest) (v : PaperExecution) : Prop :=
  match pending.request with
  | .submit request => takesOnArrival request v = true → v.bookIsFresh request.symbol = true
  | .cancel _ => True
  | .replace _ => True

/-- No request that a poll lets arrive takes from a book that is out of date. -/
def ArrivalsFresh (op : Op) (v : PaperExecution) : Prop :=
  match op with
  | .poll => v.started = true →
      Machine.Along (fun pending v => v.processRequest pending) ArrivalFresh v.arrived
        { v with inFlight := v.inFlight.filter fun request => ¬ request.dueNs ≤ v.clock }
  | _ => True

variable {v : PaperExecution}

theorem bookIsFresh_congr {w : PaperExecution} (hconfig : w.config = v.config)
    (hclock : w.clock = v.clock) (hupdated : w.bookUpdatedNs = v.bookUpdatedNs) (symbol : Symbol) :
    w.bookIsFresh symbol = v.bookIsFresh symbol := by
  rw [bookIsFresh, bookIsFresh, hupdated, hclock, hconfig]

theorem takeOnArrivalExecutions_ne_nil_iff (index : Nat) (order : PaperOrder) (book : BookView) :
    v.takeOnArrivalExecutions index order book ≠ [] ↔
      (matchAgainstBook order book v.config.fillModel v.config.queueShareBps).quantity.isPositive =
        true := by
  unfold takeOnArrivalExecutions
  dsimp only
  split
  · rename_i hpositive
    simp only [ne_eq, List.cons_ne_nil, not_false_eq_true, hpositive]
  · rename_i hnone
    simp only [ne_eq, not_true_eq_false, hnone]
    simp

/-- A submit executes exactly when it takes on arrival. -/
theorem processSubmitExecutions_ne_nil_iff (request : OrderRequest) (delay : Nanos) :
    v.processSubmitExecutions request delay ≠ [] ↔ takesOnArrival request v = true := by
  unfold processSubmitExecutions takesOnArrival
  by_cases herror : v.faults.errorNextRequest = 0
  · by_cases hreject : v.faults.rejectNextNew = 0
    · cases hfind : v.findOrder request.clientOrderId with
      | some found => simp [herror, hreject]
      | none =>
          unfold acceptOrderExecutions
          cases v.books.lookup request.symbol with
          | none => simp [herror, hreject]
          | some book =>
              have hconfig : (listOrder
                  { v with
                    nextExchangeSeq := v.nextExchangeSeq + 1
                    nextArrivalSeq := v.nextArrivalSeq + 1 }
                  (v.arrivingOrder request) delay).config = v.config :=
                congrArg Setting.config (schedule_setting _ _ _)
              have htakes := @takeOnArrivalExecutions_ne_nil_iff (listOrder
                { v with
                  nextExchangeSeq := v.nextExchangeSeq + 1
                  nextArrivalSeq := v.nextArrivalSeq + 1 }
                (v.arrivingOrder request) delay) v.orders.length (v.arrivingOrder request) book
              rw [hconfig] at htakes
              by_cases hmarketable : isMarketableOnArrival (v.arrivingOrder request) book = true
              · by_cases hposts : (v.arrivingOrder request).postOnly = true
                · simp [herror, hreject, hmarketable, hposts]
                · simpa [herror, hreject, hmarketable, hposts] using htakes
              · simp [herror, hreject, hmarketable]
    · simp [herror, hreject]
  · simp [herror]

/-- Processing a request executes against a fresh book exactly when its arrival does
not take from one that is out of date. -/
theorem requestExecutions_fresh_iff (pending : PendingRequest) :
    (∀ e ∈ v.requestExecutions pending, v.bookIsFresh e.order.symbol = true) ↔
      ArrivalFresh pending v := by
  unfold ArrivalFresh
  cases hrequest : pending.request with
  | submit request =>
      have htakes : v.requestExecutions pending ≠ [] ↔ takesOnArrival request v = true := by
        unfold requestExecutions
        rw [hrequest]
        exact processSubmitExecutions_ne_nil_iff _ _
      have hsymbol : ∀ e ∈ v.requestExecutions pending, e.order.symbol = request.symbol := by
        intro e hmem
        obtain ⟨other, book, hother, harrives⟩ := arrives_of_mem_requestExecutions hmem
        rw [hrequest] at hother
        cases hother
        rw [harrives.order]
        rfl
      dsimp only
      rw [← htakes]
      constructor
      · intro hfresh hsome
        obtain ⟨e, hmem⟩ := List.exists_mem_of_ne_nil _ hsome
        rw [← hsymbol e hmem]
        exact hfresh e hmem
      · intro hfresh e hmem
        rw [hsymbol e hmem]
        exact hfresh (List.ne_nil_of_mem hmem)
  | cancel request => simp [requestExecutions, hrequest]
  | replace request => simp [requestExecutions, hrequest]

theorem requestsExecutions_fresh_iff (requests : List PendingRequest) {v w : PaperExecution}
    (hfresh : ∀ symbol, w.bookIsFresh symbol = v.bookIsFresh symbol) :
    (∀ e ∈ requestsExecutions requests w, v.bookIsFresh e.order.symbol = true) ↔
      Machine.Along (fun pending v => v.processRequest pending) ArrivalFresh requests w := by
  induction requests generalizing w with
  | nil => simp [requestsExecutions, Machine.Along]
  | cons pending later ih =>
      have hsetting := w.processRequest_setting pending
      have hlater := ih fun symbol =>
        (bookIsFresh_congr (congrArg Setting.config hsetting) (congrArg Setting.clock hsetting)
          (congrArg Setting.bookUpdatedNs hsetting) symbol).trans (hfresh symbol)
      rw [requestsExecutions, List.forall_mem_append, Machine.Along, ← hlater,
        ← requestExecutions_fresh_iff]
      simp only [hfresh]

/-- A market update that matches anything matches it against a fresh book. -/
theorem onMarketUpdateExecutions_fresh (v : PaperExecution) (symbol : Symbol) (updateNs : Nanos) :
    FillsFresh (.onMarketUpdate symbol updateNs) v := by
  intro e hmem
  show (v.onMarketUpdate symbol updateNs).bookIsFresh e.order.symbol = true
  replace hmem : e ∈ v.onMarketUpdateExecutions symbol updateNs := hmem
  unfold onMarketUpdate
  unfold onMarketUpdateExecutions at hmem
  have hsymbol := (order_of_mem_matchSymbolExecutions _ symbol hmem).2.1
  generalize hv : { v with bookUpdatedNs := v.bookUpdatedNs.insert symbol updateNs } = w at hmem ⊢
  have hlookup : w.bookUpdatedNs.lookup symbol = some updateNs := by
    rw [← hv]
    exact AList.lookup_insert _
  have hclock : w.clock = v.clock := by rw [← hv]
  have hsetting := w.matchSymbol_setting symbol v.clock
  rw [bookIsFresh_congr (congrArg Setting.config hsetting) (congrArg Setting.clock hsetting)
    (congrArg Setting.bookUpdatedNs hsetting), hsymbol, bookIsFresh, hlookup, Option.any_some,
    decide_eq_true_eq, hclock]
  rcases w.matchSymbol_cases symbol v.clock with ⟨hnone, -⟩ | ⟨book, -, -, hage, -, -⟩
  · rw [hnone] at hmem
    exact absurd hmem List.not_mem_nil
  · rwa [hlookup] at hage

/-- A poll executes against fresh books exactly when no request it lets arrive takes
from one that is out of date. -/
theorem pollExecutions_fresh_iff (v : PaperExecution) :
    FillsFresh .poll v ↔ ArrivalsFresh .poll v := by
  unfold FillsFresh ArrivalsFresh
  show (∀ e ∈ v.pollExecutions, v.poll.2.bookIsFresh e.order.symbol = true) ↔ _
  unfold pollExecutions
  by_cases hstarted : v.started = true
  · have hsetting := v.poll_setting hstarted
    have hafter : ∀ symbol, v.poll.2.bookIsFresh symbol = v.bookIsFresh symbol :=
      bookIsFresh_congr (congrArg Setting.config hsetting) (congrArg Setting.clock hsetting)
        (congrArg Setting.bookUpdatedNs hsetting)
    rw [if_neg (by simp [hstarted])]
    simp only [hafter, hstarted, true_imp_iff]
    exact requestsExecutions_fresh_iff v.arrived fun symbol => rfl
  · rw [if_pos (by simpa using hstarted)]
    simp [hstarted]

theorem fillsFresh_iff (op : Op) (v : PaperExecution) : FillsFresh op v ↔ ArrivalsFresh op v := by
  cases op with
  | poll => exact pollExecutions_fresh_iff v
  | onMarketUpdate symbol updateNs =>
      exact iff_of_true (onMarketUpdateExecutions_fresh v symbol updateNs) trivial
  | _ => simp [FillsFresh, ArrivalsFresh, executions]

end PaperExecution

/-- An order that takes from a book last updated longer ago than the limit allows. -/
def Sample.lateTaker : List PaperExecution.Op :=
  [.start, .attachBook symbol (offer three raw_three_pos), .onMarketUpdate symbol 0,
    .advance 500000001, .submit (request 'f' .buy price three), .poll]

namespace PaperExecution

end PaperExecution

end MmEngine.Exchange.Paper
