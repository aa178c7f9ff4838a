/-
# The ledger and the venue

The venue is the authority on what has been bought and sold, and the ledger learns of it
fill by fill. While no fill is lost on the way and none is refused, the position in the
ledger differs from the position on the venue's books by the fills that still wait, and by
nothing else: no order that the order manager sent, amended or forgot makes a difference.
-/

import MmEngine.Exchange.Paper.VenuePosition
import MmEngine.Pipeline.FillFlow
import MmEngine.Portfolio.FillTotals

namespace MmEngine.Pipeline

open MmEngine.Exchange MmEngine.Exchange.Paper MmEngine.Oms MmEngine.Portfolio
  MmEngine.Portfolio.PortfolioAccountant

namespace AccountingPipeline

/-- The identities of the fills in the sink. -/
def seenTrades (p : AccountingPipeline) : List TradeId :=
  (fillsIn p.sink.fills).map FillEvent.tradeId

/-- What the fills in the sink add to the position and the fees of a symbol. -/
def seenTotals (p : AccountingPipeline) (symbol : Symbol) : Int × Int :=
  ((fillsIn p.sink.fills).map (fillTotals symbol)).sum

/-- The ledger agrees with the sink: its rings hold trades that the sink has seen, and unless a
fill was refused, or came twice, it holds what the fills add up to. -/
structure Agrees (p : AccountingPipeline) : Prop where
  remembers : p.accounting.RemembersOnly p.seenTrades
  totals : p.sink.rejected = 0 → p.seenTrades.Nodup →
    ∀ symbol, p.accounting.totalsOf symbol = p.seenTotals symbol

theorem Agrees.of_sameBooks {p q : AccountingPipeline} (h : p.Agrees) (hsink : q.sink = p.sink)
    (hbooks : SameBooks p.accounting q.accounting) : q.Agrees := by
  have hseen : q.seenTrades = p.seenTrades := by rw [seenTrades, seenTrades, hsink]
  refine ⟨hseen ▸ hbooks.remembers _ h.remembers, fun hrejected hnodup symbol => ?_⟩
  rw [hsink] at hrejected
  rw [hseen] at hnodup
  rw [hbooks.totals symbol, h.totals hrejected hnodup symbol, seenTotals, seenTotals, hsink]

theorem Agrees.onExecution {p : AccountingPipeline} (h : p.Agrees) (event : ExecutionEvent) :
    (p.onExecution event).Agrees := by
  cases event with
  | fill fill =>
      obtain ⟨hremembers, hduplicate, htotals⟩ := onFill_books h.remembers fill
      have hseen : (p.onExecution (.fill fill)).seenTrades = p.seenTrades ++ [fill.tradeId] := by
        rw [seenTrades, onExecution_fills, List.map_append]
        rfl
      refine ⟨?_, fun hrejected hnodup symbol => ?_⟩
      · rw [hseen]
        exact hremembers
      · rw [hseen] at hnodup
        obtain ⟨hearlier, -, hapart⟩ := List.nodup_append.mp hnodup
        have hnew : fill.tradeId ∉ p.seenTrades := fun hmem =>
          hapart fill.tradeId hmem fill.tradeId (List.mem_singleton_self _) rfl
        -- The fill was not refused, and was not taken for another.
        have hbooked : corruptsLedger (p.accounting.onFill fill).1.error = false ∧
            p.sink.rejected = 0 := by
          have hcount : (if corruptsLedger (p.accounting.onFill fill).1.error then
              p.sink.rejected + 1 else p.sink.rejected) = 0 := hrejected
          split at hcount
          · cases hcount
          · rename_i hclean
            exact ⟨by simpa using hclean, hcount⟩
        have herror : (p.accounting.onFill fill).1.error = .none := by
          by_contra hrefused
          have hclean := hbooked.1
          simp only [corruptsLedger, ne_eq, hrefused, not_false_eq_true, decide_true, Bool.true_and,
            decide_eq_false_iff_not, not_not] at hclean
          exact hnew (hduplicate hclean)
        have hmoved := htotals symbol
        rw [if_pos herror, h.totals hbooked.2 hearlier symbol] at hmoved
        rw [seenTotals, onExecution_fills, List.map_append, List.sum_append]
        refine hmoved.trans ?_
        rw [seenTotals]
        simp [fillsIn, ExecutionEvent.fill?]
  | _ => exact h.of_sameBooks rfl (.of_find fun _ => rfl)

/-- Nothing but fills from the sink reaches the books. -/
theorem Agrees.account {p : AccountingPipeline} (h : p.Agrees) (op : PortfolioAccountant.Op)
    (hfill : ∀ fill, op ≠ .fill fill) (hrestore : ∀ state, op ≠ .restore state) :
    (p.account op).Agrees :=
  h.of_sameBooks rfl (sameBooks_step hfill hrestore p.accounting)

theorem Agrees.step {p : AccountingPipeline} (h : p.Agrees) (op : Op) : (step op p).Agrees := by
  cases op with
  | venue call =>
      have hfold : ∀ (events : List ExecutionEvent) (q : AccountingPipeline), q.Agrees →
          (events.foldl AccountingPipeline.onExecution q).Agrees := by
        intro events
        induction events with
        | nil => exact fun q hq => hq
        | cons event events ih => exact fun q hq => ih _ (hq.onExecution event)
      exact hfold _ _ (h.of_sameBooks rfl (.of_find fun _ => rfl))
  | registerSymbol symbol => exact h.account (.registerSymbol symbol) (by simp) (by simp)
  | onMark mark => exact h.account (.mark mark p.trading.oms.clock) (by simp) (by simp)
  | onBalance update => exact h.account (.balance update p.trading.oms.clock) (by simp) (by simp)
  | clearFault symbol => exact h.account (.clearFault symbol) (by simp) (by simp)
  | _ => exact h.of_sameBooks rfl (.of_find fun _ => rfl)

theorem agrees_init (oms : OmsConfig) (venue : PaperExecutionConfig)
    (accounting : AccountingConfig) (clock wall : Nanos) :
    (init oms venue accounting clock wall).Agrees where
  remembers symbol account hfind := by cases hfind
  totals _ _ _ := rfl

/-- What the fills that still wait add to the position in a symbol. -/
def waitingPosition (p : AccountingPipeline) (symbol : Symbol) : Int :=
  ((waitingFills p.trading.venue.pending).map (fillPosition symbol)).sum

theorem fst_sum_fillTotals (symbol : Symbol) (fills : List FillEvent) :
    (fills.map (fillTotals symbol)).sum.1 = (fills.map (fillPosition symbol)).sum := by
  induction fills with
  | nil => rfl
  | cons fill fills ih =>
      have hfill : (fillTotals symbol fill).1 = fillPosition symbol fill := by
        rw [fillTotals, fillPosition]
        split
        · rfl
        · rfl
      rw [List.map_cons, List.sum_cons, Prod.fst_add, ih, hfill, List.map_cons, List.sum_cons]

theorem snd_sum_fillTotals (symbol : Symbol) (fills : List FillEvent) :
    (fills.map (fillTotals symbol)).sum.2 =
      ((fills.filter fun fill => fill.symbol = symbol).map fun fill => fill.fee.raw).sum := by
  induction fills with
  | nil => rfl
  | cons fill fills ih =>
      rw [List.map_cons, List.sum_cons, Prod.snd_add, ih, fillTotals]
      by_cases hsymbol : fill.symbol = symbol
      · simp [hsymbol]
      · simp [hsymbol]

theorem sum_executedFills (symbol : Symbol) (executions : List Execution) :
    ((executedFills executions).map (fillPosition symbol)).sum =
      executedPosition symbol executions := by
  rw [executedFills, Multiset.map_coe, Multiset.sum_coe, List.map_map]
  rfl

/-- Over every run in which no event is repeated or dropped, the transport stays open and no
fill is refused, the position of every symbol in the ledger and the fills of it that wait make
up the position on the venue's books, and the fees in the ledger are those of the fills in the
sink. -/
theorem ledger_matches_venue (oms : OmsConfig) (venue : PaperExecutionConfig)
    (accounting : AccountingConfig) (clock wall : Nanos) (ops : List Op)
    (hunrepeating : Unrepeating ops) (hopen : StaysOpen ops)
    (hdropped : (Machine.run step ops
      (init oms venue accounting clock wall)).trading.venue.metrics.eventsDropped = 0)
    (hrejected : (Machine.run step ops (init oms venue accounting clock wall)).sink.rejected = 0)
    (hcount : (trades ops (init oms venue accounting clock wall)).length ≤ 2 ^ 64)
    (symbol : Symbol) :
    let p := Machine.run step ops (init oms venue accounting clock wall)
    (p.accounting.totalsOf symbol).1 + p.waitingPosition symbol =
        venuePosition symbol p.trading.venue.orders ∧
      (p.accounting.totalsOf symbol).2 =
        (((fillsIn p.sink.fills).filter fun fill => fill.symbol = symbol).map
          fun fill => fill.fee.raw).sum := by
  intro p
  have hagrees : p.Agrees :=
    Machine.invariant_run_always (I := Agrees) (fun op _ hq => hq.step op) ops
      (agrees_init oms venue accounting clock wall)
  have htotals : p.accounting.totalsOf symbol = p.seenTotals symbol :=
    hagrees.totals hrejected (nodup_delivered oms venue accounting clock wall hunrepeating hcount)
      symbol
  have hdelivered := delivered_eq oms venue accounting clock wall hunrepeating hopen hdropped
  obtain ⟨calls, -, hpart⟩ := exists_venuePart_init oms venue accounting clock wall ops
  constructor
  · calc (p.accounting.totalsOf symbol).1 + p.waitingPosition symbol
        = (((fillsIn p.sink.fills : Multiset FillEvent) +
            waitingFills p.trading.venue.pending).map (fillPosition symbol)).sum := by
          rw [htotals, seenTotals, fst_sum_fillTotals, waitingPosition, Multiset.map_add,
            Multiset.sum_add, Multiset.map_coe, Multiset.sum_coe]
      _ = executedPosition symbol (trades ops (init oms venue accounting clock wall)) := by
          rw [hdelivered, sum_executedFills]
      _ = venuePosition symbol p.trading.venue.orders := by
          rw [hpart.trades, hpart.venue, PaperExecution.history_position]
          exact (zero_add _).symm
  · rw [htotals, seenTotals, snd_sum_fillTotals]

theorem ledger_matches_venue_bought :
    ((Machine.run step Sample.ops Sample.start).accounting.totalsOf Paper.Sample.symbol).1 = 3 ∧
      venuePosition Paper.Sample.symbol
        (Machine.run step Sample.ops Sample.start).trading.venue.orders = 3 :=
  have hbought : ((Machine.run step Sample.ops Sample.start).accounting.totalsOf
      Paper.Sample.symbol).1 = 3 := by decide
  have hnone : (Machine.run step Sample.ops Sample.start).waitingPosition
      Paper.Sample.symbol = 0 := by decide
  have hledger := (ledger_matches_venue { maxOrders := 2 } Paper.Sample.config {} 0 0 Sample.ops
    Sample.ops_unrepeating Sample.ops_staysOpen (by decide) (by decide) (by decide)
    Paper.Sample.symbol).1
  ⟨hbought, hledger.symm.trans (congrArg₂ (· + ·) hbought hnone)⟩

end AccountingPipeline

end MmEngine.Pipeline
