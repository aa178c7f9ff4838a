/-
# Trade numbers

The venue numbers its fills in 64 bits, and a trade identity is the numeral of its
number. Over a run identities are therefore distinct until the count goes round, and
it can go round: while an order rests and something is displayed within its reach,
every market update makes one more fill.
-/

import MmEngine.Exchange.Paper.Liquidity

namespace MmEngine.Exchange.Paper

namespace PaperExecution

/-- Two fills of one run carry the same trade identity exactly when their places in
the run agree in 64 bits. -/
theorem history_tradeId_iff (ops : List Op) (v : PaperExecution) {j k : Nat} {a b : Execution}
    (ha : (history ops v)[j]? = some a) (hb : (history ops v)[k]? = some b) :
    a.fill.tradeId = b.fill.tradeId ↔ j % 2 ^ 64 = k % 2 ^ 64 := by
  have hids := (history_numbered ops v).ids
  have hid : ∀ {n : Nat} {e : Execution}, (history ops v)[n]? = some e →
      e.fill.tradeId = mint 'P' 'T' (v.nextTradeSeq + n) := by
    intro n e he
    have hn : n < (history ops v).length := (List.getElem?_eq_some_iff.mp he).1
    have hentry := congrArg (fun ids : List TradeId => ids[n]?) hids
    simp only [List.getElem?_map, he, Option.map_some] at hentry
    rw [List.getElem?_range' hn] at hentry
    simpa using hentry
  rw [hid ha, hid hb, mint_inj]
  omega

/-- In every state a venue can reach, an order has filled between nothing and all of
it, and exactly the fills scheduled for it over its life; and a trade identity comes
back only after the 64-bit count of fills has gone round. -/
theorem fills_account (config : PaperExecutionConfig) (clock wall : Nanos) (ops : List Op) :
    (∀ (i : Nat) (order : PaperOrder),
      (Machine.run step ops (init config clock wall)).orders[i]? = some order →
      0 ≤ order.cumulativeQty.raw ∧ order.cumulativeQty.raw ≤ order.originalQty.raw ∧
        order.cumulativeQty.raw =
          ((fillsAt (history ops (init config clock wall)) i).map fun fill =>
            fill.quantity.raw).sum) ∧
    ∀ (j k : Nat) (a b : Execution), (history ops (init config clock wall))[j]? = some a →
      (history ops (init config clock wall))[k]? = some b →
      (a.fill.tradeId = b.fill.tradeId ↔ j % 2 ^ 64 = k % 2 ^ 64) := by
  have hbounded := Machine.invariant_run_always (fun op _ h => Bounded.step op h) ops
    (bounded_init config clock wall)
  constructor
  · intro i order horder
    obtain ⟨hlo, hhi⟩ := hbounded.orders order (List.mem_of_getElem? horder)
    refine ⟨hlo, hhi, ?_⟩
    have haccounts := history_accounts ops (init config clock wall) i
    rw [cumulativeAt, horder] at haccounts
    exact haccounts.trans (zero_add _)
  · exact fun j k a b => history_tradeId_iff ops _

end PaperExecution

namespace Sample

/-- An order alone on its symbol, for the greatest quantity there is, against an offer
of one unit. -/
structure Lane (v : PaperExecution) (symbol : Symbol) (index : Nat) (filled : Int) : Prop where
  model : v.config.fillModel = .displayedLiquidity
  share : v.config.queueShareBps = 10000
  clock : v.clock = 0
  age : 0 ≤ v.config.maxBookAgeNs
  offered : v.books.lookup symbol = some (offer one raw_one_pos)
  alone : ∀ (j : Nat) (other : PaperOrder), v.orders[j]? = some other → other.symbol = symbol →
    j = index
  bid : ∃ order, v.orders[index]? = some order ∧ order.symbol = symbol ∧ order.side = .buy ∧
    order.price = price ∧ order.originalQty.raw = rawMax ∧ order.cumulativeQty.raw = filled ∧
    (filled < rawMax → order.isResting = true)

end Sample

namespace PaperExecution

open Sample

/-- An order that wants something takes the one unit offered to it. -/
theorem matchAndConsume_one {order : PaperOrder} (hside : order.side = .buy)
    (hprice : order.price = price) (hresting : order.isResting = true)
    (hwants : 0 < order.remaining.raw) :
    (matchAndConsume order [⟨price, one⟩] .displayedLiquidity 10000).1.quantity.raw = 1 := by
  have hreaches : order.reaches price = true := by
    rw [PaperOrder.reaches, hside, hprice]
    exact decide_eq_true le_rfl
  rw [(matchAndConsume_of_walk order _ 10000 hresting hwants).1]
  rcases takeLevels_cons order 10000 (Taken.within_empty hwants.le) ⟨price, one⟩ [] with
    ⟨hunreached | hfull, -⟩ | ⟨-, hnone, -⟩ |
      ⟨take, after, -, hpos, hle, hfilled, -, -, -, hwalk, -⟩
  · rw [hreaches] at hunreached
    cases hunreached
  · exact absurd hfull hwants.ne
  · exact absurd hnone (by decide)
  · rw [hwalk]
    show after.filled.raw = 1
    have htake : take.raw ≤ 1 := hle
    have hzero : (({} : Taken).filled).raw = 0 := rfl
    omega

/-- The matching order of a symbol with one order on it. -/
theorem matchingOrder_of_alone {v : PaperExecution} {symbol : Symbol} {index : Nat}
    {order : PaperOrder} (horder : v.orders[index]? = some order) (hsymbol : order.symbol = symbol)
    (hresting : order.isResting = true)
    (halone : ∀ (j : Nat) (other : PaperOrder), v.orders[j]? = some other →
      other.symbol = symbol → j = index) : v.matchingOrder symbol = [index] := by
  have hmem : index ∈ v.matchingOrder symbol :=
    (v.mem_matchingOrder symbol).mpr ⟨order, horder, hsymbol, hresting⟩
  have hall : ∀ j ∈ v.matchingOrder symbol, j = index := by
    intro j hj
    obtain ⟨other, hother, hboth, -⟩ := (v.mem_matchingOrder symbol).mp hj
    exact halone j other hother hboth
  have hnodup := v.nodup_matchingOrder symbol
  generalize v.matchingOrder symbol = l at *
  cases l with
  | nil => exact absurd hmem List.not_mem_nil
  | cons first rest =>
      obtain rfl := hall first List.mem_cons_self
      cases rest with
      | nil => rfl
      | cons second rest =>
          have hsecond := hall second (List.mem_cons_of_mem _ List.mem_cons_self)
          rw [List.nodup_cons] at hnodup
          exact absurd (hsecond ▸ List.mem_cons_self) hnodup.1

/-- On a lane that has room an update matches the order once, for one unit. -/
theorem lane_update {v : PaperExecution} {symbol : Symbol} {index : Nat} {filled : Int}
    (h : Lane v symbol index filled) {order : PaperOrder} (horder : v.orders[index]? = some order)
    (hsymbol : order.symbol = symbol) (hside : order.side = .buy) (hprice : order.price = price)
    (hresting : order.isResting = true) (hwants : 0 < order.remaining.raw) :
    ∃ e, v.onMarketUpdateExecutions symbol 0 = [e] ∧ e.result.quantity.raw = 1 ∧
      (v.onMarketUpdate symbol 0).orders =
        v.orders.set index (order.applyMatch e.result v.clock) := by
  unfold onMarketUpdateExecutions onMarketUpdate
  generalize hv : { v with bookUpdatedNs := v.bookUpdatedNs.insert symbol 0 } = w
  have hfresh : v.clock - (w.bookUpdatedNs.lookup symbol).getD 0 ≤ w.config.maxBookAgeNs := by
    rw [← hv]
    dsimp only
    rw [AList.lookup_insert, h.clock]
    exact h.age
  have hbook : w.books.lookup symbol = some (offer one raw_one_pos) := by
    rw [← hv]
    exact h.offered
  have hat : w.orders[index]? = some order := by
    rw [← hv]
    exact horder
  have hmatch : (matchAndConsume order [⟨price, one⟩] w.config.fillModel
      w.config.queueShareBps).1.quantity.raw = 1 := by
    rw [← hv]
    dsimp only
    rw [h.model, h.share]
    exact matchAndConsume_one hside hprice hresting hwants
  obtain ⟨hexecutions, hswept⟩ := w.matchSymbol_of_fresh hbook rfl hfresh
  have hone : w.matchingOrder symbol = [index] := by
    rw [← hv]
    exact matchingOrder_of_alone horder hsymbol hresting h.alone
  rw [hexecutions, hswept, hone]
  rcases (w.sweepOf (offer one raw_one_pos)).matchOrder_cases v.clock index with ⟨hidle, -⟩ |
    ⟨found, hfound, -, matched, hresult, -, -, hcase⟩
  · rw [hidle order hat] at hresting
    cases hresting
  obtain rfl : order = found := Option.some.inj (hat.symm.trans hfound)
  rw [available_sweepOf, hside] at hresult
  replace hresult : matched = matchAndConsume order [⟨price, one⟩] w.config.fillModel
    w.config.queueShareBps := hresult
  rw [← hresult] at hmatch
  rcases hcase with ⟨-, hnothing, -⟩ | ⟨e, hsome, -, -, -, he, -, -, -, htable⟩
  · omega
  · refine ⟨e, ?_, by rw [he, hmatch], ?_⟩
    · rw [Sweep.executions, hsome]
      rfl
    · have horders := congrArg Table.orders htable
      rw [← hv] at horders ⊢
      exact horders

/-- A lane survives an update that writes no order of its symbol. -/
theorem lane_other {v w : PaperExecution} {symbol other : Symbol} {index index' : Nat}
    {filled' : Int} (h : Lane v other index' filled') (hsetting : w.config = v.config ∧
      w.clock = v.clock ∧ w.books = v.books) {order after : PaperOrder}
    (horder : v.orders[index]? = some order) (hsymbol : order.symbol = symbol)
    (hafter : after.symbol = symbol) (hne : other ≠ symbol)
    (horders : w.orders = v.orders.set index after) : Lane w other index' filled' := by
  obtain ⟨hconfig, hclock, hbooks⟩ := hsetting
  obtain ⟨own, hown, hownSymbol, hfacts⟩ := h.bid
  have hapart : index ≠ index' := by
    rintro rfl
    rw [horder] at hown
    cases hown
    exact hne (hownSymbol.symm.trans hsymbol)
  exact
    { model := by rw [hconfig, h.model]
      share := by rw [hconfig, h.share]
      clock := by rw [hclock, h.clock]
      age := by rw [hconfig]; exact h.age
      offered := by rw [hbooks, h.offered]
      alone := by
        intro j found hfound hfoundSymbol
        rw [horders] at hfound
        by_cases hj : index = j
        · subst hj
          rw [List.getElem?_set_self (List.getElem?_eq_some_iff.mp horder).1] at hfound
          cases hfound
          exact absurd (hfoundSymbol.symm.trans hafter) hne
        · rw [List.getElem?_set_ne hj] at hfound
          exact h.alone j found hfound hfoundSymbol
      bid := ⟨own, by rw [horders, List.getElem?_set_ne hapart, hown], hownSymbol, hfacts⟩ }

/-- One update makes one fill on a lane that has room and moves the lane by one. Other
lanes stay as they are. -/
theorem lane_step {v : PaperExecution} {symbol : Symbol} {index : Nat} {filled : Int}
    (h : Lane v symbol index filled) (hnonneg : 0 ≤ filled) (hroom : filled < rawMax) :
    (executions (.onMarketUpdate symbol 0) v).length = 1 ∧
      Lane (step (.onMarketUpdate symbol 0) v) symbol index (filled + 1) ∧
      ∀ (other : Symbol) (index' : Nat) (filled' : Int), other ≠ symbol →
        Lane v other index' filled' →
        Lane (step (.onMarketUpdate symbol 0) v) other index' filled' := by
  obtain ⟨order, horder, hsymbol, hside, hprice, horiginal, hcumulative, hrests⟩ := h.bid
  have hresting := hrests hroom
  have hremaining : order.remaining.raw = rawMax - filled := by
    rw [PaperOrder.remaining_raw_of_range, horiginal, hcumulative]
    · omega
    · omega
  have hwants : 0 < order.remaining.raw := by omega
  obtain ⟨e, hexecutions, hquantity, horders⟩ :=
    lane_update h horder hsymbol hside hprice hresting hwants
  have hsetting := matchSymbol_setting
    { v with bookUpdatedNs := v.bookUpdatedNs.insert symbol 0 } symbol v.clock
  have hkeeps : (v.onMarketUpdate symbol 0).config = v.config ∧
      (v.onMarketUpdate symbol 0).clock = v.clock ∧ (v.onMarketUpdate symbol 0).books = v.books :=
    ⟨congrArg Setting.config hsetting, congrArg Setting.clock hsetting,
      congrArg Setting.books hsetting⟩
  obtain ⟨hfilled, hwhole, hleft⟩ := @PaperOrder.applyMatch_spec order e.result
    (by omega) (by omega) v.clock
  obtain ⟨cumulativeQty, status, lastEventNs, hframe⟩ := order.applyMatch_frame e.result v.clock
  have hafter : (order.applyMatch e.result v.clock).symbol = symbol := by
    rw [hframe]
    exact hsymbol
  refine ⟨by rw [executions, hexecutions]; rfl, ?_, fun other index' filled' hne hlane =>
    lane_other hlane hkeeps horder hsymbol hafter hne horders⟩
  show Lane (v.onMarketUpdate symbol 0) symbol index (filled + 1)
  obtain ⟨hconfig, hclock, hbooks⟩ := hkeeps
  exact
    { model := by rw [hconfig, h.model]
      share := by rw [hconfig, h.share]
      clock := by rw [hclock, h.clock]
      age := by rw [hconfig]; exact h.age
      offered := by rw [hbooks, h.offered]
      alone := by
        intro j found hfound hfoundSymbol
        rw [horders] at hfound
        by_cases hj : index = j
        · exact hj.symm
        · rw [List.getElem?_set_ne hj] at hfound
          exact h.alone j found hfound hfoundSymbol
      bid := ⟨order.applyMatch e.result v.clock,
        by rw [horders, List.getElem?_set_self (List.getElem?_eq_some_iff.mp horder).1],
        hafter, by rw [hframe]; exact hside, by rw [hframe]; exact hprice,
        by rw [hwhole, horiginal], by omega,
        fun hmore => PaperOrder.isResting_applyMatch hresting (by omega)⟩ }

/-- As many updates as a lane has room for make as many fills. -/
theorem lane_run (count : Nat) {v : PaperExecution} {symbol : Symbol} {index : Nat}
    {filled : Int} (h : Lane v symbol index filled) (hnonneg : 0 ≤ filled)
    (hroom : filled + count ≤ rawMax) :
    (history (List.replicate count (.onMarketUpdate symbol 0)) v).length = count ∧
      ∀ (other : Symbol) (index' : Nat) (filled' : Int), other ≠ symbol →
        Lane v other index' filled' →
        Lane (Machine.run step (List.replicate count (.onMarketUpdate symbol 0)) v) other index'
          filled' := by
  induction count generalizing v filled with
  | zero => exact ⟨rfl, fun _ _ _ _ hlane => hlane⟩
  | succ count ih =>
      obtain ⟨hone, hnext, hothers⟩ := lane_step h hnonneg (by omega)
      obtain ⟨hcount, hrest⟩ := ih hnext (by omega) (by omega)
      rw [List.replicate_succ, history_cons, List.length_append, hone, hcount, Machine.run_cons]
      exact ⟨Nat.add_comm _ _, fun other index' filled' hne hlane =>
        hrest other index' filled' hne (hothers other index' filled' hne hlane)⟩

end PaperExecution

namespace Sample

/-- Three symbols, each with a bid for the greatest quantity and an offer of one. -/
def lanes : List PaperExecution.Op :=
  [.start] ++
    ['x', 'y', 'z'].map (fun c =>
      .submit
        { clientOrderId := clientId c
          symbol := ⟨[c], Nat.le_of_ble_eq_true rfl⟩
          side := .buy
          type := .limit
          tif := .gtc
          price := price
          quantity := Fixed.max
          postOnly := false
          createdNs := 0 }) ++
    [.poll] ++
    ['x', 'y', 'z'].map fun c =>
      .attachBook ⟨[c], Nat.le_of_ble_eq_true rfl⟩ (offer one raw_one_pos)

def threeLanes : PaperExecution := Machine.run PaperExecution.step lanes (.init config 0 0)

/-- The symbol with a one-letter name. -/
def letter (c : Char) : Symbol := ⟨[c], Nat.le_of_ble_eq_true rfl⟩

theorem threeLanes_orders :
    (threeLanes.orders.map fun order =>
      (order.symbol, order.side, order.price, order.originalQty, order.cumulativeQty,
        order.isResting)) =
      ['x', 'y', 'z'].map fun c => (letter c, .buy, price, .max, .zero, true) := by
  decide

theorem lane_threeLanes {index : Nat} {c : Char} (h : ['x', 'y', 'z'][index]? = some c)
    (hbook : threeLanes.books.lookup (letter c) = some (offer one raw_one_pos)) :
    Lane threeLanes (letter c) index 0 := by
  have hentry : ∀ {j : Nat} {order : PaperOrder}, threeLanes.orders[j]? = some order →
      ∃ d, ['x', 'y', 'z'][j]? = some d ∧ (letter d, Side.buy, price, Fixed.max, Fixed.zero, true) =
        (order.symbol, order.side, order.price, order.originalQty, order.cumulativeQty,
          order.isResting) := by
    intro j order horder
    have hview := congrArg (fun rows => rows[j]?) threeLanes_orders
    simp only [List.getElem?_map, horder, Option.map_some] at hview
    exact Option.map_eq_some_iff.mp hview.symm
  have hlength : threeLanes.orders.length = 3 := by
    have := congrArg List.length threeLanes_orders
    simpa using this
  have hindex : index < 3 := (List.getElem?_eq_some_iff.mp h).1
  obtain ⟨order, horder⟩ : ∃ order, threeLanes.orders[index]? = some order :=
    ⟨_, List.getElem?_eq_getElem (by omega)⟩
  obtain ⟨d, hd, hview⟩ := hentry horder
  obtain rfl : c = d := Option.some.inj (h.symm.trans hd)
  simp only [Prod.mk.injEq] at hview
  obtain ⟨hsymbol, hside, hprice, horiginal, hcumulative, hresting⟩ := hview
  exact
    { model := rfl
      share := rfl
      clock := rfl
      age := by decide
      offered := hbook
      alone := by
        intro j other hother hotherSymbol
        obtain ⟨d, hd, hview⟩ := hentry hother
        have hletter : letter d = letter c := (congrArg Prod.fst hview).trans hotherSymbol
        have hsame : d = c := by
          have := congrArg InlineString.chars hletter
          simpa [letter] using this
        have hnodup : ['x', 'y', 'z'].Nodup := by decide
        obtain ⟨hj, hjd⟩ := List.getElem?_eq_some_iff.mp hd
        obtain ⟨hi, hid⟩ := List.getElem?_eq_some_iff.mp h
        exact (List.Nodup.getElem_inj_iff hnodup).mp (hjd.trans (hsame.trans hid.symm))
      bid := ⟨order, horder, hsymbol.symm, hside.symm, hprice.symm, by rw [← horiginal]; rfl,
        by rw [← hcumulative]; rfl, fun _ => hresting.symm⟩ }

/-- Enough updates of the three symbols for the count of fills to go round. -/
def aRound : List PaperExecution.Op :=
  lanes ++ (List.replicate (2 ^ 63 - 1) (.onMarketUpdate (letter 'x') 0) ++
    (List.replicate (2 ^ 63 - 1) (.onMarketUpdate (letter 'y') 0) ++
      List.replicate 3 (.onMarketUpdate (letter 'z') 0)))

end Sample

namespace PaperExecution

open Sample

theorem history_aRound : (history aRound (init Sample.config 0 0)).length = 2 ^ 64 + 1 := by
  have hx := @lane_threeLanes 0 'x' rfl rfl
  have hy := @lane_threeLanes 1 'y' rfl rfl
  have hz := @lane_threeLanes 2 'z' rfl rfl
  obtain ⟨hfirst, hthen⟩ := lane_run (2 ^ 63 - 1) hx le_rfl (by decide)
  have hy := hthen _ _ _ (by decide) hy
  have hz := hthen _ _ _ (by decide) hz
  obtain ⟨hsecond, hthen⟩ := lane_run (2 ^ 63 - 1) hy le_rfl (by decide)
  have hz := hthen _ _ _ (by decide) hz
  obtain ⟨hthird, -⟩ := lane_run 3 hz le_rfl (by decide)
  have hquiet : history lanes (init Sample.config 0 0) = [] := rfl
  have hsetup : Machine.run step lanes (init Sample.config 0 0) = threeLanes := rfl
  rw [aRound, history_append, history_append, history_append, hquiet, hsetup, List.nil_append,
    List.length_append, List.length_append, hfirst, hsecond, hthird]
  omega

/-- After 2^64 fills a trade identity comes back. -/
theorem tradeId_comes_back :
    ¬∀ (config : PaperExecutionConfig) (clock wall : Nanos) (ops : List Op) (j k : Nat)
      (a b : Execution), (history ops (init config clock wall))[j]? = some a →
      (history ops (init config clock wall))[k]? = some b →
      a.fill.tradeId = b.fill.tradeId → j = k := by
  intro hdistinct
  have hlength := history_aRound
  obtain ⟨a, ha⟩ : ∃ a, (history aRound (init Sample.config 0 0))[0]? = some a :=
    ⟨_, List.getElem?_eq_getElem (by omega)⟩
  obtain ⟨b, hb⟩ : ∃ b, (history aRound (init Sample.config 0 0))[2 ^ 64]? = some b :=
    ⟨_, List.getElem?_eq_getElem (by omega)⟩
  have hsame := (history_tradeId_iff aRound _ ha hb).mpr (by decide)
  exact absurd (hdistinct _ _ _ _ _ _ a b ha hb hsame) (by decide)

end PaperExecution

end MmEngine.Exchange.Paper
