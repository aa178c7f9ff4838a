/-
# Shared liquidity in a market update

One update matches every resting order of a symbol against one working copy of each
side. Over the whole sweep no position of a side gives more than it shows, and what
an order takes it takes where its limit reaches. With the whole queue ours, an order
that is left wanting has emptied all it reaches, so whoever comes after it in
priority finds nothing.
-/

import MmEngine.Exchange.Paper.FillAccounting
import Mathlib.Data.Prod.Lex
import Mathlib.Algebra.Order.BigOperators.Group.Finset

namespace MmEngine.Exchange.Paper

/-- What the executions of one side take at a position of the other. -/
def tookAt (executions : List Execution) (side : Side) (i : Nat) : Int :=
  ((executions.filter fun e => e.order.side = side).map fun e => e.takes.getD i 0).sum

theorem tookAt_nil (side : Side) (i : Nat) : tookAt [] side i = 0 := rfl

theorem tookAt_append (earlier later : List Execution) (side : Side) (i : Nat) :
    tookAt (earlier ++ later) side i = tookAt earlier side i + tookAt later side i := by
  simp [tookAt]

theorem tookAt_singleton (e : Execution) (side : Side) (i : Nat) :
    tookAt [e] side i = if e.order.side = side then e.takes.getD i 0 else 0 := by
  by_cases h : e.order.side = side
  · simp [tookAt, h]
  · simp [tookAt, h]

/-- What executions leave of a side they draw on: each position loses what they
took there, and each took where its limit reaches, as much as it reports. -/
structure DrawsAll (side : Side) (levels : List PriceLevel) (executions : List Execution)
    (left : List PriceLevel) : Prop where
  prices : prices left = prices levels
  shown : Shown left
  remains : ∀ i, quantityAt left i = quantityAt levels i - tookAt executions side i
  nonneg : ∀ e ∈ executions, e.order.side = side → ∀ i, 0 ≤ e.takes.getD i 0
  reached : ∀ e ∈ executions, e.order.side = side → ∀ i, 0 < e.takes.getD i 0 →
    ∃ price, (Paper.prices levels)[i]? = some price ∧ e.order.reaches price = true
  total : ∀ e ∈ executions, e.order.side = side →
    e.fill.quantity = e.result.quantity ∧ e.result.quantity.raw = e.takes.sum

namespace DrawsAll

variable {side : Side} {levels middle left : List PriceLevel} {earlier later : List Execution}

theorem none (h : Shown levels) : DrawsAll side levels [] levels where
  prices := rfl
  shown := h
  remains := fun _ => (sub_zero _).symm
  nonneg := fun _ hmem => absurd hmem List.not_mem_nil
  reached := fun _ hmem => absurd hmem List.not_mem_nil
  total := fun _ hmem => absurd hmem List.not_mem_nil

theorem append (h : DrawsAll side levels earlier middle) (h' : DrawsAll side middle later left) :
    DrawsAll side levels (earlier ++ later) left where
  prices := h'.prices.trans h.prices
  shown := h'.shown
  remains := fun i => by
    rw [h'.remains, h.remains, tookAt_append]
    omega
  nonneg := fun e hmem => by
    rcases List.mem_append.mp hmem with hmem | hmem
    · exact h.nonneg e hmem
    · exact h'.nonneg e hmem
  reached := fun e hmem => by
    rcases List.mem_append.mp hmem with hmem | hmem
    · exact h.reached e hmem
    · rw [← h.prices]
      exact h'.reached e hmem
  total := fun e hmem => by
    rcases List.mem_append.mp hmem with hmem | hmem
    · exact h.total e hmem
    · exact h'.total e hmem

theorem tookAt_nonneg (h : DrawsAll side levels earlier left) (i : Nat) :
    0 ≤ tookAt earlier side i := by
  have hall : ∀ {executions : List Execution},
      (∀ e ∈ executions, e.order.side = side → 0 ≤ e.takes.getD i 0) →
      0 ≤ tookAt executions side i := by
    intro executions hnonneg
    induction executions with
    | nil => exact le_rfl
    | cons e later ih =>
        rw [List.forall_mem_cons] at hnonneg
        have hsplit := tookAt_append [e] later side i
        have hlater := ih hnonneg.2
        rw [tookAt_singleton, List.singleton_append] at hsplit
        split at hsplit
        · rename_i hside
          have hfirst := hnonneg.1 hside
          omega
        · omega
  exact hall fun e hmem hside => h.nonneg e hmem hside i

/-- No position gives more than it shows. -/
theorem tookAt_le (h : DrawsAll side levels earlier left) (i : Nat) :
    tookAt earlier side i ≤ quantityAt levels i := by
  have hremains := h.remains i
  have hnonneg := h.shown.quantityAt_nonneg i
  omega

/-- What was empty is empty afterwards. -/
theorem emptied (h : DrawsAll side levels earlier left) {order : PaperOrder}
    (hempty : Emptied order levels) : Emptied order left :=
  hempty.mono h.prices h.shown fun i => by
    have hremains := h.remains i
    have htook := h.tookAt_nonneg i
    omega

end DrawsAll

namespace Sweep

variable (now : Nanos) {sweep : Sweep}

/-- Among amounts that are not negative none is more than their sum. -/
theorem getD_le_sum {takes : List Int} (hnonneg : ∀ i, 0 ≤ takes.getD i 0) (i : Nat) :
    takes.getD i 0 ≤ takes.sum := by
  induction takes generalizing i with
  | nil => exact le_rfl
  | cons take takes ih =>
      have hrest := ih fun j => hnonneg (j + 1)
      have hfirst : 0 ≤ take := hnonneg 0
      have hsum : 0 ≤ takes.sum := (hnonneg (takes.length + 1)).trans (hrest takes.length)
      rw [List.sum_cons]
      cases i with
      | zero =>
          show take ≤ _
          omega
      | succ i =>
          have hi : (take :: takes).getD (i + 1) 0 ≤ takes.sum := hrest i
          omega

/-- Matching one order under the displayed-liquidity model draws on its side. -/
theorem matchOrder_draws (hmodel : sweep.venue.config.fillModel = .displayedLiquidity)
    (side : Side) (hshown : Shown (sweep.available side)) (index : Nat) :
    DrawsAll side (sweep.available side) (sweep.orderExecutions now index)
      ((sweep.matchOrder now index).available side) := by
  rcases sweep.matchOrder_cases now index with ⟨-, hnone, hsame⟩ |
    ⟨order, -, -, matched, hmatched, hown, hother, hcase⟩
  · rw [hnone, hsame]
    exact DrawsAll.none hshown
  rw [hmodel] at hmatched hcase
  by_cases hside : side = order.side
  · subst hside
    obtain ⟨hdraws, hsum, -⟩ := matchAndConsume_draws order sweep.venue.config.queueShareBps hshown
    rw [← hmatched] at hdraws hsum
    rw [hown]
    rcases hcase with ⟨hnone, hnothing, -⟩ |
      ⟨e, hsome, hpositive, -, horder, hresult, htakes, hquantity, -, -⟩
    · have hzero : ∀ i, (matchTakes order (sweep.available order.side) .displayedLiquidity
          sweep.venue.config.queueShareBps).getD i 0 = 0 := by
        intro i
        have hle := getD_le_sum hdraws.nonneg i
        have hge := hdraws.nonneg i
        omega
      rw [hnone]
      exact
        { prices := hdraws.prices
          shown := hdraws.shown
          remains := fun i => by rw [hdraws.remains, hzero i, tookAt_nil]
          nonneg := fun _ hmem => absurd hmem List.not_mem_nil
          reached := fun _ hmem => absurd hmem List.not_mem_nil
          total := fun _ hmem => absurd hmem List.not_mem_nil }
    · rw [hsome]
      rw [← htakes] at hdraws hsum
      exact
        { prices := hdraws.prices
          shown := hdraws.shown
          remains := fun i => by rw [hdraws.remains, tookAt_singleton, horder, if_pos rfl]
          nonneg := List.forall_mem_singleton.mpr fun _ => hdraws.nonneg
          reached := List.forall_mem_singleton.mpr fun _ => by
            rw [horder]
            exact hdraws.reached
          total := List.forall_mem_singleton.mpr fun _ => ⟨hquantity, by rw [hresult, hsum]⟩ }
  · rw [hother side hside]
    have hforeign : ∀ e ∈ sweep.orderExecutions now index, e.order.side ≠ side := by
      rcases hcase with ⟨hnone, -, -⟩ | ⟨e, hsome, -, -, horder, -⟩
      · rw [hnone]
        exact fun _ hmem => absurd hmem List.not_mem_nil
      · rw [hsome]
        exact List.forall_mem_singleton.mpr (horder ▸ Ne.symm hside)
    exact
      { prices := rfl
        shown := hshown
        remains := fun i => by
          rw [tookAt, List.filter_eq_nil_iff.mpr (by simpa using hforeign)]
          exact (sub_zero _).symm
        nonneg := fun e hmem heq => absurd heq (hforeign e hmem)
        reached := fun e hmem heq => absurd heq (hforeign e hmem)
        total := fun e hmem heq => absurd heq (hforeign e hmem) }

/-- A whole sweep under the displayed-liquidity model draws on both sides. -/
theorem executions_draws (hmodel : sweep.venue.config.fillModel = .displayedLiquidity)
    (side : Side) (hshown : Shown (sweep.available side)) (indices : List Nat) :
    DrawsAll side (sweep.available side) (executions now indices sweep)
      ((indices.foldl (matchOrder now) sweep).available side) := by
  induction indices generalizing sweep with
  | nil => exact DrawsAll.none hshown
  | cons index indices ih =>
      have hfirst := matchOrder_draws now hmodel side hshown index
      have hconfig : (sweep.matchOrder now index).venue.config = sweep.venue.config :=
        congrArg Setting.config (sweep.matchOrder_setting now index)
      exact hfirst.append (ih (by rw [hconfig, hmodel]) hfirst.shown)

/-! ## Which orders a sweep touches -/

theorem mem_executions_index {indices : List Nat} {e : Execution}
    (h : e ∈ executions now indices sweep) : e.index ∈ indices := by
  induction indices generalizing sweep with
  | nil => exact absurd h List.not_mem_nil
  | cons index indices ih =>
      rcases List.mem_append.mp h with hfirst | hlater
      · rcases sweep.matchOrder_cases now index with ⟨-, hnone, -⟩ |
          ⟨order, -, -, matched, -, -, -, ⟨hnone, -, -⟩ | ⟨made, hsome, -, hindex, -⟩⟩
        · rw [hnone] at hfirst
          exact absurd hfirst List.not_mem_nil
        · rw [hnone] at hfirst
          exact absurd hfirst List.not_mem_nil
        · rw [hsome] at hfirst
          rw [List.mem_singleton.mp hfirst, hindex]
          exact List.mem_cons_self
      · exact List.mem_cons_of_mem _ (ih hlater)

theorem executions_append (earlier later : List Nat) :
    executions now (earlier ++ later) sweep =
      executions now earlier sweep ++
        executions now later (earlier.foldl (matchOrder now) sweep) := by
  induction earlier generalizing sweep with
  | nil => rfl
  | cons index earlier ih =>
      rw [List.cons_append, executions, executions, ih, List.append_assoc]
      rfl

theorem matchOrder_other {index i : Nat} (h : index ≠ i) :
    (sweep.matchOrder now index).venue.orders[i]? = sweep.venue.orders[i]? := by
  rcases sweep.matchOrder_cases now index with ⟨-, -, hsame⟩ |
    ⟨order, -, -, matched, -, -, -, ⟨-, -, hvenue⟩ | ⟨e, -, -, -, -, -, -, -, -, htable⟩⟩
  · rw [hsame]
  · rw [hvenue]
  · have horders := congrArg Table.orders htable
    dsimp only [PaperExecution.table] at horders
    rw [horders, List.getElem?_set_ne h]

theorem foldl_matchOrder_other {indices : List Nat} {i : Nat} (h : i ∉ indices) :
    (indices.foldl (matchOrder now) sweep).venue.orders[i]? = sweep.venue.orders[i]? := by
  induction indices generalizing sweep with
  | nil => rfl
  | cons index indices ih =>
      rw [List.mem_cons, not_or] at h
      rw [List.foldl_cons, ih h.2, matchOrder_other now (Ne.symm h.1)]

/-- An execution shows its order as it was before the sweep. -/
theorem order_of_mem_executions {indices : List Nat} (hnodup : indices.Nodup) {e : Execution}
    (h : e ∈ executions now indices sweep) : sweep.venue.orders[e.index]? = some e.order := by
  induction indices generalizing sweep with
  | nil => exact absurd h List.not_mem_nil
  | cons index indices ih =>
      rw [List.nodup_cons] at hnodup
      rcases List.mem_append.mp h with hfirst | hlater
      · rcases sweep.matchOrder_cases now index with ⟨-, hnone, -⟩ |
          ⟨order, hat, -, matched, -, -, -, ⟨hnone, -, -⟩ | ⟨made, hsome, -, hindex, horder, -⟩⟩
        · rw [hnone] at hfirst
          exact absurd hfirst List.not_mem_nil
        · rw [hnone] at hfirst
          exact absurd hfirst List.not_mem_nil
        · rw [hsome] at hfirst
          rw [List.mem_singleton.mp hfirst, hindex, horder, hat]
      · have hne : index ≠ e.index := by
          rintro rfl
          exact hnodup.1 (mem_executions_index now hlater)
        rw [← matchOrder_other now hne]
        exact ih hnodup.2 hlater

/-- An order with the whole queue to itself is filled, or leaves its side empty. -/
theorem matchOrder_leaves (hmodel : sweep.venue.config.fillModel = .displayedLiquidity)
    (hbps : 10000 ≤ sweep.venue.config.queueShareBps) {index : Nat} {order : PaperOrder}
    (horder : sweep.venue.orders[index]? = some order) (hresting : order.isResting = true)
    (hshown : Shown (sweep.available order.side)) :
    ∃ after, (sweep.matchOrder now index).venue.orders[index]? = some after ∧
      (0 < after.remaining.raw →
        Emptied order ((sweep.matchOrder now index).available order.side)) := by
  rcases sweep.matchOrder_cases now index with ⟨hidle, -, -⟩ |
    ⟨found, hfound, -, matched, hmatched, hown, -, hcase⟩
  · rw [hidle order horder] at hresting
    cases hresting
  rw [horder] at hfound
  cases hfound
  rw [hmodel] at hmatched
  have hempties : matched.1.quantity.raw < order.remaining.raw →
      Emptied order ((sweep.matchOrder now index).available order.side) := by
    rw [hown, hmatched]
    exact matchAndConsume_emptied order _ hresting hshown hbps
  rcases hcase with ⟨-, hnothing, hvenue⟩ |
    ⟨e, -, hpositive, -, -, hresult, -, -, -, htable⟩
  · rw [hvenue]
    exact ⟨order, horder, fun hwants => hempties (hnothing.trans_lt hwants)⟩
  · have horders := congrArg Table.orders htable
    dsimp only [PaperExecution.table] at horders
    rw [horders, List.getElem?_set_self (List.getElem?_eq_some_iff.mp horder).1]
    refine ⟨_, rfl, fun hwants => hempties ?_⟩
    obtain ⟨hfilled, hwanted⟩ := PaperExecution.matched_within hmatched hresult hpositive
    rw [← hresult]
    rw [(PaperOrder.applyMatch_spec hfilled hwanted now).2.2] at hwants
    omega

/-- Where an order has emptied its side, orders that reach no further execute nothing. -/
theorem executions_of_emptied (hmodel : sweep.venue.config.fillModel = .displayedLiquidity)
    {front : PaperOrder} (hshown : Shown (sweep.available front.side))
    (hempty : Emptied front (sweep.available front.side)) {indices : List Nat} {e : Execution}
    (h : e ∈ executions now indices sweep) (hside : e.order.side = front.side) :
    ∃ price, e.order.reaches price = true ∧ front.reaches price = false := by
  by_contra hnot
  have hreach : ∀ price, e.order.reaches price = true → front.reaches price = true := by
    intro price hprice
    by_contra hfront
    exact hnot ⟨price, hprice, by simpa using hfront⟩
  induction indices generalizing sweep with
  | nil => exact absurd h List.not_mem_nil
  | cons index indices ih =>
      have hdraws := matchOrder_draws now hmodel front.side hshown index
      have hconfig : (sweep.matchOrder now index).venue.config = sweep.venue.config :=
        congrArg Setting.config (sweep.matchOrder_setting now index)
      rcases List.mem_append.mp h with hfirst | hlater
      · rcases sweep.matchOrder_cases now index with ⟨-, hnone, -⟩ |
          ⟨order, -, -, matched, hmatched, -, -, ⟨hnone, -, -⟩ |
            ⟨made, hsome, hpositive, -, horder, -⟩⟩
        · rw [hnone] at hfirst
          exact absurd hfirst List.not_mem_nil
        · rw [hnone] at hfirst
          exact absurd hfirst List.not_mem_nil
        · rw [hsome] at hfirst
          rw [List.mem_singleton.mp hfirst, horder] at hside hreach
          rw [hmodel, hside] at hmatched
          rw [hmatched, matchAndConsume_of_emptied order _ (hempty.of_reaches hreach)] at hpositive
          exact absurd hpositive (lt_irrefl 0)
      · exact ih (by rw [hconfig, hmodel]) hdraws.shown (hdraws.emptied hempty) hlater

end Sweep

/-- The order comes before another of its side: at a better price, or earlier at the
same price. -/
def PaperOrder.ComesBefore (a b : PaperOrder) : Prop :=
  (match a.side with
    | .buy => b.price.raw < a.price.raw
    | .sell => a.price.raw < b.price.raw) ∨
  a.price = b.price ∧ a.arrivalSequence < b.arrivalSequence

/-- Side, price and arrival, as one key that grows with the priority's rank. -/
def PaperOrder.priorityKey (order : PaperOrder) : Nat ×ₗ Int ×ₗ Nat :=
  match order.side with
  | .buy => toLex (0, toLex (-order.price.raw, order.arrivalSequence))
  | .sell => toLex (1, toLex (order.price.raw, order.arrivalSequence))

/-- Whoever reaches a price is not ahead of one that comes before it. -/
theorem PaperOrder.ComesBefore.reaches {a b : PaperOrder} (h : a.ComesBefore b)
    (hside : b.side = a.side) {price : Px} (hreach : b.reaches price = true) :
    a.reaches price = true := by
  unfold PaperOrder.reaches at *
  unfold PaperOrder.ComesBefore at h
  rw [hside] at hreach
  rcases h with hbetter | ⟨hsame, -⟩
  · cases ha : a.side with
    | buy =>
        simp only [ha, decide_eq_true_eq] at hbetter hreach ⊢
        omega
    | sell =>
        simp only [ha, decide_eq_true_eq] at hbetter hreach ⊢
        omega
  · rwa [hsame]

namespace PaperExecution

variable (v : PaperExecution)

theorem precedes_iff (a b : PaperOrder) :
    precedes a b = true ↔ a.priorityKey ≤ b.priorityKey := by
  have hprice : a.price = b.price ↔ a.price.raw = b.price.raw := Fixed.ext_iff
  unfold precedes PaperOrder.priorityKey
  cases ha : a.side with
  | buy =>
      cases hb : b.side with
      | buy =>
          by_cases hsame : a.price.raw = b.price.raw
          · simp [Prod.Lex.toLex_le_toLex, hprice, hsame]
          · simp [Prod.Lex.toLex_le_toLex, hprice, hsame]
      | sell => simp [Prod.Lex.toLex_le_toLex]
  | sell =>
      cases hb : b.side with
      | buy => simp [Prod.Lex.toLex_le_toLex]
      | sell =>
          by_cases hsame : a.price.raw = b.price.raw
          · simp [Prod.Lex.toLex_le_toLex, hprice, hsame]
          · simp [Prod.Lex.toLex_le_toLex, hprice, hsame]

/-- The key of the order that comes first is the smaller one. -/
theorem priorityKey_lt {a b : PaperOrder} (h : a.ComesBefore b) (hside : b.side = a.side) :
    a.priorityKey < b.priorityKey := by
  unfold PaperOrder.ComesBefore at h
  rw [Fixed.ext_iff] at h
  unfold PaperOrder.priorityKey
  rw [hside]
  cases ha : a.side with
  | buy =>
      simp only [ha] at h
      simp only [Prod.Lex.toLex_lt_toLex, lt_irrefl, false_or, true_and]
      omega
  | sell =>
      simp only [ha] at h
      simp only [Prod.Lex.toLex_lt_toLex, lt_irrefl, false_or, true_and]
      omega

variable (symbol : Symbol)

theorem mem_matchingOrder {index : Nat} :
    index ∈ v.matchingOrder symbol ↔
      ∃ order, v.orders[index]? = some order ∧ order.symbol = symbol ∧ order.isResting = true := by
  unfold matchingOrder
  rw [List.mem_insertionSort, List.mem_filter, List.mem_range]
  constructor
  · rintro ⟨-, hresting⟩
    cases horder : v.orders[index]? with
    | none => simp [horder] at hresting
    | some order =>
        refine ⟨order, rfl, ?_⟩
        simpa [horder] using hresting
  · rintro ⟨order, horder, hsymbol, hresting⟩
    refine ⟨(List.getElem?_eq_some_iff.mp horder).1, ?_⟩
    simp [horder, hsymbol, hresting]

theorem nodup_matchingOrder : (v.matchingOrder symbol).Nodup := by
  unfold matchingOrder
  exact (List.perm_insertionSort _ _).nodup_iff.mpr (List.nodup_range.filter _)

/-- The key of the order at a position. -/
def keyAt (index : Nat) : Nat ×ₗ Int ×ₗ Nat :=
  ((v.orders[index]?).map PaperOrder.priorityKey).getD (toLex (0, toLex (0, 0)))

/-- Orders are matched in the order of their keys. -/
theorem pairwise_matchingOrder :
    (v.matchingOrder symbol).Pairwise fun a b => v.keyAt a ≤ v.keyAt b := by
  rw [← List.pairwise_map]
  unfold matchingOrder
  rw [List.map_insertionSort _ (· ≤ ·)]
  · exact List.pairwise_insertionSort _ _
  · intro a ha b hb
    rw [← List.mem_insertionSort fun a b => v.matchesBefore a b = true] at ha hb
    obtain ⟨x, hx, -⟩ := (v.mem_matchingOrder symbol).mp ha
    obtain ⟨y, hy, -⟩ := (v.mem_matchingOrder symbol).mp hb
    simp only [matchesBefore, keyAt, hx, hy, precedes_iff]
    rfl

theorem shown_executableSide (book : BookView) (side : Side) :
    Shown (executableSide book side) := by
  intro level hlevel
  refine (book.positive level ?_).2.le
  cases side with
  | buy => exact List.mem_append_right _ hlevel
  | sell => exact List.mem_append_left _ hlevel

theorem available_sweepOf (book : BookView) (side : Side) :
    (v.sweepOf book).available side = executableSide book side := by
  cases side with
  | buy => rfl
  | sell => rfl

/-- What a market update executes it draws from the two sides of the book. -/
theorem matchSymbol_draws (hmodel : v.config.fillModel = .displayedLiquidity) {book : BookView}
    (hbook : v.books.lookup symbol = some book) (now : Nanos) (side : Side) :
    ∃ left, DrawsAll side (executableSide book side) (v.matchSymbolExecutions symbol now) left := by
  have hshown := shown_executableSide book side
  rcases v.matchSymbol_cases symbol now with
    ⟨hnone, -⟩ | ⟨found, hfound, -, -, hexecutions, -⟩
  · rw [hnone]
    exact ⟨_, DrawsAll.none hshown⟩
  · rw [hbook] at hfound
    cases hfound
    rw [← v.available_sweepOf] at hshown ⊢
    rw [hexecutions]
    exact ⟨_, Sweep.executions_draws now hmodel side hshown _⟩

theorem order_of_mem_matchSymbolExecutions {now : Nanos} {e : Execution}
    (h : e ∈ v.matchSymbolExecutions symbol now) :
    v.orders[e.index]? = some e.order ∧ e.order.symbol = symbol ∧ e.order.isResting = true := by
  rcases v.matchSymbol_cases symbol now with ⟨hnone, -⟩ | ⟨book, -, -, -, hexecutions, -⟩
  · rw [hnone] at h
    exact absurd h List.not_mem_nil
  · rw [hexecutions] at h
    have horder : v.orders[e.index]? = some e.order :=
      Sweep.order_of_mem_executions now (v.nodup_matchingOrder symbol) h
    obtain ⟨order, hat, hboth⟩ :=
      (v.mem_matchingOrder symbol).mp (Sweep.mem_executions_index now h)
    rw [horder] at hat
    cases hat
    exact ⟨horder, hboth⟩

/-- With the whole queue ours, an order executes only when every order that comes
before it is completely filled. -/
theorem matchSymbol_priority (hmodel : v.config.fillModel = .displayedLiquidity)
    (hbps : 10000 ≤ v.config.queueShareBps) {now : Nanos} {e : Execution}
    (h : e ∈ v.matchSymbolExecutions symbol now) {i : Nat} {front : PaperOrder}
    (hfront : v.orders[i]? = some front) (hsymbol : front.symbol = symbol)
    (hresting : front.isResting = true) (hside : front.side = e.order.side)
    (hbefore : front.ComesBefore e.order) :
    ∃ after, (v.matchSymbol symbol now).orders[i]? = some after ∧ after.remaining.raw ≤ 0 := by
  obtain ⟨hat, -, -⟩ := v.order_of_mem_matchSymbolExecutions symbol h
  have hkey : v.keyAt i < v.keyAt e.index := by
    simp only [keyAt, hfront, hat]
    exact priorityKey_lt hbefore hside.symm
  rcases v.matchSymbol_cases symbol now with ⟨hnone, -⟩ | ⟨book, -, -, -, hexecutions, hswept⟩
  · rw [hnone] at h
    exact absurd h List.not_mem_nil
  rw [hexecutions] at h
  rw [hswept]
  -- The sweep up to the order in front, its own turn, and the turns after it.
  obtain ⟨earlier, later, hsplit⟩ :=
    List.append_of_mem ((v.mem_matchingOrder symbol).mpr ⟨front, hfront, hsymbol, hresting⟩)
  have hnodup := v.nodup_matchingOrder symbol
  have hsorted := v.pairwise_matchingOrder symbol
  rw [hsplit] at h hnodup hsorted ⊢
  rw [List.nodup_append] at hnodup
  obtain ⟨-, hnodup, hapart⟩ := hnodup
  rw [List.nodup_cons] at hnodup
  have hnotEarlier : i ∉ earlier := fun hmem => hapart i hmem i List.mem_cons_self rfl
  rw [Sweep.executions_append, List.mem_append] at h
  rw [List.foldl_append, List.foldl_cons]
  have hconfig : (earlier.foldl (Sweep.matchOrder now) (v.sweepOf book)).venue.config = v.config :=
    congrArg Setting.config (Sweep.foldl_matchOrder_setting now (v.sweepOf book) earlier)
  have hatTurn : (earlier.foldl (Sweep.matchOrder now) (v.sweepOf book)).venue.orders[i]? =
      some front := (Sweep.foldl_matchOrder_other now hnotEarlier).trans hfront
  have hshown := (@Sweep.executions_draws now (v.sweepOf book) hmodel front.side
    (by rw [v.available_sweepOf]; exact shown_executableSide book _) earlier).shown
  generalize earlier.foldl (Sweep.matchOrder now) (v.sweepOf book) = turn at *
  rw [← hconfig] at hmodel hbps
  obtain ⟨after, hafter, hempties⟩ := Sweep.matchOrder_leaves now hmodel hbps hatTurn hresting
      hshown
  rw [Sweep.foldl_matchOrder_other now hnodup.1]
  refine ⟨after, hafter, not_lt.mp fun hwants => ?_⟩
  rcases h with hmem | hmem
  · have hfirst := (List.pairwise_append.mp hsorted).2.2 e.index
      (Sweep.mem_executions_index now hmem) i List.mem_cons_self
    exact absurd hkey (not_lt.mpr hfirst)
  rcases List.mem_append.mp hmem with hown | hlater
  · have hindex : e.index ∈ [i] :=
      Sweep.mem_executions_index now (List.mem_append_left _ hown)
    rw [List.mem_singleton.mp hindex] at hkey
    exact absurd hkey (lt_irrefl _)
  · have hdraws := Sweep.matchOrder_draws now hmodel front.side hshown i
    have hconfig' : (turn.matchOrder now i).venue.config = turn.venue.config :=
      congrArg Setting.config (turn.matchOrder_setting now i)
    obtain ⟨price, hreaches, hnot⟩ := Sweep.executions_of_emptied now (by rw [hconfig', hmodel])
      hdraws.shown (hempties hwants) hlater hside.symm
    rw [hbefore.reaches hside.symm hreaches] at hnot
    cases hnot

/-- One market update under the displayed-liquidity model. The executions move the
orders' cumulative quantities by what is taken for them and nothing else moves
these; over all orders no level gives more than it displays; every level an order
takes from is one its limit reaches; and with the whole queue ours an order
executes only if every order of its side that comes before it is completely filled. -/
theorem matchSymbol_shares_liquidity (symbol : Symbol) (now : Nanos) (book : BookView)
    (hbook : v.books.lookup symbol = some book)
    (hmodel : v.config.fillModel = .displayedLiquidity) :
    (∀ i, cumulativeAt (v.matchSymbol symbol now).orders i =
      cumulativeAt v.orders i +
        (((v.matchSymbolExecutions symbol now).filter fun e => e.index = i).map fun e =>
          e.takes.sum).sum) ∧
    (∀ (side : Side) (i : Nat) (level : PriceLevel), (executableSide book side)[i]? = some level →
      tookAt (v.matchSymbolExecutions symbol now) side i ≤ level.quantity.raw) ∧
    (∀ e ∈ v.matchSymbolExecutions symbol now,
      v.orders[e.index]? = some e.order ∧
      ∀ i, 0 < e.takes.getD i 0 → ∃ level, (executableSide book e.order.side)[i]? = some level ∧
        e.order.reaches level.price = true) ∧
    (v.config.queueShareBps = 10000 → ∀ e ∈ v.matchSymbolExecutions symbol now,
      ∀ (i : Nat) (front : PaperOrder), v.orders[i]? = some front → front.symbol = symbol →
        front.isResting = true → front.side = e.order.side → front.ComesBefore e.order →
        ∃ after, (v.matchSymbol symbol now).orders[i]? = some after ∧
          after.remaining.isZero = true) := by
  have hdraws := fun side => v.matchSymbol_draws symbol hmodel hbook now side
  refine ⟨fun i => ?_, fun side i level hlevel => ?_, fun e hmem => ⟨?_, fun i htakes => ?_⟩,
    fun hbps e hmem i front hfront hsymbol hresting hside hbefore => ?_⟩
  · rw [v.matchSymbol_accounts symbol now i, filledAt, fillsAt, List.map_map]
    congr 2
    apply List.map_congr_left
    intro e hmem
    obtain ⟨left, hleft⟩ := hdraws e.order.side
    obtain ⟨hquantity, hsum⟩ := hleft.total e (List.mem_of_mem_filter hmem) rfl
    show e.fill.quantity.raw = e.takes.sum
    rw [hquantity, hsum]
  · obtain ⟨left, hleft⟩ := hdraws side
    have hle := hleft.tookAt_le i
    rwa [quantityAt, hlevel] at hle
  · exact (v.order_of_mem_matchSymbolExecutions symbol hmem).1
  · obtain ⟨left, hleft⟩ := hdraws e.order.side
    obtain ⟨price, hprice, hreaches⟩ := hleft.reached e hmem rfl i htakes
    rw [prices, List.getElem?_map] at hprice
    obtain ⟨level, hlevel, rfl⟩ := Option.map_eq_some_iff.mp hprice
    exact ⟨level, hlevel, hreaches⟩
  · obtain ⟨after, hafter, hfilled⟩ := v.matchSymbol_priority symbol hmodel hbps.ge hmem hfront
      hsymbol hresting hside hbefore
    refine ⟨after, hafter, ?_⟩
    rw [Fixed.isZero_iff]
    exact hfilled.antisymm after.remaining_nonneg

/-- Two bids at one price share an offer that is too small for both: the earlier one
is filled before the later one gets the rest. -/
theorem twoBids_share_liquidity :
    ((Sample.twoBids.matchSymbolExecutions Sample.symbol 0).map fun e => (e.index, e.takes)) =
        [(0, [3]), (1, [1])] ∧
      ∀ (side : Side) (i : Nat) (level : PriceLevel),
        (executableSide (Sample.offer Sample.four (by decide)) side)[i]? = some level →
        tookAt (Sample.twoBids.matchSymbolExecutions Sample.symbol 0) side i ≤ level.quantity.raw :=
  ⟨by decide, (matchSymbol_shares_liquidity Sample.twoBids Sample.symbol 0
    (Sample.offer Sample.four (by decide)) rfl rfl).2.1⟩

end PaperExecution

/-- What a side displays at prices that one of the orders reaches. -/
def reachableQuantity (orders : List PaperOrder) (levels : List PriceLevel) : Int :=
  ((levels.filter fun level => orders.any fun order => order.reaches level.price).map fun level =>
    level.quantity.raw).sum

/-- The quantity the executions of one side come to. -/
def executedQuantity (executions : List Execution) (side : Side) : Int :=
  ((executions.filter fun e => e.order.side = side).map fun e => e.result.quantity.raw).sum

theorem sum_eq_sum_range {takes : List Int} {n : Nat} (h : ∀ i, n ≤ i → takes.getD i 0 = 0) :
    takes.sum = ∑ i ∈ Finset.range n, takes.getD i 0 := by
  induction takes generalizing n with
  | nil => simp
  | cons take takes ih =>
      cases n with
      | zero =>
          have hfirst : take = 0 := h 0 le_rfl
          have hrest := ih (n := 0) fun i _ => h (i + 1) (Nat.zero_le _)
          rw [List.sum_cons, hfirst, hrest]
          simp
      | succ n =>
          have hrest := ih (n := n) fun i hi => h (i + 1) (Nat.succ_le_succ hi)
          rw [List.sum_cons, hrest, Finset.sum_range_succ', add_comm]
          rfl

theorem reachableQuantity_eq_sum (orders : List PaperOrder) (levels : List PriceLevel) :
    reachableQuantity orders levels =
      ∑ i ∈ Finset.range levels.length,
        if (levels[i]?).any fun level => orders.any fun order => order.reaches level.price then
          quantityAt levels i
        else 0 := by
  unfold reachableQuantity
  induction levels with
  | nil => rfl
  | cons level levels ih =>
      rw [List.length_cons, Finset.sum_range_succ', List.filter_cons]
      simp only [List.getElem?_cons_succ, List.getElem?_cons_zero, quantityAt_cons_succ,
        quantityAt_cons_zero, Option.any_some, ← ih]
      split
      · rw [List.map_cons, List.sum_cons, add_comm]
      · rw [add_zero]

/-- Executions that draw on a side come to no more than it displays within their
orders' reach. -/
theorem DrawsAll.executedQuantity_le {side : Side} {levels left : List PriceLevel}
    {executions : List Execution} (h : DrawsAll side levels executions left) :
    executedQuantity executions side ≤
      reachableQuantity ((executions.filter fun e => e.order.side = side).map Execution.order)
        levels := by
  have hbeyond : ∀ e ∈ executions, e.order.side = side → ∀ i, levels.length ≤ i →
      e.takes.getD i 0 = 0 := by
    intro e hmem hside i hi
    by_contra hne
    have hnonneg := h.nonneg e hmem hside i
    obtain ⟨price, hprice, -⟩ := h.reached e hmem hside i (by omega)
    rw [Paper.prices, List.getElem?_map, List.getElem?_eq_none hi] at hprice
    cases hprice
  have hswap : executedQuantity executions side =
      ∑ i ∈ Finset.range levels.length, tookAt executions side i := by
    have htotal := h.total
    clear h
    induction executions with
    | nil => simp [executedQuantity, tookAt]
    | cons e later ih =>
        rw [List.forall_mem_cons] at htotal hbeyond
        have hlater := ih hbeyond.2 htotal.2
        have hsplit : ∀ i, tookAt (e :: later) side i = tookAt [e] side i + tookAt later side i :=
          tookAt_append [e] later side
        simp only [hsplit, Finset.sum_add_distrib, ← hlater, tookAt_singleton]
        unfold executedQuantity
        by_cases hside : e.order.side = side
        · rw [List.filter_cons_of_pos (by simpa using hside), List.map_cons, List.sum_cons,
            (htotal.1 hside).2, sum_eq_sum_range (hbeyond.1 hside)]
          simp [hside]
        · rw [List.filter_cons_of_neg (by simpa using hside)]
          simp [hside]
  rw [hswap, reachableQuantity_eq_sum]
  apply Finset.sum_le_sum
  intro i hi
  split
  · exact h.tookAt_le i
  · rename_i hunreached
    -- Where nobody reaches, nobody takes.
    apply le_of_eq
    apply List.sum_eq_zero
    intro took hmem
    obtain ⟨e, he, rfl⟩ := List.mem_map.mp hmem
    obtain ⟨hmem, hside⟩ := List.mem_filter.mp he
    have hside : e.order.side = side := of_decide_eq_true hside
    by_contra hne
    have hnonneg := h.nonneg e hmem hside i
    obtain ⟨price, hprice, hreaches⟩ := h.reached e hmem hside i (by omega)
    rw [Paper.prices, List.getElem?_map] at hprice
    obtain ⟨level, hlevel, rfl⟩ := Option.map_eq_some_iff.mp hprice
    apply hunreached
    rw [hlevel, Option.any_some, List.any_eq_true]
    exact ⟨e.order, List.mem_map_of_mem he, hreaches⟩

namespace PaperExecution

variable (v : PaperExecution)

variable {v} in
/-- An order takes no more on arrival than is displayed within its reach. -/
theorem Arrives.quantity_le {request : OrderRequest} {book : BookView} {e : Execution}
    (h : v.Arrives request book e) (hmodel : v.config.fillModel = .displayedLiquidity) :
    e.result.quantity.raw ≤ reachableQuantity [e.order] (executableSide book e.order.side) := by
  obtain ⟨hdraws, hsum, -⟩ := matchAndConsume_draws e.order v.config.queueShareBps
    (shown_executableSide book e.order.side)
  have hvalid : book.isValid = true := by
    have hmarketable := h.marketable
    rw [isMarketableOnArrival, Bool.and_eq_true] at hmarketable
    exact hmarketable.1
  have hresult : e.result.quantity = (matchAndConsume e.order (executableSide book e.order.side)
      .displayedLiquidity v.config.queueShareBps).1.quantity := by
    rw [h.result, matchAgainstBook, if_neg (by simp [hvalid]), hmodel]
  have hall : DrawsAll e.order.side (executableSide book e.order.side) [e] _ :=
    { prices := hdraws.prices
      shown := hdraws.shown
      remains := fun i => by
        rw [hdraws.remains, tookAt_singleton, if_pos rfl, h.takes, hmodel]
      nonneg := List.forall_mem_singleton.mpr fun _ => by
        rw [h.takes, hmodel]
        exact hdraws.nonneg
      reached := List.forall_mem_singleton.mpr fun _ => by
        rw [h.takes, hmodel]
        exact hdraws.reached
      total := List.forall_mem_singleton.mpr fun _ => ⟨h.quantity, by
        rw [hresult, hsum, h.takes, hmodel]⟩ }
  simpa [executedQuantity] using hall.executedQuantity_le

/-- Under the displayed-liquidity model one market update executes against a side no
more than it displays within the reach of the orders that execute, and an order that
executes on arrival takes no more than is displayed within its own reach. -/
theorem executions_le_displayed (hmodel : v.config.fillModel = .displayedLiquidity) :
    (∀ (symbol : Symbol) (updateNs : Nanos) (book : BookView) (side : Side),
      v.books.lookup symbol = some book →
      executedQuantity (v.onMarketUpdateExecutions symbol updateNs) side ≤
        reachableQuantity
          (((v.onMarketUpdateExecutions symbol updateNs).filter fun e =>
            e.order.side = side).map Execution.order)
          (executableSide book side)) ∧
    ∀ e ∈ v.pollExecutions, ∃ book, v.books.lookup e.order.symbol = some book ∧
      e.result.quantity.raw ≤
        reachableQuantity [e.order] (executableSide book e.order.side) := by
  constructor
  · intro symbol updateNs book side hbook
    obtain ⟨left, hdraws⟩ := matchSymbol_draws
      { v with bookUpdatedNs := v.bookUpdatedNs.insert symbol updateNs } symbol hmodel hbook v.clock
      side
    exact hdraws.executedQuantity_le
  · intro e hmem
    obtain ⟨w, request, book, hconfig, -, hbooks, -, harrives⟩ :=
        v.arrives_of_mem_pollExecutions hmem
    refine ⟨book, ?_, harrives.quantity_le (by rw [hconfig, hmodel])⟩
    rw [harrives.order, ← hbooks]
    exact harrives.known

end PaperExecution

namespace Sample

/-- A bid for three resting against an offer of one, at a venue that fills all of an
order on a cross. -/
def crossedBid : PaperExecution :=
  Machine.run PaperExecution.step
    [.start, .submit (request 'c' .buy price three), .poll,
      .attachBook symbol (offer one raw_one_pos)]
    (.init { config with fillModel := .fullOnCross } 0 0)

/-- Two bids for three on their way to an offer of three. -/
def twoTakers : PaperExecution :=
  Machine.run PaperExecution.step
    [.start, .attachBook symbol (offer three raw_three_pos), .submit (request 'd' .buy price three),
      .submit (request 'e' .buy price three)]
    (.init config 0 0)

end Sample

namespace PaperExecution

/-- A cross may fill an order beyond what is displayed, and two orders that arrive in
one poll are each given the same offer. -/
theorem executions_exceed_displayed :
    reachableQuantity
        ((Sample.crossedBid.onMarketUpdateExecutions Sample.symbol 0).map Execution.order)
        (executableSide (Sample.offer Sample.one (by decide)) .buy) <
      executedQuantity (Sample.crossedBid.onMarketUpdateExecutions Sample.symbol 0) .buy ∧
    reachableQuantity (Sample.twoTakers.pollExecutions.map Execution.order)
        (executableSide (Sample.offer Sample.three (by decide)) .buy) <
      executedQuantity Sample.twoTakers.pollExecutions .buy := by
  decide

theorem executions_le_displayed_twoTakers :
    (∀ (symbol : Symbol) (updateNs : Nanos) (book : BookView) (side : Side),
      Sample.twoTakers.books.lookup symbol = some book →
      executedQuantity (Sample.twoTakers.onMarketUpdateExecutions symbol updateNs) side ≤
        reachableQuantity
          (((Sample.twoTakers.onMarketUpdateExecutions symbol updateNs).filter fun e =>
            e.order.side = side).map Execution.order)
          (executableSide book side)) ∧
    ∀ e ∈ Sample.twoTakers.pollExecutions, ∃ book,
      Sample.twoTakers.books.lookup e.order.symbol = some book ∧
      e.result.quantity.raw ≤
        reachableQuantity [e.order] (executableSide book e.order.side) :=
  executions_le_displayed Sample.twoTakers rfl

end PaperExecution

end MmEngine.Exchange.Paper
