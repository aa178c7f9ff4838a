/-
# The paper venue's matcher

How a resting order becomes an execution. The matcher owns no state: it reads
an order and one side of a book, and returns what executes together with the
side it leaves behind, so that the next order of the same update cannot be given
the same displayed quantity again.
-/

import MmEngine.Exchange.ExecutionEvents
import Mathlib.Data.List.Sort

namespace MmEngine.Exchange.Paper

structure PriceLevel where
  price : Px
  quantity : Qty
  deriving DecidableEq

/-- What the venue reads of an order book, best level first. Neither a snapshot
nor an update lets a level into a book that is not positive in both fields. -/
structure BookView where
  isValid : Bool
  bids : List PriceLevel
  asks : List PriceLevel
  positive : ∀ level ∈ bids ++ asks, 0 < level.price.raw ∧ 0 < level.quantity.raw

namespace BookView

def bestBidPrice (book : BookView) : Px := (book.bids.head?.map PriceLevel.price).getD .zero

def bestAskPrice (book : BookView) : Px := (book.asks.head?.map PriceLevel.price).getD .zero

end BookView

/-- An order as the venue sees it. It shares nothing with the engine's record. -/
structure PaperOrder where
  exchangeOrderId : ExchangeOrderId
  clientOrderId : ClientOrderId
  symbol : Symbol
  side : Side
  type : OrderType
  tif : TimeInForce
  postOnly : Bool
  price : Px
  originalQty : Qty
  cumulativeQty : Qty := .zero
  status : OrderStatus := .new
  /-- Arrival order at this price. -/
  arrivalSequence : Nat
  acceptedNs : Nanos
  lastEventNs : Nanos
  /-- True between the acceptance of a cancel and its confirmation. -/
  cancelPending : Bool := false
  deriving DecidableEq

namespace PaperOrder

def remaining (order : PaperOrder) : Qty :=
  match Fixed.checkedSub order.originalQty order.cumulativeQty with
  | none => .zero
  | some out => if out.isNegative then .zero else out

def isResting (order : PaperOrder) : Bool :=
  order.status = .new || order.status = .partiallyFilled

def isTerminal (order : PaperOrder) : Bool :=
  order.status = .filled || order.status = .canceled || order.status = .rejected ||
    order.status = .expired

/-- True when the limit reaches a price of the opposite side. -/
def reaches (order : PaperOrder) (price : Px) : Bool :=
  match order.side with
  | .buy => decide (price.raw ≤ order.price.raw)
  | .sell => decide (order.price.raw ≤ price.raw)

def wouldCross (order : PaperOrder) (opposite : Px) : Bool :=
  opposite.isPositive && order.reaches opposite

end PaperOrder

/-- How a resting order is filled when the book comes to it. -/
inductive FillModel
  /-- Only what is displayed, at prices the limit reaches. -/
  | displayedLiquidity
  /-- Everything, as soon as the touch crosses the limit. -/
  | fullOnCross
  deriving DecidableEq

/-- How much of one order executes, and at what volume-weighted price. -/
structure MatchResult where
  quantity : Qty := .zero
  price : Px := .zero
  liquidity : Liquidity := .maker
  levelsConsumed : Nat := 0
  deriving DecidableEq

/-- The share of a displayed quantity that is not queued ahead of us. -/
def applyShare (quantity : Qty) (bps : Nat) : Qty :=
  if 10000 ≤ bps then quantity else Fixed.narrow ((quantity.raw * bps).tdiv 10000)

def isMarketableOnArrival (order : PaperOrder) (book : BookView) : Bool :=
  book.isValid &&
    order.wouldCross (match order.side with
      | .buy => book.bestAskPrice
      | .sell => book.bestBidPrice)

/-- The side a new order of the given side would execute against. -/
def executableSide (book : BookView) (side : Side) : List PriceLevel :=
  match side with
  | .buy => book.asks
  | .sell => book.bids

namespace PriceLevel

/-- The level after a quantity has been taken from it. -/
def consume (level : PriceLevel) (take : Qty) : PriceLevel :=
  { level with
    quantity :=
      match Fixed.checkedSub level.quantity take with
      | none => .zero
      | some left => if left.isNegative then .zero else left }

end PriceLevel

/-- What the walk over the levels has taken so far. -/
structure Taken where
  filled : Qty := .zero
  /-- The exact sum of quantity times price. -/
  value : Int := 0
  levelsConsumed : Nat := 0
  deriving DecidableEq

/-- Walks the opposite side from the touch. A level that the limit does not reach
ends the walk; one whose whole quantity is ahead of us is passed over. -/
def takeLevels (order : PaperOrder) (remaining : Qty) (bps : Nat) :
    List PriceLevel → Taken → Taken × List PriceLevel
  | [], taken => (taken, [])
  | level :: levels, taken =>
      if !order.reaches level.price then (taken, level :: levels)
      else
        let available := applyShare level.quantity bps
        if !available.isPositive then
          let deeper := takeLevels order remaining bps levels taken
          (deeper.1, level :: deeper.2)
        else
          match Fixed.checkedSub remaining taken.filled with
          | none => (taken, level :: levels)
          | some room =>
              if !room.isPositive then (taken, level :: levels)
              else
                let take := if room.raw < available.raw then room else available
                match Fixed.checkedAdd taken.filled take with
                | none => (taken, level :: levels)
                | some next =>
                    let after : Taken :=
                      { filled := next
                        value := taken.value + take.raw * level.price.raw
                        levelsConsumed := taken.levelsConsumed + 1 }
                    let left := level.consume take
                    if remaining.raw ≤ next.raw then (after, left :: levels)
                    else
                      let deeper := takeLevels order remaining bps levels after
                      (deeper.1, left :: deeper.2)

/-- How much of the side executes against the order, and what is left of it. -/
def matchAndConsume (order : PaperOrder) (levels : List PriceLevel) (model : FillModel)
    (queueShareBps : Nat) : MatchResult × List PriceLevel :=
  if !order.isResting || !order.remaining.isPositive then ({}, levels)
  else
    match levels with
    | [] => ({}, [])
    | touch :: deeper =>
        match model with
        | .fullOnCross =>
            if !order.reaches touch.price then ({}, levels)
            else
              ({ quantity := order.remaining, price := order.price, levelsConsumed := 1 },
                touch.consume order.remaining :: deeper)
        | .displayedLiquidity =>
            let walk := takeLevels order order.remaining queueShareBps levels {}
            let taken := walk.1
            if !taken.filled.isPositive then
              ({ levelsConsumed := taken.levelsConsumed }, walk.2)
            else
              ({ quantity := taken.filled
                 price := Fixed.narrow (taken.value.tdiv taken.filled.raw)
                 levelsConsumed := taken.levelsConsumed }, walk.2)

/-- Matching of a single order on arrival. -/
def matchAgainstBook (order : PaperOrder) (book : BookView) (model : FillModel)
    (queueShareBps : Nat) : MatchResult :=
  if !book.isValid then {}
  else (matchAndConsume order (executableSide book order.side) model queueShareBps).1

/-! ## What a match can be -/

/-- Prices of the levels, which no match changes. -/
def prices (levels : List PriceLevel) : List Px := levels.map PriceLevel.price

/-- What the walk keeps true of what it has taken: no more than the order wants,
at prices that are positive and representable. -/
structure Taken.Fair (remaining : Qty) (taken : Taken) : Prop where
  nonneg : 0 ≤ taken.filled.raw
  bounded : taken.filled.raw ≤ remaining.raw
  paid : taken.filled.raw ≤ taken.value
  inRange : taken.value ≤ rawMax * taken.filled.raw

theorem Taken.fair_empty {remaining : Qty} (h : 0 ≤ remaining.raw) : Fair remaining {} :=
  ⟨le_rfl, h, le_rfl, le_rfl⟩

theorem Taken.Fair.take {remaining : Qty} {taken : Taken} (h : taken.Fair remaining)
    {take next : Qty} {price : Px} (htake : 0 < take.raw) (hprice : 0 < price.raw)
    (hnext : next.raw = taken.filled.raw + take.raw) (hroom : next.raw ≤ remaining.raw)
    (levelsConsumed : Nat) :
    Fair remaining
      { filled := next
        value := taken.value + take.raw * price.raw
        levelsConsumed := levelsConsumed } := by
  obtain ⟨hnonneg, hbounded, hpaid, hrange⟩ := h
  have hlower : take.raw * 1 ≤ take.raw * price.raw := Int.mul_le_mul_of_nonneg_left hprice htake.le
  have hupper : take.raw * price.raw ≤ take.raw * rawMax :=
    Int.mul_le_mul_of_nonneg_left price.raw_le htake.le
  refine ⟨?_, hroom, ?_, ?_⟩
  · show 0 ≤ next.raw
    omega
  · show next.raw ≤ taken.value + take.raw * price.raw
    omega
  · show taken.value + take.raw * price.raw ≤ rawMax * next.raw
    rw [hnext, Int.mul_add, Int.mul_comm rawMax take.raw]
    omega

/-- The walk takes fairly and changes no price. -/
theorem takeLevels_fair (order : PaperOrder) (remaining : Qty) (bps : Nat)
    {levels : List PriceLevel} (hlevels : ∀ price ∈ prices levels, 0 < price.raw) {taken : Taken}
    (htaken : taken.Fair remaining) :
    (takeLevels order remaining bps levels taken).1.Fair remaining ∧
      prices (takeLevels order remaining bps levels taken).2 = prices levels := by
  induction levels generalizing taken with
  | nil => exact ⟨htaken, rfl⟩
  | cons level levels ih =>
      have hprice : 0 < level.price.raw := hlevels _ List.mem_cons_self
      have hdeeper : ∀ price ∈ prices levels, 0 < price.raw :=
        fun price hmem => hlevels price (List.mem_cons_of_mem _ hmem)
      unfold takeLevels
      dsimp only
      split
      · exact ⟨htaken, rfl⟩
      split
      · obtain ⟨hfair, hsame⟩ := ih hdeeper htaken
        exact ⟨hfair, congrArg (level.price :: ·) hsame⟩
      rename_i havailable
      split
      · exact ⟨htaken, rfl⟩
      rename_i room hroom
      split
      · exact ⟨htaken, rfl⟩
      rename_i hpositive
      split
      · exact ⟨htaken, rfl⟩
      rename_i next hnext
      rw [Bool.not_eq_true', Bool.not_eq_false, Fixed.isPositive_iff] at havailable hpositive
      have hroom := Fixed.checkedSub_eq_some_iff.mp hroom
      have hnext := Fixed.checkedAdd_eq_some_iff.mp hnext
      have hafter := htaken.take (by split <;> assumption) hprice hnext
        (by split at hnext <;> omega) (taken.levelsConsumed + 1)
      split
      · exact ⟨hafter, rfl⟩
      · obtain ⟨hfair, hsame⟩ := ih hdeeper hafter
        exact ⟨hfair, congrArg (level.price :: ·) hsame⟩

end MmEngine.Exchange.Paper
