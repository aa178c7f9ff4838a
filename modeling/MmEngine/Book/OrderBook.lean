/-
# The local order book

Two sides of price levels, best level first, kept by snapshots that are staged and
published at once and by diffs that are applied in place. A side holds at most the
depth of the book. What would leave a damaged book behind marks it as violated, and
nothing but a new image or a reset lifts that mark.

A side is searched by the position a binary search finds: the first level that is not
better than the price looked for.
-/

import MmEngine.Exchange.MarketDataEvents
import MmEngine.Lib.Ladder

namespace MmEngine.Book

open MmEngine.Exchange

/-- Why a book was judged invalid. -/
inductive BookViolation
  | none
  | crossedBook
  | lockedBook
  | negativeQuantity
  | zeroQuantityLevel
  | nonPositivePrice
  | unsortedLevels
  | duplicateLevel
  | depthExceeded
  | sequenceRegression
  deriving DecidableEq

def BookViolation.toString : BookViolation → String
  | .none => "NONE"
  | .crossedBook => "CROSSED_BOOK"
  | .lockedBook => "LOCKED_BOOK"
  | .negativeQuantity => "NEGATIVE_QUANTITY"
  | .zeroQuantityLevel => "ZERO_QUANTITY_LEVEL"
  | .nonPositivePrice => "NON_POSITIVE_PRICE"
  | .unsortedLevels => "UNSORTED_LEVELS"
  | .duplicateLevel => "DUPLICATE_LEVEL"
  | .depthExceeded => "DEPTH_EXCEEDED"
  | .sequenceRegression => "SEQUENCE_REGRESSION"

/-- Bids sort descending and asks ascending: the first level is the best of either. -/
def isBetter (which : Side) (a b : Px) : Bool :=
  match which with
  | .buy => b.raw < a.raw
  | .sell => a.raw < b.raw

/-- The levels before the place of a price, and those from it on. -/
def locate (side : List PriceLevel) (which : Side) (price : Px) :
    List PriceLevel × List PriceLevel :=
  (side.takeWhile fun level => isBetter which level.price price,
    side.dropWhile fun level => isBetter which level.price price)

/-- The levels of a snapshot, best first. Levels at one price may come in any order:
such a snapshot is refused. -/
def sortSide (which : Side) (side : List PriceLevel) : List PriceLevel :=
  side.insertionSort fun a b => !isBetter which b.price a.price

/-- Two neighbours stand at one price. -/
def hasDuplicates : List PriceLevel → Bool
  | a :: b :: side => a.price = b.price || hasDuplicates (b :: side)
  | _ => false

structure OrderBook where
  symbol : Symbol := .empty
  maxDepth : Nat := 50
  bids : List PriceLevel := []
  asks : List PriceLevel := []
  stagingBids : List PriceLevel := []
  stagingAsks : List PriceLevel := []
  buildingSnapshot : Bool := false
  lastUpdateId : Seq64 := kNoSeq64
  snapshotApplied : Bool := false
  violated : Bool := false
  violation : BookViolation := .none
  updatesApplied : Nat := 0
  levelsDropped : Nat := 0
  deriving DecidableEq

namespace OrderBook

def kDefaultMaxDepth : Nat := 50

/-- The levels of a side. -/
def side (book : OrderBook) : Side → List PriceLevel
  | .buy => book.bids
  | .sell => book.asks

/-- The book with other levels on a side. -/
def setSide (book : OrderBook) (which : Side) (levels : List PriceLevel) : OrderBook :=
  match which with
  | .buy => { book with bids := levels }
  | .sell => { book with asks := levels }

def isValid (book : OrderBook) : Bool := book.snapshotApplied && !book.violated

/-- Drops every level and the synchronization; the diagnostics stay. -/
def clear (book : OrderBook) : OrderBook :=
  { book with
    bids := []
    asks := []
    stagingBids := []
    stagingAsks := []
    buildingSnapshot := false
    lastUpdateId := kNoSeq64
    snapshotApplied := false
    violated := false
    violation := .none }

def reset (book : OrderBook) (symbol : Symbol) (maxDepth : Nat) : OrderBook :=
  { book with
    symbol := symbol
    maxDepth := if maxDepth = 0 then kDefaultMaxDepth else maxDepth }.clear

/-- A book over one symbol. -/
def new (symbol : Symbol) (maxDepth : Nat) : OrderBook := reset {} symbol maxDepth

def markInvalid (book : OrderBook) (violation : BookViolation) : OrderBook :=
  { book with violated := true, violation := violation }

def beginSnapshot (book : OrderBook) : OrderBook :=
  { book with stagingBids := [], stagingAsks := [], buildingSnapshot := true }

/-- Stages the levels of one side up to the first that is invalid; a level of quantity
zero is an absence. The flag says whether all of them were valid. -/
def stageLevels : List PriceLevel → List PriceLevel → Bool × List PriceLevel
  | [], staged => (true, staged)
  | level :: levels, staged =>
      if level.quantity.isZero then stageLevels levels staged
      else if !level.price.isPositive || level.quantity.isNegative then (false, staged)
      else stageLevels levels (staged ++ [level])

def addSnapshotLevels (book : OrderBook) (levels : BookLevels) : Status × OrderBook :=
  if !book.buildingSnapshot then
    (.error .failedPrecondition "add_snapshot_levels without begin_snapshot", book)
  else if !levels.countsAreSane then
    (.error .outOfRange "snapshot chunk level count exceeds capacity", book)
  else
    match stageLevels levels.bids book.stagingBids with
    | (false, bids) =>
        (.error .invalidArgument "snapshot contains an invalid bid level",
          { book with stagingBids := bids })
    | (true, bids) =>
        match stageLevels levels.asks book.stagingAsks with
        | (false, asks) =>
            (.error .invalidArgument "snapshot contains an invalid ask level",
              { book with stagingBids := bids, stagingAsks := asks })
        | (true, asks) => (.ok, { book with stagingBids := bids, stagingAsks := asks })

/-- What is wrong with the touch: the best bid above or at the best ask. -/
def touchViolation (bids asks : List PriceLevel) : BookViolation :=
  match bids.head?, asks.head? with
  | some bid, some ask =>
      if ask.price.raw < bid.price.raw then .crossedBook
      else if bid.price = ask.price then .lockedBook
      else .none
  | _, _ => .none

/-- Publishes the staged image, or refuses it and marks the book. -/
def finishSnapshot (book : OrderBook) (lastUpdateId : Seq64) : Status × OrderBook :=
  if !book.buildingSnapshot then
    (.error .failedPrecondition "finish_snapshot without begin_snapshot", book)
  else
    let bids := sortSide .buy book.stagingBids
    let asks := sortSide .sell book.stagingAsks
    let book := { book with buildingSnapshot := false, stagingBids := bids, stagingAsks := asks }
    if hasDuplicates bids || hasDuplicates asks then
      (.error .invalidArgument "snapshot contains duplicate price levels",
        book.markInvalid .duplicateLevel)
    else
      let bids := bids.take book.maxDepth
      let asks := asks.take book.maxDepth
      match touchViolation bids asks with
      | .none =>
          (.ok,
            { book with
              bids := bids
              asks := asks
              stagingBids := []
              stagingAsks := []
              lastUpdateId := lastUpdateId
              snapshotApplied := true
              violated := false
              violation := .none })
      | violation =>
          (.error .invalidArgument "snapshot is crossed or locked",
            { book with stagingBids := bids, stagingAsks := asks }.markInvalid violation)

/-- Cuts a side that has grown past the depth. -/
def trim (book : OrderBook) (which : Side) : OrderBook :=
  if book.maxDepth < (book.side which).length then
    { book.setSide which ((book.side which).take book.maxDepth) with
      levelsDropped := book.levelsDropped + 1 }
  else book

/-- Applies one level to one side: a quantity of zero erases, and a level beyond the
depth of a full side is dropped. -/
def applyLevel (book : OrderBook) (which : Side) (level : PriceLevel) : Status × OrderBook :=
  if !level.price.isPositive then
    (.error .invalidArgument "update contains a non-positive price",
      book.markInvalid .nonPositivePrice)
  else if level.quantity.isNegative then
    (.error .invalidArgument "update contains a negative quantity",
      book.markInvalid .negativeQuantity)
  else
    let (front, back) := locate (book.side which) which level.price
    let found := back.head?.any fun held => held.price = level.price
    if level.quantity.isZero then
      (.ok, if found then book.setSide which (front ++ back.tail) else book)
    else if found then (.ok, book.setSide which (front ++ level :: back.tail))
    else if book.maxDepth ≤ (book.side which).length && back.isEmpty then
      (.ok, { book with levelsDropped := book.levelsDropped + 1 })
    else (.ok, (book.setSide which (front ++ level :: back)).trim which)

/-- Applies levels to one side up to the first that is refused. -/
def applyLevels (which : Side) : List PriceLevel → OrderBook → Status × OrderBook
  | [], book => (.ok, book)
  | level :: levels, book =>
      match book.applyLevel which level with
      | (.ok, book) => applyLevels which levels book
      | failed => failed

/-- Looks at the touch once the levels are in, and advances the identifier. -/
def closeUpdate (book : OrderBook) (finalUpdateId : Seq64) : Status × OrderBook :=
  match touchViolation book.bids book.asks with
  | .crossedBook =>
      (.error .failedPrecondition "update produced a crossed book", book.markInvalid .crossedBook)
  | .lockedBook =>
      (.error .failedPrecondition "update produced a locked book", book.markInvalid .lockedBook)
  | _ =>
      (.ok,
        { book with
          lastUpdateId := if finalUpdateId ≠ kNoSeq64 then finalUpdateId else book.lastUpdateId
          updatesApplied := book.updatesApplied + 1 })

/-- The levels of both sides, bids first, and then the touch. -/
def applyBoth (book : OrderBook) (levels : BookLevels) (finalUpdateId : Seq64) :
    Status × OrderBook :=
  match applyLevels .buy levels.bids book with
  | (.ok, book) =>
      match applyLevels .sell levels.asks book with
      | (.ok, book) => book.closeUpdate finalUpdateId
      | failed => failed
  | failed => failed

/-- Applies an incremental diff. -/
def applyUpdate (book : OrderBook) (levels : BookLevels) (finalUpdateId : Seq64) :
    Status × OrderBook :=
  if !book.snapshotApplied then
    (.error .failedPrecondition "update applied before any snapshot", book)
  else if !levels.countsAreSane then
    (.error .outOfRange "update level count exceeds capacity", book.markInvalid .depthExceeded)
  else if finalUpdateId ≠ kNoSeq64 && finalUpdateId < book.lastUpdateId then
    (.error .failedPrecondition "update id regressed", book.markInvalid .sequenceRegression)
  else book.applyBoth levels finalUpdateId

/-- What is wrong with a level, given the level before it. -/
def auditLevel (which : Side) (before : Option PriceLevel) (level : PriceLevel) : BookViolation :=
  if !level.price.isPositive then .nonPositivePrice
  else if level.quantity.isNegative then .negativeQuantity
  else if level.quantity.isZero then .zeroQuantityLevel
  else
    match before with
    | some better =>
        if level.price = better.price then .duplicateLevel
        else if !isBetter which better.price level.price then .unsortedLevels
        else .none
    | none => .none

/-- The first thing wrong with the levels of a side. -/
def auditLevels (which : Side) : Option PriceLevel → List PriceLevel → BookViolation
  | _, [] => .none
  | before, level :: levels =>
      match auditLevel which before level with
      | .none => auditLevels which (some level) levels
      | violation => violation

def auditSide (book : OrderBook) (which : Side) : BookViolation :=
  if book.maxDepth < (book.side which).length then .depthExceeded
  else auditLevels which none (book.side which)

/-- The full structural audit. -/
def checkInvariants (book : OrderBook) : BookViolation :=
  match book.auditSide .buy with
  | .none =>
      match book.auditSide .sell with
      | .none => touchViolation book.bids book.asks
      | violation => violation
  | violation => violation

/-- The best level of a side, when there is one. -/
def best (book : OrderBook) (which : Side) : Option PriceLevel := (book.side which).head?

def bestBidPrice (book : OrderBook) : Px := ((book.best .buy).map PriceLevel.price).getD .zero

def bestBidQty (book : OrderBook) : Qty := ((book.best .buy).map PriceLevel.quantity).getD .zero

def bestAskPrice (book : OrderBook) : Px := ((book.best .sell).map PriceLevel.price).getD .zero

def bestAskQty (book : OrderBook) : Qty := ((book.best .sell).map PriceLevel.quantity).getD .zero

/-- Quantity resting at an exact price, or zero. -/
def quantityAt (book : OrderBook) (which : Side) (price : Px) : Qty :=
  match (locate (book.side which) which price).2.head? with
  | some level => if level.price = price then level.quantity else .zero
  | none => .zero

end OrderBook

end MmEngine.Book
