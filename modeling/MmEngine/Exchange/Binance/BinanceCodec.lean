/-
# Depth updates on the wire

A depth update of the venue carries any number of levels, an event at most the capacity of
its arrays. The decoder turns an oversized update into a run of events with the same
identifiers, the last of which is marked, rather than into a truncated one. Either all
chunks come out or none does.

The numbers of the message are taken as read; the text they are read from is not modelled.
-/

import MmEngine.Exchange.MarketDataEvents

namespace MmEngine.Exchange

/-- What the decoder reads from a depth update. -/
structure DepthUpdate where
  symbol : Symbol
  firstId : Seq64
  finalId : Seq64
  /-- Published by some venues only. -/
  prevFinal : Seq64 := kNoSeq64
  bids : List PriceLevel := []
  asks : List PriceLevel := []
  deriving DecidableEq

namespace BinanceCodec

/-- A zero quantity is a deletion and is legal; a negative one is not, and a non-positive
price never is. -/
def readLevel (level : PriceLevel) : Bool :=
  level.price.isPositive && !level.quantity.isNegative

/-- The next chunk of a side, when all its levels can be read. -/
def fillChunk (cursor : List PriceLevel) : Option (List PriceLevel) :=
  if (cursor.take kMaxLevelsPerEvent).all readLevel then some (cursor.take kMaxLevelsPerEvent)
  else none

/-- The run of chunks from two cursors on. -/
def fillChunks (update : DepthUpdate) (bids asks : List PriceLevel) :
    Option (List BookUpdateEvent) :=
  match fillChunk bids, fillChunk asks with
  | some chunkBids, some chunkAsks =>
      let bids' := bids.drop kMaxLevelsPerEvent
      let asks' := asks.drop kMaxLevelsPerEvent
      let event : BookUpdateEvent :=
        { symbol := update.symbol
          firstUpdateId := update.firstId
          finalUpdateId := update.finalId
          prevFinalUpdateId := update.prevFinal
          levels := { bids := chunkBids, asks := chunkAsks }
          isLast := bids'.isEmpty && asks'.isEmpty }
      if event.isLast then some [event]
      else (fillChunks update bids' asks').map (event :: ·)
  | _, _ => none
termination_by bids.length + asks.length
decreasing_by
  rename_i hmore
  simp only [event, bids', asks', Bool.and_eq_true, List.isEmpty_iff, List.drop_eq_nil_iff] at hmore
  simp only [List.length_drop]
  have hcap : 0 < kMaxLevelsPerEvent := by decide
  omega

/-- The events of a depth update. -/
def decodeDepthUpdate (update : DepthUpdate) : Status × List BookUpdateEvent :=
  if update.symbol.isEmpty then
    (.error .parseError "UNKNOWN_SYMBOL: depthUpdate symbol is empty", [])
  else if update.finalId < update.firstId then
    (.error .parseError "INVALID_SEQUENCE: depthUpdate id range is inverted", [])
  else
    match fillChunks update update.bids update.asks with
    | some events => (.ok, events)
    | none => (.error .parseError "LEVEL_PARSE_FAILED: depthUpdate level is malformed", [])

end BinanceCodec

end MmEngine.Exchange
