/-
# Instruments and the best quotes

The trading rules of one instrument, and the two best prices the market offers.
The midpoint is the machine's: its sum is a 64-bit one.
-/

import MmEngine.Common.Types

namespace MmEngine

/-- An asset such as a base or quote currency. -/
abbrev Asset := InlineString 12

/-- Tradability as the venue reports it. -/
inductive MarketStatus
  | unknown
  | trading
  | halted
  | auctionOnly
  | delisted
  deriving DecidableEq

/-- The venue's trading rules for one instrument. -/
structure InstrumentSpec where
  symbol : Symbol := .empty
  base : Asset := .empty
  quote : Asset := .empty
  tickSize : Px := .zero
  lotSize : Qty := .zero
  minQty : Qty := .zero
  maxQty : Qty := .zero
  minNotional : Notional := .zero
  priceBandLo : Px := .zero
  priceBandHi : Px := .zero
  status : MarketStatus := .unknown
  deriving DecidableEq

def InstrumentSpec.isValid (spec : InstrumentSpec) : Bool :=
  !spec.symbol.isEmpty && spec.tickSize.isPositive && spec.lotSize.isPositive

/-- True when a value sits on the grid of a step. -/
def isOnStep {tag : FixedTag} (value step : Fixed tag) : Bool :=
  decide (step.raw ≤ 0) || decide (value.raw.tmod step.raw = 0)

/-- The best bid and the best ask, with their sizes. -/
structure BestBidAsk where
  bidPx : Px := .zero
  bidQty : Qty := .zero
  askPx : Px := .zero
  askQty : Qty := .zero
  seq : Seq := kNoSeq
  exchangeNs : Nanos := 0
  deriving DecidableEq

namespace BestBidAsk

def isTwoSided (bbo : BestBidAsk) : Bool := bbo.bidPx.isPositive && bbo.askPx.isPositive

/-- True of a book that is neither crossed nor locked and has size on both sides. -/
def isSane (bbo : BestBidAsk) : Bool :=
  bbo.isTwoSided && decide (bbo.bidPx.raw < bbo.askPx.raw) && bbo.bidQty.isPositive &&
    bbo.askQty.isPositive

/-- The midpoint. The sum wraps before it is halved. -/
def mid (bbo : BestBidAsk) : Px := Fixed.narrow ((bbo.bidPx + bbo.askPx).raw.tdiv 2)

end BestBidAsk

end MmEngine
