/-
# Market data

The session states of a data stream with the one table of legal transitions, and the
events that carry a book: the image of a snapshot and the incremental diff, each of
which may arrive as an ordered run of chunks.

The levels of an event are the valid prefix of its array; a count past the end of the
array is a list longer than the array. Update identifiers are the machine's 64-bit
numbers, so that the successor of the last one is zero, which means that the venue
sent none.
-/

import MmEngine.Common.Types

namespace MmEngine.Exchange

inductive SessionState
  | disconnected
  | connecting
  | connected
  | authenticated
  | subscribed
  | syncing
  | ready
  | stale
  | resyncRequired
  | backoff
  | error
  deriving DecidableEq

namespace SessionState

/-- Only a synchronized session may be quoted against. -/
def isQuotable (state : SessionState) : Bool := state = .ready

/-- The single session machine. Disconnection and errors are reachable from anywhere;
backing off is not a way out of an error. -/
def isLegalTransition (source target : SessionState) : Bool :=
  if source = target then true
  else if target = .disconnected || target = .error then true
  else if target = .backoff then source ≠ .disconnected && source ≠ .error
  else
    match source with
    | .disconnected => target = .connecting
    | .connecting => target = .connected
    | .connected => target = .authenticated || target = .subscribed
    | .authenticated => target = .subscribed
    | .subscribed => target = .syncing
    | .syncing => target = .ready || target = .resyncRequired
    | .ready => target = .stale || target = .resyncRequired
    | .stale => target = .ready || target = .resyncRequired
    | .resyncRequired => target = .syncing
    | .backoff => target = .connecting
    | .error => false

end SessionState

/-- A venue update sequence as the machine holds it. -/
abbrev Seq64 := UInt64

/-- The venue sent no sequence. -/
def kNoSeq64 : Seq64 := 0

namespace Seq64

/-- A successor that is not the absent value is one more. -/
theorem toNat_of_eq_add_one {a b : Seq64} (h : a = b + 1) (hne : a ≠ kNoSeq64) :
    a.toNat = b.toNat + 1 := by
  have hlt := b.toNat_lt
  have hzero : a.toNat ≠ 0 := fun hzero => hne (UInt64.toNat_inj.mp hzero)
  rw [h, UInt64.toNat_add, UInt64.toNat_one] at hzero ⊢
  omega

end Seq64

/-- Levels carried by one event. -/
def kMaxLevelsPerEvent : Nat := 16

/-- A price and what rests at it; a quantity of zero says that the level is gone. -/
@[ext]
structure PriceLevel where
  price : Px
  quantity : Qty
  deriving DecidableEq

structure BookLevels where
  bids : List PriceLevel := []
  asks : List PriceLevel := []
  deriving DecidableEq

/-- The counts of both sides stay within the array. -/
def BookLevels.countsAreSane (levels : BookLevels) : Bool :=
  levels.bids.length ≤ kMaxLevelsPerEvent && levels.asks.length ≤ kMaxLevelsPerEvent

/-- A full book image, or a chunk of one. -/
structure BookSnapshotEvent where
  symbol : Symbol
  /-- The venue sequence this image is current as of. -/
  lastUpdateId : Seq64 := kNoSeq64
  levels : BookLevels := {}
  isFirst : Bool := true
  isLast : Bool := true
  deriving DecidableEq

/-- An incremental depth diff, or a chunk of one. -/
structure BookUpdateEvent where
  symbol : Symbol
  firstUpdateId : Seq64 := kNoSeq64
  finalUpdateId : Seq64 := kNoSeq64
  /-- The final identifier of the message before, where the venue publishes it. -/
  prevFinalUpdateId : Seq64 := kNoSeq64
  levels : BookLevels := {}
  isLast : Bool := true
  deriving DecidableEq

end MmEngine.Exchange
