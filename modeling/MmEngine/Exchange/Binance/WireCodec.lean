/-
# The venue's messages

What the codec makes of a frame once the JSON library has parsed it: the payload inside
or outside an envelope, the header of a depth update, its levels one by one, and the run
of events they are cut into. Every field is checked before it is read, and whatever goes
wrong leaves the events that were there before.

The library is a parameter, and its values are an inductive type: a non-negative integer
is parsed as an unsigned number, a negative one as a signed number.
-/

import MmEngine.Exchange.Binance.BinanceCodec
import MmEngine.Common.Decimal

namespace MmEngine.Exchange.Wire

/-- A parsed JSON value. The fields of an object are under different names. -/
inductive Json
  | null
  | boolean (value : Bool)
  | numberInteger (value : Int64)
  | numberUnsigned (value : UInt64)
  | numberFloat
  | string (text : String)
  | array (items : List Json)
  | object (fields : List (String × Json))

namespace Json

def isObject : Json → Bool
  | .object _ => true
  | _ => false

/-- The field of an object. -/
def get? : Json → String → Option Json
  | .object fields, name => fields.lookup name
  | _, _ => none

def contains (node : Json) (name : String) : Bool := (node.get? name).isSome

end Json

/-- Times of an event, from the venue to the trading thread. -/
structure EventStamps where
  exchangeNs : Nanos := 0
  recvNs : Nanos := 0
  parseNs : Nanos := 0
  processNs : Nanos := 0
  deriving DecidableEq

structure TradeEvent where
  symbol : Symbol
  price : Px
  quantity : Qty
  /-- The side of the aggressor. -/
  aggressor : Side := .buy
  tradeId : TradeId := .empty
  seq : Seq64 := kNoSeq64
  deriving DecidableEq

inductive MarketDataPayload
  | bookSnapshot (snapshot : BookSnapshotEvent)
  | bookUpdate (update : BookUpdateEvent)
  | trade (trade : TradeEvent)
  deriving DecidableEq

structure MarketDataEvent where
  stamps : EventStamps
  payload : MarketDataPayload
  deriving DecidableEq

/-- Why a frame could not be decoded. -/
inductive DecodeError
  | none
  | notJson
  | notAnObject
  | unknownMessageType
  | missingField
  | invalidNumber
  | invalidSequence
  | unknownSymbol
  | tooLarge
  | levelParseFailed
  deriving DecidableEq

def DecodeError.toString : DecodeError → String
  | .none => "NONE"
  | .notJson => "NOT_JSON"
  | .notAnObject => "NOT_AN_OBJECT"
  | .unknownMessageType => "UNKNOWN_MESSAGE_TYPE"
  | .missingField => "MISSING_FIELD"
  | .invalidNumber => "INVALID_NUMBER"
  | .invalidSequence => "INVALID_SEQUENCE"
  | .unknownSymbol => "UNKNOWN_SYMBOL"
  | .tooLarge => "TOO_LARGE"
  | .levelParseFailed => "LEVEL_PARSE_FAILED"

/-- What a decode leaves: its status, the classification of its error, the events. -/
structure Decoded where
  status : Status
  lastError : DecodeError
  out : List MarketDataEvent

def fail (error : DecodeError) (detail : String) (out : List MarketDataEvent) : Decoded where
  status := .error .parseError
    (if detail.isEmpty then error.toString else error.toString ++ ": " ++ detail)
  lastError := error
  out := out

def succeed (out : List MarketDataEvent) : Decoded := ⟨.ok, .none, out⟩

/-- Prices and quantities are decimal strings. -/
def parseDecimal {tag : FixedTag} : Json → Option (Fixed tag)
  | .string text => (Decimal.parseFixedRaw text.toList).bind Fixed.fromRaw?
  | _ => none

def readSeq : Json → Option Seq64
  | .numberUnsigned value => some value
  | .numberInteger value => if value < 0 then none else some value.toUInt64
  | _ => none

/-- Milliseconds as nanoseconds, in 64 bits. -/
def readMillisAsNanos : Json → Option Nanos
  | .numberUnsigned value => millis value.toInt64
  | .numberInteger value => millis value
  | _ => none
where
  millis (ms : Int64) : Option Nanos :=
    if ms < 0 then none else some (ms * 1000000).toInt

/-- A field that is read when it is there, and left at its default otherwise. -/
def optional {α : Type} (node : Json) (name : String) (read : Json → Option α) (default : α) : α :=
  ((node.get? name).bind read).getD default

/-- One `["price","qty"]` pair. A zero quantity is a deletion and is legal; a negative
one is not, and a non-positive price never is. -/
def readLevel : Json → Option PriceLevel
  | .array (first :: second :: _) => do
      let price ← parseDecimal first
      let quantity ← parseDecimal second
      if price.isPositive && !quantity.isNegative then some ⟨price, quantity⟩ else none
  | _ => none

/-- The venue's spelling of a symbol, in upper case and as far as it fits. -/
def fromVenueSymbol (name : String) : Symbol :=
  (InlineString.assign (name.toList.map Char.toUpper)).1

/-- Copies levels from a cursor while there is room, and returns the cursor behind them. -/
def fillChunk : Nat → List Json → Option (List PriceLevel × List Json)
  | room + 1, node :: cursor => do
      let level ← readLevel node
      let (levels, rest) ← fillChunk room cursor
      some (level :: levels, rest)
  | _, cursor => some ([], cursor)

theorem fillChunk_length {room : Nat} {cursor rest : List Json} {levels : List PriceLevel}
    (h : fillChunk room cursor = some (levels, rest)) : rest = cursor.drop room := by
  induction room generalizing cursor levels with
  | zero =>
      cases h
      rfl
  | succ room ih =>
      cases cursor with
      | nil =>
          cases h
          rfl
      | cons node cursor =>
          rw [fillChunk] at h
          obtain ⟨_, _, h⟩ := Option.bind_eq_some_iff.mp h
          obtain ⟨⟨_, _⟩, hfill, h⟩ := Option.bind_eq_some_iff.mp h
          cases h
          exact ih hfill

section Loop

variable (build : Bool → Bool → BookLevels → Nanos → MarketDataEvent) (steadyNs : Nat → Nanos)

/-- The loop over both cursors: one event for each pass, the last of them marked. A level
that cannot be read takes back the events of this message. -/
def chunkLoop (before : Nat) (first : Bool) (reading : Nat) (bids asks : List Json)
    (out : List MarketDataEvent) : Bool × List MarketDataEvent :=
  match _ : fillChunk kMaxLevelsPerEvent bids, _ : fillChunk kMaxLevelsPerEvent asks with
  | some (chunkBids, bids'), some (chunkAsks, asks') =>
      let isLast := bids'.isEmpty && asks'.isEmpty
      let event := build first isLast { bids := chunkBids, asks := chunkAsks } (steadyNs reading)
      if isLast then (true, out ++ [event])
      else chunkLoop before false (reading + 1) bids' asks' (out ++ [event])
  | _, _ => (false, out.take before)
termination_by bids.length + asks.length
decreasing_by
  rename_i hbids hasks hmore
  simp only [isLast, fillChunk_length hbids, fillChunk_length hasks, Bool.and_eq_true,
    List.isEmpty_iff, List.drop_eq_nil_iff] at hmore
  simp only [fillChunk_length hbids, fillChunk_length hasks, List.length_drop]
  have hcap : 0 < kMaxLevelsPerEvent := by decide
  omega

end Loop

/-! ## Messages -/

/-- Largest frame that is looked at. -/
def kMaxFrameBytes : Nat := 4 * 1024 * 1024

/-- What a depth update says besides its levels. -/
structure DepthHeader where
  symbol : Symbol
  firstId : Seq64
  finalId : Seq64
  prevFinal : Seq64
  exchangeNs : Nanos
  deriving DecidableEq

/-- The payload of a frame, in the envelope of a combined stream or bare. -/
def payloadOf (root : Json) : Json :=
  match root.get? "data" with
  | some data => if data.isObject then data else root
  | none => root

/-- The checked fields of a depth update. -/
def readDepthHeader (payload : Json) : Except (DecodeError × String) DepthHeader :=
  match payload.get? "s" with
  | some (.string name) =>
      if (fromVenueSymbol name).isEmpty then .error (.unknownSymbol, "depthUpdate symbol is empty")
      else
        match (payload.get? "U").bind readSeq with
        | none => .error (.invalidSequence, "depthUpdate has no valid first update id")
        | some firstId =>
            match (payload.get? "u").bind readSeq with
            | none => .error (.invalidSequence, "depthUpdate has no valid final update id")
            | some finalId =>
                if finalId < firstId then
                  .error (.invalidSequence, "depthUpdate id range is inverted")
                else
                  .ok
                    { symbol := fromVenueSymbol name
                      firstId := firstId
                      finalId := finalId
                      prevFinal := optional payload "pu" readSeq kNoSeq64
                      exchangeNs := optional payload "E" readMillisAsNanos 0 }
  | _ => .error (.missingField, "depthUpdate has no symbol")

/-- The levels of a side: none when the field is absent, and nothing else than an array. -/
def levelNodes (payload : Json) (name : String) : Option (List Json) :=
  match payload.get? name with
  | none => some []
  | some (.array nodes) => some nodes
  | some _ => none

/-- An event of a depth update. -/
def updateEvent (header : DepthHeader) (recvNs : Nanos) (_first isLast : Bool)
    (levels : BookLevels) (parseNs : Nanos) : MarketDataEvent where
  stamps := { exchangeNs := header.exchangeNs, recvNs := recvNs, parseNs := parseNs }
  payload := .bookUpdate
    { symbol := header.symbol
      firstUpdateId := header.firstId
      finalUpdateId := header.finalId
      prevFinalUpdateId := header.prevFinal
      levels := levels
      isLast := isLast }

/-- An event of a depth snapshot. -/
def snapshotEvent (symbol : Symbol) (lastUpdateId : Seq64) (recvNs : Nanos) (first isLast : Bool)
    (levels : BookLevels) (parseNs : Nanos) : MarketDataEvent where
  stamps := { exchangeNs := 0, recvNs := recvNs, parseNs := parseNs }
  payload := .bookSnapshot
    { symbol := symbol
      lastUpdateId := lastUpdateId
      levels := levels
      isFirst := first
      isLast := isLast }

section Decode

variable (parse : List Char → Option Json) (steadyNs : Nat → Nanos)

def decodeDepthUpdate (payload : Json) (recvNs : Nanos) (out : List MarketDataEvent) : Decoded :=
  match readDepthHeader payload with
  | .error (error, detail) => fail error detail out
  | .ok header =>
      match levelNodes payload "b", levelNodes payload "a" with
      | some bids, some asks =>
          match chunkLoop (updateEvent header recvNs) steadyNs out.length true 0 bids asks out with
          | (true, out) => succeed out
          | (false, out) => fail .levelParseFailed "depthUpdate level is malformed" out
      | _, _ => fail .missingField "depthUpdate levels are not arrays" out

def decodeTrade (payload : Json) (recvNs : Nanos) (out : List MarketDataEvent) : Decoded :=
  match payload.get? "s" with
  | some (.string name) =>
      match (payload.get? "p").bind parseDecimal with
      | none => fail .invalidNumber "trade price is not an exact decimal" out
      | some (price : Px) =>
          match (payload.get? "q").bind parseDecimal with
          | none => fail .invalidNumber "trade quantity is not an exact decimal" out
          | some (quantity : Qty) =>
              if !price.isPositive || !quantity.isPositive then
                fail .invalidNumber "trade price/quantity must be positive" out
              else
                let buyerIsMaker := match payload.get? "m" with
                  | some (.boolean value) => value
                  | _ => false
                let trade : TradeEvent :=
                  { symbol := fromVenueSymbol name
                    price := price
                    quantity := quantity
                    -- The buyer was the maker, so it was the seller who took.
                    aggressor := if buyerIsMaker then .sell else .buy }
                let trade := match (payload.get? "t").bind readSeq with
                  | some seq =>
                      { trade with
                        seq := seq
                        tradeId := (InlineString.assign
                          ((Numeral.digits 10 seq.toNat).map Nat.digitChar)).1 }
                  | none => trade
                let exchangeNs :=
                  if payload.contains "T" then optional payload "T" readMillisAsNanos 0
                  else optional payload "E" readMillisAsNanos 0
                succeed (out ++
                  [{ stamps :=
                      { exchangeNs := exchangeNs, recvNs := recvNs, parseNs := steadyNs 0 }
                     payload := .trade trade }])
  | _ => fail .missingField "trade has no symbol" out

/-- Decodes one frame of a stream. -/
def decodeStreamFrame (frame : List Char) (recvNs : Nanos) (out : List MarketDataEvent) :
    Decoded :=
  if kMaxFrameBytes < frame.length then fail .tooLarge "frame exceeds the decode limit" out
  else
    match parse frame with
    | none => fail .notJson "frame is not valid JSON" out
    | some root =>
        if !root.isObject then fail .notAnObject "frame is not a JSON object" out
        else
          match (payloadOf root).get? "e" with
          | some (.string eventType) =>
              if eventType = "depthUpdate" then
                decodeDepthUpdate steadyNs (payloadOf root) recvNs out
              else if eventType = "trade" then decodeTrade steadyNs (payloadOf root) recvNs out
              else fail .unknownMessageType eventType out
          | _ =>
              -- Acknowledgements of a subscription are expected, not corrupt.
              if root.contains "result" || root.contains "id" then succeed out
              else fail .unknownMessageType "payload has no event type" out

/-- Decodes a depth snapshot; its symbol is the caller's. -/
def decodeDepthSnapshot (body : List Char) (symbol : Symbol) (recvNs : Nanos)
    (out : List MarketDataEvent) : Decoded :=
  if kMaxFrameBytes < body.length then fail .tooLarge "snapshot exceeds the decode limit" out
  else
    match parse body with
    | none => fail .notJson "snapshot is not valid JSON" out
    | some root =>
        if !root.isObject then fail .notAnObject "snapshot is not a JSON object" out
        else if root.contains "code" && root.contains "msg" then
          fail .missingField "snapshot request was refused by the venue" out
        else
          match (root.get? "lastUpdateId").bind readSeq with
          | none => fail .invalidSequence "snapshot has no valid lastUpdateId" out
          | some lastUpdateId =>
              match root.get? "bids", root.get? "asks" with
              | some (.array bids), some (.array asks) =>
                  match chunkLoop (snapshotEvent symbol lastUpdateId recvNs) steadyNs out.length
                      true 0 bids asks out with
                  | (true, out) => succeed out
                  | (false, out) => fail .levelParseFailed "snapshot level is malformed" out
              | _, _ => fail .missingField "snapshot has no bid/ask arrays" out

end Decode

end MmEngine.Exchange.Wire
