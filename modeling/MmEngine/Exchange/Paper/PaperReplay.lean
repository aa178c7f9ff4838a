/-
# Recording a session and replaying it

A session is its configuration, the requests that were made and the market updates that
arrived, each with the time since the session began. A replay drives a fresh venue with
them on a clock of its own and keeps what the venue does as a transcript, which leaves
the stamps of the wall clock out.

The calls of a session emit order events; the transitions of the connection are written
down where the session starts.
-/

import MmEngine.Exchange.Paper.Rebase
import MmEngine.Book.Shape

namespace MmEngine

def RejectReason.toString : RejectReason → String
  | .none => "NONE"
  | .unknown => "UNKNOWN"
  | .insufficientBalance => "INSUFFICIENT_BALANCE"
  | .priceOutOfBounds => "PRICE_OUT_OF_BOUNDS"
  | .quantityOutOfBounds => "QUANTITY_OUT_OF_BOUNDS"
  | .notionalTooSmall => "NOTIONAL_TOO_SMALL"
  | .tickSizeViolation => "TICK_SIZE_VIOLATION"
  | .lotSizeViolation => "LOT_SIZE_VIOLATION"
  | .postOnlyWouldCross => "POST_ONLY_WOULD_CROSS"
  | .duplicateClientOrderId => "DUPLICATE_CLIENT_ORDER_ID"
  | .unknownOrder => "UNKNOWN_ORDER"
  | .rateLimited => "RATE_LIMITED"
  | .marketClosed => "MARKET_CLOSED"
  | .symbolNotTrading => "SYMBOL_NOT_TRADING"
  | .reduceOnlyViolation => "REDUCE_ONLY_VIOLATION"
  | .riskLimitExceeded => "RISK_LIMIT_EXCEEDED"
  | .connectivity => "CONNECTIVITY"
  | .internalError => "INTERNAL_ERROR"

def InlineString.toString {cap : Nat} (text : InlineString cap) : String := String.ofList text.chars

/-- The digits after the decimal point, without the zeros at the end. -/
def fractionDigits (frac : Nat) : List Char :=
  ((((Nat.digits 10 frac).reverse.map Nat.digitChar).leftpad 8 '0').reverse.dropWhile
    fun digit => digit = '0').reverse

/-- A scaled integer in decimal notation. -/
def formatFixedRaw (raw : Int) : String :=
  let scale := Fixed.kScale.toNat
  let digits := fractionDigits (raw.natAbs % scale)
  (if raw < 0 then "-" else "") ++ Nat.repr (raw.natAbs / scale) ++
    (if digits.isEmpty then "" else "." ++ String.ofList digits)

namespace Exchange

def OrderStatus.toString : OrderStatus → String
  | .unknown => "UNKNOWN"
  | .new => "NEW"
  | .partiallyFilled => "PARTIALLY_FILLED"
  | .filled => "FILLED"
  | .canceled => "CANCELED"
  | .rejected => "REJECTED"
  | .expired => "EXPIRED"
  | .pendingCancel => "PENDING_CANCEL"
  | .pendingReplace => "PENDING_REPLACE"

def CancelStatus.toString : CancelStatus → String
  | .unknown => "UNKNOWN"
  | .accepted => "ACCEPTED"
  | .rejected => "REJECTED"
  | .orderNotFound => "ORDER_NOT_FOUND"
  | .tooLate => "TOO_LATE"

end Exchange

end MmEngine

namespace MmEngine.Exchange.Paper

open MmEngine.Book (OrderBook)

def ConnectionState.toString : ConnectionState → String
  | .disconnected => "DISCONNECTED"
  | .connecting => "CONNECTING"
  | .connected => "CONNECTED"
  | .reconnecting => "RECONNECTING"
  | .failed => "FAILED"

/-- The line of an event. No call of a session emits the last kind. -/
def transcribe : ExecutionEvent → String
  | .none => "NONE|"
  | .orderAck ack =>
      "ORDER_ACK|" ++ ack.clientOrderId.toString ++ "|" ++ ack.exchangeOrderId.toString ++ "|" ++
        formatFixedRaw ack.price.raw ++ "|" ++ formatFixedRaw ack.originalQty.raw
  | .orderReject reject =>
      "ORDER_REJECT|" ++ reject.clientOrderId.toString ++ "|" ++ reject.error.reason.toString
  | .orderCancel cancel =>
      "ORDER_CANCEL|" ++ cancel.clientOrderId.toString ++ "|" ++ cancel.cancelStatus.toString ++
        "|" ++ cancel.orderStatus.toString
  | .orderReplace replace =>
      "ORDER_REPLACE|" ++ replace.newClientOrderId.toString ++ "|" ++
        (if replace.accepted then "OK" else "NO") ++ "|" ++ formatFixedRaw replace.newPrice.raw
  | .fill fill =>
      "FILL|" ++ fill.clientOrderId.toString ++ "|" ++ fill.tradeId.toString ++ "|" ++
        formatFixedRaw fill.price.raw ++ "|" ++ formatFixedRaw fill.quantity.raw ++ "|" ++
        formatFixedRaw fill.cumulativeQty.raw
  | .requestFailure failure => "REQUEST_FAILURE|" ++ failure.clientOrderId.toString
  | .other _ => "UNKNOWN|"

/-- The lines of a transition of the connection. -/
def transcribeConnection (v : PaperExecution) (state : ConnectionState) : List String :=
  if state = v.connection then []
  else if v.started then ["CONNECTION||" ++ state.toString]
  else []

/-- The lines of a start. -/
def transcribeStart (v : PaperExecution) : List String :=
  let started := { v with started := true }
  let connecting := (started.setConnection .connecting).2
  transcribeConnection started .connecting ++
    transcribeConnection { connecting with authenticated := true } .connected

/-- A recorded input. -/
inductive Action
  | submit (request : OrderRequest)
  | cancel (request : CancelRequest)
  | replace (request : ReplaceRequest)
  | marketUpdate (symbol : Symbol) (levels : BookLevels) (updateId : Seq64)
  | poll

/-- An input with the time since the session began. -/
structure RecordedAction where
  offsetNs : Nanos
  action : Action

structure RecordedSession where
  config : PaperExecutionConfig
  symbol : Symbol
  /-- The book the session started from. -/
  initialLevels : BookLevels
  initialUpdateId : Seq64
  actions : List RecordedAction := []

namespace SessionRecorder

/-- A recorder before anything happened. -/
def new (config : PaperExecutionConfig) (symbol : Symbol) (initial : BookLevels)
    (initialUpdateId : Seq64) : RecordedSession where
  config := config
  symbol := symbol
  initialLevels := initial
  initialUpdateId := initialUpdateId

variable (session : RecordedSession) (offsetNs : Nanos)

/-- Every recording appends one action. -/
def record (action : Action) : RecordedSession :=
  { session with actions := session.actions ++ [⟨offsetNs, action⟩] }

def recordSubmit (request : OrderRequest) : RecordedSession :=
  record session offsetNs (.submit request)

def recordCancel (request : CancelRequest) : RecordedSession :=
  record session offsetNs (.cancel request)

def recordReplace (request : ReplaceRequest) : RecordedSession :=
  record session offsetNs (.replace request)

def recordMarket (symbol : Symbol) (levels : BookLevels) (updateId : Seq64) : RecordedSession :=
  record session offsetNs (.marketUpdate symbol levels updateId)

def recordPoll : RecordedSession := record session offsetNs .poll

end SessionRecorder

/-- What a run of the venue produced. -/
structure ReplayResult where
  transcript : List String
  finalOrders : List PaperOrder
  metrics : PaperMetrics

/-- Two final orders agree in what is compared of them. -/
def sameFinalOrder (a b : PaperOrder) : Bool :=
  a.exchangeOrderId = b.exchangeOrderId && a.clientOrderId = b.clientOrderId &&
    a.status = b.status && a.price = b.price && a.originalQty = b.originalQty &&
    a.cumulativeQty = b.cumulativeQty && a.arrivalSequence = b.arrivalSequence

def ReplayResult.matches (result other : ReplayResult) : Bool :=
  if result.transcript ≠ other.transcript then false
  else if result.finalOrders.length ≠ other.finalOrders.length then false
  else (result.finalOrders.zip other.finalOrders).all fun pair => sameFinalOrder pair.1 pair.2

/-- An order book that a venue reads. -/
structure VenueBook where
  book : OrderBook
  sound : book.Sound

namespace VenueBook

def new (symbol : Symbol) (maxDepth : Nat) : VenueBook where
  book := OrderBook.new symbol maxDepth
  sound := .clear _

/-- Replaces the image, whatever becomes of it. -/
def load (levels : BookLevels) (updateId : Seq64) (b : VenueBook) : VenueBook where
  book := ((b.book.beginSnapshot.addSnapshotLevels levels).2.finishSnapshot updateId).2
  sound := (b.sound.beginSnapshot.addSnapshotLevels levels).finishSnapshot updateId

/-- A level as the venue reads it. -/
def level (held : Exchange.PriceLevel) : PriceLevel := ⟨held.price, held.quantity⟩

/-- What the venue reads of the book. -/
def view (b : VenueBook) : BookView where
  isValid := b.book.isValid
  bids := b.book.bids.map level
  asks := b.book.asks.map level
  positive := by
    intro shown hshown
    rw [← List.map_append] at hshown
    obtain ⟨held, hheld, rfl⟩ := List.mem_map.mp hshown
    rcases List.mem_append.mp hheld with hbid | hask
    · exact (b.sound.shaped .buy).positive held hbid
    · exact (b.sound.shaped .sell).positive held hask

end VenueBook

/-- A venue, its book and the transcript so far. -/
structure Session where
  venue : PaperExecution
  book : VenueBook
  transcript : List String

namespace Session

/-- A venue is started, given its book, and told about it. -/
def start (venue : PaperExecution) (book : VenueBook) (symbol : Symbol) : Session where
  venue := (venue.start.2.attachBook symbol book.view).onMarketUpdate symbol venue.start.2.clock
  book := book
  transcript := transcribeStart venue

/-- One input. A market update replaces the image in the book that is attached. -/
def perform (attached : Symbol) (action : Action) (s : Session) : Session :=
  match action with
  | .submit request => { s with venue := (s.venue.submit request).2 }
  | .cancel request => { s with venue := (s.venue.cancel request).2 }
  | .replace request => { s with venue := (s.venue.replace request).2 }
  | .marketUpdate symbol levels updateId =>
      let book := s.book.load levels updateId
      { s with
        venue := (s.venue.attachBook attached book.view).onMarketUpdate symbol s.venue.clock
        book := book }
  | .poll =>
      { s with
        venue := s.venue.poll.2
        transcript := s.transcript ++ s.venue.poll.1.map transcribe }

def result (s : Session) : ReplayResult where
  transcript := s.transcript
  finalOrders := s.venue.orders
  metrics := s.venue.metrics

end Session

/-- A replay under way: the session and the offset its clock has come to. -/
structure Replay where
  session : Session
  appliedNs : Nanos

namespace Replay

def step (symbol : Symbol) (r : Replay) (recorded : RecordedAction) : Replay :=
  let moved : Replay :=
    if r.appliedNs < recorded.offsetNs then
      { session :=
          { r.session with
            venue := r.session.venue.advance (recorded.offsetNs - r.appliedNs).toNat }
        appliedNs := recorded.offsetNs }
    else r
  { moved with session := moved.session.perform symbol recorded.action }

/-- The replay of a recorded session on a clock that starts at zero. -/
def run (session : RecordedSession) : Replay :=
  let book := (VenueBook.new session.symbol 32).load session.initialLevels session.initialUpdateId
  session.actions.foldl (step session.symbol)
    { session := .start (.init session.config 0 0) book session.symbol
      appliedNs := 0 }

end Replay

/-- Replays a session against a fresh venue and returns what happened. -/
def replay (session : RecordedSession) : ReplayResult := (Replay.run session).session.result

/-- An input of a session as it happens: how long after the last one, and what the wall
clock reads. -/
structure Timed where
  elapsed : Nat
  wall : Nanos
  action : Action

/-- A session and its recorder. -/
structure Live where
  session : Session
  recorded : RecordedSession

namespace Live

/-- A session starts at some moment, over a book of some depth. -/
def start (config : PaperExecutionConfig) (symbol : Symbol) (depth : Nat) (initial : BookLevels)
    (initialUpdateId : Seq64) (clock wall : Nanos) : Live where
  session := .start (.init config clock wall)
    ((VenueBook.new symbol depth).load initial initialUpdateId) symbol
  recorded := SessionRecorder.new config symbol initial initialUpdateId

/-- Writes down an input. -/
def note (offsetNs : Nanos) (action : Action) (session : RecordedSession) : RecordedSession :=
  match action with
  | .submit request => SessionRecorder.recordSubmit session offsetNs request
  | .cancel request => SessionRecorder.recordCancel session offsetNs request
  | .replace request => SessionRecorder.recordReplace session offsetNs request
  | .marketUpdate symbol levels updateId =>
      SessionRecorder.recordMarket session offsetNs symbol levels updateId
  | .poll => SessionRecorder.recordPoll session offsetNs

/-- Time passes, and an input is performed and recorded. -/
def step (origin : Nanos) (timed : Timed) (live : Live) : Live :=
  let venue := { live.session.venue.advance timed.elapsed with wall := timed.wall }
  { session := { live.session with venue := venue }.perform live.recorded.symbol timed.action
    recorded := note (venue.clock - origin) timed.action live.recorded }

/-- Replaying the recording gives what the session gave. -/
def Reproduces (live : Live) : Prop :=
  (replay live.recorded).matches live.session.result = true

end Live

end MmEngine.Exchange.Paper
