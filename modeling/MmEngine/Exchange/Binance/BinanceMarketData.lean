/-
# The market data adapter

One adapter keeps a synchronized book for each symbol it is subscribed to. Everything the
venue sends arrives on one thread: changes of the connection, frames of the stream, answers
to requests, and the ticks of a timer. Each of them is a step here, and so is what other
threads ask for: they leave tasks behind, which the thread takes in order.

For its readers the adapter publishes, per symbol, the state of the session and a view of
the best levels. A view is stored in a snapshot lock; the views stored so far are kept here
in order. What the sink was handed, what was sent and which requests are open are kept as
well. The library that parses frames and the readings of the steady clock are parameters.
-/

import MmEngine.Book.SessionReports
import MmEngine.Exchange.Binance.InstrumentDecoding

namespace MmEngine.Exchange

open Book Wire

inductive ConnectionState
  | disconnected
  | connecting
  | connected
  | reconnecting
  | failed
  deriving DecidableEq

structure SubscriptionRequest where
  symbol : Symbol
  wantDepth : Bool := true
  wantTrades : Bool := true
  depthLevels : Nat := 50

/-- Levels of a side that are published. -/
def kPublishedDepth : Nat := 10

/-- A picture of one symbol that readers copy out. -/
structure BookView where
  symbol : Symbol := .empty
  state : SessionState := .disconnected
  lastUpdateId : Seq64 := kNoSeq64
  exchangeNs : Nanos := 0
  recvNs : Nanos := 0
  bids : List PriceLevel := []
  asks : List PriceLevel := []
  length_bids : bids.length ≤ kPublishedDepth := by decide
  length_asks : asks.length ≤ kPublishedDepth := by decide
  deriving DecidableEq

namespace BookView

def isQuotable (view : BookView) : Bool := view.state.isQuotable

def bbo (view : BookView) : BestBidAsk where
  bidPx := (view.bids.head?.map PriceLevel.price).getD .zero
  bidQty := (view.bids.head?.map PriceLevel.quantity).getD .zero
  askPx := (view.asks.head?.map PriceLevel.price).getD .zero
  askQty := (view.asks.head?.map PriceLevel.quantity).getD .zero
  seq := view.lastUpdateId.toNat
  exchangeNs := view.exchangeNs

end BookView

/-- The state of one symbol. -/
structure SymbolState where
  symbol : Symbol
  request : SubscriptionRequest
  sync : BookSynchronizer
  publishedState : SessionState := .disconnected
  publishedDataNs : Nanos := 0
  hasData : Bool := false
  /-- The views stored, in order. -/
  views : List BookView := []
  active : Bool := true

/-- What the sink is handed. -/
inductive SinkEvent
  | market (event : MarketDataEvent)
  | instrument (event : InstrumentUpdateEvent)
  | session (symbol : Symbol) (source target : SessionState) (reason : InlineString 64)
      (now : Nanos)
  | connection (source target : ConnectionState) (reconnectCount : Nat)
      (detail : InlineString 128) (now : Nanos)

/-- Work that other threads leave for the adapter's own. -/
inductive Task
  | connect
  | subscribe (slot : Nat)
  | snapshot (symbol : Symbol)
  | instruments

/-- A request that is open, with what its answer will be used for. -/
inductive RestRequest
  | snapshot (slot : Nat) (target : List Char)
  | instruments (wanted : List Symbol) (target : List Char)

structure MarketDataConfig where
  depthUpdateMs : Int := 100
  snapshotLimit : Int := 1000
  wantTrades : Bool := true
  sync : SyncConfig := {}

structure BinanceMarketData where
  config : MarketDataConfig := {}
  running : Bool := false
  /-- A sink is attached. -/
  sink : Bool := false
  symbols : List SymbolState := []
  connection : ConnectionState := .disconnected
  /-- The target of the stream, set when the adapter is started. -/
  target : List Char := []
  decodeErrors : Nat := 0
  eventsPublished : Nat := 0
  snapshotRequests : Nat := 0
  snapshotFailures : Nat := 0
  instrumentsLoaded : Nat := 0
  instrumentFailures : Nat := 0
  subscribeId : Nat := 1
  tasks : List Task := []
  openRequests : List RestRequest := []
  handed : List SinkEvent := []
  sent : List (List Char) := []
  /-- Readings of the clock so far. -/
  reads : Nat := 0

namespace BinanceMarketData

def kMaxSymbols : Nat := 32

/-- The slot of an active symbol. -/
def find (a : BinanceMarketData) (symbol : Symbol) : Option Nat :=
  a.symbols.findIdx? fun slot => slot.active && slot.symbol = symbol

/-- The adapter with one slot changed. -/
def modifySlot (a : BinanceMarketData) (slot : Nat) (f : SymbolState → SymbolState) :
    BinanceMarketData :=
  { a with symbols := a.symbols.modify slot f }

def toStreamSymbol (symbol : Symbol) : List Char := symbol.chars.map Char.toLower

def toRestSymbol (symbol : Symbol) : List Char := symbol.chars.map Char.toUpper

def depthStreamName (symbol : Symbol) (updateIntervalMs : Int) : List Char :=
  toStreamSymbol symbol ++ "@depth".toList ++
    if updateIntervalMs = 100 then "@100ms".toList else []

def tradeStreamName (symbol : Symbol) : List Char := toStreamSymbol symbol ++ "@trade".toList

def streamNamesFor (config : MarketDataConfig) (request : SubscriptionRequest) :
    List (List Char) :=
  (if request.wantDepth then [depthStreamName request.symbol config.depthUpdateMs] else []) ++
    if request.wantTrades && config.wantTrades then [tradeStreamName request.symbol] else []

/-- The streams of all active symbols; nothing when there are none. -/
def buildStreamPath (a : BinanceMarketData) : List Char :=
  let names := ((a.symbols.filter SymbolState.active).map
    fun slot => streamNamesFor a.config slot.request).flatten
  if names.isEmpty then []
  else "/stream?streams=".toList ++ (names.intersperse "/".toList).flatten

/-! ## Publishing -/

section Publish

variable (clock : Nat → Nanos)

def emit (event : SinkEvent) (a : BinanceMarketData) : BinanceMarketData :=
  if a.sink then
    { a with eventsPublished := a.eventsPublished + 1, handed := a.handed ++ [event] }
  else a

def emitSessionEvent (symbol : Symbol) (change : StateChange) (a : BinanceMarketData) :
    BinanceMarketData :=
  emit
    (.session symbol change.source change.target (InlineString.assign change.reason.toList).1
      (clock a.reads))
    { a with reads := a.reads + 1 }

def emitConnectionEvent (source target : ConnectionState) (reconnectCount : Nat)
    (reason : String) (a : BinanceMarketData) : BinanceMarketData :=
  emit
    (.connection source target reconnectCount (InlineString.assign reason.toList).1
      (clock a.reads))
    { a with reads := a.reads + 1 }

/-- The view of a session as it stands. Only a synchronized book is shown with levels. -/
def viewOf (slot : SymbolState) (session : BookSynchronizer) : BookView where
  symbol := slot.symbol
  state := session.state
  lastUpdateId := session.book.lastUpdateId
  recvNs := slot.publishedDataNs
  bids := if session.state.isQuotable then session.book.bids.take kPublishedDepth else []
  asks := if session.state.isQuotable then session.book.asks.take kPublishedDepth else []
  length_bids := by
    split
    · exact List.length_take_le _ _
    · exact Nat.zero_le _
  length_asks := by
    split
    · exact List.length_take_le _ _
    · exact Nat.zero_le _

/-- The slot with a view of its session stored. -/
def withView (state : SymbolState) : SymbolState :=
  { state with views := state.views ++ [viewOf state state.sync] }

def publishView (slot : Nat) (a : BinanceMarketData) : BinanceMarketData :=
  a.modifySlot slot withView

/-- The callback of a change, in the session `found` that made it. -/
def onStateChange (slot : Nat) (a : BinanceMarketData) (found : BookSynchronizer) :
    BinanceMarketData :=
  match found.changes.getLast?, a.symbols[slot]? with
  | some change, some state =>
      (emitSessionEvent clock state.symbol change
        (a.modifySlot slot fun state =>
          { state with publishedState := change.target })).modifySlot slot fun state =>
            { state with views := state.views ++ [viewOf state found] }
  | _, _ => a

/-- A call of the session in a slot, with the callbacks that it makes. -/
def callSync (slot : Nat) (op : BookSynchronizer.Op) (a : BinanceMarketData) : BinanceMarketData :=
  match a.symbols[slot]? with
  | none => a
  | some state =>
      let event : BookSynchronizer.Event := ⟨clock a.reads, op⟩
      (BookSynchronizer.trail event state.sync).foldl (onStateChange clock slot)
        { a.modifySlot slot fun state =>
            { state with sync := BookSynchronizer.step event state.sync } with
          reads := a.reads + 1 }

/-- One handler applied to every active slot in turn. -/
def forActive (handle : Nat → BinanceMarketData → BinanceMarketData) (a : BinanceMarketData) :
    BinanceMarketData :=
  (List.range a.symbols.length).foldl
    (fun a slot =>
      if (a.symbols[slot]?.map SymbolState.active).getD false then handle slot a else a)
    a

/-- The decimal digits of a limit. -/
def limitText (limit : Int) : List Char := (toString limit).toList

def issueSnapshot (slot : Nat) (a : BinanceMarketData) : BinanceMarketData :=
  match a.symbols[slot]? with
  | none => a
  | some state =>
      let target := "/api/v3/depth?symbol=".toList ++ toRestSymbol state.symbol ++
        "&limit=".toList ++ limitText a.config.snapshotLimit
      let a := callSync clock slot .snapshotRequested a
      { a with
        snapshotRequests := a.snapshotRequests + 1
        openRequests := a.openRequests ++ [.snapshot slot target] }

/-- The rules of the active symbols are asked for, or of all there are without any. -/
def issueExchangeInfo (a : BinanceMarketData) : BinanceMarketData :=
  let wanted := (a.symbols.filter SymbolState.active).map SymbolState.symbol
  let path := "/api/v3/exchangeInfo".toList
  let target := match wanted with
    | [] => path
    | [symbol] => path ++ "?symbol=".toList ++ toRestSymbol symbol
    | symbols =>
        path ++ "?symbols=%5B".toList ++
          ((symbols.map fun symbol =>
            "%22".toList ++ toRestSymbol symbol ++ "%22".toList).intersperse ",".toList).flatten ++
          "%5D".toList
  { a with openRequests := a.openRequests ++ [.instruments wanted target] }

end Publish

section Thread

variable (parse : List Char → Option Json) (clock : Nat → Nanos)

/-- What a change of the connection means for a session. The stream subscribes by its
target, so that a connection is a subscription as well. -/
def connectionOps (state : ConnectionState) (reason : String) : List BookSynchronizer.Op :=
  match state with
  | .connected => [.connected, .subscribed]
  | .connecting => [.connecting]
  | .reconnecting => [.disconnected reason, .connecting, .backoff reason]
  | .failed => [.fatal reason]
  | .disconnected => [.disconnected reason]

def onWsState (state : ConnectionState) (reason : String) (reconnectCount : Nat)
    (a : BinanceMarketData) : BinanceMarketData :=
  forActive
    (fun slot a => publishView slot
      ((connectionOps state reason).foldl (fun a op => callSync clock slot op a) a))
    (emitConnectionEvent clock a.connection state reconnectCount reason
      { a with connection := state })

/-- The symbol of a decoded event. -/
def eventSymbol (event : MarketDataEvent) : Symbol :=
  match event.payload with
  | .bookSnapshot snapshot => snapshot.symbol
  | .bookUpdate update => update.symbol
  | .trade trade => trade.symbol

/-- The slot once it has received data. -/
def withData (recvNs : Nanos) (state : SymbolState) : SymbolState :=
  { state with publishedDataNs := recvNs, hasData := true }

def noteData (slot : Nat) (recvNs : Nanos) (a : BinanceMarketData) : BinanceMarketData :=
  a.modifySlot slot (withData recvNs)

/-- One event of a frame, for the symbol it is about and for the sink. -/
def onStreamEvent (a : BinanceMarketData) (event : MarketDataEvent) : BinanceMarketData :=
  emit (.market event)
    (match a.find (eventSymbol event) with
    | none => a
    | some slot =>
        match event.payload with
        | .bookUpdate update =>
            publishView slot
              (noteData slot event.stamps.recvNs (callSync clock slot (.update update) a))
        | .trade _ => noteData slot event.stamps.recvNs a
        | .bookSnapshot _ => a)

def onWsFrame (frame : List Char) (recvNs : Nanos) (a : BinanceMarketData) : BinanceMarketData :=
  let decoded := decodeStreamFrame parse (fun k => clock (a.reads + k)) frame recvNs []
  let a := { a with reads := a.reads + decoded.out.length }
  match decoded.status with
  | .error _ message =>
      -- Nobody can tell whose frame it was.
      forActive (fun slot a => callSync clock slot (.protocolError message) a)
        { a with decodeErrors := a.decodeErrors + 1 }
  | .ok => decoded.out.foldl (onStreamEvent clock) a

/-- A tick of the timer. -/
def onTimer (a : BinanceMarketData) : BinanceMarketData :=
  forActive
    (fun slot a =>
      let a := callSync clock slot .timer a
      let now := clock a.reads
      let a := { a with reads := a.reads + 1 }
      if (a.symbols[slot]?.map fun state => state.sync.wantsSnapshot now).getD false then
        issueSnapshot clock slot a
      else a)
    a

/-- One chunk of an image. The sink gets it whether or not the session could use it. -/
def onSnapshotEvent (slot : Nat) (a : BinanceMarketData) (event : MarketDataEvent) :
    BinanceMarketData :=
  emit (.market event)
    (match event.payload with
    | .bookSnapshot snapshot => callSync clock slot (.snapshot snapshot) a
    | .bookUpdate _ | .trade _ => a)

/-- The answer to a request for an image. -/
def onSnapshotReply (slot : Nat) (result : Except String (List Char)) (a : BinanceMarketData) :
    BinanceMarketData :=
  match result, a.symbols[slot]? with
  | _, none => a
  | .error message, some _ =>
      callSync clock slot (.snapshotFailed message)
        { a with snapshotFailures := a.snapshotFailures + 1 }
  | .ok body, some state =>
      let decoded := decodeDepthSnapshot parse (fun k => clock (a.reads + 1 + k)) body
        state.symbol (clock a.reads) []
      let a := { a with reads := a.reads + 1 + decoded.out.length }
      match decoded.status with
      | .error _ message =>
          callSync clock slot (.snapshotFailed message)
            (callSync clock slot (.protocolError message)
              { a with
                decodeErrors := a.decodeErrors + 1
                snapshotFailures := a.snapshotFailures + 1 })
      | .ok => publishView slot (decoded.out.foldl (onSnapshotEvent clock slot) a)

/-- The answer to a request for trading rules. -/
def onInstrumentsReply (wanted : List Symbol) (result : Except String (List Char))
    (a : BinanceMarketData) : BinanceMarketData :=
  match result with
  | .error _ => { a with instrumentFailures := a.instrumentFailures + 1 }
  | .ok body =>
      let decoded := decodeExchangeInfo parse (fun k => clock (a.reads + 1 + k)) body wanted
        (clock a.reads) []
      let a := { a with reads := a.reads + 1 + decoded.out.length }
      match decoded.status with
      | .error _ _ =>
          { a with
            decodeErrors := a.decodeErrors + 1
            instrumentFailures := a.instrumentFailures + 1 }
      | .ok =>
          let a :=
            if decoded.out.isEmpty then { a with instrumentFailures := a.instrumentFailures + 1 }
            else a
          decoded.out.foldl
            (fun a event =>
              emit (.instrument event) { a with instrumentsLoaded := a.instrumentsLoaded + 1 })
            a

/-- An open request is answered, once. -/
def onReply (index : Nat) (result : Except String (List Char)) (a : BinanceMarketData) :
    BinanceMarketData :=
  match a.openRequests[index]? with
  | none => a
  | some request =>
      let a := { a with openRequests := a.openRequests.eraseIdx index }
      match request with
      | .snapshot slot _ => onSnapshotReply parse clock slot result a
      | .instruments wanted _ => onInstrumentsReply parse clock wanted result a

/-- The subscription of a slot on a connection that is up. -/
def sendSubscribe (slot : Nat) (accepted : Bool) (a : BinanceMarketData) : BinanceMarketData :=
  match a.symbols[slot]? with
  | none => a
  | some state =>
      if a.connection ≠ .connected then a
      else
        let quoted := (streamNamesFor a.config state.request).map fun name =>
          "\"".toList ++ name ++ "\"".toList
        let payload := "\x7b\"method\":\"SUBSCRIBE\",\"params\":[".toList ++
          (quoted.intersperse ",".toList).flatten ++ "],\"id\":".toList ++
          (toString a.subscribeId).toList ++ "\x7d".toList
        let a := { a with subscribeId := a.subscribeId + 1, sent := a.sent ++ [payload] }
        if accepted then
          callSync clock slot .subscribed (callSync clock slot .connected a)
        else a

/-- The next task in the queue; `accepted` says whether the socket takes what is sent. -/
def runTask (accepted : Bool) (a : BinanceMarketData) : BinanceMarketData :=
  match a.tasks with
  | [] => a
  | task :: tasks =>
      let a := { a with tasks := tasks }
      match task with
      | .connect | .instruments => issueExchangeInfo a
      | .subscribe slot => sendSubscribe clock slot accepted a
      | .snapshot symbol =>
          match a.find symbol with
          | none => a
          | some slot => issueSnapshot clock slot a

end Thread

/-- Starts the adapter; `tls` is what setting up the transport comes to. -/
def start (tls : Status) (a : BinanceMarketData) : Status × BinanceMarketData :=
  if a.running then (.error .alreadyExists "adapter already started", a)
  else
    let a := { a with sink := true }
    if tls.isError then (tls, a)
    else
      let path := buildStreamPath a
      (.ok,
        { a with
          running := true
          -- Subscriptions may still come, and the venue refuses an empty target.
          target := if path.isEmpty then "/stream?streams=".toList else path
          tasks := [.connect] })

/-- Once the thread has ended nothing of its work is left. -/
def stop (a : BinanceMarketData) : BinanceMarketData :=
  if !a.running then a
  else
    { a with
      running := false
      sink := false
      connection := .disconnected
      tasks := []
      openRequests := [] }

/-- The configuration of a session that is subscribed to. -/
def syncConfigFor (config : MarketDataConfig) (request : SubscriptionRequest) : SyncConfig :=
  if 0 < request.depthLevels then { config.sync with maxDepth := request.depthLevels }
  else config.sync

def subscribe (request : SubscriptionRequest) (a : BinanceMarketData) :
    Status × BinanceMarketData :=
  if request.symbol.isEmpty then (.error .invalidArgument "subscription has no symbol", a)
  else if a.symbols.any fun slot => slot.symbol = request.symbol then
    (.error .alreadyExists "already subscribed", a)
  else if kMaxSymbols ≤ a.symbols.length then (.error .outOfRange "symbol capacity reached", a)
  else
    let slot : SymbolState :=
      { symbol := request.symbol
        request := request
        sync := BookSynchronizer.new request.symbol (syncConfigFor a.config request) }
    (.ok,
      { a with
        symbols := a.symbols ++ [slot]
        -- Before the start a subscription is part of the target.
        tasks := if a.running then a.tasks ++ [.subscribe a.symbols.length] else a.tasks })

def unsubscribe (symbol : Symbol) (a : BinanceMarketData) : Status × BinanceMarketData :=
  match a.find symbol with
  | none => (.error .notFound "not subscribed", a)
  | some slot =>
      (.ok,
        a.modifySlot slot fun state =>
          { state with active := false, publishedState := .disconnected })

def requestSnapshot (symbol : Symbol) (a : BinanceMarketData) : Status × BinanceMarketData :=
  if !a.running then (.error .failedPrecondition "adapter not started", a)
  else (.ok, { a with tasks := a.tasks ++ [.snapshot symbol] })

def requestInstruments (a : BinanceMarketData) : Status × BinanceMarketData :=
  if !a.running then (.error .failedPrecondition "adapter not started", a)
  else (.ok, { a with tasks := a.tasks ++ [.instruments] })

def sessionState (symbol : Symbol) (a : BinanceMarketData) : SessionState :=
  match (a.find symbol).bind fun slot => a.symbols[slot]? with
  | none => .disconnected
  | some state => state.publishedState

/-- The age of the last data; never having received any is the greatest age there is. -/
def dataAgeNs (symbol : Symbol) (now : Nanos) (a : BinanceMarketData) : Nanos :=
  match (a.find symbol).bind fun slot => a.symbols[slot]? with
  | none => rawMax
  | some state => if state.hasData then now - state.publishedDataNs else rawMax

/-- What can happen to the adapter. -/
inductive Op
  | start (tls : Status)
  | stop
  | subscribe (request : SubscriptionRequest)
  | unsubscribe (symbol : Symbol)
  | requestSnapshot (symbol : Symbol)
  | requestInstruments
  | task (accepted : Bool)
  | wsState (state : ConnectionState) (reason : String) (reconnectCount : Nat)
  | wsFrame (frame : List Char) (recvNs : Nanos)
  | timer
  | reply (index : Nat) (result : Except String (List Char))

section Machine

variable (parse : List Char → Option Json) (clock : Nat → Nanos)

/-- One step. The thread of the adapter is there only while it runs. -/
def step (op : Op) (a : BinanceMarketData) : BinanceMarketData :=
  match op with
  | .start tls => (a.start tls).2
  | .stop => a.stop
  | .subscribe request => (a.subscribe request).2
  | .unsubscribe symbol => (a.unsubscribe symbol).2
  | .requestSnapshot symbol => (a.requestSnapshot symbol).2
  | .requestInstruments => a.requestInstruments.2
  | .task accepted => if a.running then runTask clock accepted a else a
  | .wsState state reason count => if a.running then onWsState clock state reason count a else a
  | .wsFrame frame recvNs => if a.running then onWsFrame parse clock frame recvNs a else a
  | .timer => if a.running then onTimer clock a else a
  | .reply index result => if a.running then onReply parse clock index result a else a

end Machine

end BinanceMarketData

end MmEngine.Exchange
