/-
# Snapshot and delta synchronization

The component that decides whether a book may be quoted against. It owns the session of
one symbol: updates are buffered until a snapshot says where the stream starts, the
buffer is reconciled with the image, and from then on every update must continue exactly
where the last one ended. Whatever breaks this discards the book.

Every call is handed the reading of the steady clock it makes. The callback of a state
change is a list of the changes reported so far.
-/

import MmEngine.Book.OrderBook

namespace MmEngine.Book

open MmEngine.Exchange

/-- Why a synchronization attempt failed. -/
inductive SyncFailure
  | none
  | sequenceGap
  | staleSnapshot
  | bufferOverflow
  | crossedBook
  | invalidUpdate
  | dataStale
  | disconnected
  | protocolErrorBudget
  | snapshotRetryBudget
  deriving DecidableEq

structure SyncConfig where
  /-- Data older than this makes the session stale. -/
  maxDataAgeNs : Nanos := 500000000
  /-- Minimum gap between snapshot requests. -/
  snapshotRetryDelayNs : Nanos := 500000000
  /-- Consecutive snapshot attempts before giving up. -/
  maxSnapshotRetries : Int := 5
  /-- Updates buffered while waiting for a snapshot. -/
  maxBufferedUpdates : Nat := 256
  /-- Malformed messages tolerated before the session is declared broken. -/
  maxProtocolErrors : Int := 20
  maxDepth : Nat := OrderBook.kDefaultMaxDepth
  deriving DecidableEq

structure SyncDiagnostics where
  snapshotsApplied : Nat := 0
  updatesApplied : Nat := 0
  updatesBuffered : Nat := 0
  updatesDiscardedStale : Nat := 0
  updatesDiscardedDuplicate : Nat := 0
  sequenceGaps : Nat := 0
  resyncs : Nat := 0
  staleTransitions : Nat := 0
  protocolErrors : Nat := 0
  snapshotRequests : Nat := 0
  bufferOverflows : Nat := 0
  deriving DecidableEq

/-- What the callback of a state change is told. -/
structure StateChange where
  source : SessionState
  target : SessionState
  reason : String
  deriving DecidableEq

structure BookSynchronizer where
  symbol : Symbol
  config : SyncConfig
  state : SessionState := .disconnected
  book : OrderBook
  buffer : List BookUpdateEvent := []
  lastDataNs : Nanos := 0
  hasData : Bool := false
  lastSnapshotRequestNs : Nanos := 0
  snapshotRequested : Bool := false
  snapshotAttempts : Nat := 0
  protocolErrors : Nat := 0
  lastFailure : SyncFailure := .none
  diag : SyncDiagnostics := {}
  changes : List StateChange := []
  deriving DecidableEq

namespace BookSynchronizer

def new (symbol : Symbol) (config : SyncConfig) : BookSynchronizer where
  symbol := symbol
  config := config
  book := OrderBook.new symbol config.maxDepth

/-- Moves the session. A move that the machine does not have is an error. -/
def transition (s : BookSynchronizer) (target : SessionState) (reason : String) :
    BookSynchronizer :=
  if s.state = target then s
  else if !s.state.isLegalTransition target then
    { s with
      state := .error
      changes := s.changes ++ [⟨s.state, .error, "illegal session transition attempted"⟩] }
  else { s with state := target, changes := s.changes ++ [⟨s.state, target, reason⟩] }

def touchDataClock (s : BookSynchronizer) (now : Nanos) : BookSynchronizer :=
  { s with lastDataNs := now, hasData := true }

/-- The age of the last data; without any, the greatest age there is. -/
def dataAgeNs (s : BookSynchronizer) (now : Nanos) : Nanos :=
  if s.hasData then now - s.lastDataNs else rawMax

def onConnecting (s : BookSynchronizer) : BookSynchronizer := s.transition .connecting "dialling"

def onConnected (s : BookSynchronizer) : BookSynchronizer :=
  let s :=
    if s.state = .disconnected || s.state = .backoff then s.transition .connecting "dialling"
    else s
  s.transition .connected "transport established"

/-- Buffering begins now. -/
def onSubscribed (s : BookSynchronizer) : BookSynchronizer :=
  { s.transition .subscribed "subscription confirmed" with
    buffer := []
    snapshotRequested := false
    snapshotAttempts := 0 }

/-- The book is discarded with the transport. -/
def onDisconnected (s : BookSynchronizer) (reason : String) : BookSynchronizer :=
  { s with
    lastFailure := .disconnected
    book := s.book.clear
    buffer := []
    hasData := false
    snapshotRequested := false }.transition .disconnected reason

def onBackoff (s : BookSynchronizer) (reason : String) : BookSynchronizer :=
  s.transition .backoff reason

def onFatal (s : BookSynchronizer) (reason : String) : BookSynchronizer :=
  { s with book := s.book.clear, buffer := [] }.transition .error reason

/-- Stops trusting the book. From `subscribed` there is no book yet and a snapshot is
already pending: the request is re-armed and the state stays. -/
def beginResync (s : BookSynchronizer) (failure : SyncFailure) (reason : String) :
    BookSynchronizer :=
  let s :=
    { s with
      lastFailure := failure
      book := s.book.clear
      buffer := []
      snapshotRequested := false
      snapshotAttempts := 0 }
  if s.state = .subscribed then s
  else
    { s with diag := { s.diag with resyncs := s.diag.resyncs + 1 } }.transition .resyncRequired
      reason

/-! ## Data -/

/-- The update begins where the last one ended. Where the venue publishes the identifier
before, it has to say so as well, and the message has to agree with itself. -/
def continuesFrom (update : BookUpdateEvent) (lastApplied : Seq64) : Bool :=
  if update.prevFinalUpdateId ≠ kNoSeq64 then
    update.prevFinalUpdateId = lastApplied &&
      (update.firstUpdateId = kNoSeq64 || update.firstUpdateId = update.prevFinalUpdateId + 1)
  else update.firstUpdateId = lastApplied + 1

/-- Only the last chunk of an update advances the identifier of the book. -/
def applyUpdateToBook (s : BookSynchronizer) (update : BookUpdateEvent) :
    Status × BookSynchronizer :=
  match s.book.applyUpdate update.levels
      (if update.isLast then update.finalUpdateId else kNoSeq64) with
  | (.ok, book) =>
      (.ok,
        { s with
          book := book
          diag :=
            if update.isLast then { s.diag with updatesApplied := s.diag.updatesApplied + 1 }
            else s.diag })
  | (.error code message, book) => (.error code message, { s with book := book })

/-- A message that could not be used. Enough of them break the session. -/
def onProtocolError (s : BookSynchronizer) (detail : String) : BookSynchronizer :=
  let s :=
    { s with
      diag := { s.diag with protocolErrors := s.diag.protocolErrors + 1 }
      protocolErrors := s.protocolErrors + 1 }
  if s.config.maxProtocolErrors ≤ s.protocolErrors then
    { s with lastFailure := .protocolErrorBudget }.onFatal
      (if detail.isEmpty then "protocol error budget exhausted" else detail)
  else s

/-- The update spans the identifier that follows the snapshot. -/
def spansSnapshot (update : BookUpdateEvent) (snapshotId : Seq64) : Bool :=
  update.firstUpdateId ≤ snapshotId + 1 && snapshotId + 1 ≤ update.finalUpdateId

/-- Applies the buffer in order. The first update is exempt from continuity: it
legitimately straddles the snapshot. -/
def drain : List BookUpdateEvent → Bool → BookSynchronizer → Status × BookSynchronizer
  | [], _, s => (.ok, s)
  | update :: rest, firstApplied, s =>
      let s := { s with buffer := rest }
      if firstApplied && !continuesFrom update s.book.lastUpdateId then
        (.error .failedPrecondition "sequence gap in buffered updates",
          { s with diag := { s.diag with sequenceGaps := s.diag.sequenceGaps + 1 } }.beginResync
            .sequenceGap "gap while draining the buffer")
      else
        match s.applyUpdateToBook update with
        | (.ok, s) => drain rest (firstApplied || update.isLast) s
        | (.error code message, s) =>
            (.error code message, s.beginResync .invalidUpdate "buffered update failed to apply")

/-- Only now is the book trustworthy. -/
def completeSync (s : BookSynchronizer) : Status × BookSynchronizer :=
  match s.book.checkInvariants with
  | .none =>
      (.ok,
        { s with lastFailure := .none, snapshotAttempts := 0 }.transition .ready "synchronized")
  | violation =>
      (.error .internal "book failed invariants after synchronization",
        s.beginResync .crossedBook violation.toString)

/-- Reconciles the buffered stream with an image that was just published. -/
def reconcile (s : BookSynchronizer) (snapshotId : Seq64) : Status × BookSynchronizer :=
  let stale := s.buffer.takeWhile fun update => update.finalUpdateId ≤ snapshotId
  let fresh := s.buffer.dropWhile fun update => update.finalUpdateId ≤ snapshotId
  let s :=
    { s with
      buffer := fresh
      diag :=
        { s.diag with
          updatesDiscardedStale := s.diag.updatesDiscardedStale + stale.length } }
  if fresh.head?.any fun first => !spansSnapshot first snapshotId then
    (.error .failedPrecondition "snapshot and stream do not abut",
      { s with diag := { s.diag with sequenceGaps := s.diag.sequenceGaps + 1 } }.beginResync
        .staleSnapshot "buffered stream does not abut the snapshot")
  else
    match drain fresh false s with
    | (.ok, s) => s.completeSync
    | failed => failed

/-- The first chunk of an image starts the sync. -/
def beginImage (s : BookSynchronizer) : BookSynchronizer :=
  let s := if s.state ≠ .syncing then s.transition .syncing "applying snapshot" else s
  { s with book := s.book.beginSnapshot }

/-- A chunk of a snapshot is of use now. -/
def inSyncWindow (state : SessionState) : Bool :=
  state = .subscribed || state = .syncing || state = .resyncRequired

/-- The session with a chunk of an image staged, or the chunk refused. -/
def stageChunk (s : BookSynchronizer) (snapshot : BookSnapshotEvent) (now : Nanos) :
    Status × BookSynchronizer :=
  let s := s.touchDataClock now
  let s := if snapshot.isFirst then s.beginImage else s
  let result := s.book.addSnapshotLevels snapshot.levels
  (result.1, { s with book := result.2 })

def onSnapshot (s : BookSynchronizer) (snapshot : BookSnapshotEvent) (now : Nanos) :
    Status × BookSynchronizer :=
  if snapshot.symbol ≠ s.symbol then (.error .invalidArgument "snapshot for the wrong symbol", s)
  else if !inSyncWindow s.state then
    (.error .failedPrecondition "snapshot arrived outside a sync window", s)
  else
    match s.stageChunk snapshot now with
    | (.error code message, s) => (.error code message, s)
    | (.ok, s) =>
        if !snapshot.isLast then (.ok, s)
        else
          match s.book.finishSnapshot snapshot.lastUpdateId with
          | (.error code message, book) =>
              (.error code message,
                { s with book := book }.beginResync .crossedBook "snapshot failed validation")
          | (.ok, book) =>
              { s with
                book := book
                diag := { s.diag with snapshotsApplied := s.diag.snapshotsApplied + 1 }
                snapshotRequested := false }.reconcile snapshot.lastUpdateId

/-- An update while the session waits for a snapshot. -/
def bufferUpdate (s : BookSynchronizer) (update : BookUpdateEvent) : Status × BookSynchronizer :=
  if s.config.maxBufferedUpdates ≤ s.buffer.length then
    (.error .overflow "update buffer overflow",
      { s with diag := { s.diag with bufferOverflows := s.diag.bufferOverflows + 1 } }.beginResync
        .bufferOverflow "snapshot did not arrive before the buffer filled")
  else
    (.ok,
      { s with
        buffer := s.buffer ++ [update]
        diag := { s.diag with updatesBuffered := s.diag.updatesBuffered + 1 } })

/-- An update on a synchronized book. -/
def liveUpdate (s : BookSynchronizer) (update : BookUpdateEvent) : Status × BookSynchronizer :=
  if update.finalUpdateId ≠ kNoSeq64 && update.finalUpdateId ≤ s.book.lastUpdateId then
    (.ok,
      { s with
        diag :=
          { s.diag with updatesDiscardedDuplicate := s.diag.updatesDiscardedDuplicate + 1 } })
  else if !continuesFrom update s.book.lastUpdateId then
    (.error .failedPrecondition "sequence gap",
      { s with diag := { s.diag with sequenceGaps := s.diag.sequenceGaps + 1 } }.beginResync
        .sequenceGap "sequence gap in the live stream")
  else
    match s.applyUpdateToBook update with
    | (.ok, s) => (.ok, if s.state = .stale then s.transition .ready "data resumed" else s)
    | (.error code message, s) =>
        (.error code message, s.beginResync .invalidUpdate "update failed to apply")

def onUpdate (s : BookSynchronizer) (update : BookUpdateEvent) (now : Nanos) :
    Status × BookSynchronizer :=
  if update.symbol ≠ s.symbol then (.error .invalidArgument "update for the wrong symbol", s)
  else if !update.levels.countsAreSane then
    (.error .outOfRange "malformed update",
      s.onProtocolError "update level count exceeds capacity")
  else if update.finalUpdateId ≠ kNoSeq64 && update.finalUpdateId < update.firstUpdateId then
    (.error .invalidArgument "malformed update id range",
      s.onProtocolError "update id range is inverted")
  else
    let s := s.touchDataClock now
    match s.state with
    | .subscribed | .syncing => s.bufferUpdate update
    | .ready | .stale => s.liveUpdate update
    -- Not synchronized: the update is noted for freshness and touches no book.
    | .resyncRequired | .disconnected | .connecting | .connected | .authenticated | .backoff
    | .error => (.ok, s)

/-- The freshness check. -/
def onTimer (s : BookSynchronizer) (now : Nanos) : BookSynchronizer :=
  if s.state = .ready then
    if s.config.maxDataAgeNs < s.dataAgeNs now then
      { s with
        diag := { s.diag with staleTransitions := s.diag.staleTransitions + 1 }
        lastFailure := .dataStale }.transition .stale "market data age exceeded the limit"
    else s
  else if s.state = .stale && decide (s.config.maxDataAgeNs * 10 < s.dataAgeNs now) then
    s.beginResync .dataStale "data stale beyond recovery"
  else s

/-- True when a snapshot should be fetched now. -/
def wantsSnapshot (s : BookSynchronizer) (now : Nanos) : Bool :=
  if s.state ≠ .subscribed && s.state ≠ .resyncRequired then false
  else if s.snapshotRequested then false
  else if s.snapshotAttempts = 0 then true
  else s.config.snapshotRetryDelayNs ≤ now - s.lastSnapshotRequestNs

def noteSnapshotRequested (s : BookSynchronizer) (now : Nanos) : BookSynchronizer :=
  { s with
    snapshotRequested := true
    lastSnapshotRequestNs := now
    snapshotAttempts := s.snapshotAttempts + 1
    diag := { s.diag with snapshotRequests := s.diag.snapshotRequests + 1 } }

def noteSnapshotFailed (s : BookSynchronizer) (reason : String) : BookSynchronizer :=
  let s := { s with snapshotRequested := false }
  if s.config.maxSnapshotRetries ≤ s.snapshotAttempts then
    { s with lastFailure := .snapshotRetryBudget }.onFatal
      (if reason.isEmpty then "snapshot retry budget exhausted" else reason)
  else s

/-- What can happen to a session. -/
inductive Op
  | connecting
  | connected
  | subscribed
  | disconnected (reason : String)
  | backoff (reason : String)
  | fatal (reason : String)
  | snapshot (snapshot : BookSnapshotEvent)
  | update (update : BookUpdateEvent)
  | protocolError (detail : String)
  | timer
  | snapshotRequested
  | snapshotFailed (reason : String)
  deriving DecidableEq

/-- A call, with the reading of the clock it makes. -/
structure Event where
  now : Nanos
  op : Op
  deriving DecidableEq

/-- A call: what it returns and the session after it. -/
def call (event : Event) (s : BookSynchronizer) : Status × BookSynchronizer :=
  match event.op with
  | .connecting => (.ok, s.onConnecting)
  | .connected => (.ok, s.onConnected)
  | .subscribed => (.ok, s.onSubscribed)
  | .disconnected reason => (.ok, s.onDisconnected reason)
  | .backoff reason => (.ok, s.onBackoff reason)
  | .fatal reason => (.ok, s.onFatal reason)
  | .snapshot snapshot => s.onSnapshot snapshot event.now
  | .update update => s.onUpdate update event.now
  | .protocolError detail => (.ok, s.onProtocolError detail)
  | .timer => (.ok, s.onTimer event.now)
  | .snapshotRequested => (.ok, s.noteSnapshotRequested event.now)
  | .snapshotFailed reason => (.ok, s.noteSnapshotFailed reason)

def step (event : Event) (s : BookSynchronizer) : BookSynchronizer := (call event s).2

end BookSynchronizer

end MmEngine.Book
