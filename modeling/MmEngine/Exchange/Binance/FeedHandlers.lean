/-
# What the handlers of the adapter keep

Every handler of the adapter's thread is made of a few operations: a call of a session that
brings no data, a view of a session, an event for the sink that is no data either, and one
event of an image or of the stream on its way to its session and to the sink. A predicate
that these keep, and that looks at nothing besides the slots, the sink and what it was
handed, is kept by the whole thread. Each invariant of the adapter is then proved of the
operations alone.
-/

import MmEngine.Exchange.Binance.DepthDecoding
import MmEngine.Exchange.Binance.FeedSessions

namespace MmEngine.Exchange

open Book Wire

/-- An event that is about no symbol's market or session. -/
def SinkEvent.isGeneral : SinkEvent → Bool
  | .instrument _ | .connection _ _ _ _ _ => true
  | .market _ | .session _ _ _ _ _ => false

namespace BinanceMarketData

variable {a b : BinanceMarketData} {state : SymbolState} {slot : Nat} {clock : Nat → Nanos}
  {P : BinanceMarketData → Prop}

/-- The event is an image of the symbol. -/
def IsImageOf (symbol : Symbol) (event : MarketDataEvent) : Prop :=
  ∃ snapshot, event.payload = .bookSnapshot snapshot ∧ snapshot.symbol = symbol

/-- The event is an update of a book or a trade. -/
def IsStreamed (event : MarketDataEvent) : Prop :=
  match event.payload with
  | .bookUpdate _ | .trade _ => True
  | .bookSnapshot _ => False

/-- The operations of the handlers keep `P`. -/
structure Kept (clock : Nat → Nanos) (P : BinanceMarketData → Prop) : Prop where
  same : ∀ {a b : BinanceMarketData}, P a → b.symbols = a.symbols → b.config = a.config →
    b.sink = a.sink → b.handed = a.handed → P b
  signal : ∀ {a op} slot, P a → IsSignal op → P (callSync clock slot op a)
  view : ∀ {a} slot, P a → P (publishView slot a)
  tell : ∀ {a event}, P a → event.isGeneral = true → P (emit event a)
  image : ∀ {a slot state event}, P a → a.symbols[slot]? = some state →
    IsImageOf state.symbol event → P (onSnapshotEvent clock slot a event)
  hear : ∀ {a event}, P a → IsStreamed event → P (onStreamEvent clock a event)

namespace Kept

/-- What one handler keeps of every adapter is kept of all active slots. -/
theorem forActive {handle : Nat → BinanceMarketData → BinanceMarketData}
    (hhandle : ∀ slot a, P a → P (handle slot a)) (h : P a) : P (forActive handle a) := by
  refine Table.foldl_invariant (I := P) (fun a slot h => ?_) _ h
  split
  · exact hhandle slot a h
  · exact h

theorem foldl_signal (hkept : Kept clock P) (h : P a) {ops : List BookSynchronizer.Op}
    (hops : ∀ op ∈ ops, IsSignal op) : P (ops.foldl (fun a op => callSync clock slot op a) a) := by
  induction ops generalizing a with
  | nil => exact h
  | cons op ops ih =>
      rw [List.forall_mem_cons] at hops
      exact ih (hkept.signal slot h hops.1) hops.2

theorem isSignal_connectionOps (state : ConnectionState) (reason : String) :
    ∀ op ∈ connectionOps state reason, IsSignal op := by
  cases state <;> simp [connectionOps, IsSignal]

theorem onWsState (hkept : Kept clock P) (h : P a) (state : ConnectionState) (reason : String)
    (count : Nat) : P (onWsState clock state reason count a) := by
  refine forActive (fun slot a h => ?_) (hkept.tell ?_ rfl)
  · exact hkept.view slot (hkept.foldl_signal h (isSignal_connectionOps state reason))
  · exact hkept.same h rfl rfl rfl rfl

theorem issueSnapshot (hkept : Kept clock P) (h : P a) (slot : Nat) :
    P (issueSnapshot clock slot a) := by
  rw [BinanceMarketData.issueSnapshot]
  split
  · exact h
  · have hcalled : P (callSync clock slot .snapshotRequested a) := hkept.signal slot h trivial
    exact hkept.same hcalled rfl rfl rfl rfl

theorem onTimer (hkept : Kept clock P) (h : P a) : P (onTimer clock a) := by
  refine forActive (fun slot a h => ?_) h
  have hticked : P (callSync clock slot .timer a) := hkept.signal slot h trivial
  dsimp only
  split
  · refine hkept.issueSnapshot ?_ slot
    exact hkept.same hticked rfl rfl rfl rfl
  · exact hkept.same hticked rfl rfl rfl rfl

theorem map_symbol_modifySlot {f : SymbolState → SymbolState}
    (hf : ∀ state, (f state).symbol = state.symbol) (slot : Nat) (a : BinanceMarketData) :
    (a.modifySlot slot f).symbols.map SymbolState.symbol = a.symbols.map SymbolState.symbol := by
  refine List.ext_getElem? fun i => ?_
  rw [List.getElem?_map, List.getElem?_map, modifySlot, List.getElem?_modify]
  cases a.symbols[i]? with
  | none => rfl
  | some state =>
      show some _ = some _
      split
      · exact congrArg some (hf state)
      · rfl

@[simp]
theorem symbols_emit (event : SinkEvent) (a : BinanceMarketData) :
    (emit event a).symbols = a.symbols := by
  rw [emit]
  split <;> rfl

theorem map_symbol_onStateChange (slot : Nat) (a : BinanceMarketData) (found : BookSynchronizer) :
    (onStateChange clock slot a found).symbols.map SymbolState.symbol =
      a.symbols.map SymbolState.symbol := by
  rw [onStateChange]
  split
  · refine (map_symbol_modifySlot ?_ slot _).trans ?_
    · exact fun _ => rfl
    rw [emitSessionEvent, symbols_emit]
    refine map_symbol_modifySlot ?_ slot a
    exact fun _ => rfl
  · rfl

/-- A call leaves every slot to its symbol. -/
theorem map_symbol_callSync (slot : Nat) (op : BookSynchronizer.Op) (a : BinanceMarketData) :
    (callSync clock slot op a).symbols.map SymbolState.symbol =
      a.symbols.map SymbolState.symbol := by
  rw [callSync]
  split
  · rfl
  · refine Table.foldl_invariant
      (I := fun b => b.symbols.map SymbolState.symbol = a.symbols.map SymbolState.symbol)
      (fun b found h => (map_symbol_onStateChange slot b found).trans h) _ ?_
    refine map_symbol_modifySlot ?_ slot a
    exact fun _ => rfl

/-- What the loop over a message makes has whatever every event of it has. -/
theorem forall_chunkLoop {Q : MarketDataEvent → Prop}
    {build : Bool → Bool → BookLevels → Nanos → MarketDataEvent}
    (hbuild : ∀ first isLast levels parseNs, Q (build first isLast levels parseNs))
    (steadyNs : Nat → Nanos) (before : Nat) (first : Bool) (reading : Nat) (bids asks : List Json)
    {out : List MarketDataEvent} (hout : ∀ event ∈ out, Q event) :
    ∀ event ∈ (chunkLoop build steadyNs before first reading bids asks out).2, Q event := by
  fun_induction chunkLoop build steadyNs before first reading bids asks out with
  | case1 first reading bids asks out chunkBids bids' chunkAsks asks' hb ha isLast event hlast =>
      exact List.forall_mem_append.mpr ⟨hout, by simpa [event] using hbuild _ _ _ _⟩
  | case2 first reading bids asks out chunkBids bids' chunkAsks asks' hb ha isLast event hmore ih =>
      exact ih (List.forall_mem_append.mpr ⟨hout, by simpa [event] using hbuild _ _ _ _⟩)
  | case3 first reading bids asks out hstuck =>
      exact fun event hevent => hout event (List.mem_of_mem_take hevent)

/-- An answer holds images of the symbol that was asked for, and nothing else. -/
theorem images_decodeDepthSnapshot (parse : List Char → Option Json) (steadyNs : Nat → Nanos)
    (body : List Char) (symbol : Symbol) (recvNs : Nanos) :
    ∀ event ∈ (decodeDepthSnapshot parse steadyNs body symbol recvNs []).out,
      IsImageOf symbol event := by
  have hnone : ∀ event ∈ ([] : List MarketDataEvent), IsImageOf symbol event :=
    fun _ hevent => absurd hevent List.not_mem_nil
  rw [decodeDepthSnapshot]
  split
  · exact hnone
  split
  · exact hnone
  split
  · exact hnone
  split
  · exact hnone
  split
  · exact hnone
  rename_i lastUpdateId _
  split
  · rename_i bids asks _ _
    have hbuild : ∀ first isLast levels parseNs, IsImageOf symbol
        (snapshotEvent symbol lastUpdateId recvNs first isLast levels parseNs) :=
      fun _ _ _ _ => ⟨_, rfl, rfl⟩
    have hloop := forall_chunkLoop (Q := IsImageOf symbol) hbuild steadyNs 0 true 0 bids asks hnone
    split
    all_goals
      rename_i out heq
      rw [List.length_nil] at heq
      rw [heq] at hloop
      exact hloop
  · exact hnone

theorem streamed_decodeDepthUpdate (steadyNs : Nat → Nanos) (payload : Json) (recvNs : Nanos) :
    ∀ event ∈ (decodeDepthUpdate steadyNs payload recvNs []).out, IsStreamed event := by
  have hnone : ∀ event ∈ ([] : List MarketDataEvent), IsStreamed event :=
    fun _ hevent => absurd hevent List.not_mem_nil
  rw [decodeDepthUpdate]
  split
  · exact hnone
  · rename_i header _
    split
    · rename_i bids asks _ _
      have hbuild : ∀ first isLast levels parseNs,
          IsStreamed (updateEvent header recvNs first isLast levels parseNs) :=
        fun _ _ _ _ => trivial
      have hloop := forall_chunkLoop (Q := IsStreamed) hbuild steadyNs 0 true 0 bids asks hnone
      split
      all_goals
        rename_i out heq
        rw [List.length_nil] at heq
        rw [heq] at hloop
        exact hloop
    · exact hnone

theorem streamed_decodeTrade (steadyNs : Nat → Nanos) (payload : Json) (recvNs : Nanos) :
    ∀ event ∈ (decodeTrade steadyNs payload recvNs []).out, IsStreamed event := by
  have hnone : ∀ event ∈ ([] : List MarketDataEvent), IsStreamed event :=
    fun _ hevent => absurd hevent List.not_mem_nil
  unfold decodeTrade
  split
  · split
    · exact hnone
    · split
      · exact hnone
      · split
        · exact hnone
        · intro event hevent
          rw [List.mem_singleton.mp hevent]
          trivial
  · exact hnone

/-- A frame of the stream holds updates and trades, and nothing else. -/
theorem streamed_decodeStreamFrame (parse : List Char → Option Json) (steadyNs : Nat → Nanos)
    (frame : List Char) (recvNs : Nanos) :
    ∀ event ∈ (decodeStreamFrame parse steadyNs frame recvNs []).out, IsStreamed event := by
  have hnone : ∀ event ∈ ([] : List MarketDataEvent), IsStreamed event :=
    fun _ hevent => absurd hevent List.not_mem_nil
  rw [decodeStreamFrame]
  split
  · exact hnone
  split
  · exact hnone
  split
  · exact hnone
  split
  · split
    · exact streamed_decodeDepthUpdate _ _ _
    · split
      · exact streamed_decodeTrade _ _ _
      · exact hnone
  · split
    · exact hnone
    · exact hnone

theorem onSnapshotEvent_eq {event : MarketDataEvent} {snapshot : BookSnapshotEvent}
    (hpayload : event.payload = .bookSnapshot snapshot) :
    onSnapshotEvent clock slot a event =
      emit (.market event) (callSync clock slot (.snapshot snapshot) a) := by
  rw [onSnapshotEvent, hpayload]

/-- The chunks of an image, in turn, for the slot that asked for it. -/
theorem foldl_onSnapshotEvent (hkept : Kept clock P) {events : List MarketDataEvent}
    {symbol : Symbol} (h : P a) (hevents : ∀ event ∈ events, IsImageOf symbol event)
    (hslot : (a.symbols.map SymbolState.symbol)[slot]? = some symbol) :
    P (events.foldl (onSnapshotEvent clock slot) a) := by
  induction events generalizing a with
  | nil => exact h
  | cons event events ih =>
      rw [List.forall_mem_cons] at hevents
      obtain ⟨⟨snapshot, hpayload, hsnapshot⟩, hevents⟩ := hevents
      have hfound := hslot
      rw [List.getElem?_map, Option.map_eq_some_iff] at hfound
      obtain ⟨state, hstate, hsymbol⟩ := hfound
      refine ih (hkept.image h hstate ⟨snapshot, hpayload, hsnapshot.trans hsymbol.symm⟩) hevents ?_
      rw [onSnapshotEvent_eq hpayload, symbols_emit, map_symbol_callSync]
      exact hslot

variable (parse : List Char → Option Json)

theorem onSnapshotReply (hkept : Kept clock P) (h : P a) (slot : Nat)
    (result : Except String (List Char)) : P (onSnapshotReply parse clock slot result a) := by
  have hfailed : ∀ b : BinanceMarketData, P b → ∀ message,
      P (callSync clock slot (.snapshotFailed message) b) :=
    fun b hb message => hkept.signal slot hb trivial
  unfold BinanceMarketData.onSnapshotReply
  split
  · exact h
  · refine hfailed _ ?_ _
    exact hkept.same h rfl rfl rfl rfl
  · rename_i body state hslot
    have hread : ∀ reads, P { a with reads := reads } := fun reads => hkept.same h rfl rfl rfl rfl
    dsimp only
    split
    · refine hfailed _ (hkept.signal slot ?_ (by trivial)) _
      exact hkept.same h rfl rfl rfl rfl
    · refine hkept.view slot (hkept.foldl_onSnapshotEvent (hread _)
        (images_decodeDepthSnapshot parse _ body state.symbol _) ?_)
      rw [List.getElem?_map, hslot, Option.map_some]

theorem onInstrumentsReply (hkept : Kept clock P) (h : P a) (wanted : List Symbol)
    (result : Except String (List Char)) : P (onInstrumentsReply parse clock wanted result a) := by
  unfold BinanceMarketData.onInstrumentsReply
  split
  · exact hkept.same h rfl rfl rfl rfl
  · dsimp only
    split
    · exact hkept.same h rfl rfl rfl rfl
    · refine Table.foldl_invariant (I := P) (fun a event h => hkept.tell ?_ rfl) _ ?_
      · exact hkept.same h rfl rfl rfl rfl
      · split
        · exact hkept.same h rfl rfl rfl rfl
        · exact hkept.same h rfl rfl rfl rfl

theorem onReply (hkept : Kept clock P) (h : P a) (index : Nat)
    (result : Except String (List Char)) : P (onReply parse clock index result a) := by
  rw [BinanceMarketData.onReply]
  split
  · exact h
  · have htaken : P { a with openRequests := a.openRequests.eraseIdx index } :=
      hkept.same h rfl rfl rfl rfl
    dsimp only
    split
    · exact hkept.onSnapshotReply parse htaken _ result
    · exact hkept.onInstrumentsReply parse htaken _ result

theorem foldl_onStreamEvent (hkept : Kept clock P) {events : List MarketDataEvent} (h : P a)
    (hevents : ∀ event ∈ events, IsStreamed event) :
    P (events.foldl (onStreamEvent clock) a) := by
  induction events generalizing a with
  | nil => exact h
  | cons event events ih =>
      rw [List.forall_mem_cons] at hevents
      exact ih (hkept.hear h hevents.1) hevents.2

theorem onWsFrame (hkept : Kept clock P) (h : P a) (frame : List Char) (recvNs : Nanos) :
    P (onWsFrame parse clock frame recvNs a) := by
  rw [BinanceMarketData.onWsFrame]
  dsimp only
  split
  · refine forActive (fun slot a h => hkept.signal slot h trivial) ?_
    exact hkept.same h rfl rfl rfl rfl
  · refine hkept.foldl_onStreamEvent ?_ (streamed_decodeStreamFrame parse _ frame recvNs)
    exact hkept.same h rfl rfl rfl rfl

/-! ## Tasks -/

theorem sendSubscribe (hkept : Kept clock P) (h : P a) (slot : Nat) (accepted : Bool) :
    P (sendSubscribe clock slot accepted a) := by
  rw [BinanceMarketData.sendSubscribe]
  split
  · exact h
  · split
    · exact h
    · dsimp only
      split
      · refine hkept.signal slot (hkept.signal slot ?_ (by trivial)) (by trivial)
        exact hkept.same h rfl rfl rfl rfl
      · exact hkept.same h rfl rfl rfl rfl

theorem runTask (hkept : Kept clock P) (h : P a) (accepted : Bool) :
    P (runTask clock accepted a) := by
  rw [BinanceMarketData.runTask]
  split
  · exact h
  · rename_i task tasks _
    have htaken : P { a with tasks := tasks } := hkept.same h rfl rfl rfl rfl
    dsimp only
    split
    · exact hkept.same htaken rfl rfl rfl rfl
    · exact hkept.same htaken rfl rfl rfl rfl
    · exact hkept.sendSubscribe htaken _ accepted
    · split
      · exact htaken
      · exact hkept.issueSnapshot htaken _

/-- The op is a step of the adapter's thread. -/
def IsThread : Op → Prop
  | .task _ | .wsState _ _ _ | .wsFrame _ _ | .timer | .reply _ _ => True
  | .start _ | .stop | .subscribe _ | .unsubscribe _ | .requestSnapshot _ | .requestInstruments =>
      False

theorem step_of_stopped {op : Op} (hop : IsThread op) (hstopped : ¬a.running = true) :
    BinanceMarketData.step parse clock op a = a := by
  cases op with
  | task _ | wsState _ _ _ | wsFrame _ _ | timer | reply _ _ => exact if_neg hstopped
  | _ => exact absurd hop id

/-- What the operations keep, the thread keeps. -/
theorem step (hkept : Kept clock P) (h : P a) {op : Op} (hop : IsThread op) :
    P (BinanceMarketData.step parse clock op a) := by
  have hrunning : ∀ b, P b → P (if a.running then b else a) := by
    intro b hb
    split
    · exact hb
    · exact h
  cases op with
  | task accepted => exact hrunning _ (hkept.runTask h accepted)
  | wsState state reason count => exact hrunning _ (hkept.onWsState h state reason count)
  | wsFrame frame recvNs => exact hrunning _ (hkept.onWsFrame parse h frame recvNs)
  | timer => exact hrunning _ (hkept.onTimer h)
  | reply index result => exact hrunning _ (hkept.onReply parse h index result)
  | _ => exact absurd hop id

end Kept

/-- What is left when the slots and what the sink was handed stay as they are. -/
structure Unmoved (a b : BinanceMarketData) : Prop where
  symbols : b.symbols = a.symbols
  config : b.config = a.config
  handed : b.handed = a.handed
  sink : (a.running = true → a.sink = true) → b.running = true → b.sink = true

theorem Unmoved.refl (a : BinanceMarketData) : Unmoved a a := ⟨rfl, rfl, rfl, id⟩

theorem unmoved_start (tls : Status) (a : BinanceMarketData) : Unmoved a (a.start tls).2 := by
  rw [start]
  split
  · exact .refl a
  · dsimp only
    split
    · exact ⟨rfl, rfl, rfl, fun _ _ => rfl⟩
    · exact ⟨rfl, rfl, rfl, fun _ _ => rfl⟩

theorem unmoved_stop (a : BinanceMarketData) : Unmoved a a.stop := by
  rw [stop]
  split
  · exact .refl a
  · exact ⟨rfl, rfl, rfl, fun _ hrunning => absurd hrunning Bool.false_ne_true⟩

theorem unmoved_requestSnapshot (symbol : Symbol) (a : BinanceMarketData) :
    Unmoved a (a.requestSnapshot symbol).2 := by
  rw [requestSnapshot]
  split
  · exact .refl a
  · exact ⟨rfl, rfl, rfl, id⟩

theorem unmoved_requestInstruments (a : BinanceMarketData) : Unmoved a a.requestInstruments.2 := by
  rw [requestInstruments]
  split
  · exact .refl a
  · exact ⟨rfl, rfl, rfl, id⟩

/-- The slot of a symbol that is subscribed to. -/
def newSlot (config : MarketDataConfig) (request : SubscriptionRequest) : SymbolState where
  symbol := request.symbol
  request := request
  sync := BookSynchronizer.new request.symbol (syncConfigFor config request)

/-- A subscription is refused, or it brings a slot for a symbol that had none. -/
theorem subscribe_cases (request : SubscriptionRequest) (a : BinanceMarketData) :
    (a.subscribe request).2 = a ∨
      request.symbol ∉ a.symbols.map SymbolState.symbol ∧ a.symbols.length < kMaxSymbols ∧
        ∃ tasks, (a.subscribe request).2 =
          { a with symbols := a.symbols ++ [newSlot a.config request], tasks := tasks } := by
  rw [subscribe]
  split
  · exact .inl rfl
  split
  · exact .inl rfl
  split
  · exact .inl rfl
  rename_i hknown hroom
  refine .inr ⟨fun hmem => ?_, Nat.lt_of_not_le hroom, _, rfl⟩
  obtain ⟨state, hstate, hsymbol⟩ := List.mem_map.mp hmem
  exact hknown (List.any_eq_true.mpr ⟨state, hstate, decide_eq_true hsymbol⟩)

/-- The slot that is found belongs to the symbol. -/
theorem find_spec {symbol : Symbol} (hfind : a.find symbol = some slot) :
    ∃ state, a.symbols[slot]? = some state ∧ state.symbol = symbol ∧ state.active = true := by
  obtain ⟨hlt, hfound, -⟩ := List.findIdx?_eq_some_iff_getElem.mp hfind
  rw [Bool.and_eq_true, decide_eq_true_eq] at hfound
  exact ⟨a.symbols[slot], List.getElem?_eq_getElem hlt, hfound.2, hfound.1⟩

/-- The slot of a symbol that is no longer subscribed to. -/
def retired (state : SymbolState) : SymbolState :=
  { state with active := false, publishedState := .disconnected }

/-- An unsubscription is refused, or it retires the slot of the symbol. -/
theorem unsubscribe_cases (symbol : Symbol) (a : BinanceMarketData) :
    (a.unsubscribe symbol).2 = a ∨ ∃ slot state, a.symbols[slot]? = some state ∧
      (a.unsubscribe symbol).2 = { a with symbols := a.symbols.set slot (retired state) } := by
  rw [unsubscribe]
  split
  · exact .inl rfl
  · rename_i slot hfind
    obtain ⟨state, hslot, -, -⟩ := find_spec hfind
    exact .inr ⟨slot, state, hslot, modifySlot_eq hslot _⟩

/-- A property that the operations of the thread keep, and the requests of the others keep,
is kept by every step. -/
theorem step_of_kept {P : BinanceMarketData → Prop} (parse : List Char → Option Json)
    (hkept : Kept clock fun a => P a ∧ a.sink = true)
    (hsink : ∀ a, P a → a.running = true → a.sink = true)
    (hunmoved : ∀ a b, P a → Unmoved a b → P b)
    (hunsubscribe : ∀ a symbol, P a → P (a.unsubscribe symbol).2) (op : Op)
    (hsubscribe : ∀ request, op = .subscribe request → P (a.subscribe request).2) (h : P a) :
    P (step parse clock op a) := by
  have hthread : Kept.IsThread op → P (step parse clock op a) := by
    intro hop
    by_cases hrunning : a.running = true
    · exact (hkept.step parse ⟨h, hsink a h hrunning⟩ hop).1
    · rw [Kept.step_of_stopped parse hop hrunning]
      exact h
  cases op with
  | start tls => exact hunmoved _ _ h (unmoved_start tls a)
  | stop => exact hunmoved _ _ h (unmoved_stop a)
  | subscribe request => exact hsubscribe request rfl
  | unsubscribe symbol => exact hunsubscribe a symbol h
  | requestSnapshot symbol => exact hunmoved _ _ h (unmoved_requestSnapshot symbol a)
  | requestInstruments => exact hunmoved _ _ h (unmoved_requestInstruments a)
  | _ => exact hthread trivial

end BinanceMarketData

end MmEngine.Exchange
