/-
# The sink is a journal of the sessions

The sink is handed every update and every image that a session is called with, in the same
order and no others: whatever a session has come to, what the sink was handed of its symbol
since it was subscribed to brings it about again. The last update or trade among it is the
one that the age of the data is told from. Both hold because an event goes to the session
first and to the sink right after it, in one handler. A symbol that was never subscribed to
has no slot, and the sink may well have been handed something of it before.
-/

import MmEngine.Exchange.Binance.FeedRuns

namespace MmEngine.Exchange

open Book Wire

/-- What a session is called with, as the stream or an answer brought it. -/
def dataOf : BookSynchronizer.Op → Option MarketDataPayload
  | .snapshot snapshot => some (.bookSnapshot snapshot)
  | .update update => some (.bookUpdate update)
  | .connecting | .connected | .subscribed | .disconnected _ | .backoff _ | .fatal _
  | .protocolError _ | .timer | .snapshotRequested | .snapshotFailed _ => none

/-- An image or an update of the book of the symbol. -/
def SinkEvent.bookData? (symbol : Symbol) : SinkEvent → Option MarketDataPayload
  | .market event =>
      match event.payload with
      | .bookSnapshot _ | .bookUpdate _ =>
          if BinanceMarketData.eventSymbol event = symbol then some event.payload else none
      | .trade _ => none
  | .instrument _ | .session _ _ _ _ _ | .connection _ _ _ _ _ => none

/-- When an update or a trade of the symbol was received. -/
def SinkEvent.streamTime? (symbol : Symbol) : SinkEvent → Option Nanos
  | .market event =>
      match event.payload with
      | .bookUpdate _ | .trade _ =>
          if BinanceMarketData.eventSymbol event = symbol then some event.stamps.recvNs else none
      | .bookSnapshot _ => none
  | .instrument _ | .session _ _ _ _ _ | .connection _ _ _ _ _ => none

/-- What the sink was handed of the book of a symbol. -/
def bookData (symbol : Symbol) (events : List SinkEvent) : List MarketDataPayload :=
  events.filterMap (SinkEvent.bookData? symbol)

/-- When what the sink was handed of a symbol was received. -/
def streamTimes (symbol : Symbol) (events : List SinkEvent) : List Nanos :=
  events.filterMap (SinkEvent.streamTime? symbol)

namespace BinanceMarketData

variable {config : MarketDataConfig} {a b : BinanceMarketData} {state : SymbolState} {slot : Nat}
  {clock : Nat → Nanos} {handed : List SinkEvent} {names : List Symbol} {symbol : Symbol}
  {mark : Nat}

/-- What a run hands to the sink from where there is a slot for the symbol. -/
def handedSince (parse : List Char → Option Json) (clock : Nat → Nanos) (symbol : Symbol) :
    List Op → BinanceMarketData → List SinkEvent
  | [], _ => []
  | op :: ops, a =>
      if symbol ∈ a.symbols.map SymbolState.symbol then
        (Machine.run (step parse clock) (op :: ops) a).handed.drop a.handed.length
      else handedSince parse clock symbol ops (step parse clock op a)

/-- The session of a slot is a run on what was about its symbol, and while the slot is
active the data of that run is what the sink was handed. -/
def Journaled (config : MarketDataConfig) (handed : List SinkEvent) (state : SymbolState) : Prop :=
  ∃ events : List BookSynchronizer.Event, (∀ event ∈ events, OwnOp state.symbol event.op) ∧
    state.sync = Machine.run BookSynchronizer.step events
      (BookSynchronizer.new state.symbol (syncConfigFor config state.request)) ∧
    (state.active = true →
      events.filterMap (fun event => dataOf event.op) = bookData state.symbol handed)

/-- The data of an active slot is as old as the last event of its symbol, if there was one. -/
def Dated (handed : List SinkEvent) (state : SymbolState) : Prop :=
  state.active = true → (streamTimes state.symbol handed).getLast? =
    if state.hasData then some state.publishedDataNs else none

/-- From the mark on, what the sink has is a journal of the slot of the symbol. -/
structure Recorded (config : MarketDataConfig) (names : List Symbol) (symbol : Symbol) (mark : Nat)
    (a : BinanceMarketData) : Prop where
  config_eq : a.config = config
  sink : a.running = true → a.sink = true
  names_eq : a.symbols.map SymbolState.symbol = names
  distinct : names.Nodup
  since : mark ≤ a.handed.length
  journaled : ∀ state ∈ a.symbols, state.symbol = symbol →
    Journaled config (a.handed.drop mark) state
  dated : ∀ state ∈ a.symbols, state.symbol = symbol → Dated (a.handed.drop mark) state

/-- Nothing of the market is among the events. -/
def Silent (symbol : Symbol) (events : List SinkEvent) : Prop :=
  bookData symbol events = [] ∧ streamTimes symbol events = []

theorem silent_of_no_market {events : List SinkEvent} (symbol : Symbol)
    (h : ∀ event ∈ events, ∀ market, event ≠ .market market) : Silent symbol events := by
  have hnone : ∀ event ∈ events, SinkEvent.bookData? symbol event = none ∧
      SinkEvent.streamTime? symbol event = none := by
    intro event hevent
    cases event with
    | market market => exact absurd rfl (h _ hevent market)
    | _ => exact ⟨rfl, rfl⟩
  exact ⟨List.filterMap_eq_nil_iff.mpr fun event hevent => (hnone event hevent).1,
    List.filterMap_eq_nil_iff.mpr fun event hevent => (hnone event hevent).2⟩

theorem silent_of_sessions {events : List SinkEvent} (symbol : Symbol)
    (h : ∀ event ∈ events, event.isSession = true) : Silent symbol events := by
  refine silent_of_no_market symbol fun event hevent market heq => ?_
  have hsession := h event hevent
  rw [heq] at hsession
  exact absurd hsession Bool.false_ne_true

theorem bookData_append (symbol : Symbol) (events later : List SinkEvent) :
    bookData symbol (events ++ later) = bookData symbol events ++ bookData symbol later :=
  List.filterMap_append

theorem streamTimes_append (symbol : Symbol) (events later : List SinkEvent) :
    streamTimes symbol (events ++ later) = streamTimes symbol events ++ streamTimes symbol later :=
  List.filterMap_append

theorem Journaled.silent (h : Journaled config handed state) {fresh : List SinkEvent}
    (hfresh : state.active = true → bookData state.symbol fresh = []) :
    Journaled config (handed ++ fresh) state := by
  obtain ⟨events, hevents, hrun, hdata⟩ := h
  refine ⟨events, hevents, hrun, fun hactive => ?_⟩
  rw [bookData_append, hfresh hactive, List.append_nil]
  exact hdata hactive

theorem Dated.silent (h : Dated handed state) {fresh : List SinkEvent}
    (hfresh : state.active = true → streamTimes state.symbol fresh = []) :
    Dated (handed ++ fresh) state := by
  intro hactive
  rw [streamTimes_append, hfresh hactive, List.append_nil]
  exact h hactive

/-- A call with data that the sink is handed as well. -/
theorem Journaled.called (h : Journaled config handed state) {event : BookSynchronizer.Event}
    (hown : OwnOp state.symbol event.op) {fresh : List SinkEvent}
    (hfresh : bookData state.symbol fresh = (dataOf event.op).toList) :
    Journaled config (handed ++ fresh)
      { state with sync := BookSynchronizer.step event state.sync } := by
  obtain ⟨events, hevents, hrun, hdata⟩ := h
  have hlast : [event].filterMap (fun event => dataOf event.op) = (dataOf event.op).toList := by
    cases hop : dataOf event.op <;> simp [hop]
  refine ⟨events ++ [event], ?_, ?_, fun hactive => ?_⟩
  · exact List.forall_mem_append.mpr ⟨hevents, by simpa using hown⟩
  · rw [Machine.run_concat, ← hrun]
  · rw [List.filterMap_append, hdata hactive, hlast, bookData_append, hfresh]

theorem silent_market {event : MarketDataEvent} {symbol : Symbol}
    (hsymbol : eventSymbol event ≠ symbol) : Silent symbol [.market event] := by
  constructor
  · refine List.filterMap_eq_nil_iff.mpr fun other hother => ?_
    rw [List.mem_singleton.mp hother, SinkEvent.bookData?]
    cases event.payload <;> simp [hsymbol]
  · refine List.filterMap_eq_nil_iff.mpr fun other hother => ?_
    rw [List.mem_singleton.mp hother, SinkEvent.streamTime?]
    cases event.payload <;> simp [hsymbol]

/-- One slot is replaced, and the sink is handed events that say nothing of the others. -/
theorem Recorded.replace (h : Recorded config names symbol mark a)
    (hslot : a.symbols[slot]? = some state) {state' : SymbolState} {fresh : List SinkEvent}
    (hsymbols : b.symbols = a.symbols.set slot state')
    (hconfig : b.config = a.config) (hsink : b.running = true → b.sink = true)
    (hhanded : b.handed = a.handed ++ fresh) (hsymbol : state'.symbol = state.symbol)
    (hjournaled : Journaled config (a.handed.drop mark) state →
      Journaled config (a.handed.drop mark ++ fresh) state')
    (hdated : Dated (a.handed.drop mark) state → Dated (a.handed.drop mark ++ fresh) state')
    (hsilent : ∀ symbol ≠ state.symbol, Silent symbol fresh) :
    Recorded config names symbol mark b := by
  have hmem := List.mem_of_getElem? hslot
  have hdistinct : (a.symbols.map SymbolState.symbol).Nodup := h.names_eq ▸ h.distinct
  have hcases : ∀ other ∈ b.symbols,
      other = state' ∨ other ∈ a.symbols ∧ other.symbol ≠ state.symbol := by
    intro other hother
    rw [hsymbols] at hother
    exact mem_set_slot hdistinct hslot hother
  have hdrop : b.handed.drop mark = a.handed.drop mark ++ fresh := by
    rw [hhanded, List.drop_append_of_le_length h.since]
  refine ⟨hconfig.trans h.config_eq, hsink, ?_, h.distinct, ?_, fun other hother hsame => ?_,
    fun other hother hsame => ?_⟩
  · rw [hsymbols, map_symbol_set hslot hsymbol, h.names_eq]
  · rw [hhanded, List.length_append]
    exact Nat.le_add_right_of_le h.since
  · rw [hdrop]
    rcases hcases other hother with rfl | ⟨hold, hne⟩
    · exact hjournaled (h.journaled state hmem (hsymbol.symm.trans hsame))
    · exact (h.journaled other hold hsame).silent fun _ => (hsilent _ hne).1
  · rw [hdrop]
    rcases hcases other hother with rfl | ⟨hold, hne⟩
    · exact hdated (h.dated state hmem (hsymbol.symm.trans hsame))
    · exact (h.dated other hold hsame).silent fun _ => (hsilent _ hne).2

/-- No slot has changed, and what the sink was handed says nothing of the active ones. -/
theorem Recorded.same (h : Recorded config names symbol mark a) {fresh : List SinkEvent}
    (hsymbols : b.symbols = a.symbols) (hconfig : b.config = a.config)
    (hsink : b.running = true → b.sink = true) (hhanded : b.handed = a.handed ++ fresh)
    (hsilent : ∀ state ∈ a.symbols, state.active = true → Silent state.symbol fresh) :
    Recorded config names symbol mark b := by
  have hdrop : b.handed.drop mark = a.handed.drop mark ++ fresh := by
    rw [hhanded, List.drop_append_of_le_length h.since]
  refine ⟨hconfig.trans h.config_eq, hsink, hsymbols ▸ h.names_eq, h.distinct, ?_,
    fun other hother hsame => ?_, fun other hother hsame => ?_⟩
  · rw [hhanded, List.length_append]
    exact Nat.le_add_right_of_le h.since
  · rw [hsymbols] at hother
    rw [hdrop]
    exact (h.journaled other hother hsame).silent fun hactive => (hsilent other hother hactive).1
  · rw [hsymbols] at hother
    rw [hdrop]
    exact (h.dated other hother hsame).silent fun hactive => (hsilent other hother hactive).2

/-- The adapter while its thread is at work. -/
def Recording (config : MarketDataConfig) (names : List Symbol) (symbol : Symbol) (mark : Nat)
    (a : BinanceMarketData) : Prop :=
  Recorded config names symbol mark a ∧ a.sink = true

namespace Recording

theorem same (h : Recording config names symbol mark a) (hsymbols : b.symbols = a.symbols)
    (hconfig : b.config = a.config) (hsink : b.sink = a.sink) (hhanded : b.handed = a.handed) :
    Recording config names symbol mark b :=
  ⟨h.1.same hsymbols hconfig (fun _ => hsink.trans h.2) (hhanded.trans (List.append_nil _).symm)
    fun _ _ _ => ⟨rfl, rfl⟩, hsink.trans h.2⟩

/-- A slot is rewritten in what the journal says nothing of. -/
theorem rewrite (h : Recording config names symbol mark a) {f : SymbolState → SymbolState}
    (hsymbol : ∀ state, (f state).symbol = state.symbol)
    (hjournaled : ∀ state handed, Journaled config handed state → Journaled config handed (f state))
    (hdated : ∀ state handed, Dated handed state → Dated handed (f state)) (slot : Nat) :
    Recording config names symbol mark (a.modifySlot slot f) := by
  cases hslot : a.symbols[slot]? with
  | none =>
      rw [modifySlot, List.modify_eq_set_getElem?, hslot]
      exact h
  | some state =>
      rw [modifySlot_eq hslot]
      refine ⟨h.1.replace hslot rfl rfl (fun _ => h.2) (List.append_nil _).symm
          (hsymbol state) ?_ ?_
        fun _ _ => ⟨rfl, rfl⟩, h.2⟩
      · rw [List.append_nil]
        exact hjournaled state _
      · rw [List.append_nil]
        exact hdated state _

theorem signal (h : Recording config names symbol mark a) (slot : Nat) {op : BookSynchronizer.Op}
    (hop : IsSignal op) : Recording config names symbol mark (callSync clock slot op a) := by
  cases hslot : a.symbols[slot]? with
  | none =>
      rw [callSync, hslot]
      exact h
  | some state =>
      obtain ⟨changes, fresh, published, reads, -, hcall, hfresh, -⟩ :=
        callSync_eq clock hslot h.2 op
      have hsilent := fun symbol => silent_of_sessions symbol hfresh
      have hnone : dataOf op = none := by
        cases op with
        | snapshot _ => exact absurd hop id
        | update _ => exact absurd hop id
        | _ => rfl
      rw [hcall]
      refine ⟨h.1.replace hslot rfl rfl (fun _ => h.2) rfl rfl (fun hjournaled => ?_)
        (fun hdated => hdated.silent fun _ => (hsilent _).2) fun symbol _ => hsilent symbol, h.2⟩
      have hown : OwnOp state.symbol (BookSynchronizer.Event.op ⟨clock a.reads, op⟩) := hop.own _
      refine hjournaled.called hown ?_
      rw [(hsilent _).1, hnone]
      rfl

/-- An event of the market reaches its slot and then the sink. -/
theorem delivered (h : Recording config names symbol mark a) (hslot : a.symbols[slot]? = some state)
    {state' : SymbolState} {fresh : List SinkEvent} {event : MarketDataEvent}
    (hevent : eventSymbol event = state.symbol) (hfresh : ∀ event ∈ fresh, event.isSession = true)
    (hsymbols : b.symbols = a.symbols.set slot state') (hconfig : b.config = a.config)
    (hsink : b.sink = a.sink) (hhanded : b.handed = a.handed ++ (fresh ++ [.market event]))
    (hsymbol : state'.symbol = state.symbol)
    (hjournaled : Journaled config (a.handed.drop mark) state →
      Journaled config (a.handed.drop mark ++ (fresh ++ [.market event])) state')
    (hdated : Dated (a.handed.drop mark) state →
      Dated (a.handed.drop mark ++ (fresh ++ [.market event])) state') :
    Recording config names symbol mark b := by
  refine ⟨h.1.replace hslot hsymbols hconfig (fun _ => hsink.trans h.2) hhanded hsymbol hjournaled
    hdated fun symbol hne => ?_, hsink.trans h.2⟩
  have hsilent := silent_of_sessions symbol hfresh
  have hother : Silent symbol [.market event] := by
    refine silent_market ?_
    rw [hevent]
    exact hne.symm
  refine ⟨?_, ?_⟩
  · rw [bookData_append, hsilent.1, hother.1, List.append_nil]
  · rw [streamTimes_append, hsilent.2, hother.2, List.append_nil]

/-- The events of a call that brings data, as the sink gets them. -/
theorem bookData_delivered {fresh : List SinkEvent} {event : MarketDataEvent}
    {op : BookSynchronizer.Op} (hfresh : ∀ event ∈ fresh, event.isSession = true)
    (hevent : eventSymbol event = state.symbol) (hdata : dataOf op = some event.payload) :
    bookData state.symbol (fresh ++ [.market event]) = (dataOf op).toList := by
  have hbook : SinkEvent.bookData? state.symbol (.market event) = some event.payload := by
    rw [SinkEvent.bookData?]
    cases op with
    | snapshot snapshot | update update =>
        rw [dataOf, Option.some.injEq] at hdata
        rw [← hdata, if_pos hevent]
    | _ => exact absurd hdata (by simp [dataOf])
  rw [bookData_append, (silent_of_sessions _ hfresh).1, hdata, List.nil_append]
  simp [bookData, hbook]

theorem image (h : Recording config names symbol mark a) (hslot : a.symbols[slot]? = some state)
    {event : MarketDataEvent} (himage : IsImageOf state.symbol event) :
    Recording config names symbol mark (onSnapshotEvent clock slot a event) := by
  obtain ⟨snapshot, hpayload, hsnapshot⟩ := himage
  have hevent : eventSymbol event = state.symbol := by
    rw [eventSymbol, hpayload]
    exact hsnapshot
  obtain ⟨changes, fresh, published, reads, -, hcall, hfresh, -⟩ :=
    callSync_eq clock hslot h.2 (.snapshot snapshot)
  have hown : OwnOp state.symbol
      (BookSynchronizer.Event.op ⟨clock a.reads, .snapshot snapshot⟩) := hsnapshot
  rw [Kept.onSnapshotEvent_eq hpayload, hcall, emit, if_pos h.2]
  refine h.delivered hslot hevent hfresh rfl rfl rfl (List.append_assoc _ _ _) rfl
    (fun hjournaled => ?_) fun hdated => ?_
  · exact hjournaled.called hown (bookData_delivered hfresh hevent (by rw [hpayload]; rfl))
  · refine hdated.silent fun _ => ?_
    rw [streamTimes_append, (silent_of_sessions _ hfresh).2]
    simp [streamTimes, SinkEvent.streamTime?, hpayload]

/-- An event that no active slot is for. -/
theorem missed (h : Recording config names symbol mark a) {event : MarketDataEvent}
    (hfind : a.find (eventSymbol event) = none) :
    Recording config names symbol mark (emit (.market event) a) := by
  rw [emit, if_pos h.2]
  refine ⟨h.1.same rfl rfl (fun _ => h.2) rfl fun state hstate hactive => silent_market ?_, h.2⟩
  intro hsymbol
  have hother := List.findIdx?_eq_none_iff.mp hfind state hstate
  simp [hactive, hsymbol] at hother

theorem streamTimes_delivered {fresh : List SinkEvent} {event : MarketDataEvent}
    (hstreamed : IsStreamed event) (hevent : eventSymbol event = state.symbol) :
    (streamTimes state.symbol (handed ++ (fresh ++ [.market event]))).getLast? =
      some event.stamps.recvNs := by
  have htime : SinkEvent.streamTime? state.symbol (.market event) = some event.stamps.recvNs := by
    rw [SinkEvent.streamTime?]
    rw [IsStreamed] at hstreamed
    split
    · exact if_pos hevent
    · exact if_pos hevent
    · rename_i heq
      rw [heq] at hstreamed
      exact absurd hstreamed id
  rw [← List.append_assoc, streamTimes_append]
  simp [streamTimes, htime]

theorem hear (h : Recording config names symbol mark a) {event : MarketDataEvent}
    (hstreamed : IsStreamed event) :
    Recording config names symbol mark (onStreamEvent clock a event) := by
  rw [onStreamEvent]
  cases hfind : a.find (eventSymbol event) with
  | none => exact h.missed hfind
  | some slot =>
      obtain ⟨state, hslot, hsymbol, -⟩ := find_spec hfind
      have hlt := lt_of_slot hslot
      dsimp only
      split
      · rename_i update hpayload
        have hown : update.symbol = state.symbol := by
          rw [hsymbol, eventSymbol, hpayload]
        obtain ⟨changes, fresh, published, reads, -, hcall, hfresh, -⟩ :=
          callSync_eq clock hslot h.2 (.update update)
        have hevent : OwnOp state.symbol
            (BookSynchronizer.Event.op ⟨clock a.reads, .update update⟩) := hown
        rw [hcall, noteData, modifySlot_eq (List.getElem?_set_self hlt), publishView,
          modifySlot_eq (List.getElem?_set_self (by rw [List.length_set]; exact hlt)), emit,
          if_pos h.2]
        simp only [List.set_set]
        refine h.delivered hslot hsymbol.symm hfresh rfl rfl rfl (List.append_assoc _ _ _) rfl
          (fun hjournaled => ?_) fun _ _ => streamTimes_delivered hstreamed hsymbol.symm
        exact hjournaled.called hevent
          (bookData_delivered hfresh hsymbol.symm (by rw [hpayload]; rfl))
      · rename_i trade hpayload
        rw [noteData, modifySlot_eq hslot, emit, if_pos h.2]
        refine h.delivered hslot hsymbol.symm (List.forall_mem_nil _) rfl rfl rfl rfl rfl
          (fun hjournaled => ?_) fun _ _ => streamTimes_delivered hstreamed hsymbol.symm
        refine Journaled.silent hjournaled fun _ => ?_
        simp [bookData, SinkEvent.bookData?, hpayload]
      · rename_i snapshot hpayload
        rw [IsStreamed, hpayload] at hstreamed
        exact absurd hstreamed id

end Recording

/-- The operations of the handlers keep the journal. -/
theorem kept_recording (config : MarketDataConfig) (names : List Symbol) (symbol : Symbol)
    (mark : Nat) (clock : Nat → Nanos) : Kept clock (Recording config names symbol mark) where
  same h hsymbols hconfig hsink hhanded := h.same hsymbols hconfig hsink hhanded
  signal slot h hop := h.signal slot hop
  view slot h := h.rewrite (f := withView) (fun _ => rfl) (fun _ _ h => h) (fun _ _ h => h) slot
  tell h hgeneral := by
    rw [emit, if_pos h.2]
    refine ⟨h.1.same rfl rfl (fun _ => h.2) rfl fun state _ _ => silent_of_no_market _ ?_, h.2⟩
    intro event hevent market heq
    rw [← List.mem_singleton.mp hevent, heq] at hgeneral
    exact absurd hgeneral Bool.false_ne_true
  image h hslot himage := h.image hslot himage
  hear h hstreamed := h.hear hstreamed

/-! ## Runs -/

namespace Recorded

theorem unmoved (h : Recorded config names symbol mark a) (hunmoved : Unmoved a b) :
    Recorded config names symbol mark b :=
  h.same hunmoved.symbols hunmoved.config (hunmoved.sink h.sink)
    (hunmoved.handed.trans (List.append_nil _).symm) fun _ _ _ => ⟨rfl, rfl⟩

/-- Without a slot for the symbol the journal may start at any time. -/
theorem restart (h : Recorded config names symbol mark a) (hunknown : symbol ∉ names) :
    Recorded config names symbol a.handed.length a := by
  have hother : ∀ state ∈ a.symbols, state.symbol ≠ symbol := by
    rintro state hstate rfl
    exact hunknown (h.names_eq ▸ List.mem_map_of_mem hstate)
  exact ⟨h.config_eq, h.sink, h.names_eq, h.distinct, Nat.le_refl _,
    fun state hstate hsame => absurd hsame (hother state hstate),
    fun state hstate hsame => absurd hsame (hother state hstate)⟩

/-- A new slot of the symbol starts with an empty journal. -/
theorem subscribe (h : Recorded config names symbol mark a)
    (hstart : symbol ∈ names ∨ mark = a.handed.length) (request : SubscriptionRequest) :
    ∃ names', names ⊆ names' ∧ Recorded config names' symbol mark (a.subscribe request).2 := by
  obtain hrefused | ⟨hunknown, -, tasks, hsubscribed⟩ := subscribe_cases request a
  · rw [hrefused]
    exact ⟨names, List.Subset.refl _, h⟩
  rw [h.names_eq] at hunknown
  have hempty : (newSlot a.config request).symbol = symbol → a.handed.drop mark = [] := by
    rintro rfl
    rw [hstart.resolve_left hunknown, List.drop_length]
  have hjournaled : (newSlot a.config request).symbol = symbol →
      Journaled config (a.handed.drop mark) (newSlot a.config request) := by
    intro hsame
    rw [hempty hsame]
    refine ⟨[], List.forall_mem_nil _, ?_, fun _ => rfl⟩
    rw [← h.config_eq]
    rfl
  have hdated : (newSlot a.config request).symbol = symbol →
      Dated (a.handed.drop mark) (newSlot a.config request) := by
    intro hsame
    rw [hempty hsame]
    exact fun _ => rfl
  rw [hsubscribed]
  refine ⟨names ++ [request.symbol], List.subset_append_left _ _, h.config_eq, h.sink, ?_, ?_,
    h.since, List.forall_mem_append.mpr ⟨h.journaled, by simpa using hjournaled⟩,
    List.forall_mem_append.mpr ⟨h.dated, by simpa using hdated⟩⟩
  · rw [List.map_append, h.names_eq]
    rfl
  · exact h.distinct.append (List.nodup_singleton _) (by simpa using hunknown)

theorem handed_subscribe (request : SubscriptionRequest) :
    (a.subscribe request).2.handed = a.handed := by
  obtain hrefused | ⟨-, -, tasks, hsubscribed⟩ := subscribe_cases request a
  · rw [hrefused]
  · rw [hsubscribed]

theorem unsubscribe (h : Recorded config names symbol mark a) (name : Symbol) :
    Recorded config names symbol mark (a.unsubscribe name).2 := by
  obtain hrefused | ⟨slot, state, hslot, hretired⟩ := unsubscribe_cases name a
  · rw [hrefused]
    exact h
  · rw [hretired]
    refine h.replace hslot rfl rfl h.sink (List.append_nil _).symm rfl ?_ ?_
      fun _ _ => ⟨rfl, rfl⟩
    · rintro ⟨events, hevents, hrun, -⟩
      exact ⟨events, hevents, hrun, fun hactive => absurd hactive Bool.false_ne_true⟩
    · exact fun _ hactive => absurd hactive Bool.false_ne_true

theorem init (config : MarketDataConfig) (symbol : Symbol) :
    Recorded config [] symbol 0 { config := config } :=
  ⟨rfl, fun hrunning => absurd hrunning Bool.false_ne_true, rfl, List.nodup_nil, Nat.le_refl _,
    List.forall_mem_nil _, List.forall_mem_nil _⟩

section Runs

variable (parse : List Char → Option Json) (clock : Nat → Nanos)

theorem step_of_not_subscribe (h : Recorded config names symbol mark a) {op : Op}
    (hop : ∀ request, op ≠ .subscribe request) :
    Recorded config names symbol mark (step parse clock op a) :=
  step_of_kept parse (kept_recording config names symbol mark clock) (fun _ h => h.sink)
    (fun _ _ h => h.unmoved) (fun _ name h => h.unsubscribe name) op
    (fun request heq => absurd heq (hop request)) h

/-- With a slot for the symbol its journal is continued. -/
theorem step_known (h : Recorded config names symbol mark a) (hknown : symbol ∈ names) (op : Op) :
    ∃ names', symbol ∈ names' ∧ Recorded config names' symbol mark (step parse clock op a) := by
  by_cases hop : ∃ request, op = .subscribe request
  · obtain ⟨request, rfl⟩ := hop
    obtain ⟨names', hsub, hnext⟩ := h.subscribe (.inl hknown) request
    exact ⟨names', hsub hknown, hnext⟩
  · rw [not_exists] at hop
    exact ⟨names, hknown, h.step_of_not_subscribe parse clock hop⟩

/-- Without one it may start after the step, in which the slot may have been made. -/
theorem step_unknown (h : Recorded config names symbol mark a) (hunknown : symbol ∉ names)
    (op : Op) :
    let b := step parse clock op a
    ∃ names', Recorded config names' symbol b.handed.length b := by
  by_cases hop : ∃ request, op = .subscribe request
  · obtain ⟨request, rfl⟩ := hop
    obtain ⟨names', -, hnext⟩ := (h.restart hunknown).subscribe (.inr rfl) request
    refine ⟨names', ?_⟩
    show Recorded config names' symbol (a.subscribe request).2.handed.length _
    rw [handed_subscribe]
    exact hnext
  · rw [not_exists] at hop
    exact ⟨names, (h.step_of_not_subscribe parse clock hop).restart hunknown⟩

theorem run_known (h : Recorded config names symbol mark a) (hknown : symbol ∈ names)
    (ops : List Op) :
    ∃ names', symbol ∈ names' ∧
      Recorded config names' symbol mark (Machine.run (step parse clock) ops a) := by
  refine Machine.invariant_run_always
    (I := fun a => ∃ names, symbol ∈ names ∧ Recorded config names symbol mark a)
    (fun op a hnow => ?_) ops ⟨names, hknown, h⟩
  obtain ⟨names, hknown, hrecorded⟩ := hnow
  exact hrecorded.step_known parse clock hknown op

/-- A run records what it hands to the sink from where there is a slot for the symbol. -/
theorem run (h : Recorded config names symbol a.handed.length a) (ops : List Op) :
    let b := Machine.run (step parse clock) ops a
    ∃ names' mark, Recorded config names' symbol mark b ∧
      b.handed.drop mark = handedSince parse clock symbol ops a := by
  induction ops generalizing a names with
  | nil => exact ⟨names, a.handed.length, h, List.drop_length⟩
  | cons op ops ih =>
      rw [handedSince, h.names_eq]
      split
      · rename_i hknown
        obtain ⟨names', -, hrun⟩ := h.run_known parse clock hknown (op :: ops)
        exact ⟨names', a.handed.length, hrun, rfl⟩
      · rename_i hunknown
        obtain ⟨names', hnext⟩ := h.step_unknown parse clock hunknown op
        exact ih hnext

end Runs

end Recorded

/-- Each slot has come to what the sink was handed of its symbol since it was made. -/
theorem journaled_run (parse : List Char → Option Json) (clock : Nat → Nanos)
    (config : MarketDataConfig) (ops : List Op) :
    let start : BinanceMarketData := { config := config }
    ∀ state ∈ (Machine.run (step parse clock) ops start).symbols,
      Journaled config (handedSince parse clock state.symbol ops start) state ∧
        Dated (handedSince parse clock state.symbol ops start) state := by
  intro start state hstate
  have hstart : Recorded config [] state.symbol start.handed.length start := .init config _
  obtain ⟨names, mark, hrecorded, hsince⟩ := hstart.run parse clock ops
  rw [← hsince]
  exact ⟨hrecorded.journaled state hstate rfl, hrecorded.dated state hstate rfl⟩

end BinanceMarketData

end MmEngine.Exchange
