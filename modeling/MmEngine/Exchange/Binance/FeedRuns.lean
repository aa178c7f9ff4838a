/-
# Runs of the adapter

What holds of the adapter after every step of every run is that each slot is a session of
its own, that the sink knows all of its changes, and that readers find nothing but sound
views, the last of them of the session as it is. A call keeps this by what it leaves behind;
an update alone leaves the readers behind, until the view that follows it.
-/

import MmEngine.Exchange.Binance.FeedHandlers

namespace MmEngine.Exchange

open Book Wire

namespace BinanceMarketData

variable {config : MarketDataConfig} {a b : BinanceMarketData} {state : SymbolState} {slot : Nat}

/-- What holds of the adapter between two steps. -/
structure Settled (config : MarketDataConfig) (a : BinanceMarketData) : Prop where
  config_eq : a.config = config
  sink : a.running = true → a.sink = true
  capacity : a.symbols.length ≤ kMaxSymbols
  distinct : (a.symbols.map SymbolState.symbol).Nodup
  slots : ∀ state ∈ a.symbols, SlotInvariant config state
  current : ∀ state ∈ a.symbols, Current state
  reported : ∀ state ∈ a.symbols,
    sessionReports state.symbol a.handed = state.sync.changes.map sessionReport
  unknown : ∀ symbol ∉ a.symbols.map SymbolState.symbol, sessionReports symbol a.handed = []

theorem map_symbol_set (hslot : a.symbols[slot]? = some state) {state' : SymbolState}
    (hsymbol : state'.symbol = state.symbol) :
    (a.symbols.set slot state').map SymbolState.symbol = a.symbols.map SymbolState.symbol := by
  refine List.ext_getElem? fun i => ?_
  rw [List.getElem?_map, List.getElem?_map]
  by_cases hsame : slot = i
  · subst hsame
    rw [List.getElem?_set_self (lt_of_slot hslot), hslot]
    exact congrArg some hsymbol
  · rw [List.getElem?_set_ne hsame]

/-- A slot of the list with one of them replaced is the new one, or an old one of another
symbol. -/
theorem mem_set_slot (hdistinct : (a.symbols.map SymbolState.symbol).Nodup)
    (hslot : a.symbols[slot]? = some state)
    {state' other : SymbolState} (hother : other ∈ a.symbols.set slot state') :
    other = state' ∨ other ∈ a.symbols ∧ other.symbol ≠ state.symbol := by
  obtain ⟨i, hi⟩ := List.mem_iff_getElem?.mp hother
  by_cases hsame : slot = i
  · subst hsame
    rw [List.getElem?_set_self (lt_of_slot hslot)] at hi
    exact .inl (Option.some.inj hi).symm
  · rw [List.getElem?_set_ne hsame] at hi
    refine .inr ⟨List.mem_of_getElem? hi, fun hsymbol => hsame ?_⟩
    have hlt : slot < (a.symbols.map SymbolState.symbol).length := by
      simpa using lt_of_slot hslot
    refine (List.getElem?_inj hlt hdistinct).mp ?_
    rw [List.getElem?_map, List.getElem?_map, hslot, hi]
    exact congrArg some hsymbol.symm

/-- One slot is replaced by one in order, and the sink is told what its session reported. -/
theorem Settled.replace (h : Settled config a) (hslot : a.symbols[slot]? = some state)
    {state' : SymbolState} {changes : List StateChange}
    (hsymbols : b.symbols = a.symbols.set slot state') (hconfig : b.config = a.config)
    (hsink : b.running = true → b.sink = true) (hsymbol : state'.symbol = state.symbol)
    (hinvariant : SlotInvariant config state') (hcurrent : Current state')
    (hchanges : state'.sync.changes = state.sync.changes ++ changes)
    (hreports : ∀ symbol, sessionReports symbol b.handed = sessionReports symbol a.handed ++
      if state.symbol = symbol then changes.map sessionReport else []) : Settled config b := by
  have hmem := List.mem_of_getElem? hslot
  have hcases : ∀ other ∈ b.symbols,
      other = state' ∨ other ∈ a.symbols ∧ other.symbol ≠ state.symbol := by
    intro other hother
    rw [hsymbols] at hother
    exact mem_set_slot h.distinct hslot hother
  have hnames : b.symbols.map SymbolState.symbol = a.symbols.map SymbolState.symbol := by
    rw [hsymbols, map_symbol_set hslot hsymbol]
  refine ⟨hconfig.trans h.config_eq, hsink, ?_, hnames ▸ h.distinct, fun other hother => ?_,
    fun other hother => ?_, fun other hother => ?_, fun symbol hunknown => ?_⟩
  · rw [hsymbols, List.length_set]
    exact h.capacity
  · rcases hcases other hother with rfl | ⟨hold, -⟩
    · exact hinvariant
    · exact h.slots other hold
  · rcases hcases other hother with rfl | ⟨hold, -⟩
    · exact hcurrent
    · exact h.current other hold
  · rw [hreports]
    rcases hcases other hother with rfl | ⟨hold, hne⟩
    · rw [if_pos hsymbol.symm, hsymbol, h.reported state hmem, hchanges, List.map_append]
    · rw [if_neg (Ne.symm hne), List.append_nil, h.reported other hold]
  · rw [hnames] at hunknown
    have hne : state.symbol ≠ symbol := by
      rintro rfl
      exact hunknown (List.mem_map_of_mem hmem)
    rw [hreports, if_neg hne, h.unknown symbol hunknown, List.append_nil]

/-- Nothing that the slots or the reports of the sink show has changed. -/
theorem Settled.same (h : Settled config a) (hsymbols : b.symbols = a.symbols)
    (hconfig : b.config = a.config) (hsink : b.running = true → b.sink = true)
    (hreports : ∀ symbol, sessionReports symbol b.handed = sessionReports symbol a.handed) :
    Settled config b := by
  refine ⟨hconfig.trans h.config_eq, hsink, hsymbols ▸ h.capacity, hsymbols ▸ h.distinct,
    hsymbols ▸ h.slots, hsymbols ▸ h.current, fun other hother => ?_, fun symbol hunknown => ?_⟩
  · rw [hsymbols] at hother
    rw [hreports, h.reported other hother]
  · rw [hsymbols] at hunknown
    rw [hreports, h.unknown symbol hunknown]

/-- The adapter while its thread is at work. -/
def Working (config : MarketDataConfig) (a : BinanceMarketData) : Prop :=
  Settled config a ∧ a.sink = true

theorem sessionReports_append_one {symbol : Symbol} {event : SinkEvent}
    (hevent : event.sessionReport? symbol = none) (events : List SinkEvent) :
    sessionReports symbol (events ++ [event]) = sessionReports symbol events := by
  rw [sessionReports, List.filterMap_append, List.filterMap_cons_none hevent]
  exact List.append_nil _

theorem isSession_of_isGeneral {event : SinkEvent} (h : event.isGeneral = true) :
    event.isSession = false := by
  cases event <;> simp_all [SinkEvent.isGeneral, SinkEvent.isSession]

theorem reports_unchanged (handed : List SinkEvent) (symbol name : Symbol) :
    sessionReports symbol handed =
      sessionReports symbol handed ++ if name = symbol then [].map sessionReport else [] := by
  simp

theorem SlotInvariant.withView (h : SlotInvariant config state) :
    SlotInvariant config (withView state) := by
  refine ⟨h.session, h.published, fun view hview => ?_⟩
  rcases List.mem_append.mp hview with hold | hnew
  · exact h.views view hold
  · rw [List.mem_singleton.mp hnew]
    exact viewSound_of_liveSound h.session.liveSound state

theorem SlotInvariant.withData (h : SlotInvariant config state)
    (recvNs : Nanos) : SlotInvariant config (withData recvNs state) :=
  ⟨h.session, h.published, h.views⟩

namespace Working

/-- One slot is replaced while the thread is at work. -/
theorem replace (h : Working config a) (hslot : a.symbols[slot]? = some state)
    {state' : SymbolState} {changes : List StateChange} {fresh : List SinkEvent}
    {published reads : Nat} (hsymbol : state'.symbol = state.symbol)
    (hinvariant : SlotInvariant config state') (hcurrent : Current state')
    (hchanges : state'.sync.changes = state.sync.changes ++ changes)
    (hreports : ∀ symbol, sessionReports symbol fresh =
      if state.symbol = symbol then changes.map sessionReport else []) :
    Working config
      { a with
        symbols := a.symbols.set slot state'
        handed := a.handed ++ fresh
        eventsPublished := published
        reads := reads } := by
  refine ⟨h.1.replace hslot rfl rfl (fun _ => h.2) hsymbol hinvariant hcurrent
    hchanges fun symbol => ?_, h.2⟩
  rw [sessionReports, List.filterMap_append]
  exact congrArg _ (hreports symbol)

/-- A slot whose session stays as it is. -/
theorem rewrite (h : Working config a) {f : SymbolState → SymbolState}
    (hsymbol : ∀ state, (f state).symbol = state.symbol)
    (hsync : ∀ state, (f state).sync = state.sync)
    (hinvariant : ∀ state, SlotInvariant config state → SlotInvariant config (f state))
    (hcurrent : ∀ state, Current state → Current (f state)) (slot : Nat) :
    Working config (a.modifySlot slot f) := by
  cases hslot : a.symbols[slot]? with
  | none =>
      rw [modifySlot, List.modify_eq_set_getElem?, hslot]
      exact h
  | some state =>
      have hmem := List.mem_of_getElem? hslot
      have hchanges : (f state).sync.changes = state.sync.changes ++ [] := by
        rw [hsync, List.append_nil]
      rw [modifySlot_eq hslot]
      exact ⟨h.1.replace hslot rfl rfl (fun _ => h.2) (hsymbol state)
        (hinvariant state (h.1.slots state hmem)) (hcurrent state (h.1.current state hmem)) hchanges
        fun symbol => reports_unchanged _ _ _, h.2⟩

theorem publishView (h : Working config a) (slot : Nat) :
    Working config (publishView slot a) :=
  h.rewrite (f := withView) (fun _ => rfl) (fun _ => rfl) (fun _ h => h.withView)
    (fun state _ => current_withView state) slot

theorem noteData (h : Working config a) (slot : Nat) (recvNs : Nanos) :
    Working config (noteData slot recvNs a) :=
  h.rewrite (f := withData recvNs) (fun _ => rfl) (fun _ => rfl) (fun _ h => h.withData recvNs)
    (fun _ h => ⟨h.state_eq, h.levels⟩) slot

theorem same (h : Working config a) (hsymbols : b.symbols = a.symbols)
    (hconfig : b.config = a.config) (hsink : b.sink = a.sink)
    (hreports : ∀ symbol, sessionReports symbol b.handed = sessionReports symbol a.handed) :
    Working config b :=
  ⟨h.1.same hsymbols hconfig (fun _ => hsink.trans h.2) hreports,
    hsink.trans h.2⟩

/-- An event that is not a report of a session. -/
theorem emit (h : Working config a) {event : SinkEvent} (hevent : event.isSession = false) :
    Working config (emit event a) := by
  rw [BinanceMarketData.emit, if_pos h.2]
  refine h.same rfl rfl rfl fun symbol => sessionReports_append_one ?_ _
  cases event with
  | session _ _ _ _ _ => exact absurd hevent (by simp [SinkEvent.isSession])
  | _ => rfl

section Calls

variable {clock : Nat → Nanos}

/-- A call with what is about the symbol of the slot, and is no update. -/
theorem callSync (h : Working config a) {op : BookSynchronizer.Op}
    (hown : ∀ state, a.symbols[slot]? = some state → OwnOp state.symbol op)
    (hupdate : ∀ update, op ≠ .update update) : Working config (callSync clock slot op a) := by
  cases hslot : a.symbols[slot]? with
  | none =>
      rw [BinanceMarketData.callSync, hslot]
      exact h
  | some state =>
      have hmem := List.mem_of_getElem? hslot
      obtain ⟨changes, fresh, published, reads, hchanges, hcall, -, hreports⟩ :=
        callSync_eq clock hslot h.2 op
      rw [hcall]
      exact h.replace hslot rfl ((h.1.slots state hmem).calledBack (hown state hslot) hchanges)
        ((h.1.current state hmem).calledBack hupdate changes) hchanges.changes hreports

/-- An update, with the view that follows it. -/
theorem updated (h : Working config a) (hslot : a.symbols[slot]? = some state)
    {update : BookUpdateEvent} (hown : update.symbol = state.symbol) (recvNs : Nanos) :
    Working config (BinanceMarketData.publishView slot (BinanceMarketData.noteData slot recvNs
      (BinanceMarketData.callSync clock slot (.update update) a))) := by
  have hmem := List.mem_of_getElem? hslot
  have hlt := lt_of_slot hslot
  obtain ⟨changes, fresh, published, reads, hchanges, hcall, -, hreports⟩ :=
    callSync_eq clock hslot h.2 (.update update)
  let event : BookSynchronizer.Event := ⟨clock a.reads, .update update⟩
  have hevent : OwnOp state.symbol event.op := hown
  have hcalled := (h.1.slots state hmem).calledBack hevent hchanges
  rw [hcall, BinanceMarketData.noteData, modifySlot_eq (List.getElem?_set_self hlt),
    BinanceMarketData.publishView,
    modifySlot_eq (List.getElem?_set_self (by rw [List.length_set]; exact hlt))]
  simp only [List.set_set]
  exact h.replace hslot rfl (hcalled.withData recvNs).withView (current_withView _)
    hchanges.changes hreports

/-- One event of the stream. -/
theorem onStreamEvent (h : Working config a) (event : MarketDataEvent) :
    Working config (onStreamEvent clock a event) := by
  refine Working.emit ?_ rfl
  split
  · exact h
  · rename_i slot hfind
    obtain ⟨state, hslot, hsymbol, -⟩ := find_spec hfind
    split
    · rename_i update hpayload
      rw [eventSymbol, hpayload] at hsymbol
      exact h.updated hslot hsymbol.symm _
    · exact h.noteData _ _
    · exact h

end Calls

end Working

/-- The operations of the handlers leave the adapter in order. -/
theorem kept_working (config : MarketDataConfig) (clock : Nat → Nanos) :
    Kept clock (Working config) where
  same h hsymbols hconfig hsink hhanded := h.same hsymbols hconfig hsink fun _ => by rw [hhanded]
  signal slot h hop := by
    refine h.callSync (fun state _ => hop.own state.symbol) ?_
    rintro update rfl
    exact hop
  view slot h := h.publishView slot
  tell h hgeneral := h.emit (isSession_of_isGeneral hgeneral)
  image h hslot himage := by
    obtain ⟨snapshot, hpayload, hsnapshot⟩ := himage
    rw [Kept.onSnapshotEvent_eq hpayload]
    refine Working.emit (h.callSync (fun state hstate => ?_) (by simp)) rfl
    rw [hslot, Option.some.injEq] at hstate
    exact hstate ▸ hsnapshot
  hear h _ := h.onStreamEvent _

/-! ## Steps -/

theorem settled_init (config : MarketDataConfig) : Settled config { config := config } := by
  refine ⟨rfl, fun hrunning => absurd hrunning Bool.false_ne_true, Nat.zero_le _, List.nodup_nil,
    ?_, ?_, ?_, fun _ _ => rfl⟩
  all_goals exact fun _ hstate => absurd hstate List.not_mem_nil

namespace Settled

theorem unmoved (h : Settled config a) (hunmoved : Unmoved a b) : Settled config b :=
  h.same hunmoved.symbols hunmoved.config (hunmoved.sink h.sink) fun _ => by rw [hunmoved.handed]

/-- A slot of its own for a symbol that had none. -/
theorem enlarge (h : Settled config a) (hunknown : state.symbol ∉ a.symbols.map SymbolState.symbol)
    (hroom : a.symbols.length < kMaxSymbols) (hinvariant : SlotInvariant config state)
    (hcurrent : Current state) (hchanges : state.sync.changes = [])
    (hsymbols : b.symbols = a.symbols ++ [state]) (hconfig : b.config = a.config)
    (hsink : b.running = true → b.sink = true) (hhanded : b.handed = a.handed) :
    Settled config b := by
  have hforall : ∀ {Q : SymbolState → Prop}, (∀ other ∈ a.symbols, Q other) → Q state →
      ∀ other ∈ b.symbols, Q other := by
    intro Q hold hnew
    rw [hsymbols]
    exact List.forall_mem_append.mpr ⟨hold, by simpa using hnew⟩
  refine ⟨hconfig.trans h.config_eq, hsink, ?_, ?_, hforall h.slots hinvariant,
    hforall h.current hcurrent, ?_, fun symbol hother => ?_⟩
  · rw [hsymbols, List.length_append]
    exact hroom
  · rw [hsymbols, List.map_append]
    exact h.distinct.append (List.nodup_singleton _) (by simpa using hunknown)
  · rw [hhanded]
    exact hforall h.reported (by rw [hchanges]; exact h.unknown _ hunknown)
  · rw [hhanded]
    refine h.unknown symbol fun hmem => hother ?_
    rw [hsymbols, List.map_append]
    exact List.mem_append_left _ hmem

theorem subscribe (h : Settled config a) (request : SubscriptionRequest) :
    Settled config (a.subscribe request).2 := by
  obtain hrefused | ⟨hunknown, hroom, tasks, hsubscribed⟩ := subscribe_cases request a
  · rw [hrefused]
    exact h
  · rw [hsubscribed]
    refine h.enlarge hunknown hroom ⟨⟨[], List.forall_mem_nil _, ?_⟩, fun _ => rfl,
      List.forall_mem_nil _⟩ ⟨rfl, ?_⟩ rfl rfl rfl h.sink rfl
    · rw [← h.config_eq]
      rfl
    · exact fun hready => absurd hready (by simp [newSlot, BookSynchronizer.new])

theorem unsubscribe (h : Settled config a) (symbol : Symbol) :
    Settled config (a.unsubscribe symbol).2 := by
  obtain hrefused | ⟨slot, state, hslot, hretired⟩ := unsubscribe_cases symbol a
  · rw [hrefused]
    exact h
  · have hmem := List.mem_of_getElem? hslot
    obtain ⟨hsession, -, hviews⟩ := h.slots state hmem
    obtain ⟨hstate, hlevels⟩ := h.current state hmem
    have hinvariant : SlotInvariant config (retired state) :=
      ⟨hsession, fun hactive => absurd hactive Bool.false_ne_true, hviews⟩
    rw [hretired]
    exact h.replace hslot rfl rfl h.sink rfl hinvariant ⟨hstate, hlevels⟩
      (List.append_nil _).symm fun symbol => reports_unchanged _ _ _

theorem step (parse : List Char → Option Json) (clock : Nat → Nanos) (op : Op)
    (h : Settled config a) : Settled config (step parse clock op a) :=
  step_of_kept parse (kept_working config clock) (fun _ h => h.sink) (fun _ _ h => h.unmoved)
    (fun _ symbol h => h.unsubscribe symbol) op (fun request _ => h.subscribe request) h

theorem run (parse : List Char → Option Json) (clock : Nat → Nanos) (config : MarketDataConfig)
    (ops : List Op) :
    Settled config (Machine.run (BinanceMarketData.step parse clock) ops { config := config }) :=
  Machine.invariant_run_always (I := Settled config) (fun op _ h => h.step parse clock op) ops
    (settled_init config)

end Settled

end BinanceMarketData

end MmEngine.Exchange
