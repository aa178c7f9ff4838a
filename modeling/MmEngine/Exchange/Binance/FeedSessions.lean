/-
# Each slot of the adapter is a session

Whatever the handlers of the adapter do to a symbol they do through calls of its session.
One lemma says what a call leaves behind: the session a step further, a report to the sink
and a view for each change it made, and the published state of the last of them. The
invariant read off it ties every slot to a run of the session on its own, and what the sink
was told of a symbol to what its session reported.
-/

import MmEngine.Exchange.Binance.BinanceMarketData
import MmEngine.Lib.Table

namespace MmEngine.Exchange

open Book Wire

/-- What the sink is told of a change. -/
abbrev SessionReport := SessionState × SessionState × InlineString 64

/-- A change as the sink is told of it. -/
def sessionReport (change : StateChange) : SessionReport :=
  (change.source, change.target, (InlineString.assign change.reason.toList).1)

def SinkEvent.sessionReport? (symbol : Symbol) : SinkEvent → Option SessionReport
  | .session name source target reason _ =>
      if name = symbol then some (source, target, reason) else none
  | .market _ | .instrument _ | .connection _ _ _ _ _ => none

def SinkEvent.isSession : SinkEvent → Bool
  | .session _ _ _ _ _ => true
  | .market _ | .instrument _ | .connection _ _ _ _ _ => false

/-- What the sink was told of the session of a symbol. -/
def sessionReports (symbol : Symbol) (events : List SinkEvent) : List SessionReport :=
  events.filterMap (SinkEvent.sessionReport? symbol)

namespace BinanceMarketData

variable {a b : BinanceMarketData} {state : SymbolState} {slot : Nat}

theorem modifySlot_eq (hslot : a.symbols[slot]? = some state) (f : SymbolState → SymbolState) :
    a.modifySlot slot f = { a with symbols := a.symbols.set slot (f state) } := by
  rw [modifySlot, List.modify_eq_set_getElem?, hslot]
  rfl

theorem lt_of_slot (hslot : a.symbols[slot]? = some state) : slot < a.symbols.length :=
  (List.getElem?_eq_some_iff.mp hslot).1

section Call

variable (clock : Nat → Nanos)

/-- What callbacks leave of a slot: the views and the published state. -/
def calledBack (state : SymbolState) (founds : List BookSynchronizer) (changes : List StateChange) :
    SymbolState :=
  { state with
    publishedState := lastTarget state.publishedState changes
    views := state.views ++ founds.map (viewOf state) }

/-- One callback. -/
theorem onStateChange_eq {found : BookSynchronizer} {change : StateChange}
    (hfound : found.changes.getLast? = some change) (hslot : a.symbols[slot]? = some state)
    (hsink : a.sink = true) :
    onStateChange clock slot a found =
      { a with
        symbols := a.symbols.set slot
          { state with
            publishedState := change.target
            views := state.views ++ [viewOf state found] }
        handed := a.handed ++
          [.session state.symbol change.source change.target
            (InlineString.assign change.reason.toList).1 (clock a.reads)]
        eventsPublished := a.eventsPublished + 1
        reads := a.reads + 1 } := by
  have hlt := lt_of_slot hslot
  rw [onStateChange, hfound, hslot]
  simp only [modifySlot_eq hslot, emitSessionEvent, emit, hsink, if_true]
  rw [modifySlot_eq (List.getElem?_set_self hlt)]
  simp only [List.set_set]
  rfl

/-- The callbacks for the sessions `founds` report the last change of each. -/
theorem foldl_onStateChange (founds : List BookSynchronizer) {changes : List StateChange}
    (hchanges : founds.map (fun found => found.changes.getLast?) = changes.map some)
    (hslot : a.symbols[slot]? = some state) (hsink : a.sink = true) :
    ∃ fresh published reads,
      founds.foldl (onStateChange clock slot) a =
        { a with
          symbols := a.symbols.set slot (calledBack state founds changes)
          handed := a.handed ++ fresh
          eventsPublished := published
          reads := reads } ∧
      (∀ event ∈ fresh, event.isSession = true) ∧
      ∀ symbol, sessionReports symbol fresh =
        if state.symbol = symbol then changes.map sessionReport else [] := by
  induction founds generalizing a state changes with
  | nil =>
      have hnone : changes = [] := List.map_eq_nil_iff.mp hchanges.symm
      subst hnone
      refine ⟨[], a.eventsPublished, a.reads, ?_, by simp, fun symbol => by simp [sessionReports]⟩
      have hsame : a.symbols.set slot (calledBack state [] []) = a.symbols := by
        obtain ⟨hlt, heq⟩ := List.getElem?_eq_some_iff.mp hslot
        have hback : calledBack state [] [] = a.symbols[slot] := by
          rw [heq]
          simp [calledBack, lastTarget]
        rw [hback, List.set_getElem_self]
      rw [hsame, List.append_nil, List.foldl_nil]
  | cons found founds ih =>
      cases changes with
      | nil => exact absurd hchanges (by simp)
      | cons change changes =>
          rw [List.map_cons, List.map_cons, List.cons.injEq] at hchanges
          have hlt := lt_of_slot hslot
          have hnext : (onStateChange clock slot a found).symbols[slot]? =
              some (calledBack state [found] [change]) := by
            rw [onStateChange_eq clock hchanges.1 hslot hsink]
            exact List.getElem?_set_self hlt
          obtain ⟨fresh, published, reads, hrest, hsession, hreports⟩ :=
            ih hchanges.2 hnext (by rw [onStateChange_eq clock hchanges.1 hslot hsink]; exact hsink)
          refine ⟨.session state.symbol change.source change.target
            (InlineString.assign change.reason.toList).1 (clock a.reads) :: fresh, published, reads,
            ?_, List.forall_mem_cons.mpr ⟨rfl, hsession⟩, fun symbol => ?_⟩
          · rw [List.foldl_cons, hrest, onStateChange_eq clock hchanges.1 hslot hsink]
            have hback : calledBack (calledBack state [found] [change]) founds changes =
                calledBack state (found :: founds) (change :: changes) := by
              simp only [calledBack, lastTarget, List.map_cons, List.append_assoc,
                List.getLast?_cons, Option.map_some, Option.getD_some]
              cases changes.getLast? <;> rfl
            simp only [List.set_set, hback, List.append_assoc, List.singleton_append]
          · have hrest : sessionReports symbol fresh =
                if state.symbol = symbol then changes.map sessionReport else [] := hreports symbol
            by_cases hsymbol : state.symbol = symbol
            · rw [if_pos hsymbol] at hrest ⊢
              rw [sessionReports, List.filterMap_cons, SinkEvent.sessionReport?, if_pos hsymbol]
              exact congrArg _ hrest
            · rw [if_neg hsymbol] at hrest ⊢
              rw [sessionReports, List.filterMap_cons, SinkEvent.sessionReport?, if_neg hsymbol]
              exact hrest

/-- A call of a session: the session is a step further, and for each change of it the sink
has a report and the readers have a view. -/
theorem callSync_eq (hslot : a.symbols[slot]? = some state) (hsink : a.sink = true)
    (op : BookSynchronizer.Op) :
    let event : BookSynchronizer.Event := ⟨clock a.reads, op⟩
    let after := BookSynchronizer.step event state.sync
    ∃ changes fresh published reads,
      BookSynchronizer.Reports state.sync changes after ∧
      callSync clock slot op a =
        { a with
          symbols := a.symbols.set slot
            (calledBack { state with sync := after } (BookSynchronizer.trail event state.sync)
              changes)
          handed := a.handed ++ fresh
          eventsPublished := published
          reads := reads } ∧
      (∀ event ∈ fresh, event.isSession = true) ∧
      ∀ symbol, sessionReports symbol fresh =
        if state.symbol = symbol then changes.map sessionReport else [] := by
  intro event after
  have hlt := lt_of_slot hslot
  obtain ⟨changes, hchanges, htrail⟩ := BookSynchronizer.reports_step event state.sync
  let stepped : BinanceMarketData :=
    { a with symbols := a.symbols.set slot { state with sync := after }, reads := a.reads + 1 }
  have hstepped : stepped.symbols[slot]? = some { state with sync := after } :=
    List.getElem?_set_self hlt
  obtain ⟨fresh, published, reads, hfold, hsession, hreports⟩ :=
    foldl_onStateChange clock _ htrail hstepped hsink
  refine ⟨changes, fresh, published, reads, hchanges, ?_, hsession, hreports⟩
  rw [callSync, hslot]
  simp only [modifySlot_eq hslot]
  rw [hfold]
  simp only [stepped, List.set_set]

end Call

/-! ## Views -/

/-- A view that readers can rely on: without a synchronized book it shows no levels, and what
it shows is in order, positive and not crossed. -/
structure ViewSound (symbol : Symbol) (view : BookView) : Prop where
  symbol_eq : view.symbol = symbol
  empty : view.isQuotable = false → view.bids = [] ∧ view.asks = []
  bids_sorted : view.bids.Pairwise fun better worse => worse.price.raw < better.price.raw
  asks_sorted : view.asks.Pairwise fun better worse => better.price.raw < worse.price.raw
  positive : ∀ level ∈ view.bids ++ view.asks, Positive level
  uncrossed : ∀ bid ∈ view.bids, ∀ ask ∈ view.asks, bid.price.raw < ask.price.raw

/-- No level of a sorted side is better than its first. -/
theorem rank_head_le {which : Side} {side : List PriceLevel} {first level : PriceLevel}
    (h : Ladder.Sorted (levelRank which) side) (hfirst : side.head? = some first)
    (hlevel : level ∈ side) : rank which first.price ≤ rank which level.price := by
  cases side with
  | nil => exact absurd hlevel List.not_mem_nil
  | cons head rest =>
      rw [List.head?_cons, Option.some.injEq] at hfirst
      subst hfirst
      rcases List.mem_cons.mp hlevel with rfl | hrest
      · exact Int.le_refl _
      · exact Int.le_of_lt ((List.pairwise_cons.mp h).1 level hrest)

/-- Sorted sides that are in order at the touch are in order everywhere. -/
theorem uncrossed_of_touch {bids asks : List PriceLevel}
    (hbids : Ladder.Sorted (levelRank .buy) bids) (hasks : Ladder.Sorted (levelRank .sell) asks)
    (htouch : OrderBook.touchViolation bids asks = .none) {bid ask : PriceLevel} (hbid : bid ∈ bids)
    (hask : ask ∈ asks) : bid.price.raw < ask.price.raw := by
  obtain ⟨bestBid, hbestBid⟩ : ∃ level, bids.head? = some level := by
    cases bids with
    | nil => exact absurd hbid List.not_mem_nil
    | cons head rest => exact ⟨head, rfl⟩
  obtain ⟨bestAsk, hbestAsk⟩ : ∃ level, asks.head? = some level := by
    cases asks with
    | nil => exact absurd hask List.not_mem_nil
    | cons head rest => exact ⟨head, rfl⟩
  have hbelow : -bestBid.price.raw ≤ -bid.price.raw := rank_head_le hbids hbestBid hbid
  have habove : bestAsk.price.raw ≤ ask.price.raw := rank_head_le hasks hbestAsk hask
  rw [OrderBook.touchViolation, hbestBid, hbestAsk] at htouch
  have hcrossed : ¬bestAsk.price.raw < bestBid.price.raw := by
    intro hlt
    simp [hlt] at htouch
  have hlocked : bestBid.price.raw ≠ bestAsk.price.raw := by
    intro heq
    simp [Fixed.ext_iff, heq] at htouch
  omega

theorem viewSound_of_not_quotable {session : BookSynchronizer}
    (h : session.state.isQuotable = false) (state : SymbolState) :
    ViewSound state.symbol (viewOf state session) := by
  refine ⟨rfl, fun _ => ?_, ?_, ?_, ?_, ?_⟩
  all_goals simp [viewOf, h]

theorem viewSound_of_liveSound {session : BookSynchronizer} (h : session.LiveSound)
    (state : SymbolState) : ViewSound state.symbol (viewOf state session) := by
  by_cases hready : session.state.isQuotable = true
  · have hlive : BookSynchronizer.IsLive session.state := .inl (of_decide_eq_true hready)
    have htouch := h.sound.touch (h.valid hlive)
    have hbids := h.sound.shaped .buy
    have hasks := h.sound.shaped .sell
    have hbidsTake := hbids.sorted.sublist (List.take_sublist kPublishedDepth _)
    have hasksTake := hasks.sorted.sublist (List.take_sublist kPublishedDepth _)
    refine ⟨rfl, fun hnot => absurd hready ?_, ?_, ?_, ?_, ?_⟩
    · rw [show session.state.isQuotable = false from hnot]
      decide
    all_goals simp only [viewOf, hready, if_true]
    · exact hbidsTake.imp fun hlt => by
        simp only [levelRank, rank] at hlt
        omega
    · exact hasksTake
    · intro level hlevel
      rcases List.mem_append.mp hlevel with hbid | hask
      · exact hbids.positive level (List.mem_of_mem_take hbid)
      · exact hasks.positive level (List.mem_of_mem_take hask)
    · intro bid hbid ask hask
      exact uncrossed_of_touch hbids.sorted hasks.sorted htouch (List.mem_of_mem_take hbid)
        (List.mem_of_mem_take hask)
  · exact viewSound_of_not_quotable (Bool.eq_false_iff.mpr hready) state

/-- What the call brings is about the symbol of the session. -/
def OwnOp (symbol : Symbol) : BookSynchronizer.Op → Prop
  | .snapshot snapshot => snapshot.symbol = symbol
  | .update update => update.symbol = symbol
  | .connecting | .connected | .subscribed | .disconnected _ | .backoff _ | .fatal _
  | .protocolError _ | .timer | .snapshotRequested | .snapshotFailed _ => True

/-- What the call brings is no data. -/
def IsSignal : BookSynchronizer.Op → Prop
  | .snapshot _ | .update _ => False
  | .connecting | .connected | .subscribed | .disconnected _ | .backoff _ | .fatal _
  | .protocolError _ | .timer | .snapshotRequested | .snapshotFailed _ => True

theorem IsSignal.own {op : BookSynchronizer.Op} (h : IsSignal op) (symbol : Symbol) :
    OwnOp symbol op := by
  cases op with
  | snapshot _ => exact absurd h id
  | update _ => exact absurd h id
  | _ => trivial

/-- The session of a slot has run on its own, on what was about its symbol. -/
def IsSession (config : MarketDataConfig) (state : SymbolState) : Prop :=
  ∃ events : List BookSynchronizer.Event, (∀ event ∈ events, OwnOp state.symbol event.op) ∧
    state.sync = Machine.run BookSynchronizer.step events
      (BookSynchronizer.new state.symbol (syncConfigFor config state.request))

/-- The last view that was stored; before the first, readers find the zeroed one. -/
def lastView (state : SymbolState) : BookView := state.views.getLast?.getD {}

/-- The last view shows the session as it is: its state, and the best levels of a book that
is synchronized. -/
structure Current (state : SymbolState) : Prop where
  state_eq : (lastView state).state = state.sync.state
  levels : state.sync.state = .ready →
    (lastView state).lastUpdateId = state.sync.book.lastUpdateId ∧
      (lastView state).bids = state.sync.book.bids.take kPublishedDepth ∧
      (lastView state).asks = state.sync.book.asks.take kPublishedDepth

/-- What holds of a slot at all times. -/
structure SlotInvariant (config : MarketDataConfig) (state : SymbolState) : Prop where
  session : IsSession config state
  published : state.active = true → state.publishedState = state.sync.state
  views : ∀ view ∈ state.views, ViewSound state.symbol view

theorem IsSession.liveSound {config : MarketDataConfig} (h : IsSession config state) :
    state.sync.LiveSound := by
  obtain ⟨events, -, hrun⟩ := h
  rw [hrun]
  exact Machine.invariant_run_always (I := BookSynchronizer.LiveSound)
    (fun event _ => BookSynchronizer.liveSound_step event) events
    (BookSynchronizer.liveSound_new _ _)

theorem IsSession.step {config : MarketDataConfig} (h : IsSession config state)
    {event : BookSynchronizer.Event} (hown : OwnOp state.symbol event.op) :
    IsSession config { state with sync := BookSynchronizer.step event state.sync } := by
  obtain ⟨events, hevents, hrun⟩ := h
  refine ⟨events ++ [event], ?_, ?_⟩
  · exact List.forall_mem_append.mpr ⟨hevents, by simpa using hown⟩
  · rw [Machine.run_concat, ← hrun]

/-- A call keeps the slot in order. -/
theorem SlotInvariant.calledBack {config : MarketDataConfig} (h : SlotInvariant config state)
    {event : BookSynchronizer.Event} (hown : OwnOp state.symbol event.op)
    {changes : List StateChange}
    (hchanges : BookSynchronizer.Reports state.sync changes
      (BookSynchronizer.step event state.sync)) :
    SlotInvariant config
      (calledBack { state with sync := BookSynchronizer.step event state.sync }
        (BookSynchronizer.trail event state.sync) changes) where
  session := h.session.step hown
  published hactive := by
    show lastTarget state.publishedState changes = _
    rw [h.published hactive]
    exact hchanges.leads.lastTarget_eq
  views view hview := by
    rcases List.mem_append.mp hview with hold | hnew
    · exact h.views view hold
    · obtain ⟨found, hfound, rfl⟩ := List.mem_map.mp hnew
      cases hquotable : found.state.isQuotable with
      | false => exact viewSound_of_not_quotable hquotable _
      | true =>
          have hready : found.state = .ready := of_decide_eq_true hquotable
          rw [(BookSynchronizer.mem_trail hfound).2 hready]
          exact viewSound_of_liveSound
            (BookSynchronizer.liveSound_step event h.session.liveSound) _

theorem current_of_lastView {found : BookSynchronizer} {other : SymbolState}
    (hlast : lastView state = viewOf other found) (hstate : found.state = state.sync.state)
    (hready : found.state = .ready → found = state.sync) : Current state where
  state_eq := by
    rw [hlast]
    exact hstate
  levels hafter := by
    have hsame := hready (hstate.trans hafter)
    rw [hlast, hsame]
    simp [viewOf, hafter, SessionState.isQuotable]

/-- Storing a view of the session as it stands brings the readers up to date. -/
theorem current_withView (state : SymbolState) : Current (withView state) := by
  have hlast : lastView (withView state) = viewOf state state.sync := by
    simp [lastView, withView]
  exact current_of_lastView hlast rfl fun _ => rfl

/-- A call that brings no update keeps the readers up to date by its callbacks alone. -/
theorem Current.calledBack (h : Current state) {event : BookSynchronizer.Event}
    (hupdate : ∀ update, event.op ≠ .update update) (changes : List StateChange) :
    Current
      (calledBack { state with sync := BookSynchronizer.step event state.sync }
        (BookSynchronizer.trail event state.sync) changes) := by
  obtain ⟨hnone, hlast⟩ := BookSynchronizer.getLast_trail event state.sync
  cases hfound : (BookSynchronizer.trail event state.sync).getLast? with
  | some found =>
      obtain ⟨hstate, hready⟩ := hlast found hfound
      have hview : lastView (BinanceMarketData.calledBack
          { state with sync := BookSynchronizer.step event state.sync }
          (BookSynchronizer.trail event state.sync) changes) = viewOf state found := by
        simp only [lastView, BinanceMarketData.calledBack, List.getLast?_append, List.getLast?_map,
          hfound, Option.map_some, Option.some_or, Option.getD_some]
        rfl
      exact current_of_lastView hview hstate hready
  | none =>
      have hempty := List.getLast?_eq_none_iff.mp hfound
      have hsame := hnone hempty
      have hview : ∀ sync, lastView (BinanceMarketData.calledBack { state with sync := sync }
          (BookSynchronizer.trail event state.sync) changes) = lastView state := by
        intro sync
        simp [lastView, BinanceMarketData.calledBack, hempty]
      refine ⟨?_, fun hready => ?_⟩
      · rw [hview]
        exact h.state_eq.trans hsame.symm
      · have hbefore : state.sync.state = .ready := hsame.symm.trans hready
        have hbook := BookSynchronizer.book_eq_of_ready hupdate hbefore hready
        rw [hview]
        simp only [BinanceMarketData.calledBack, hbook]
        exact h.levels hbefore

end BinanceMarketData

end MmEngine.Exchange
