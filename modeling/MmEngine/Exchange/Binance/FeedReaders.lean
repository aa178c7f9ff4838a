/-
# What the readers of the adapter are told

Other threads ask the adapter for the state of a session, for the age of its data and for a
view of its book. Between two steps of its thread the first two are the session's own state
and the age of the last update or trade that the sink was handed. A view comes through a
snapshot lock, from whichever store the memory shows the reader: it may be old, and it is
never one that a reader must not rely on.
-/

import MmEngine.Common.SeqlockSafety
import MmEngine.Exchange.Binance.FeedJournal

namespace MmEngine.Exchange

open Book Wire

namespace BinanceMarketData

variable {config : MarketDataConfig} {a : BinanceMarketData} {state : SymbolState} {slot : Nat}

/-- An active slot is the one that is found for its symbol. -/
theorem find_of_active (hdistinct : (a.symbols.map SymbolState.symbol).Nodup)
    (hmem : state ∈ a.symbols) (hactive : state.active = true) :
    (a.find state.symbol).bind (fun slot => a.symbols[slot]?) = some state := by
  obtain ⟨i, hi⟩ := List.mem_iff_getElem?.mp hmem
  cases hfind : a.find state.symbol with
  | none =>
      have hother := List.findIdx?_eq_none_iff.mp hfind state hmem
      simp [hactive] at hother
  | some slot =>
      obtain ⟨found, hslot, hsymbol, -⟩ := find_spec hfind
      have hlt : slot < (a.symbols.map SymbolState.symbol).length := by
        simpa using lt_of_slot hslot
      have hsame : slot = i := by
        refine (List.getElem?_inj hlt hdistinct).mp ?_
        rw [List.getElem?_map, List.getElem?_map, hslot, hi]
        exact congrArg some hsymbol
      rw [Option.bind_some, hsame, hi]

/-- Without an active slot nothing is found. -/
theorem find_of_inactive {symbol : Symbol}
    (hnone : ∀ state ∈ a.symbols, state.symbol = symbol → state.active = false) :
    a.find symbol = none := by
  cases hfind : a.find symbol with
  | none => rfl
  | some slot =>
      obtain ⟨found, hslot, hsymbol, hactive⟩ := find_spec hfind
      rw [hnone found (List.mem_of_getElem? hslot) hsymbol] at hactive
      exact absurd hactive Bool.false_ne_true

section Runs

variable (parse : List Char → Option Json) (clock : Nat → Nanos)

/-- Each symbol that is subscribed to has a session of its own, which the data the sink was
handed from then on brings about again; the sink has had every change of it, one after the
other along the table of the session. -/
theorem sessions_of_run (config : MarketDataConfig) (ops : List Op) :
    let start : BinanceMarketData := { config := config }
    let a := Machine.run (step parse clock) ops start
    a.symbols.length ≤ kMaxSymbols ∧ (a.symbols.map SymbolState.symbol).Nodup ∧
      ∀ state ∈ a.symbols,
        Journaled config (handedSince parse clock state.symbol ops start) state ∧
        sessionReports state.symbol a.handed = state.sync.changes.map sessionReport ∧
        Leads .disconnected state.sync.changes state.sync.state := by
  intro start a
  have hsettled : Settled config a := .run parse clock config ops
  refine ⟨hsettled.capacity, hsettled.distinct, fun state hstate => ?_⟩
  obtain ⟨events, -, hrun⟩ := (hsettled.slots state hstate).session
  refine ⟨(journaled_run parse clock config ops state hstate).1, hsettled.reported state hstate, ?_⟩
  rw [hrun]
  exact BookSynchronizer.leads_run _ _ events

/-- Asked for a symbol that is subscribed to, the adapter tells the state of its session and
the age of the last update or trade that the sink was handed since, or that there was none
yet; asked for any other, that there is neither. -/
theorem answers_of_run (config : MarketDataConfig) (ops : List Op) (now : Nanos) :
    let start : BinanceMarketData := { config := config }
    let a := Machine.run (step parse clock) ops start
    (∀ state ∈ a.symbols, state.active = true →
      a.sessionState state.symbol = state.sync.state ∧
        a.dataAgeNs state.symbol now =
          match (streamTimes state.symbol
            (handedSince parse clock state.symbol ops start)).getLast? with
          | some received => now - received
          | none => rawMax) ∧
      ∀ symbol, (∀ state ∈ a.symbols, state.symbol = symbol → state.active = false) →
        a.sessionState symbol = .disconnected ∧ a.dataAgeNs symbol now = rawMax := by
  intro start a
  have hsettled : Settled config a := .run parse clock config ops
  refine ⟨fun state hstate hactive => ?_, fun symbol hnone => ?_⟩
  · have hfind := find_of_active hsettled.distinct hstate hactive
    have hdated := (journaled_run parse clock config ops state hstate).2 hactive
    refine ⟨?_, ?_⟩
    · simp only [sessionState, hfind]
      exact (hsettled.slots state hstate).published hactive
    · rw [hdated]
      cases hdata : state.hasData with
      | true => simp only [dataAgeNs, hfind, hdata, if_true]
      | false => simp only [dataAgeNs, hfind, hdata, Bool.false_eq_true, if_false]
  · have hfind := find_of_inactive hnone
    simp only [sessionState, dataAgeNs, hfind, Option.bind_none, and_self]

/-- Every view that was ever stored is sound, and the last one shows the session as it is. -/
theorem views_of_run (config : MarketDataConfig) (ops : List Op) :
    let a := Machine.run (step parse clock) ops { config := config }
    ∀ state ∈ a.symbols, (∀ view ∈ state.views, ViewSound state.symbol view) ∧ Current state := by
  intro a state hstate
  have hsettled : Settled config a := .run parse clock config ops
  exact ⟨(hsettled.slots state hstate).views, hsettled.current state hstate⟩

/-- Any number of stores leaves a payload that was stored, or the zeroed one. -/
theorem published_cases {R T : Type} {image : SeqlockImage T} (s : SeqlockSystem R image)
    (count : Nat) : s.published count = s.published 0 ∨ s.published count ∈ s.stores := by
  cases count with
  | zero => exact .inl rfl
  | succ count =>
      have hstored : s.published (count + 1) = (s.stores[count]?).getD (s.published 0) :=
        List.getD_eq_getElem?_getD
      rw [hstored]
      cases hget : s.stores[count]? with
      | none => exact .inl rfl
      | some value => exact .inr (List.mem_of_getElem? hget)

section Lock

variable {R T : Type} [DecidableEq R] {image : SeqlockImage T}

/-- The writer of the lock of a slot has stored its views, or the first of them. A reader
gets the zeroed payload, from before any store, or a view that is sound, and none that was
stored before one it has had; this is so whatever the memory shows it, until the counter of
the lock comes round. -/
theorem readers_of_run (config : MarketDataConfig) (ops : List Op) (state : SymbolState)
    (view : T → BookView) (accesses : List (SeqlockAccess R T)) (r : R) :
    let a := Machine.run (step parse clock) ops { config := config }
    let s := Machine.run SeqlockSystem.step accesses (.init : SeqlockSystem R image)
    state ∈ a.symbols → s.stores.map view <+: state.views → s.stores.length < 2 ^ 63 →
      (∀ value, .loaded value ∈ s.seen r →
        value = s.published 0 ∨ ViewSound state.symbol (view value)) ∧
      ∃ versions : List Nat, List.Forall₂ s.SeesVersion versions (s.seen r) ∧
        versions.Pairwise (· ≤ ·) := by
  intro a s hstate hstores hfits
  have hsettled : Settled config a := .run parse clock config ops
  obtain ⟨floor, hreader⟩ := (SeqlockInvariant.run accesses : SeqlockInvariant s).reader r
  obtain ⟨versions, hall, hordered, -⟩ := hreader.seen hfits
  refine ⟨fun value hvalue => ?_, versions, hall, hordered⟩
  obtain ⟨i, hi, hget⟩ := List.mem_iff_getElem.mp hvalue
  obtain ⟨hlength, hsees⟩ := List.forall₂_iff_get.mp hall
  have hsaw := hsees i (hlength ▸ hi) hi
  rw [List.get_eq_getElem, List.get_eq_getElem, hget] at hsaw
  have hlt : i < versions.length := hlength ▸ hi
  rcases published_cases s versions[i] with hzeroed | hstored
  · exact .inl (hsaw.trans hzeroed)
  · refine .inr ((hsettled.slots state hstate).views _ (hstores.subset ?_))
    exact List.mem_map_of_mem (hsaw ▸ hstored)

end Lock

end Runs

/-- Bytes of a word, the lowest first. -/
def packBytes (bytes : List Nat) : SeqlockWord :=
  .ofNat 64 (bytes.foldr (fun byte rest => byte % 256 + 256 * rest) 0)

def byteAt (word : SeqlockWord) (i : Nat) : Nat := (word >>> (8 * i)).toNat % 256

def stateCodes : List SessionState :=
  [.disconnected, .connecting, .connected, .authenticated, .subscribed, .syncing, .ready, .stale,
    .resyncRequired, .backoff, .error]

def packLevels (levels : List PriceLevel) : List SeqlockWord :=
  (levels.flatMap fun level =>
    [.ofInt 64 level.price.raw, .ofInt 64 level.quantity.raw]).rightpad (2 * kPublishedDepth) 0

/-- The fields of a view in words: four for the symbol and the state, one for each number and
one for both counts, and two for each level of a full side. -/
def packView (view : BookView) : Fin 48 → SeqlockWord :=
  let chars := view.symbol.chars.map Char.toNat
  let words := [packBytes (chars.take 8), packBytes ((chars.drop 8).take 8),
    packBytes (chars.drop 16), packBytes [chars.length, stateCodes.idxOf view.state],
    view.lastUpdateId.toBitVec, .ofInt 64 view.exchangeNs, .ofInt 64 view.recvNs,
    packBytes [view.bids.length, view.asks.length]] ++ packLevels view.bids ++ packLevels view.asks
  fun i => words.getD i 0

def unpackLevels (word : Nat → SeqlockWord) (count : Nat) : List PriceLevel :=
  (List.range (min count kPublishedDepth)).map fun i =>
    ⟨Fixed.narrow (word (2 * i)).toInt, Fixed.narrow (word (2 * i + 1)).toInt⟩

theorem length_unpackLevels (word : Nat → SeqlockWord) (count : Nat) :
    (unpackLevels word count).length ≤ kPublishedDepth := by
  rw [unpackLevels, List.length_map, List.length_range]
  exact min_le_right _ _

/-- What a reader takes the words for. -/
def unpackView (words : Fin 48 → SeqlockWord) : BookView :=
  let word i := if h : i < 48 then words ⟨i, h⟩ else 0
  { symbol := (InlineString.assign ((List.range (byteAt (word 3) 0)).map fun i =>
      Char.ofNat (byteAt (word (i / 8)) (i % 8)))).1
    state := stateCodes.getD (byteAt (word 3) 1) .disconnected
    lastUpdateId := ⟨word 4⟩
    exchangeNs := (word 5).toInt
    recvNs := (word 6).toInt
    bids := unpackLevels (fun i => word (8 + i)) (byteAt (word 7) 0)
    asks := unpackLevels (fun i => word (28 + i)) (byteAt (word 7) 1)
    length_bids := length_unpackLevels _ _
    length_asks := length_unpackLevels _ _ }

def sampleBody : List Char :=
  "\x7b\"lastUpdateId\":7,\"bids\":".toList ++ levelsText [("100", "2"), ("99", "1")] ++
    ",\"asks\":".toList ++ levelsText [("101", "3")] ++ "\x7d".toList

/-- The parser, on that answer and on no other text. -/
def sampleReply (text : List Char) : Option Json :=
  if text = sampleBody then
    some (.object [("lastUpdateId", .numberUnsigned 7),
      ("bids", .array [levelJson ("100", "2"), levelJson ("99", "1")]),
      ("asks", .array [levelJson ("101", "3")])])
  else none

/-- A symbol is subscribed to, connected and given its image. -/
def sampleFeed : BinanceMarketData :=
  Machine.run (step sampleReply fun reading => reading)
    [.subscribe { symbol := fromVenueSymbol "BTCUSDT" }, .start .ok, .wsState .connecting "" 0,
      .wsState .connected "" 0, .timer, .reply 0 (.ok sampleBody)]
    { config := {} }

theorem sampleFeed_symbols : 0 < sampleFeed.symbols.length := by decide +kernel

def sampleSlot : SymbolState := sampleFeed.symbols.get ⟨0, sampleFeed_symbols⟩

/-- The writer stores the views of the slot one after the other, and a reader loads one. -/
def sampleLock : SeqlockSystem Bool (SeqlockImage.words 48) :=
  Machine.run SeqlockSystem.step
    ((sampleSlot.views.flatMap fun view => List.replicate 53 (.store (packView view) 0)) ++
      List.replicate 55 (.load true 2 0))
    .init

/-- The last of the eight views shows two bids and one ask, and the reader has had one. -/
theorem readers_of_run_ready :
    sampleLock.stores.map unpackView = sampleSlot.views ∧ (sampleLock.seen true).length = 1 ∧
      sampleSlot.views.getLast?.map (fun view => (view.bids.length, view.asks.length)) =
        some (2, 1) ∧
      (∀ words, .loaded words ∈ sampleLock.seen true →
        words = sampleLock.published 0 ∨ ViewSound sampleSlot.symbol (unpackView words)) ∧
      ∃ versions : List Nat,
        List.Forall₂ sampleLock.SeesVersion versions (sampleLock.seen true) ∧
          versions.Pairwise (· ≤ ·) := by
  have hrun : (sampleLock.stores.map unpackView = sampleSlot.views ∧
      (sampleLock.seen true).length = 1 ∧
      sampleSlot.views.getLast?.map (fun view => (view.bids.length, view.asks.length)) =
        some (2, 1)) ∧ sampleLock.stores.length < 2 ^ 63 := by decide +kernel
  obtain ⟨⟨hstores, hseen, hlast⟩, hfits⟩ := hrun
  have hprefix : sampleLock.stores.map unpackView <+: sampleSlot.views := by rw [hstores]
  refine ⟨hstores, hseen, hlast, ?_⟩
  exact readers_of_run sampleReply (fun reading => reading) {} _ sampleSlot unpackView _ true
    (List.get_mem _ _) hprefix hfits

end BinanceMarketData

end MmEngine.Exchange
