/-
# The venue's trading rules

What the codec makes of the answer that lists instruments. Most of the answer is of no
interest and is passed over: entries without a name, instruments nobody asked for, filters
of other kinds and fields that cannot be read. What is left is published only when an order
can be checked against it.
-/

import MmEngine.Common.Instrument
import MmEngine.Exchange.Binance.WireCodec
import MmEngine.Lib.Table

namespace MmEngine.Exchange.Wire

/-- An event that carries the rules of an instrument. -/
structure InstrumentUpdateEvent where
  stamps : EventStamps
  spec : InstrumentSpec
  deriving DecidableEq

/-- What a decode of the rules leaves. -/
structure DecodedInstruments where
  status : Status
  lastError : DecodeError
  out : List InstrumentUpdateEvent

/-- A text field of an entry. -/
def text? (entry : Json) (name : String) : Option String :=
  match entry.get? name with
  | some (.string text) => some text
  | _ => none

/-- One filter of an instrument. A field that cannot be read stays what it was. -/
def applyFilter (spec : InstrumentSpec) (filter : Json) : InstrumentSpec :=
  match text? filter "filterType" with
  | none => spec
  | some type =>
      if type = "PRICE_FILTER" then
        { spec with tickSize := optional filter "tickSize" parseDecimal spec.tickSize }
      else if type = "LOT_SIZE" then
        { spec with
          lotSize := optional filter "stepSize" parseDecimal spec.lotSize
          minQty := optional filter "minQty" parseDecimal spec.minQty
          maxQty := optional filter "maxQty" parseDecimal spec.maxQty }
      else if type = "NOTIONAL" || type = "MIN_NOTIONAL" then
        { spec with minNotional := optional filter "minNotional" parseDecimal spec.minNotional }
      else spec

/-- The filters of an entry. -/
def filters (entry : Json) : List Json :=
  match entry.get? "filters" with
  | some (.array items) => items
  | _ => []

/-- The rules of a named entry, valid or not. -/
def readSpec (entry : Json) (symbol : Symbol) : InstrumentSpec :=
  let spec : InstrumentSpec :=
    { symbol := symbol
      base := match text? entry "baseAsset" with
        | some name => (InlineString.assign name.toList).1
        | none => .empty
      quote := match text? entry "quoteAsset" with
        | some name => (InlineString.assign name.toList).1
        | none => .empty
      status := match text? entry "status" with
        | some status => if status = "TRADING" then .trading else .halted
        | none => .unknown }
  (filters entry).foldl applyFilter spec

/-- The rules an entry is published with, if it is. -/
def entrySpec (wanted : List Symbol) (entry : Json) : Option InstrumentSpec :=
  match text? entry "symbol" with
  | none => none
  | some name =>
      let symbol := fromVenueSymbol name
      if !wanted.isEmpty && !wanted.contains symbol then none
      else
        let spec := readSpec entry symbol
        -- Without a tick or a lot an order cannot be checked.
        if spec.isValid then some spec else none

/-- The loop over the entries, with as many readings of the clock as events. -/
def entryLoop (wanted : List Symbol) (recvNs : Nanos) (steadyNs : Nat → Nanos) :
    List Json → Nat → List InstrumentUpdateEvent → List InstrumentUpdateEvent
  | [], _, out => out
  | entry :: entries, reading, out =>
      match entrySpec wanted entry with
      | none => entryLoop wanted recvNs steadyNs entries reading out
      | some spec =>
          entryLoop wanted recvNs steadyNs entries (reading + 1)
            (out ++ [{ stamps := { recvNs := recvNs, parseNs := steadyNs reading }, spec := spec }])

def failInstruments (error : DecodeError) (detail : String) (out : List InstrumentUpdateEvent) :
    DecodedInstruments where
  status := (fail error detail []).status
  lastError := error
  out := out

/-- Decodes the answer, for the instruments that are wanted or for all. -/
def decodeExchangeInfo (parse : List Char → Option Json) (steadyNs : Nat → Nanos)
    (body : List Char) (wanted : List Symbol) (recvNs : Nanos) (out : List InstrumentUpdateEvent) :
    DecodedInstruments :=
  if kMaxFrameBytes < body.length then
    failInstruments .tooLarge "exchangeInfo exceeds the decode limit" out
  else
    match parse body with
    | none => failInstruments .notJson "exchangeInfo is not a JSON object" out
    | some root =>
        if !root.isObject then failInstruments .notJson "exchangeInfo is not a JSON object" out
        else
          match root.get? "symbols" with
          | some (.array entries) =>
              ⟨.ok, .none, entryLoop wanted recvNs steadyNs entries 0 out⟩
          | _ => failInstruments .missingField "exchangeInfo has no symbols array" out

/-- The numbers that the filters of some kinds give for a field, in order. -/
def readings {tag : FixedTag} (kinds : List String) (name : String) (items : List Json) :
    List (Fixed tag) :=
  items.filterMap fun filter =>
    match text? filter "filterType" with
    | some type => if type ∈ kinds then (filter.get? name).bind parseDecimal else none
    | none => none

/-- A fold that keeps a field unless an item gives it another value holds the last value
given. -/
theorem foldl_field {S A B : Type} {update : S → A → S} {field : S → B} {read : A → Option B}
    (hupdate : ∀ s a, field (update s a) = (read a).getD (field s)) (items : List A) (s : S) :
    field (items.foldl update s) = (items.filterMap read).getLast?.getD (field s) := by
  induction items generalizing s with
  | nil => rfl
  | cons item items ih =>
      rw [List.foldl_cons, ih, hupdate]
      cases hread : read item with
      | none => rw [List.filterMap_cons_none hread, Option.getD_none]
      | some value =>
          rw [List.filterMap_cons_some hread, List.getLast?_cons, Option.getD_some,
              Option.getD_some]

theorem optional_eq {α : Type} (node : Json) (name : String) (read : Json → Option α) (value : α) :
    optional node name read value = ((node.get? name).bind read).getD value := rfl

/-- What the filters of an entry leave of each field: the last number given for it. -/
theorem readSpec_fields (entry : Json) (symbol : Symbol) :
    (readSpec entry symbol).symbol = symbol ∧
      (readSpec entry symbol).tickSize =
        (readings ["PRICE_FILTER"] "tickSize" (filters entry)).getLast?.getD .zero ∧
      (readSpec entry symbol).lotSize =
        (readings ["LOT_SIZE"] "stepSize" (filters entry)).getLast?.getD .zero ∧
      (readSpec entry symbol).minQty =
        (readings ["LOT_SIZE"] "minQty" (filters entry)).getLast?.getD .zero ∧
      (readSpec entry symbol).maxQty =
        (readings ["LOT_SIZE"] "maxQty" (filters entry)).getLast?.getD .zero ∧
      (readSpec entry symbol).minNotional =
        (readings ["NOTIONAL", "MIN_NOTIONAL"] "minNotional" (filters entry)).getLast?.getD
          .zero := by
  rw [readSpec]
  refine ⟨?_, ?_, ?_, ?_, ?_, ?_⟩
  · have hkept : ∀ spec filter, (applyFilter spec filter).symbol = spec.symbol := by
      intro spec filter
      rw [applyFilter]
      split
      · rfl
      · split
        · rfl
        · split
          · rfl
          · split <;> rfl
    refine Table.foldl_invariant (I := fun spec => spec.symbol = symbol)
      (fun spec filter hspec => (hkept spec filter).trans hspec) _ ?_
    rfl
  all_goals
    refine foldl_field (fun spec filter => ?_) (filters entry) _
    rw [applyFilter]
    cases text? filter "filterType" with
    | none => rfl
    | some type =>
        by_cases hprice : type = "PRICE_FILTER"
        · subst hprice
          simp [optional_eq]
        · by_cases hlot : type = "LOT_SIZE"
          · subst hlot
            simp [optional_eq]
          · by_cases hnotional : type = "NOTIONAL" ∨ type = "MIN_NOTIONAL"
            · rcases hnotional with rfl | rfl <;> simp [optional_eq]
            · rw [not_or] at hnotional
              simp [hprice, hlot, hnotional.1, hnotional.2]

/-- An entry is published exactly when it is named, wanted and valid. -/
theorem entrySpec_eq_some_iff {wanted : List Symbol} {entry : Json} {spec : InstrumentSpec} :
    entrySpec wanted entry = some spec ↔
      ∃ name, text? entry "symbol" = some name ∧
        (wanted = [] ∨ fromVenueSymbol name ∈ wanted) ∧
        spec = readSpec entry (fromVenueSymbol name) ∧ spec.isValid = true := by
  rw [entrySpec]
  cases text? entry "symbol" with
  | none => simp
  | some name =>
      have hwanted : (!wanted.isEmpty && !wanted.contains (fromVenueSymbol name)) = true ↔
          ¬(wanted = [] ∨ fromVenueSymbol name ∈ wanted) := by
        simp
      simp only [Option.some.injEq, exists_eq_left', hwanted]
      by_cases hasked : wanted = [] ∨ fromVenueSymbol name ∈ wanted
      · rw [if_neg (not_not.mpr hasked)]
        by_cases hvalid : (readSpec entry (fromVenueSymbol name)).isValid = true
        · rw [if_pos hvalid, Option.some.injEq]
          constructor
          · rintro rfl
            exact ⟨hasked, rfl, hvalid⟩
          · rintro ⟨-, rfl, -⟩
            rfl
        · rw [if_neg hvalid]
          constructor
          · exact fun h => absurd h (by simp)
          · rintro ⟨-, rfl, h⟩
            exact absurd h hvalid
      · rw [if_pos hasked]
        constructor
        · exact fun h => absurd h (by simp)
        · exact fun h => absurd h.1 hasked

/-- The loop appends the rules of the entries that have some, in order. -/
theorem entryLoop_eq (wanted : List Symbol) (recvNs : Nanos) (steadyNs : Nat → Nanos)
    (entries : List Json) (reading : Nat) (out : List InstrumentUpdateEvent) :
    ∃ fresh, entryLoop wanted recvNs steadyNs entries reading out = out ++ fresh ∧
      fresh.map InstrumentUpdateEvent.spec = entries.filterMap (entrySpec wanted) := by
  induction entries generalizing reading out with
  | nil => exact ⟨[], (List.append_nil out).symm, rfl⟩
  | cons entry entries ih =>
      rw [entryLoop]
      cases hspec : entrySpec wanted entry with
      | none =>
          obtain ⟨fresh, hout, hspecs⟩ := ih reading out
          exact ⟨fresh, hout, by rw [hspecs, List.filterMap_cons_none hspec]⟩
      | some spec =>
          let event : InstrumentUpdateEvent :=
            { stamps := { recvNs := recvNs, parseNs := steadyNs reading }, spec := spec }
          obtain ⟨fresh, hout, hspecs⟩ := ih (reading + 1) (out ++ [event])
          refine ⟨event :: fresh, ?_, ?_⟩
          · rw [← List.singleton_append, ← List.append_assoc]
            exact hout
          · rw [List.filterMap_cons_some hspec, List.map_cons, hspecs]

/-- The entries of an answer that can be read at all. -/
def listed (parse : List Char → Option Json) (body : List Char) : List Json :=
  if kMaxFrameBytes < body.length then []
  else
    match parse body with
    | none => []
    | some root =>
        match root.get? "symbols" with
        | some (.array entries) => entries
        | _ => []

/-- A decode either fails and adds nothing, or adds the rules of the listed entries that
have some. -/
theorem decodeExchangeInfo_eq (parse : List Char → Option Json) (steadyNs : Nat → Nanos)
    (body : List Char) (wanted : List Symbol) (recvNs : Nanos) (out : List InstrumentUpdateEvent) :
    ∃ fresh, (decodeExchangeInfo parse steadyNs body wanted recvNs out).out = out ++ fresh ∧
      ((decodeExchangeInfo parse steadyNs body wanted recvNs out).status ≠ .ok → fresh = []) ∧
      fresh.map InstrumentUpdateEvent.spec =
        (listed parse body).filterMap (entrySpec wanted) := by
  have hfailed : ∀ error detail, listed parse body = [] → ∃ fresh,
      (failInstruments error detail out).out = out ++ fresh ∧
      ((failInstruments error detail out).status ≠ .ok → fresh = []) ∧
      fresh.map InstrumentUpdateEvent.spec =
        (listed parse body).filterMap (entrySpec wanted) := by
    intro error detail hnone
    exact ⟨[], (List.append_nil out).symm, fun _ => rfl, by rw [hnone]; rfl⟩
  rw [decodeExchangeInfo]
  split
  · rename_i hlarge
    exact hfailed _ _ (if_pos hlarge)
  · rename_i hsize
    split
    · rename_i hparse
      exact hfailed _ _ (by rw [listed, if_neg hsize, hparse])
    · rename_i root hparse
      split
      · rename_i hobject
        refine hfailed _ _ ?_
        rw [listed, if_neg hsize, hparse]
        cases root with
        | object fields => exact absurd hobject (by simp [Json.isObject])
        | _ => rfl
      · split
        · rename_i entries hentries
          obtain ⟨fresh, hout, hspecs⟩ := entryLoop_eq wanted recvNs steadyNs entries 0 out
          refine ⟨fresh, hout, fun hstatus => absurd rfl hstatus, ?_⟩
          rw [hspecs, listed, if_neg hsize, hparse]
          simp only [hentries]
        · rename_i hnone
          refine hfailed _ _ ?_
          rw [listed, if_neg hsize, hparse]
          simp only

/-- Whatever the venue answers, what is published are rules an order can be checked
against, of instruments that were asked for, with each field the last number that the
filters of one listed entry of that name give for it; no such entry is left out, and an
answer that is refused publishes nothing. -/
theorem published_rules (parse : List Char → Option Json) (steadyNs : Nat → Nanos)
    (body : List Char) (wanted : List Symbol) (recvNs : Nanos) (out : List InstrumentUpdateEvent) :
    ∃ fresh, (decodeExchangeInfo parse steadyNs body wanted recvNs out).out = out ++ fresh ∧
      ((decodeExchangeInfo parse steadyNs body wanted recvNs out).status ≠ .ok → fresh = []) ∧
      (∀ event ∈ fresh, event.spec.isValid = true ∧
        (wanted = [] ∨ event.spec.symbol ∈ wanted) ∧
        ∃ entry ∈ listed parse body,
          (text? entry "symbol").map fromVenueSymbol = some event.spec.symbol ∧
          event.spec.tickSize =
            (readings ["PRICE_FILTER"] "tickSize" (filters entry)).getLast?.getD .zero ∧
          event.spec.lotSize =
            (readings ["LOT_SIZE"] "stepSize" (filters entry)).getLast?.getD .zero ∧
          event.spec.minQty =
            (readings ["LOT_SIZE"] "minQty" (filters entry)).getLast?.getD .zero ∧
          event.spec.maxQty =
            (readings ["LOT_SIZE"] "maxQty" (filters entry)).getLast?.getD .zero ∧
          event.spec.minNotional =
            (readings ["NOTIONAL", "MIN_NOTIONAL"] "minNotional" (filters entry)).getLast?.getD
              .zero) ∧
      ∀ entry ∈ listed parse body, ∀ name, text? entry "symbol" = some name →
        (wanted = [] ∨ fromVenueSymbol name ∈ wanted) →
        (readSpec entry (fromVenueSymbol name)).isValid = true →
        ∃ event ∈ fresh, event.spec = readSpec entry (fromVenueSymbol name) := by
  obtain ⟨fresh, hout, hstatus, hspecs⟩ :=
    decodeExchangeInfo_eq parse steadyNs body wanted recvNs out
  refine ⟨fresh, hout, hstatus, fun event hevent => ?_,
    fun entry hentry name hname hasked hvalid => ?_⟩
  · have hmem : event.spec ∈ (listed parse body).filterMap (entrySpec wanted) := by
      rw [← hspecs]
      exact List.mem_map_of_mem hevent
    obtain ⟨entry, hentry, hspec⟩ := List.mem_filterMap.mp hmem
    obtain ⟨name, hname, hasked, heq, hvalid⟩ := entrySpec_eq_some_iff.mp hspec
    obtain ⟨hsymbol, hfields⟩ := readSpec_fields entry (fromVenueSymbol name)
    refine ⟨hvalid, ?_, entry, hentry, ?_, ?_⟩
    · rw [heq, hsymbol]
      exact hasked
    · rw [heq, hsymbol, hname]
      rfl
    · rw [heq]
      exact hfields
  · have hspec : entrySpec wanted entry = some (readSpec entry (fromVenueSymbol name)) :=
      entrySpec_eq_some_iff.mpr ⟨name, hname, hasked, rfl, hvalid⟩
    have hmem := List.mem_filterMap.mpr ⟨entry, hentry, hspec⟩
    rw [← hspecs] at hmem
    exact List.mem_map.mp hmem

end MmEngine.Exchange.Wire
