/-
# Updates that come in chunks

A depth update with more levels than an event has room for reaches the session as a run of
events, and each of them is checked for a crossed or locked book as if it were the whole.
A session that takes the chunks ends where it would end with the update applied at once,
except when the update as a whole is fine and the book is crossed or locked in the middle
of it: then the book is given up.
-/

import MmEngine.Book.SnapshotOrder
import MmEngine.Exchange.Binance.BinanceCodec

namespace MmEngine.Book

open MmEngine.Exchange
open MmEngine.Exchange.BinanceCodec

/-- The levels of the update. -/
def depthLevels (update : DepthUpdate) : BookLevels := { bids := update.bids, asks := update.asks }

/-- An event with the identifiers of the update. -/
def chunkEvent (update : DepthUpdate) (levels : BookLevels) (isLast : Bool) : BookUpdateEvent where
  symbol := update.symbol
  firstUpdateId := update.firstId
  finalUpdateId := update.finalId
  prevFinalUpdateId := update.prevFinal
  levels := levels
  isLast := isLast

/-- The levels of the next chunk. -/
def nextChunk (bids asks : List PriceLevel) : BookLevels where
  bids := bids.take kMaxLevelsPerEvent
  asks := asks.take kMaxLevelsPerEvent

theorem acceptable_of_readLevel {level : PriceLevel} (h : readLevel level = true) :
    Acceptable level := by
  rw [readLevel, Bool.and_eq_true, Fixed.isPositive_iff] at h
  exact ⟨h.1, by simpa [Fixed.isNegative] using h.2⟩

theorem fillChunk_eq_some {cursor chunk : List PriceLevel} (h : fillChunk cursor = some chunk) :
    chunk = cursor.take kMaxLevelsPerEvent ∧ ∀ level ∈ chunk, Acceptable level := by
  rw [fillChunk] at h
  split at h
  · rename_i hread
    obtain rfl := Option.some.inj h
    rw [List.all_eq_true] at hread
    exact ⟨rfl, fun level hlevel => acceptable_of_readLevel (hread level hlevel)⟩
  · cases h

/-- A run of chunks is its first chunk, and the run from where that ends. -/
theorem fillChunks_cases {update : DepthUpdate} {bids asks : List PriceLevel}
    {chunks : List BookUpdateEvent} (h : fillChunks update bids asks = some chunks) :
    ((∀ level ∈ (nextChunk bids asks).bids, Acceptable level) ∧
        ∀ level ∈ (nextChunk bids asks).asks, Acceptable level) ∧
      (bids.drop kMaxLevelsPerEvent = [] ∧ asks.drop kMaxLevelsPerEvent = [] ∧
          chunks = [chunkEvent update (nextChunk bids asks) true] ∨
        ∃ rest, fillChunks update (bids.drop kMaxLevelsPerEvent) (asks.drop kMaxLevelsPerEvent) =
            some rest ∧
          chunks = chunkEvent update (nextChunk bids asks) false :: rest) := by
  rw [fillChunks] at h
  split at h
  · rename_i chunkBids chunkAsks hbids hasks
    obtain ⟨rfl, hreadBids⟩ := fillChunk_eq_some hbids
    obtain ⟨rfl, hreadAsks⟩ := fillChunk_eq_some hasks
    refine ⟨⟨hreadBids, hreadAsks⟩, ?_⟩
    simp only at h
    split at h
    · rename_i hlast
      rw [Bool.and_eq_true, List.isEmpty_iff, List.isEmpty_iff] at hlast
      refine .inl ⟨hlast.1, hlast.2, ?_⟩
      rw [← Option.some.inj h, hlast.1, hlast.2]
      rfl
    · rename_i hmore
      obtain ⟨rest, hrest, rfl⟩ := Option.map_eq_some_iff.mp h
      refine .inr ⟨rest, hrest, ?_⟩
      rw [Bool.not_eq_true] at hmore
      rw [hmore]
      rfl
  · cases h

/-- Every chunk has the identifiers of the update. -/
theorem mem_fillChunks {update : DepthUpdate} {bids asks : List PriceLevel}
    {chunks : List BookUpdateEvent} (h : fillChunks update bids asks = some chunks)
    {chunk : BookUpdateEvent} (hchunk : chunk ∈ chunks) :
    ∃ bids asks isLast, chunk = chunkEvent update (nextChunk bids asks) isLast := by
  induction chunks generalizing bids asks with
  | nil => cases hchunk
  | cons first chunks ih =>
      obtain ⟨-, ⟨-, -, hcons⟩ | ⟨rest, hrest, hcons⟩⟩ := fillChunks_cases h
      · rw [hcons, List.mem_singleton] at hchunk
        exact ⟨bids, asks, true, hchunk⟩
      · obtain ⟨rfl, rfl⟩ := List.cons.inj hcons
        rcases List.mem_cons.mp hchunk with rfl | hlater
        · exact ⟨bids, asks, false, rfl⟩
        · exact ih hrest hlater

theorem ne_nil_of_fillChunks {update : DepthUpdate} {bids asks : List PriceLevel}
    {chunks : List BookUpdateEvent} (h : fillChunks update bids asks = some chunks) :
    chunks ≠ [] := by
  obtain ⟨-, ⟨-, -, rfl⟩ | ⟨rest, -, rfl⟩⟩ := fillChunks_cases h
  · exact List.cons_ne_nil _ _
  · exact List.cons_ne_nil _ _

theorem acceptable_of_fillChunks {update : DepthUpdate} {bids asks : List PriceLevel}
    {chunks : List BookUpdateEvent} (h : fillChunks update bids asks = some chunks) :
    (∀ level ∈ bids, Acceptable level) ∧ ∀ level ∈ asks, Acceptable level := by
  induction chunks generalizing bids asks with
  | nil => exact absurd rfl (ne_nil_of_fillChunks h)
  | cons chunk chunks ih =>
      obtain ⟨⟨hbids, hasks⟩, ⟨hnoBids, hnoAsks, -⟩ | ⟨rest, hrest, hcons⟩⟩ := fillChunks_cases h
      · rw [List.drop_eq_nil_iff] at hnoBids hnoAsks
        rw [nextChunk, List.take_of_length_le hnoBids] at hbids
        rw [nextChunk, List.take_of_length_le hnoAsks] at hasks
        exact ⟨hbids, hasks⟩
      · obtain ⟨-, rfl⟩ := List.cons.inj hcons
        obtain ⟨hlaterBids, hlaterAsks⟩ := ih hrest
        rw [← List.take_append_drop kMaxLevelsPerEvent bids,
          ← List.take_append_drop kMaxLevelsPerEvent asks, List.forall_mem_append,
          List.forall_mem_append]
        exact ⟨⟨hbids, hlaterBids⟩, hasks, hlaterAsks⟩

/-- What the decoder checks of an update it takes. -/
theorem of_decodeDepthUpdate {update : DepthUpdate} {chunks : List BookUpdateEvent}
    (h : decodeDepthUpdate update = (.ok, chunks)) :
    update.firstId ≤ update.finalId ∧ fillChunks update update.bids update.asks = some chunks := by
  rw [decodeDepthUpdate] at h
  split at h
  · cases h
  split at h
  · cases h
  rename_i hids
  split at h
  · rename_i events hevents
    rw [hevents, (Prod.mk.inj h).2]
    exact ⟨UInt64.not_lt.mp hids, rfl⟩
  · cases h

namespace OrderBook

variable {book : OrderBook} {bids asks : List PriceLevel}

/-- The book is neither crossed nor locked after any number of chunks of the levels. -/
def Uncrossed (book : OrderBook) (bids asks : List PriceLevel) : Prop :=
  ∀ n, touchViolation
    (placeAll book.maxDepth .buy (bids.take (n * kMaxLevelsPerEvent)) book.bids)
    (placeAll book.maxDepth .sell (asks.take (n * kMaxLevelsPerEvent)) book.asks) = .none

theorem placeAll_take_succ (which : Side) (levels side : List PriceLevel) (n : Nat) :
    placeAll book.maxDepth which (levels.take ((n + 1) * kMaxLevelsPerEvent)) side =
      placeAll book.maxDepth which
        ((levels.drop kMaxLevelsPerEvent).take (n * kMaxLevelsPerEvent))
        (placeAll book.maxDepth which (levels.take kMaxLevelsPerEvent) side) := by
  rw [Nat.succ_mul, Nat.add_comm, List.take_add, placeAll_append]

/-- One chunk at a time. -/
theorem uncrossed_iff (htouch : touchViolation book.bids book.asks = .none) (finalUpdateId : Seq64)
    (dropped : Nat) : book.Uncrossed bids asks ↔
      (book.updated (nextChunk bids asks) finalUpdateId dropped).Uncrossed
        (bids.drop kMaxLevelsPerEvent) (asks.drop kMaxLevelsPerEvent) := by
  constructor
  · intro h n
    have hn := h (n + 1)
    rw [placeAll_take_succ, placeAll_take_succ] at hn
    exact hn
  · intro h n
    cases n with
    | zero => simpa [placeAll] using htouch
    | succ n =>
        rw [placeAll_take_succ, placeAll_take_succ]
        exact h n

/-- A book that is not crossed between chunks takes the first of them. -/
theorem Uncrossed.accepts (h : book.Uncrossed bids asks)
    (hread : (∀ level ∈ (nextChunk bids asks).bids, Acceptable level) ∧
      ∀ level ∈ (nextChunk bids asks).asks, Acceptable level) :
    book.Accepts (nextChunk bids asks) := by
  have hfirst := h 1
  rw [Nat.one_mul] at hfirst
  exact ⟨hread.1, hread.2, hfirst⟩

/-- Past the last chunk the whole update is in. -/
theorem Uncrossed.accepts_all (h : book.Uncrossed bids asks)
    (hbids : ∀ level ∈ bids, Acceptable level) (hasks : ∀ level ∈ asks, Acceptable level) :
    book.Accepts { bids := bids, asks := asks } := by
  have hall := h (bids.length + asks.length)
  have hcap : 1 ≤ kMaxLevelsPerEvent := by decide
  have hlong := Nat.le_mul_of_pos_right (bids.length + asks.length) hcap
  rw [List.take_of_length_le (by omega), List.take_of_length_le (by omega)] at hall
  exact ⟨hbids, hasks, hall⟩

/-- The levels past the first chunk go on top of it. -/
theorem image_updated_nextChunk (finalUpdateId : Seq64) (dropped : Nat) :
    ((book.updated (nextChunk bids asks) kNoSeq64 dropped).updated
        { bids := bids.drop kMaxLevelsPerEvent, asks := asks.drop kMaxLevelsPerEvent }
        finalUpdateId 0).image =
      (book.updated { bids := bids, asks := asks } finalUpdateId 0).image := by
  have hbids := @placeAll_append book.maxDepth .buy book.bids (bids.take kMaxLevelsPerEvent)
    (bids.drop kMaxLevelsPerEvent)
  have hasks := @placeAll_append book.maxDepth .sell book.asks (asks.take kMaxLevelsPerEvent)
    (asks.drop kMaxLevelsPerEvent)
  rw [List.take_append_drop] at hbids hasks
  rw [image_eq_iff]
  exact ⟨rfl, rfl, hbids.symm, hasks.symm, rfl, rfl, rfl, rfl, rfl, rfl, rfl⟩

/-- Cleared books over one symbol are alike. -/
theorem image_clear_congr {other : OrderBook} (hsymbol : book.symbol = other.symbol)
    (hdepth : book.maxDepth = other.maxDepth) : book.clear.image = other.clear.image := by
  rw [image_eq_iff]
  exact ⟨hsymbol, hdepth, rfl, rfl, rfl, rfl, rfl, rfl, rfl, rfl, rfl⟩

end OrderBook

namespace BookSynchronizer

/-! ## Runs of chunks -/

section Chunks

variable {s : BookSynchronizer} {update : DepthUpdate}

/-- The update is not in the book yet and continues from it. -/
def IsNext (book : OrderBook) (update : DepthUpdate) : Prop :=
  ¬Contains book (chunkEvent update (depthLevels update) true) ∧
    continuesFrom (chunkEvent update (depthLevels update) true) book.lastUpdateId = true

theorem legible_chunk (hsymbol : update.symbol = s.symbol) (hids : update.firstId ≤ update.finalId)
    (bids asks : List PriceLevel) (isLast : Bool) :
    s.Legible (chunkEvent update (nextChunk bids asks) isLast) := by
  refine ⟨hsymbol, ?_, fun _ => hids⟩
  simp [chunkEvent, nextChunk, BookLevels.countsAreSane]

/-- A chunk of the next update is taken exactly when its levels are accepted. -/
theorem follows_chunk_iff (hvalid : s.book.isValid = true) (hnext : IsNext s.book update)
    (bids asks : List PriceLevel) (isLast : Bool) :
    Follows s.book (chunkEvent update (nextChunk bids asks) isLast) ↔
      s.book.Accepts (nextChunk bids asks) := by
  have hsane : (nextChunk bids asks).countsAreSane = true := by
    simp [nextChunk, BookLevels.countsAreSane]
  have hadvances : advanceTo (chunkEvent update (nextChunk bids asks) isLast) ≠ kNoSeq64 →
      s.book.lastUpdateId ≤ advanceTo (chunkEvent update (nextChunk bids asks) isLast) := by
    cases isLast with
    | false => exact fun habsent => absurd rfl habsent
    | true =>
        intro hpresent
        have hnot : ¬update.finalId ≤ s.book.lastUpdateId := fun hle => hnext.1 ⟨hpresent, hle⟩
        exact UInt64.le_of_lt (UInt64.not_le.mp hnot)
  constructor
  · exact fun h => h.2.2.2.2
  · exact fun h => ⟨hnext.2, (OrderBook.isValid_iff.mp hvalid).1, hsane, hadvances, h⟩

/-- A session that has given its book up takes note of updates and does nothing. -/
theorem run_noted {events : List Event} {updates : List BookUpdateEvent} (hsound : s.book.Sound)
    (hstate : s.state = .resyncRequired) (hlegible : ∀ update ∈ updates, s.Legible update)
    (hbring : Bring events updates) :
    (Machine.run step events s).state = .resyncRequired ∧
      (Machine.run step events s).book = s.book := by
  induction updates generalizing s events with
  | nil =>
      rw [bring_nil.mp hbring]
      exact ⟨hstate, rfl⟩
  | cons update updates ih =>
      obtain ⟨now, later, rfl, hlater⟩ := bring_cons.mp hbring
      obtain ⟨hhere, hrest⟩ := List.forall_mem_cons.mp hlegible
      have hkeeps := keeps_onUpdate hsound update now
      have hstep : (s.onUpdate update now).2.state = .resyncRequired ∧
          (s.onUpdate update now).2.book = s.book := by
        have hexit := onUpdate_exit hsound update now
        generalize s.onUpdate update now = result at hexit
        cases hexit with
        | foreign hsymbol => exact absurd hhere.symbol hsymbol
        | malformed hnot => exact absurd hhere hnot
        | overflowed hlegible hbuffering => exact absurd hbuffering (by rw [hstate]; decide)
        | buffered hlegible hbuffering => exact absurd hbuffering (by rw [hstate]; decide)
        | repeated hlegible hlive => exact absurd hlive (by rw [hstate]; decide)
        | restarted hlegible hlive => exact absurd hlive (by rw [hstate]; decide)
        | applied hlegible hlive => exact absurd hlive (by rw [hstate]; decide)
        | noted hlegible hlive hbuffering => exact ⟨hstate, rfl⟩
      obtain ⟨hend, hbook⟩ := ih hkeeps.sound hstep.1
        (fun later hmem => (hrest later hmem).of_keeps hkeeps) hlater
      exact ⟨hend, hbook.trans hstep.2⟩

theorem Restarted.image_book {after : BookSynchronizer} (h : Restarted s after) :
    after.book.image = s.book.clear.image := by
  obtain ⟨book, hname, hdepth, hclear⟩ := h.book
  rw [hclear]
  exact OrderBook.image_clear_congr hname hdepth

/-- An update that does not follow costs the book, and those after it find none. -/
theorem run_of_not_follows {events : List Event} {first : BookUpdateEvent}
    {rest : List BookUpdateEvent} (hsound : s.book.Sound) (hready : s.state = .ready)
    (hlegible : ∀ update ∈ first :: rest, s.Legible update) (hnew : ¬Contains s.book first)
    (hbroken : ¬Follows s.book first) (hbring : Bring events (first :: rest)) :
    (Machine.run step events s).state = .resyncRequired ∧
      (Machine.run step events s).book.image = s.book.clear.image := by
  obtain ⟨now, later, rfl, hlater⟩ := bring_cons.mp hbring
  obtain ⟨hhere, hrest⟩ := List.forall_mem_cons.mp hlegible
  have hkeeps := keeps_onUpdate hsound first now
  rcases onUpdate_of_ready hsound hready hhere hnew now with ⟨hfollows, -⟩ | ⟨-, hrestarted⟩
  · exact absurd hfollows hbroken
  · obtain ⟨hend, hbook⟩ := run_noted hkeeps.sound (by rw [hrestarted.state, hready]; rfl)
      (fun update hupdate => (hrest update hupdate).of_keeps hkeeps) hlater
    exact ⟨hend, (congrArg OrderBook.image hbook).trans hrestarted.image_book⟩

theorem legible_chunks (hsymbol : update.symbol = s.symbol) (hids : update.firstId ≤ update.finalId)
    {bids asks : List PriceLevel} {chunks : List BookUpdateEvent}
    (h : fillChunks update bids asks = some chunks) : ∀ chunk ∈ chunks, s.Legible chunk := by
  intro chunk hchunk
  obtain ⟨bids, asks, isLast, rfl⟩ := mem_fillChunks h hchunk
  exact legible_chunk hsymbol hids bids asks isLast

/-- Where the chunks of the next update lead: to the book with all its levels when the book is
not crossed or locked between chunks, and to a book given up otherwise. -/
theorem run_chunks {bids asks : List PriceLevel} {chunks : List BookUpdateEvent}
    {events : List Event} (hsound : s.book.Sound) (hready : s.state = .ready)
    (hvalid : s.book.isValid = true) (hsymbol : update.symbol = s.symbol)
    (hids : update.firstId ≤ update.finalId) (hnext : IsNext s.book update)
    (hchunks : fillChunks update bids asks = some chunks) (hbring : Bring events chunks) :
    (s.book.Uncrossed bids asks → (Machine.run step events s).state = .ready ∧
        (Machine.run step events s).book.image =
          (s.book.updated { bids := bids, asks := asks } update.finalId 0).image) ∧
      (¬s.book.Uncrossed bids asks → (Machine.run step events s).state = .resyncRequired ∧
        (Machine.run step events s).book.image = s.book.clear.image) := by
  -- The book after a chunk is the one the rest is laid over, so it changes in the induction.
  induction chunks generalizing s bids asks events with
  | nil => exact absurd rfl (ne_nil_of_fillChunks hchunks)
  | cons chunk chunks ih =>
      obtain ⟨now, later, rfl, hlater⟩ := bring_cons.mp hbring
      obtain ⟨hread, hshape⟩ := fillChunks_cases hchunks
      have htouch := hsound.touch hvalid
      have hlegible := legible_chunks hsymbol hids hchunks
      have hkeeps := keeps_onUpdate hsound chunk now
      obtain ⟨isLast, hchunk⟩ : ∃ isLast, chunk = chunkEvent update
          (nextChunk bids asks) isLast := by
        rcases hshape with ⟨-, -, hcons⟩ | ⟨rest, -, hcons⟩
        · exact ⟨true, (List.cons.inj hcons).1⟩
        · exact ⟨false, (List.cons.inj hcons).1⟩
      have hnew : ¬Contains s.book chunk := by
        rw [hchunk]
        exact hnext.1
      have hiff := follows_chunk_iff hvalid hnext bids asks isLast
      rw [← hchunk] at hiff
      rcases onUpdate_of_ready hsound hready (hlegible chunk List.mem_cons_self) hnew now with
        ⟨hfollows, hstate, hbook⟩ | ⟨hbroken, hrestarted⟩
      · have haccepts := hiff.mp hfollows
        obtain ⟨dropped, hupdate⟩ := applyUpdate_of_applies hsound hfollows.2
        rw [hupdate] at hbook
        rcases hshape with ⟨hbids, hasks, hcons⟩ | ⟨rest, hrest, hcons⟩
        · -- The last chunk holds all that is left.
          obtain ⟨rfl, rfl⟩ := List.cons.inj hcons
          rw [bring_nil.mp hlater]
          have huncrossed : s.book.Uncrossed bids asks := by
            rw [OrderBook.uncrossed_iff htouch kNoSeq64 0, hbids, hasks]
            intro n
            rw [List.take_nil]
            exact haccepts.2.2
          refine ⟨fun _ => ⟨hstate, ?_⟩, fun hnot => absurd huncrossed hnot⟩
          have hall : nextChunk bids asks = { bids := bids, asks := asks } := by
            rw [List.drop_eq_nil_iff] at hbids hasks
            rw [nextChunk, List.take_of_length_le hbids, List.take_of_length_le hasks]
          have himage : (s.book.updated (nextChunk bids asks) update.finalId dropped).image =
              (s.book.updated { bids := bids, asks := asks } update.finalId 0).image := by
            rw [hall]
            rfl
          exact (congrArg OrderBook.image hbook).trans himage
        · obtain ⟨rfl, rfl⟩ := List.cons.inj hcons
          have hrun := ih hkeeps.sound hstate (by rw [hbook]; exact hvalid)
            (hsymbol.trans hkeeps.symbol.symm) (by rw [hbook]; exact hnext) hrest hlater
          rw [hbook] at hrun
          rw [OrderBook.uncrossed_iff htouch kNoSeq64 dropped]
          rw [← OrderBook.image_updated_nextChunk update.finalId dropped]
          exact hrun
      · have hcrossed : ¬s.book.Uncrossed bids asks := fun huncrossed =>
          hbroken (hiff.mpr (huncrossed.accepts hread))
        exact ⟨fun huncrossed => absurd huncrossed hcrossed, fun _ =>
          run_of_not_follows hsound hready hlegible hnew hbroken hbring⟩

/-- What a session with a live book is to do with an update, however long it is: all its
levels go in, and the touch is looked at once. -/
def onWholeUpdate (s : BookSynchronizer) (update : DepthUpdate) : BookSynchronizer :=
  if Contains s.book (chunkEvent update (depthLevels update) true) then s
  else if !continuesFrom (chunkEvent update (depthLevels update) true) s.book.lastUpdateId then
    s.beginResync .sequenceGap "sequence gap in the live stream"
  else
    match s.book.applyBoth (depthLevels update) update.finalId with
    | (.ok, book) => { s with book := book }
    | (_, book) => { s with book := book }.beginResync .invalidUpdate "update failed to apply"

/-- The chunks and the update as a whole lead to the same state and the same book. -/
def SameOutcome (s : BookSynchronizer) (update : DepthUpdate) (events : List Event) : Prop :=
  (Machine.run step events s).state = (s.onWholeUpdate update).state ∧
    (Machine.run step events s).book.image = (s.onWholeUpdate update).book.image

instance (s : BookSynchronizer) (update : DepthUpdate) (events : List Event) :
    Decidable (SameOutcome s update events) :=
  instDecidableAnd

theorem onWholeUpdate_of_contains
    (h : Contains s.book (chunkEvent update (depthLevels update) true)) :
    s.onWholeUpdate update = s :=
  if_pos h

theorem restarted_onWholeUpdate_of_gap
    (hnew : ¬Contains s.book (chunkEvent update (depthLevels update) true))
    (hgap :
      ¬continuesFrom (chunkEvent update (depthLevels update) true) s.book.lastUpdateId = true) :
    Restarted s (s.onWholeUpdate update) := by
  rw [onWholeUpdate, if_neg hnew, if_pos (by simpa using hgap)]
  exact restarted_beginResync _ _ _

theorem onWholeUpdate_of_accepts (hsound : s.book.Sound) (hnext : IsNext s.book update)
    (haccepts : s.book.Accepts (depthLevels update)) :
    (s.onWholeUpdate update).state = s.state ∧
      (s.onWholeUpdate update).book.image =
        (s.book.updated (depthLevels update) update.finalId 0).image := by
  obtain ⟨dropped, hboth⟩ :=
    OrderBook.applyBoth_of_accepts hsound.shaped haccepts update.finalId
  rw [onWholeUpdate, if_neg hnext.1, if_neg (by simpa using hnext.2), hboth]
  exact ⟨rfl, rfl⟩

theorem restarted_onWholeUpdate_of_not_accepts (hsound : s.book.Sound)
    (hnext : IsNext s.book update) (hnot : ¬s.book.Accepts (depthLevels update)) :
    Restarted s (s.onWholeUpdate update) := by
  obtain ⟨code, message, after, hboth, hdamaged⟩ :=
    OrderBook.applyBoth_of_not_accepts hsound.shaped hnot update.finalId
  rw [onWholeUpdate, if_neg hnext.1, if_neg (by simpa using hnext.2), hboth]
  exact (restarted_beginResync _ _ _).of_eq rfl rfl rfl ⟨hdamaged.symbol, hdamaged.maxDepth⟩ rfl

/-- From any ready session over any valid book: the chunks that the codec makes of an update
lead to where the update as a whole leads exactly when an update that is next for the book
and leaves it in order as a whole does not cross or lock it between chunks. -/
theorem chunking_invisible_iff {ops : List OrderBook.Op}
    (hbook : s.book = Machine.run OrderBook.step ops {}) (hvalid : s.book.isValid = true)
    (hready : s.state = .ready) (hsymbol : update.symbol = s.symbol)
    {chunks : List BookUpdateEvent} (hdecode : decodeDepthUpdate update = (.ok, chunks))
    {events : List Event} (hbring : Bring events chunks) :
    SameOutcome s update events ↔
      (IsNext s.book update → s.book.Accepts (depthLevels update) →
        s.book.Uncrossed update.bids update.asks) := by
  have hsound : s.book.Sound := hbook ▸ OrderBook.sound_run ops
  obtain ⟨hids, hchunks⟩ := of_decodeDepthUpdate hdecode
  have hlegible := legible_chunks hsymbol hids hchunks
  by_cases hcontains : Contains s.book (chunkEvent update (depthLevels update) true)
  · have hall : ∀ chunk ∈ chunks, Contains s.book chunk := by
      intro chunk hchunk
      obtain ⟨bids, asks, isLast, rfl⟩ := mem_fillChunks hchunks hchunk
      exact hcontains
    obtain ⟨hstate, hsame, -⟩ := run_contained hsound hready hlegible hall hbring
    refine iff_of_true ?_ fun hnext => absurd hcontains hnext.1
    rw [SameOutcome, onWholeUpdate_of_contains hcontains, hstate, hsame, hready]
    exact ⟨rfl, rfl⟩
  by_cases hcontinues : continuesFrom (chunkEvent update (depthLevels update) true)
      s.book.lastUpdateId = true
  case neg =>
    refine iff_of_true ?_ fun hnext => absurd hnext.2 hcontinues
    obtain ⟨first, rest, rfl⟩ := List.exists_cons_of_ne_nil (ne_nil_of_fillChunks hchunks)
    obtain ⟨bids, asks, isLast, rfl⟩ := mem_fillChunks hchunks List.mem_cons_self
    have hrestarted := restarted_onWholeUpdate_of_gap hcontains hcontinues
    obtain ⟨hstate, himage⟩ := run_of_not_follows hsound hready hlegible hcontains
      (fun hfollows => hcontinues hfollows.1) hbring
    rw [SameOutcome, hstate, himage, hrestarted.state, hrestarted.image_book, hready]
    exact ⟨rfl, rfl⟩
  have hnext : IsNext s.book update := ⟨hcontains, hcontinues⟩
  obtain ⟨hgood, hbad⟩ := run_chunks hsound hready hvalid hsymbol hids hnext hchunks hbring
  by_cases huncrossed : s.book.Uncrossed update.bids update.asks
  · obtain ⟨hbids, hasks⟩ := acceptable_of_fillChunks hchunks
    obtain ⟨hstate, himage⟩ := hgood huncrossed
    obtain ⟨hstate', himage'⟩ :=
      onWholeUpdate_of_accepts hsound hnext (huncrossed.accepts_all hbids hasks)
    refine iff_of_true ?_ fun _ _ => huncrossed
    rw [SameOutcome, hstate, himage, hstate', himage', hready]
    exact ⟨rfl, rfl⟩
  obtain ⟨hstate, himage⟩ := hbad huncrossed
  by_cases haccepts : s.book.Accepts (depthLevels update)
  · refine iff_of_false ?_ fun hall => huncrossed (hall hnext haccepts)
    intro hsame
    rw [SameOutcome, hstate, (onWholeUpdate_of_accepts hsound hnext haccepts).1, hready] at hsame
    cases hsame.1
  · have hrestarted := restarted_onWholeUpdate_of_not_accepts hsound hnext haccepts
    refine iff_of_true ?_ fun _ hall => absurd hall haccepts
    rw [SameOutcome, hstate, himage, hrestarted.state, hrestarted.image_book, hready]
    exact ⟨rfl, rfl⟩

end Chunks

/-- A session that shows the image of a bid at 100 and an ask at 103. -/
def readySession : BookSynchronizer :=
  Machine.run step (subscribedEvents ++ [⟨1, .snapshot sampleImage⟩]) (new sampleSymbol {})

def readyOps : List OrderBook.Op :=
  .reset sampleSymbol 50 :: OrderBook.loadOps [sampleImage.levels] 10

/-- The bid moves up to where the ask was, the ask goes, and there are sixteen new asks
further up. -/
def longUpdate (asks : List PriceLevel) : DepthUpdate where
  symbol := sampleSymbol
  firstId := 11
  finalId := 12
  bids := [OrderBook.sampleLevel 103 2]
  asks := asks

def newAsks : List PriceLevel :=
  (List.range 16).map fun (i : Nat) => OrderBook.sampleLevel (120 + i) 1

def longEvents (asks : List PriceLevel) : List Event :=
  (decodeDepthUpdate (longUpdate asks)).2.map fun chunk => ⟨2, .update chunk⟩

theorem chunking_invisible_iff_sample :
    SameOutcome readySession (longUpdate (OrderBook.sampleLevel 103 0 :: newAsks))
      (longEvents (OrderBook.sampleLevel 103 0 :: newAsks)) := by
  rw [@chunking_invisible_iff _ _ readyOps (by decide +kernel) (by decide +kernel)
    (by decide +kernel) (by decide +kernel) _
    (show decodeDepthUpdate (longUpdate (OrderBook.sampleLevel 103 0 :: newAsks)) =
      (.ok, (decodeDepthUpdate (longUpdate (OrderBook.sampleLevel 103 0 :: newAsks))).2) by
        decide +kernel)
    _ (by simp [Bring, longEvents, Function.comp_def])]
  intro _ _ n
  rcases n with _ | _ | n
  · decide +kernel
  · decide +kernel
  · rw [List.take_of_length_le (by simp [longUpdate, kMaxLevelsPerEvent]; omega),
      List.take_of_length_le (by simp [longUpdate, newAsks, kMaxLevelsPerEvent]; omega)]
    decide +kernel

/-- With the deletion of the old ask in the second chunk, the book is locked after the first,
and the session gives up a book that the whole update leaves in order. -/
theorem chunking_visible_when_locked_midway :
    readySession.state = .ready ∧ readySession.book.isValid = true ∧
      (decodeDepthUpdate (longUpdate (newAsks ++ [OrderBook.sampleLevel 103 0]))).1 = .ok ∧
      ¬SameOutcome readySession (longUpdate (newAsks ++ [OrderBook.sampleLevel 103 0]))
        (longEvents (newAsks ++ [OrderBook.sampleLevel 103 0])) := by
  decide +kernel

end BookSynchronizer

end MmEngine.Book
