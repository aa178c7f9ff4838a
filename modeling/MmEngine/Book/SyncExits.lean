/-
# How the calls of a session end

A session moves along its one table of transitions, and every failure that costs it the
book ends alike: the book and the buffer are empty, the request for an image is armed
again, and the session waits for one. This module says once how each call on the data
can end, in terms of the state before it.
-/

import MmEngine.Book.Representation
import MmEngine.Book.BookSynchronizer

namespace MmEngine.Book

open MmEngine.Exchange

namespace OrderBook

variable {book : OrderBook}

theorem symbol_applyUpdate (h : book.Shaped) (levels : BookLevels) (finalUpdateId : Seq64) :
    (book.applyUpdate levels finalUpdateId).2.symbol = book.symbol ∧
      (book.applyUpdate levels finalUpdateId).2.maxDepth = book.maxDepth := by
  rcases applyUpdate_cases h levels finalUpdateId with
    ⟨-, dropped, hupdate⟩ | ⟨-, code, message, after, hupdate, hafter⟩
  · rw [hupdate]
    exact ⟨rfl, rfl⟩
  · rw [hupdate]
    rcases hafter with ⟨rfl, -⟩ | hdamaged
    · exact ⟨rfl, rfl⟩
    · exact ⟨hdamaged.symbol, hdamaged.maxDepth⟩

/-- The book with a chunk of an image staged. -/
def withChunk (book : OrderBook) (levels : BookLevels) : OrderBook :=
  { book with
    stagingBids := book.stagingBids ++ listed levels.bids
    stagingAsks := book.stagingAsks ++ listed levels.asks }

theorem Sound.withChunk (h : book.Sound) {levels : BookLevels} (hlevels : Stageable levels) :
    (book.withChunk levels).Sound :=
  ⟨h.shaped, ⟨List.forall_mem_append.mpr ⟨h.staged.1, hlevels.2.1⟩,
    List.forall_mem_append.mpr ⟨h.staged.2, hlevels.2.2⟩⟩, h.touch⟩

theorem Sound.published (h : book.Sound) (hpublishable : book.Publishable) (lastUpdateId : Seq64) :
    (book.published lastUpdateId).Sound := by
  have hfinish := h.finishSnapshot lastUpdateId
  rcases finishSnapshot_cases book lastUpdateId with ⟨-, hpublished⟩ | ⟨hnot, -⟩
  · rwa [hpublished] at hfinish
  · exact absurd hpublishable hnot

end OrderBook

namespace BookSynchronizer

variable {s : BookSynchronizer}

section Transition

variable (s) (target : SessionState) (reason : String)

/-- Nothing but the state and the report of the change moves. -/
theorem transition_eq : ∃ changes, s.transition target reason =
    { s with
      state := if s.state.isLegalTransition target then target else .error
      changes := changes } := by
  rw [transition]
  split
  · rename_i hsame
    subst hsame
    have hlegal : s.state.isLegalTransition s.state = true := by
      simp [SessionState.isLegalTransition]
    exact ⟨s.changes, by rw [hlegal]; rfl⟩
  · split
    · rename_i hillegal
      rw [Bool.not_eq_true'] at hillegal
      rw [hillegal]
      exact ⟨_, rfl⟩
    · rename_i hlegal
      rw [Bool.not_eq_true', Bool.not_eq_false] at hlegal
      rw [hlegal]
      exact ⟨_, rfl⟩

theorem transition_of_legal (h : s.state.isLegalTransition target = true) :
    ∃ changes, s.transition target reason = { s with state := target, changes := changes } := by
  obtain ⟨changes, heq⟩ := transition_eq s target reason
  exact ⟨changes, by rw [heq, if_pos h]⟩

theorem state_transition : (s.transition target reason).state =
    if s.state.isLegalTransition target then target else .error := by
  obtain ⟨changes, heq⟩ := transition_eq s target reason
  rw [heq]

@[simp]
theorem symbol_transition : (s.transition target reason).symbol = s.symbol := by
  obtain ⟨changes, heq⟩ := transition_eq s target reason
  rw [heq]

@[simp]
theorem config_transition : (s.transition target reason).config = s.config := by
  obtain ⟨changes, heq⟩ := transition_eq s target reason
  rw [heq]

@[simp]
theorem book_transition : (s.transition target reason).book = s.book := by
  obtain ⟨changes, heq⟩ := transition_eq s target reason
  rw [heq]

@[simp]
theorem buffer_transition : (s.transition target reason).buffer = s.buffer := by
  obtain ⟨changes, heq⟩ := transition_eq s target reason
  rw [heq]

@[simp]
theorem lastSnapshotRequestNs_transition :
    (s.transition target reason).lastSnapshotRequestNs = s.lastSnapshotRequestNs := by
  obtain ⟨changes, heq⟩ := transition_eq s target reason
  rw [heq]

@[simp]
theorem snapshotAttempts_transition :
    (s.transition target reason).snapshotAttempts = s.snapshotAttempts := by
  obtain ⟨changes, heq⟩ := transition_eq s target reason
  rw [heq]

end Transition

/-- Where a session waits for an image once its book is gone. -/
def resyncState : SessionState → SessionState
  | .subscribed => .subscribed
  | .syncing | .ready | .stale | .resyncRequired => .resyncRequired
  | _ => .error

/-- The session has given its book up and asks for an image. -/
structure Restarted (s after : BookSynchronizer) : Prop where
  symbol : after.symbol = s.symbol
  config : after.config = s.config
  state : after.state = resyncState s.state
  book : ∃ book : OrderBook, book.symbol = s.book.symbol ∧ book.maxDepth = s.book.maxDepth ∧
    after.book = book.clear
  buffer : after.buffer = []
  lastSnapshotRequestNs : after.lastSnapshotRequestNs = s.lastSnapshotRequestNs
  snapshotAttempts : after.snapshotAttempts = 0

theorem state_beginResync (s : BookSynchronizer) (failure : SyncFailure) (reason : String) :
    (s.beginResync failure reason).state = resyncState s.state := by
  rw [beginResync]
  split
  · rename_i hsubscribed
    have hstate : s.state = .subscribed := hsubscribed
    simp [hstate, resyncState]
  · rename_i hne
    rw [state_transition]
    change s.state ≠ .subscribed at hne
    generalize s.state = state at hne
    cases state <;> first | rfl | exact absurd rfl hne

theorem restarted_beginResync (s : BookSynchronizer) (failure : SyncFailure) (reason : String) :
    Restarted s (s.beginResync failure reason) := by
  have hstate := state_beginResync s failure reason
  rw [beginResync] at hstate ⊢
  split
  · rename_i hsubscribed
    rw [if_pos hsubscribed] at hstate
    exact ⟨rfl, rfl, hstate, ⟨s.book, rfl, rfl, rfl⟩, rfl, rfl, rfl⟩
  · rename_i hne
    rw [if_neg hne] at hstate
    exact ⟨by simp, by simp, hstate, ⟨s.book, rfl, rfl, by simp⟩, by simp, by simp, by simp⟩

/-- What a failing call changes before it gives the book up does not matter. -/
theorem Restarted.of_eq {t after : BookSynchronizer} (h : Restarted t after)
    (hsymbol : t.symbol = s.symbol) (hconfig : t.config = s.config) (hstate : t.state = s.state)
    (hbook : t.book.symbol = s.book.symbol ∧ t.book.maxDepth = s.book.maxDepth)
    (hlast : t.lastSnapshotRequestNs = s.lastSnapshotRequestNs) : Restarted s after where
  symbol := h.symbol.trans hsymbol
  config := h.config.trans hconfig
  state := by rw [h.state, hstate]
  book := by
    obtain ⟨book, hname, hdepth, hclear⟩ := h.book
    exact ⟨book, hname.trans hbook.1, hdepth.trans hbook.2, hclear⟩
  buffer := h.buffer
  lastSnapshotRequestNs := h.lastSnapshotRequestNs.trans hlast
  snapshotAttempts := h.snapshotAttempts

theorem Restarted.sound {after : BookSynchronizer} (h : Restarted s after) : after.book.Sound := by
  obtain ⟨book, -, -, hclear⟩ := h.book
  rw [hclear]
  exact OrderBook.Sound.clear book

/-- The session is in error, without a book. -/
structure Halted (s after : BookSynchronizer) : Prop where
  symbol : after.symbol = s.symbol
  config : after.config = s.config
  state : after.state = .error
  book : after.book = s.book.clear
  buffer : after.buffer = []
  lastSnapshotRequestNs : after.lastSnapshotRequestNs = s.lastSnapshotRequestNs

/-- An error is reached from anywhere. -/
theorem halted_onFatal (s : BookSynchronizer) (reason : String) : Halted s (s.onFatal reason) := by
  rw [onFatal]
  refine ⟨by simp, by simp, ?_, by simp, by simp, by simp⟩
  rw [state_transition]
  generalize s.state = state
  cases state <;> rfl

/-- A malformed message is counted, or one too many. -/
theorem onProtocolError_exit (s : BookSynchronizer) (detail : String) :
    (∃ diag count, s.onProtocolError detail = { s with diag := diag, protocolErrors := count }) ∨
      Halted s (s.onProtocolError detail) := by
  simp only [onProtocolError]
  split
  · obtain ⟨hsymbol, hconfig, hstate, hbook, hbuffer, hlast⟩ := halted_onFatal _ _
    exact .inr ⟨hsymbol, hconfig, hstate, hbook, hbuffer, hlast⟩
  · exact .inl ⟨_, _, rfl⟩

/-- A request that failed may be made again, unless it was the last. -/
theorem noteSnapshotFailed_exit (s : BookSynchronizer) (reason : String) :
    s.noteSnapshotFailed reason = { s with snapshotRequested := false } ∨
      Halted s (s.noteSnapshotFailed reason) := by
  simp only [noteSnapshotFailed]
  split
  · obtain ⟨hsymbol, hconfig, hstate, hbook, hbuffer, hlast⟩ := halted_onFatal _ _
    exact .inr ⟨hsymbol, hconfig, hstate, hbook, hbuffer, hlast⟩
  · exact .inl rfl

/-- The data of a stale session has stopped for so long that the book is given up. -/
def Expired (s : BookSynchronizer) (now : Nanos) : Prop :=
  s.state = .stale ∧ s.config.maxDataAgeNs * 10 < s.dataAgeNs now

/-- The freshness check does nothing, finds the data stale, or gives the book up. -/
theorem onTimer_exit (s : BookSynchronizer) (now : Nanos) :
    (¬s.Expired now ∧ (s.onTimer now = s ∨ s.state = .ready ∧ ∃ diag failure changes,
        s.onTimer now =
          { s with state := .stale, diag := diag, lastFailure := failure, changes := changes })) ∨
      s.Expired now ∧ Restarted s (s.onTimer now) := by
  rw [onTimer]
  split
  · rename_i hready
    have hfresh : ¬s.Expired now := by
      rintro ⟨hstale, -⟩
      rw [hready] at hstale
      cases hstale
    refine .inl ⟨hfresh, ?_⟩
    split
    · obtain ⟨changes, htransition⟩ := transition_of_legal
        { s with
          diag := { s.diag with staleTransitions := s.diag.staleTransitions + 1 }
          lastFailure := .dataStale } .stale "market data age exceeded the limit"
        (by simp only [hready]; decide)
      exact .inr ⟨hready, _, _, changes, htransition⟩
    · exact .inl rfl
  · split
    · rename_i hexpired
      rw [Bool.and_eq_true, decide_eq_true_eq, decide_eq_true_eq] at hexpired
      exact .inr ⟨hexpired, restarted_beginResync _ _ _⟩
    · rename_i hexpired
      rw [Bool.and_eq_true, decide_eq_true_eq, decide_eq_true_eq] at hexpired
      exact .inl ⟨hexpired, .inl rfl⟩

/-! ## Updates on a book -/

/-- The identifier an update moves the book to: only a last chunk moves it. -/
def advanceTo (update : BookUpdateEvent) : Seq64 :=
  if update.isLast then update.finalUpdateId else kNoSeq64

/-- Nothing speaks against the update on this book. -/
def Applies (book : OrderBook) (update : BookUpdateEvent) : Prop :=
  book.Applicable update.levels (advanceTo update)

instance (book : OrderBook) (update : BookUpdateEvent) : Decidable (Applies book update) :=
  inferInstanceAs (Decidable (OrderBook.Applicable _ _ _))

theorem applyUpdate_of_applies {book : OrderBook} (h : book.Sound) {update : BookUpdateEvent}
    (happlies : Applies book update) : ∃ dropped,
      book.applyUpdate update.levels (advanceTo update) =
        (.ok, book.updated update.levels (advanceTo update) dropped) := by
  rcases OrderBook.applyUpdate_cases h.shaped update.levels (advanceTo update) with
    ⟨-, hupdate⟩ | ⟨hnot, -⟩
  · exact hupdate
  · exact absurd happlies hnot

theorem applyUpdateToBook_of_applies (h : s.book.Sound) {update : BookUpdateEvent}
    (happlies : Applies s.book update) : ∃ diag, s.applyUpdateToBook update =
      (.ok, { s with
        book := (s.book.applyUpdate update.levels (advanceTo update)).2
        diag := diag }) := by
  obtain ⟨dropped, hupdate⟩ := applyUpdate_of_applies h happlies
  rw [applyUpdateToBook]
  rw [advanceTo] at hupdate
  rw [advanceTo, hupdate]
  exact ⟨_, rfl⟩

theorem applyUpdateToBook_of_not_applies (h : s.book.Sound) {update : BookUpdateEvent}
    (hnot : ¬Applies s.book update) : ∃ code message after, s.applyUpdateToBook update =
      (.error code message, { s with book := after }) ∧
        after.symbol = s.book.symbol ∧ after.maxDepth = s.book.maxDepth := by
  have hkeeps := OrderBook.symbol_applyUpdate h.shaped update.levels (advanceTo update)
  rcases OrderBook.applyUpdate_cases h.shaped update.levels (advanceTo update) with
    ⟨happlicable, -⟩ | ⟨-, code, message, after, hupdate, -⟩
  · exact absurd happlicable hnot
  · rw [hupdate] at hkeeps
    refine ⟨code, message, after, ?_, hkeeps⟩
    rw [applyUpdateToBook]
    rw [advanceTo] at hupdate
    rw [hupdate]

/-- The book after updates in order. -/
def applied (updates : List BookUpdateEvent) (book : OrderBook) : OrderBook :=
  updates.foldl (fun book update => (book.applyUpdate update.levels (advanceTo update)).2) book

theorem sound_applied {book : OrderBook} (h : book.Sound) (updates : List BookUpdateEvent) :
    (applied updates book).Sound := by
  induction updates generalizing book with
  | nil => exact h
  | cons update updates ih => exact ih (h.applyUpdate update.levels (advanceTo update))

/-- The buffered updates can all be applied, and once a whole one is in, each continues
from the one before. -/
def Drains : List BookUpdateEvent → Bool → OrderBook → Prop
  | [], _, _ => True
  | update :: rest, firstApplied, book =>
      (firstApplied = true → continuesFrom update book.lastUpdateId = true) ∧
        Applies book update ∧
        Drains rest (firstApplied || update.isLast)
          (book.applyUpdate update.levels (advanceTo update)).2

instance decidableDrains : ∀ updates firstApplied book, Decidable (Drains updates firstApplied book)
  | [], _, _ => .isTrue trivial
  | _ :: rest, _, _ =>
      @instDecidableAnd _ _ _ (@instDecidableAnd _ _ _ (decidableDrains rest _ _))

theorem isValid_applied {updates : List BookUpdateEvent} {firstApplied : Bool} {book : OrderBook}
    (h : book.Sound) (hvalid : book.isValid = true) (hdrains : Drains updates firstApplied book) :
    (applied updates book).isValid = true := by
  induction updates generalizing firstApplied book with
  | nil => exact hvalid
  | cons update updates ih =>
      obtain ⟨-, happlies, hrest⟩ := hdrains
      have hnext := h.applyUpdate update.levels (advanceTo update)
      obtain ⟨dropped, hupdate⟩ := applyUpdate_of_applies h happlies
      rw [applied, List.foldl_cons]
      rw [hupdate] at hrest hnext ⊢
      exact ih hnext hvalid hrest

theorem drain_of_drains {updates : List BookUpdateEvent} {firstApplied : Bool}
    {s : BookSynchronizer} (h : s.book.Sound) (hbuffer : s.buffer = updates)
    (hdrains : Drains updates firstApplied s.book) : ∃ diag, drain updates firstApplied s =
      (.ok, { s with book := applied updates s.book, buffer := [], diag := diag }) := by
  induction updates generalizing firstApplied s with
  | nil =>
      refine ⟨s.diag, ?_⟩
      rw [drain, applied, List.foldl_nil, ← hbuffer]
  | cons update updates ih =>
      obtain ⟨hcontinues, happlies, hrest⟩ := hdrains
      have hnogap : ¬(firstApplied && !continuesFrom update s.book.lastUpdateId) = true := by
        rw [Bool.and_eq_true, Bool.not_eq_true']
        rintro ⟨hfirst, hgap⟩
        rw [hcontinues hfirst] at hgap
        cases hgap
      obtain ⟨diag, hhere⟩ :=
        @applyUpdateToBook_of_applies { s with buffer := updates } h update happlies
      obtain ⟨total, hlater⟩ := @ih (firstApplied || update.isLast)
        { s with
          book := (s.book.applyUpdate update.levels (advanceTo update)).2
          buffer := updates
          diag := diag }
        (h.applyUpdate update.levels (advanceTo update)) rfl hrest
      refine ⟨total, ?_⟩
      rw [drain, if_neg hnogap, hhere]
      exact hlater

theorem drain_of_not_drains {updates : List BookUpdateEvent} {firstApplied : Bool}
    {s : BookSynchronizer} (h : s.book.Sound) (hnot : ¬Drains updates firstApplied s.book) :
    ∃ code message after, drain updates firstApplied s = (.error code message, after) ∧
      Restarted s after := by
  induction updates generalizing firstApplied s with
  | nil => exact absurd trivial hnot
  | cons update updates ih =>
      rw [drain]
      split
      · refine ⟨_, _, _, rfl, ?_⟩
        exact (restarted_beginResync _ _ _).of_eq rfl rfl rfl ⟨rfl, rfl⟩ rfl
      · rename_i hnogap
        rw [Bool.and_eq_true, Bool.not_eq_true', not_and, Bool.not_eq_false] at hnogap
        by_cases happlies : Applies s.book update
        · obtain ⟨diag, hhere⟩ :=
            @applyUpdateToBook_of_applies { s with buffer := updates } h update happlies
          obtain ⟨code, message, after, hlater, hrestarted⟩ := @ih (firstApplied || update.isLast)
            { s with
              book := (s.book.applyUpdate update.levels (advanceTo update)).2
              buffer := updates
              diag := diag }
            (h.applyUpdate update.levels (advanceTo update))
            (fun hrest => hnot ⟨hnogap, happlies, hrest⟩)
          refine ⟨code, message, after, ?_, ?_⟩
          · rw [hhere]
            exact hlater
          · exact hrestarted.of_eq rfl rfl rfl
              (OrderBook.symbol_applyUpdate h.shaped update.levels (advanceTo update)) rfl
        · obtain ⟨code, message, after, hhere, hkeeps⟩ :=
            @applyUpdateToBook_of_not_applies { s with buffer := updates } h update happlies
          rw [hhere]
          refine ⟨code, message, _, rfl, ?_⟩
          exact (restarted_beginResync _ _ _).of_eq rfl rfl rfl hkeeps rfl

/-- The buffered updates that an image does not contain. -/
def fresh (buffer : List BookUpdateEvent) (snapshotId : Seq64) : List BookUpdateEvent :=
  buffer.dropWhile fun update => update.finalUpdateId ≤ snapshotId

/-- The buffer fits the image: what is left of it spans the identifier after the image
and can be drained. -/
def Reconciles (buffer : List BookUpdateEvent) (snapshotId : Seq64) (book : OrderBook) : Prop :=
  (∀ first ∈ (fresh buffer snapshotId).head?, spansSnapshot first snapshotId = true) ∧
    Drains (fresh buffer snapshotId) false book

/-- The session synchronized: the buffer is in the book. -/
def synchronized (s : BookSynchronizer) (snapshotId : Seq64) (diag : SyncDiagnostics) :
    BookSynchronizer :=
  { s with
    book := applied (fresh s.buffer snapshotId) s.book
    buffer := []
    diag := diag
    lastFailure := .none
    snapshotAttempts := 0 }.transition .ready "synchronized"

theorem completeSync_of_isValid (h : s.book.Sound) (hvalid : s.book.isValid = true) :
    s.completeSync =
      (.ok,
        { s with lastFailure := .none, snapshotAttempts := 0 }.transition .ready
          "synchronized") := by
  rw [completeSync, OrderBook.checkInvariants_eq_touchViolation h.shaped, h.touch hvalid]

theorem reconcile_of_reconciles (h : s.book.Sound) (hvalid : s.book.isValid = true)
    {snapshotId : Seq64} (hfits : Reconciles s.buffer snapshotId s.book) :
    ∃ diag, s.reconcile snapshotId = (.ok, s.synchronized snapshotId diag) := by
  obtain ⟨hspans, hdrains⟩ := hfits
  have habuts : ¬((fresh s.buffer snapshotId).head?.any fun first =>
      !spansSnapshot first snapshotId) = true := by
    rw [Option.any_eq_true]
    rintro ⟨first, hfirst, hbroken⟩
    rw [hspans first hfirst] at hbroken
    cases hbroken
  have hvalid' := isValid_applied h hvalid hdrains
  simp only [reconcile]
  rw [fresh] at habuts
  rw [if_neg habuts]
  obtain ⟨diag, hdrain⟩ := @drain_of_drains _ false
    { s with
      buffer := fresh s.buffer snapshotId
      diag :=
        { s.diag with
          updatesDiscardedStale := s.diag.updatesDiscardedStale +
            (s.buffer.takeWhile fun update => update.finalUpdateId ≤ snapshotId).length } }
    h rfl hdrains
  rw [fresh] at hdrain
  refine ⟨diag, ?_⟩
  rw [hdrain]
  exact completeSync_of_isValid (sound_applied h _) hvalid'

theorem reconcile_of_not_reconciles (h : s.book.Sound) {snapshotId : Seq64}
    (hnot : ¬Reconciles s.buffer snapshotId s.book) :
    ∃ code message after, s.reconcile snapshotId = (.error code message, after) ∧
      Restarted s after := by
  simp only [reconcile]
  split
  · refine ⟨_, _, _, rfl, ?_⟩
    exact (restarted_beginResync _ _ _).of_eq rfl rfl rfl ⟨rfl, rfl⟩ rfl
  · rename_i habuts
    have hdrains : ¬Drains (fresh s.buffer snapshotId) false s.book := by
      intro hdrains
      apply hnot
      refine ⟨?_, hdrains⟩
      intro first hfirst
      rw [Option.any_eq_true, not_exists] at habuts
      simpa using fun hbroken => habuts first ⟨hfirst, hbroken⟩
    obtain ⟨code, message, after, hdrain, hrestarted⟩ := @drain_of_not_drains _ false
      { s with
        buffer := fresh s.buffer snapshotId
        diag :=
          { s.diag with
            updatesDiscardedStale := s.diag.updatesDiscardedStale +
              (s.buffer.takeWhile fun update => update.finalUpdateId ≤ snapshotId).length } }
      h hdrains
    rw [fresh] at hdrain
    rw [hdrain]
    exact ⟨code, message, after, rfl, hrestarted.of_eq rfl rfl rfl ⟨rfl, rfl⟩ rfl⟩

/-- The chunk belongs to this session and comes when it is of use. -/
def Expects (s : BookSynchronizer) (snapshot : BookSnapshotEvent) : Prop :=
  snapshot.symbol = s.symbol ∧ inSyncWindow s.state = true

instance (s : BookSynchronizer) (snapshot : BookSnapshotEvent) : Decidable (s.Expects snapshot) :=
  instDecidableAnd

/-- The session that a chunk is staged in. -/
def opened (s : BookSynchronizer) (snapshot : BookSnapshotEvent) (now : Nanos) :
    BookSynchronizer :=
  if snapshot.isFirst then (s.touchDataClock now).beginImage else s.touchDataClock now

/-- The book that a chunk is staged in. -/
def openBook (s : BookSynchronizer) (snapshot : BookSnapshotEvent) : OrderBook :=
  if snapshot.isFirst then s.book.beginSnapshot else s.book

/-- The state that a chunk is staged in. -/
def openState (s : BookSynchronizer) (snapshot : BookSnapshotEvent) : SessionState :=
  if snapshot.isFirst then .syncing else s.state

/-- An image is being built and the chunk can be added to it. -/
def Stages (s : BookSynchronizer) (snapshot : BookSnapshotEvent) : Prop :=
  (s.openBook snapshot).buildingSnapshot = true ∧ OrderBook.Stageable snapshot.levels

/-- With this last chunk the image can be shown, and the buffer fits it. -/
def Completes (s : BookSynchronizer) (snapshot : BookSnapshotEvent) : Prop :=
  ((s.openBook snapshot).withChunk snapshot.levels).Publishable ∧
    Reconciles s.buffer snapshot.lastUpdateId
      (((s.openBook snapshot).withChunk snapshot.levels).published snapshot.lastUpdateId)

/-- The session that shows the image of which this is the last chunk. -/
def showing (s : BookSynchronizer) (snapshot : BookSnapshotEvent) (now : Nanos) :
    BookSynchronizer :=
  { s.opened snapshot now with
    book := ((s.openBook snapshot).withChunk snapshot.levels).published snapshot.lastUpdateId
    diag := { s.diag with snapshotsApplied := s.diag.snapshotsApplied + 1 }
    snapshotRequested := false }

/-- The ways a chunk of a snapshot can be taken. -/
inductive SnapshotExit (s : BookSynchronizer) (snapshot : BookSnapshotEvent) (now : Nanos) :
    Status × BookSynchronizer → Prop
  | ignored {code message} (h : ¬s.Expects snapshot) :
      SnapshotExit s snapshot now (.error code message, s)
  | refused {code message bids asks} (h : s.Expects snapshot) (hnot : ¬s.Stages snapshot)
      (hbids : ∀ level ∈ bids, Positive level) (hasks : ∀ level ∈ asks, Positive level) :
      SnapshotExit s snapshot now
        (.error code message,
          { s.opened snapshot now with
            book := { s.openBook snapshot with stagingBids := bids, stagingAsks := asks } })
  | staged (h : s.Expects snapshot) (hstages : s.Stages snapshot)
      (hlast : snapshot.isLast = false) :
      SnapshotExit s snapshot now
        (.ok,
          { s.opened snapshot now with
            book := (s.openBook snapshot).withChunk snapshot.levels })
  | restarted {code message after} (h : s.Expects snapshot) (hstages : s.Stages snapshot)
      (hlast : snapshot.isLast = true) (hnot : ¬s.Completes snapshot)
      (hafter : Restarted (s.opened snapshot now) after) :
      SnapshotExit s snapshot now (.error code message, after)
  | synchronized {diag} (h : s.Expects snapshot) (hstages : s.Stages snapshot)
      (hlast : snapshot.isLast = true) (hcompletes : s.Completes snapshot) :
      SnapshotExit s snapshot now
        (.ok, (s.showing snapshot now).synchronized snapshot.lastUpdateId diag)

/-- A chunk that is expected moves the session to the sync, when it is the first. -/
theorem opened_eq {snapshot : BookSnapshotEvent} (h : s.Expects snapshot) (now : Nanos) :
    ∃ changes, s.opened snapshot now =
      { s with
        state := s.openState snapshot
        book := s.openBook snapshot
        lastDataNs := now
        hasData := true
        changes := changes } := by
  rw [opened, openState, openBook]
  split
  · rw [beginImage]
    have hlegal : (s.touchDataClock now).state.isLegalTransition .syncing = true := by
      have hwindow := h.2
      change s.state.isLegalTransition .syncing = true
      generalize s.state = state at hwindow
      cases state <;> first | rfl | cases hwindow
    obtain ⟨changes, htransition⟩ :=
      transition_of_legal (s.touchDataClock now) .syncing "applying snapshot" hlegal
    split
    · exact ⟨changes, by rw [htransition]; rfl⟩
    · rename_i hsyncing
      rw [not_not] at hsyncing
      refine ⟨s.changes, ?_⟩
      rw [← hsyncing]
      rfl
  · exact ⟨s.changes, rfl⟩

/-- The book that a chunk is staged into. -/
theorem sound_openBook (h : s.book.Sound) (snapshot : BookSnapshotEvent) :
    (s.openBook snapshot).Sound := by
  rw [openBook]
  split
  · exact h.beginSnapshot
  · exact h

theorem book_opened {snapshot : BookSnapshotEvent} (h : s.Expects snapshot) {now : Nanos} :
    (s.opened snapshot now).book = s.openBook snapshot := by
  obtain ⟨changes, hopened⟩ := opened_eq h now
  rw [hopened]

theorem stageChunk_eq {snapshot : BookSnapshotEvent} (h : s.Expects snapshot) (now : Nanos) :
    s.stageChunk snapshot now =
      (((s.openBook snapshot).addSnapshotLevels snapshot.levels).1,
        { s.opened snapshot now with
          book := ((s.openBook snapshot).addSnapshotLevels snapshot.levels).2 }) := by
  rw [← book_opened h]
  rfl

/-- An image that has been published is the session's book, if the buffer fits it. -/
theorem reconcile_exit {snapshot : BookSnapshotEvent} {now : Nanos} (hexpects : s.Expects snapshot)
    (hstages : s.Stages snapshot) (hlast : snapshot.isLast = true)
    (hpublishable : ((s.openBook snapshot).withChunk snapshot.levels).Publishable)
    (hshown : (s.showing snapshot now).book.Sound) :
    SnapshotExit s snapshot now ((s.showing snapshot now).reconcile snapshot.lastUpdateId) := by
  obtain ⟨changes, hopened⟩ := opened_eq hexpects now
  have hbuffer : (s.showing snapshot now).buffer = s.buffer := by rw [showing, hopened]
  by_cases hfits : Reconciles s.buffer snapshot.lastUpdateId (s.showing snapshot now).book
  · rw [← hbuffer] at hfits
    obtain ⟨diag, hreconcile⟩ :=
      @reconcile_of_reconciles (s.showing snapshot now) hshown rfl _ hfits
    rw [hreconcile]
    rw [hbuffer] at hfits
    exact .synchronized hexpects hstages hlast ⟨hpublishable, hfits⟩
  · have hnot : ¬s.Completes snapshot := fun hcompletes => hfits hcompletes.2
    rw [← hbuffer] at hfits
    obtain ⟨code, message, after, hreconcile, hrestarted⟩ :=
      @reconcile_of_not_reconciles (s.showing snapshot now) hshown _ hfits
    rw [hreconcile]
    refine .restarted hexpects hstages hlast hnot (hrestarted.of_eq rfl rfl rfl ?_ rfl)
    rw [book_opened hexpects]
    exact ⟨rfl, rfl⟩

theorem onSnapshot_exit (h : s.book.Sound) (snapshot : BookSnapshotEvent) (now : Nanos) :
    SnapshotExit s snapshot now (s.onSnapshot snapshot now) := by
  rw [onSnapshot]
  split
  · rename_i hsymbol
    exact .ignored fun hexpects => hsymbol hexpects.1
  rename_i hsymbol
  split
  · rename_i hwindow
    refine .ignored fun hexpects => ?_
    rw [hexpects.2] at hwindow
    cases hwindow
  rename_i hwindow
  have hexpects : s.Expects snapshot := ⟨not_not.mp hsymbol, by simpa using hwindow⟩
  have hsound := sound_openBook h snapshot
  rw [stageChunk_eq hexpects now]
  rcases OrderBook.addSnapshotLevels_cases hsound.staged snapshot.levels with
    ⟨hbuilding, hstageable, hadd⟩ | ⟨hnot, code, message, bids, asks, hadd, hbids, hasks⟩
  case inr =>
    rw [hadd]
    exact .refused hexpects hnot hbids hasks
  have hstages : s.Stages snapshot := ⟨hbuilding, hstageable⟩
  rw [hadd]
  simp only
  split
  · rename_i hlast
    exact .staged hexpects hstages (by simpa using hlast)
  -- The last chunk: the image is published, or fails its checks.
  rename_i hlast
  rw [Bool.not_eq_true', Bool.not_eq_false] at hlast
  have hbook : (s.opened snapshot now).book = s.openBook snapshot := book_opened hexpects
  rcases OrderBook.finishSnapshot_cases ((s.openBook snapshot).withChunk snapshot.levels)
      snapshot.lastUpdateId with
    ⟨hpublishable, hfinish⟩ | ⟨hnot, code, message, after, hfinish, hrefused⟩
  · obtain ⟨changes, hopened⟩ := opened_eq hexpects now
    have hdiag : (s.opened snapshot now).diag = s.diag := by rw [hopened]
    have hsession : { s.opened snapshot now with
        book := ((s.openBook snapshot).withChunk snapshot.levels).published snapshot.lastUpdateId
        diag :=
          { (s.opened snapshot now).diag with
            snapshotsApplied := (s.opened snapshot now).diag.snapshotsApplied + 1 }
        snapshotRequested := false } = s.showing snapshot now := by
      rw [showing, hdiag]
    rw [OrderBook.withChunk] at hfinish
    rw [hfinish]
    simp only
    rw [← OrderBook.withChunk, hsession]
    exact reconcile_exit hexpects hstages hlast hpublishable
      ((hsound.withChunk hstageable).published hpublishable snapshot.lastUpdateId)
  · have hnot : ¬s.Completes snapshot := fun hcompletes => hnot hcompletes.1
    rw [OrderBook.withChunk] at hfinish
    rw [hfinish]
    refine .restarted hexpects hstages hlast hnot
      ((restarted_beginResync _ _ _).of_eq rfl rfl rfl ?_ rfl)
    rw [hbook]
    rcases hrefused with ⟨rfl, -⟩ | ⟨bids, asks, violation, -, -, rfl⟩
    · exact ⟨rfl, rfl⟩
    · exact ⟨rfl, rfl⟩

theorem book_synchronized {snapshot : BookSnapshotEvent} (h : s.Expects snapshot) (now : Nanos)
    (diag : SyncDiagnostics) :
    ((s.showing snapshot now).synchronized snapshot.lastUpdateId diag).book =
      applied (fresh s.buffer snapshot.lastUpdateId)
        (((s.openBook snapshot).withChunk snapshot.levels).published snapshot.lastUpdateId) := by
  obtain ⟨changes, hopened⟩ := opened_eq h now
  simp [synchronized, showing, hopened]

/-- The update can be read: it is this session's, and neither its counts nor its
identifiers are malformed. -/
structure Legible (s : BookSynchronizer) (update : BookUpdateEvent) : Prop where
  symbol : update.symbol = s.symbol
  counts : update.levels.countsAreSane = true
  ids : update.finalUpdateId ≠ kNoSeq64 → update.firstUpdateId ≤ update.finalUpdateId

instance (s : BookSynchronizer) (update : BookUpdateEvent) : Decidable (s.Legible update) :=
  decidable_of_iff
    (update.symbol = s.symbol ∧ update.levels.countsAreSane = true ∧
      (update.finalUpdateId ≠ kNoSeq64 → update.firstUpdateId ≤ update.finalUpdateId))
    ⟨fun h => ⟨h.1, h.2.1, h.2.2⟩, fun h => ⟨h.symbol, h.counts, h.ids⟩⟩

/-- The book has the update already. -/
def Contains (book : OrderBook) (update : BookUpdateEvent) : Prop :=
  update.finalUpdateId ≠ kNoSeq64 ∧ update.finalUpdateId ≤ book.lastUpdateId

/-- The update is the next one for the book and can be applied. -/
def Follows (book : OrderBook) (update : BookUpdateEvent) : Prop :=
  continuesFrom update book.lastUpdateId = true ∧ Applies book update

instance (book : OrderBook) (update : BookUpdateEvent) : Decidable (Contains book update) :=
  instDecidableAnd

instance (book : OrderBook) (update : BookUpdateEvent) : Decidable (Follows book update) :=
  instDecidableAnd

/-- The session keeps a book that is synchronized. -/
def IsLive (state : SessionState) : Prop := state = .ready ∨ state = .stale

/-- The session buffers until an image comes. -/
def IsBuffering (state : SessionState) : Prop := state = .subscribed ∨ state = .syncing

instance (state : SessionState) : Decidable (IsLive state) := instDecidableOr

instance (state : SessionState) : Decidable (IsBuffering state) := instDecidableOr

/-- The ways an update can be taken. -/
inductive UpdateExit (s : BookSynchronizer) (update : BookUpdateEvent) (now : Nanos) :
    Status × BookSynchronizer → Prop
  | foreign {code message} (h : update.symbol ≠ s.symbol) :
      UpdateExit s update now (.error code message, s)
  | malformed {code message detail} (h : ¬s.Legible update) :
      UpdateExit s update now (.error code message, s.onProtocolError detail)
  | overflowed {code message after} (h : s.Legible update) (hstate : IsBuffering s.state)
      (hfull : s.config.maxBufferedUpdates ≤ s.buffer.length) (hafter : Restarted s after) :
      UpdateExit s update now (.error code message, after)
  | buffered {diag} (h : s.Legible update) (hstate : IsBuffering s.state)
      (hroom : s.buffer.length < s.config.maxBufferedUpdates) :
      UpdateExit s update now
        (.ok, { s.touchDataClock now with buffer := s.buffer ++ [update], diag := diag })
  | repeated {diag} (h : s.Legible update) (hstate : IsLive s.state)
      (hcontains : Contains s.book update) :
      UpdateExit s update now (.ok, { s.touchDataClock now with diag := diag })
  | restarted {code message after} (h : s.Legible update) (hstate : IsLive s.state)
      (hnot : ¬Contains s.book update) (hbroken : ¬Follows s.book update)
      (hafter : Restarted s after) :
      UpdateExit s update now (.error code message, after)
  | applied {diag changes} (h : s.Legible update) (hstate : IsLive s.state)
      (hnot : ¬Contains s.book update) (hfollows : Follows s.book update) :
      UpdateExit s update now
        (.ok,
          { s.touchDataClock now with
            book := (s.book.applyUpdate update.levels (advanceTo update)).2
            state := .ready
            diag := diag
            changes := changes })
  | noted (h : s.Legible update) (hlive : ¬IsLive s.state) (hbuffering : ¬IsBuffering s.state) :
      UpdateExit s update now (.ok, s.touchDataClock now)

theorem bufferUpdate_exit {update : BookUpdateEvent} (h : s.Legible update)
    (hstate : IsBuffering s.state) (now : Nanos) :
    UpdateExit s update now ((s.touchDataClock now).bufferUpdate update) := by
  rw [bufferUpdate]
  split
  · rename_i hfull
    exact .overflowed h hstate hfull
      ((restarted_beginResync _ _ _).of_eq rfl rfl rfl ⟨rfl, rfl⟩ rfl)
  · rename_i hroom
    exact .buffered h hstate (Nat.lt_of_not_le hroom)

theorem liveUpdate_exit (hsound : s.book.Sound) {update : BookUpdateEvent} (h : s.Legible update)
    (hstate : IsLive s.state) (now : Nanos) :
    UpdateExit s update now ((s.touchDataClock now).liveUpdate update) := by
  rw [liveUpdate]
  split
  · rename_i hcontains
    rw [Bool.and_eq_true, decide_eq_true_eq, decide_eq_true_eq] at hcontains
    exact .repeated h hstate hcontains
  rename_i hnot
  have hnot : ¬Contains s.book update := by
    intro hcontains
    apply hnot
    rw [Bool.and_eq_true, decide_eq_true_eq, decide_eq_true_eq]
    exact hcontains
  split
  · rename_i hgap
    refine .restarted h hstate hnot ?_
      ((restarted_beginResync _ _ _).of_eq rfl rfl rfl ⟨rfl, rfl⟩ rfl)
    rintro ⟨hcontinues, -⟩
    rw [Bool.not_eq_true'] at hgap
    exact absurd (hgap.symm.trans hcontinues) (by decide)
  rename_i hgap
  rw [Bool.not_eq_true', Bool.not_eq_false] at hgap
  by_cases happlies : Applies s.book update
  · obtain ⟨diag, hhere⟩ :=
      @applyUpdateToBook_of_applies (s.touchDataClock now) hsound update happlies
    rw [hhere]
    simp only
    -- A stale session becomes quotable again; one that is ready stays so.
    rcases hstate with hready | hstale
    · have hstill : (s.touchDataClock now).state = .ready := hready
      rw [if_neg (by rw [hstill]; decide)]
      have hexit := @UpdateExit.applied s update now diag s.changes h (.inl hready) hnot
          ⟨hgap, happlies⟩
      rw [← hready] at hexit
      exact hexit
    · have hstill : (s.touchDataClock now).state = .stale := hstale
      rw [if_pos hstill]
      obtain ⟨changes, htransition⟩ := transition_of_legal
        { s.touchDataClock now with
          book := (s.book.applyUpdate update.levels (advanceTo update)).2
          diag := diag } .ready "data resumed" (by simp only [hstill]; decide)
      have hexit := @UpdateExit.applied s update now diag changes h (.inr hstale) hnot
          ⟨hgap, happlies⟩
      exact htransition ▸ hexit
  · obtain ⟨code, message, after, hhere, hkeeps⟩ :=
      @applyUpdateToBook_of_not_applies (s.touchDataClock now) hsound update happlies
    rw [hhere]
    exact .restarted h hstate hnot (fun hfollows => happlies hfollows.2)
      ((restarted_beginResync _ _ _).of_eq rfl rfl rfl hkeeps rfl)

theorem onUpdate_exit (hsound : s.book.Sound) (update : BookUpdateEvent) (now : Nanos) :
    UpdateExit s update now (s.onUpdate update now) := by
  rw [onUpdate]
  split
  · rename_i hsymbol
    exact .foreign hsymbol
  rename_i hsymbol
  split
  · rename_i hcounts
    refine .malformed fun h => ?_
    rw [h.counts] at hcounts
    cases hcounts
  rename_i hcounts
  split
  · rename_i hids
    rw [Bool.and_eq_true, decide_eq_true_eq, decide_eq_true_eq] at hids
    exact .malformed fun h => absurd (h.ids hids.1) (UInt64.not_le.mpr hids.2)
  rename_i hids
  rw [Bool.and_eq_true, decide_eq_true_eq, decide_eq_true_eq, not_and, UInt64.not_lt] at hids
  have h : s.Legible update := ⟨not_not.mp hsymbol, by simpa using hcounts, hids⟩
  simp only
  split
  · rename_i hstate
    exact bufferUpdate_exit h (.inl hstate) now
  · rename_i hstate
    exact bufferUpdate_exit h (.inr hstate) now
  · rename_i hstate
    exact liveUpdate_exit hsound h (.inl hstate) now
  · rename_i hstate
    exact liveUpdate_exit hsound h (.inr hstate) now
  all_goals
    rename_i hstate
    change s.state = _ at hstate
    refine .noted h ?_ ?_
    · rw [hstate]
      decide
    · rw [hstate]
      decide

/-! ## What every call keeps -/

/-- What a session is about never changes, and its book stays sound. -/
structure Keeps (s after : BookSynchronizer) : Prop where
  symbol : after.symbol = s.symbol
  config : after.config = s.config
  bookSymbol : after.book.symbol = s.book.symbol
  maxDepth : after.book.maxDepth = s.book.maxDepth
  sound : after.book.Sound

theorem Keeps.refl (h : s.book.Sound) : Keeps s s := ⟨rfl, rfl, rfl, rfl, h⟩

theorem Keeps.trans {middle after : BookSynchronizer} (h : Keeps s middle)
    (h' : Keeps middle after) : Keeps s after :=
  ⟨h'.symbol.trans h.symbol, h'.config.trans h.config, h'.bookSymbol.trans h.bookSymbol,
    h'.maxDepth.trans h.maxDepth, h'.sound⟩

theorem Keeps.transition {after : BookSynchronizer} (h : Keeps s after) (target : SessionState)
    (reason : String) : Keeps s (after.transition target reason) :=
  ⟨by simpa using h.symbol, by simpa using h.config, by simpa using h.bookSymbol,
    by simpa using h.maxDepth, by simpa using h.sound⟩

theorem Restarted.keeps {after : BookSynchronizer} (h : Restarted s after) : Keeps s after := by
  obtain ⟨book, hname, hdepth, hclear⟩ := h.book
  exact ⟨h.symbol, h.config, by rw [hclear]; exact hname, by rw [hclear]; exact hdepth, h.sound⟩

theorem Halted.keeps {after : BookSynchronizer} (h : Halted s after) : Keeps s after :=
  ⟨h.symbol, h.config, by rw [h.book]; rfl, by rw [h.book]; rfl,
    by rw [h.book]; exact OrderBook.Sound.clear _⟩

theorem keeps_onProtocolError (h : s.book.Sound) (detail : String) :
    Keeps s (s.onProtocolError detail) := by
  rcases onProtocolError_exit s detail with ⟨diag, count, hcounted⟩ | hhalted
  · exact hcounted ▸ ⟨rfl, rfl, rfl, rfl, h⟩
  · exact hhalted.keeps

theorem keeps_opened (hsound : s.book.Sound) {snapshot : BookSnapshotEvent}
    (h : s.Expects snapshot) (now : Nanos) : Keeps s (s.opened snapshot now) := by
  obtain ⟨changes, hopened⟩ := opened_eq h now
  rw [hopened, openBook]
  split
  · exact ⟨rfl, rfl, rfl, rfl, hsound.beginSnapshot⟩
  · exact ⟨rfl, rfl, rfl, rfl, hsound⟩

theorem keeps_applied {book : OrderBook} (h : book.Sound) (updates : List BookUpdateEvent) :
    (applied updates book).symbol = book.symbol ∧
      (applied updates book).maxDepth = book.maxDepth := by
  induction updates generalizing book with
  | nil => exact ⟨rfl, rfl⟩
  | cons update updates ih =>
      obtain ⟨hname, hdepth⟩ := OrderBook.symbol_applyUpdate h.shaped update.levels
          (advanceTo update)
      obtain ⟨hrestName, hrestDepth⟩ := ih (h.applyUpdate update.levels (advanceTo update))
      exact ⟨hrestName.trans hname, hrestDepth.trans hdepth⟩

theorem keeps_onSnapshot (h : s.book.Sound) (snapshot : BookSnapshotEvent) (now : Nanos) :
    Keeps s (s.onSnapshot snapshot now).2 := by
  have hexit := onSnapshot_exit h snapshot now
  generalize s.onSnapshot snapshot now = result at hexit
  cases hexit with
  | ignored hnot => exact Keeps.refl h
  | refused hexpects hnot hbids hasks =>
      obtain ⟨hsymbol, hconfig, hname, hdepth, hsound⟩ := keeps_opened h hexpects now
      rw [book_opened hexpects] at hname hdepth hsound
      exact ⟨hsymbol, hconfig, hname, hdepth, hsound.shaped, ⟨hbids, hasks⟩, hsound.touch⟩
  | staged hexpects hstages hlast =>
      obtain ⟨hsymbol, hconfig, hname, hdepth, hsound⟩ := keeps_opened h hexpects now
      rw [book_opened hexpects] at hname hdepth hsound
      exact ⟨hsymbol, hconfig, hname, hdepth, hsound.withChunk hstages.2⟩
  | restarted hexpects hstages hlast hnot hafter =>
      exact (keeps_opened h hexpects now).trans hafter.keeps
  | synchronized hexpects hstages hlast hcompletes =>
      obtain ⟨hsymbol, hconfig, hname, hdepth, hsound⟩ := keeps_opened h hexpects now
      rw [book_opened hexpects] at hname hdepth hsound
      have hshown := (hsound.withChunk hstages.2).published hcompletes.1 snapshot.lastUpdateId
      obtain ⟨hname', hdepth'⟩ := keeps_applied hshown
        (fresh (s.showing snapshot now).buffer snapshot.lastUpdateId)
      simp only [synchronized]
      apply Keeps.transition
      exact ⟨hsymbol, hconfig, hname'.trans hname, hdepth'.trans hdepth, sound_applied hshown _⟩

theorem keeps_onUpdate (h : s.book.Sound) (update : BookUpdateEvent) (now : Nanos) :
    Keeps s (s.onUpdate update now).2 := by
  have hexit := onUpdate_exit h update now
  generalize s.onUpdate update now = result at hexit
  cases hexit with
  | foreign hsymbol => exact Keeps.refl h
  | malformed hnot => exact keeps_onProtocolError h _
  | overflowed hlegible hstate hfull hafter => exact hafter.keeps
  | buffered hlegible hstate hroom => exact ⟨rfl, rfl, rfl, rfl, h⟩
  | repeated hlegible hstate hcontains => exact ⟨rfl, rfl, rfl, rfl, h⟩
  | restarted hlegible hstate hnot hbroken hafter => exact hafter.keeps
  | applied hlegible hstate hnot hfollows =>
      obtain ⟨hname, hdepth⟩ := OrderBook.symbol_applyUpdate h.shaped update.levels
          (advanceTo update)
      exact ⟨rfl, rfl, hname, hdepth, h.applyUpdate _ _⟩
  | noted hlegible hlive hbuffering => exact ⟨rfl, rfl, rfl, rfl, h⟩

theorem keeps_step (event : Event) (h : s.book.Sound) : Keeps s (step event s) := by
  obtain ⟨now, op⟩ := event
  cases op with
  | connecting => exact (Keeps.refl h).transition _ _
  | connected =>
      simp only [step, call, onConnected]
      split
      · exact ((Keeps.refl h).transition _ _).transition _ _
      · exact (Keeps.refl h).transition _ _
  | subscribed =>
      obtain ⟨hsymbol, hconfig, hname, hdepth, hsound⟩ :=
        (Keeps.refl h).transition .subscribed "subscription confirmed"
      exact ⟨hsymbol, hconfig, hname, hdepth, hsound⟩
  | disconnected reason =>
      simp only [step, call, onDisconnected]
      apply Keeps.transition
      exact ⟨rfl, rfl, rfl, rfl, OrderBook.Sound.clear s.book⟩
  | backoff reason => exact (Keeps.refl h).transition _ _
  | fatal reason => exact (halted_onFatal s reason).keeps
  | snapshot snapshot => exact keeps_onSnapshot h snapshot now
  | update update => exact keeps_onUpdate h update now
  | protocolError detail => exact keeps_onProtocolError h detail
  | timer =>
      simp only [step, call]
      rcases onTimer_exit s now with ⟨-, hsame | ⟨-, diag, failure, changes, hstale⟩⟩ | ⟨-, hafter⟩
      · rw [hsame]
        exact Keeps.refl h
      · rw [hstale]
        exact ⟨rfl, rfl, rfl, rfl, h⟩
      · exact hafter.keeps
  | snapshotRequested => exact ⟨rfl, rfl, rfl, rfl, h⟩
  | snapshotFailed reason =>
      simp only [step, call]
      rcases noteSnapshotFailed_exit s reason with hagain | hhalted
      · rw [hagain]
        exact ⟨rfl, rfl, rfl, rfl, h⟩
      · exact hhalted.keeps

theorem keeps_run (events : List Event) (h : s.book.Sound) :
    Keeps s (Machine.run step events s) := by
  induction events generalizing s with
  | nil => exact Keeps.refl h
  | cons event events ih =>
      have hstep := keeps_step event h
      exact hstep.trans (ih hstep.sound)

/-- The call ends the sync or the hold on a live book, or leaves the book alone. -/
structure Idles (s after : BookSynchronizer) : Prop where
  buffer : after.buffer = s.buffer ∨ after.buffer = []
  book : after.state = .syncing ∨ IsLive after.state →
    after.book = s.book ∧ (after.state = s.state ∨ IsLive s.state ∧ IsLive after.state)

theorem Idles.of_syncing {after : BookSynchronizer} (h : Idles s after)
    (hafter : after.state = .syncing) : s.state = .syncing ∧ after.book = s.book := by
  obtain ⟨hbook, hstate | ⟨-, hlive⟩⟩ := h.book (.inl hafter)
  · exact ⟨hstate.symm.trans hafter, hbook⟩
  · rw [hafter] at hlive
    exact absurd hlive (by decide)

theorem Idles.of_isLive {after : BookSynchronizer} (h : Idles s after)
    (hafter : IsLive after.state) : IsLive s.state ∧ after.book = s.book := by
  obtain ⟨hbook, hstate | ⟨hlive, -⟩⟩ := h.book (.inr hafter)
  · exact ⟨hstate ▸ hafter, hbook⟩
  · exact ⟨hlive, hbook⟩

/-- A transition that is neither to a sync nor to a live book. -/
theorem idles_transition {t : BookSynchronizer} {target : SessionState}
    (h : ¬(target = .syncing ∨ IsLive target)) (hbuffer : t.buffer = s.buffer ∨ t.buffer = [])
    (reason : String) : Idles s (t.transition target reason) := by
  refine ⟨by simpa using hbuffer, fun hstate => ?_⟩
  rw [state_transition] at hstate
  split at hstate
  · exact absurd hstate h
  · exact absurd hstate (by decide)

theorem Halted.idles {after : BookSynchronizer} (h : Halted s after) : Idles s after :=
  ⟨.inr h.buffer, fun hstate => absurd (h.state ▸ hstate) (by decide)⟩

theorem Restarted.idles {after : BookSynchronizer} (h : Restarted s after) : Idles s after := by
  refine ⟨.inr h.buffer, fun hstate => ?_⟩
  rw [h.state] at hstate
  generalize s.state = state at hstate
  cases state <;> exact absurd hstate (by decide)

theorem idles_onProtocolError (s : BookSynchronizer) (detail : String) :
    Idles s (s.onProtocolError detail) := by
  rcases onProtocolError_exit s detail with ⟨diag, count, hcounted⟩ | hhalted
  · rw [hcounted]
    exact ⟨.inl rfl, fun _ => ⟨rfl, .inl rfl⟩⟩
  · exact hhalted.idles

theorem idles_step {event : Event} (hsnapshot : ∀ snapshot, event.op ≠ .snapshot snapshot)
    (hupdate : ∀ update, event.op ≠ .update update) : Idles s (step event s) := by
  obtain ⟨now, op⟩ := event
  cases op with
  | connecting => exact idles_transition (by decide) (.inl rfl) _
  | connected =>
      refine idles_transition (by decide) (.inl ?_) _
      split <;> simp
  | subscribed =>
      obtain ⟨-, hbook⟩ := @idles_transition s s .subscribed (by decide) (.inl rfl)
        "subscription confirmed"
      exact ⟨.inr rfl, hbook⟩
  | disconnected reason => exact idles_transition (by decide) (.inr rfl) _
  | backoff reason => exact idles_transition (by decide) (.inl rfl) _
  | fatal reason => exact (halted_onFatal s reason).idles
  | snapshot snapshot => exact absurd rfl (hsnapshot snapshot)
  | update update => exact absurd rfl (hupdate update)
  | protocolError detail => exact idles_onProtocolError s detail
  | timer =>
      simp only [step, call]
      rcases onTimer_exit s now with
        ⟨-, hsame | ⟨hready, diag, failure, changes, hstale⟩⟩ | ⟨-, hafter⟩
      · rw [hsame]
        exact ⟨.inl rfl, fun _ => ⟨rfl, .inl rfl⟩⟩
      · rw [hstale]
        exact ⟨.inl rfl, fun _ => ⟨rfl, .inr ⟨.inl hready, .inr rfl⟩⟩⟩
      · exact hafter.idles
  | snapshotRequested => exact ⟨.inl rfl, fun _ => ⟨rfl, .inl rfl⟩⟩
  | snapshotFailed reason =>
      simp only [step, call]
      rcases noteSnapshotFailed_exit s reason with hagain | hhalted
      · rw [hagain]
        exact ⟨.inl rfl, fun _ => ⟨rfl, .inl rfl⟩⟩
      · exact hhalted.idles

theorem sound_new (symbol : Symbol) (config : SyncConfig) : (new symbol config).book.Sound :=
  OrderBook.Sound.clear _

/-- The symbol of the sample runs. -/
def sampleSymbol : Symbol := ⟨"XRPUSDT".toList, by decide⟩

end BookSynchronizer

end MmEngine.Book
