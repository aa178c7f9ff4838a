/-
# Images that come in chunks

A session shows an image once its last chunk is in. What is shown is the best levels of
all the chunks, as long as every chunk before the last could be staged. A chunk that is
refused does not end the image: what was staged of it stays, the chunks after it are
added, and the last of them shows what there is.
-/

import MmEngine.Book.PriceMap
import MmEngine.Book.SyncExits

namespace MmEngine.Book

open MmEngine.Exchange

/-- The side holds the best of the levels, as many of them as the depth allows. -/
structure IsBest (depth : Nat) (which : Side) (levels side : List PriceLevel) : Prop where
  sorted : Ladder.Sorted (levelRank which) side
  length : side.length = min depth levels.length
  best : ∃ rest, (side ++ rest).Perm levels ∧
    ∀ shown ∈ side, ∀ cut ∈ rest, levelRank which shown < levelRank which cut

/-- An image that can be shown shows the best of what was staged. -/
theorem OrderBook.Publishable.isBest {book : OrderBook} (h : book.Publishable) (which : Side) :
    IsBest book.maxDepth which (book.staging which) (book.imageSide which) := by
  have hsorted := h.sorted which
  have hperm : (sortSide which (book.staging which)).Perm (book.staging which) :=
    List.perm_insertionSort _ _
  refine ⟨hsorted.sublist (List.take_sublist _ _), ?_, ?_⟩
  · rw [imageSide, List.length_take, hperm.length_eq]
  · refine ⟨(sortSide which (book.staging which)).drop book.maxDepth, ?_, ?_⟩
    · rw [imageSide, List.take_append_drop]
      exact hperm
    · have hsplit := List.take_append_drop book.maxDepth (sortSide which (book.staging which))
      rw [← hsplit] at hsorted
      exact (List.pairwise_append.mp hsorted).2.2

namespace BookSynchronizer

variable {s : BookSynchronizer}

theorem resyncState_ne_ready (state : SessionState) : resyncState state ≠ .ready := by
  cases state <;> decide

/-- An update during a sync ends it, or leaves the book. -/
theorem book_onUpdate_of_syncing (h : s.book.Sound) {update : BookUpdateEvent} {now : Nanos}
    (hafter : (s.onUpdate update now).2.state = .syncing) :
    s.state = .syncing ∧ (s.onUpdate update now).2.book = s.book := by
  have hexit := onUpdate_exit h update now
  generalize s.onUpdate update now = result at hexit hafter
  cases hexit with
  | foreign hsymbol => exact ⟨hafter, rfl⟩
  | malformed hnot => exact (idles_onProtocolError s _).of_syncing hafter
  | overflowed hlegible hstate hfull hrestarted => exact hrestarted.idles.of_syncing hafter
  | buffered hlegible hstate hroom => exact ⟨hafter, rfl⟩
  | repeated hlegible hstate hcontains => exact ⟨hafter, rfl⟩
  | restarted hlegible hstate hnot hbroken hrestarted => exact hrestarted.idles.of_syncing hafter
  | applied hlegible hstate hnot hfollows => cases hafter
  | noted hlegible hlive hbuffering => exact ⟨hafter, rfl⟩

/-- A call that is no snapshot neither starts a sync nor touches the book during one. -/
theorem book_step_of_syncing (h : s.book.Sound) {event : Event}
    (hsnapshot : ∀ snapshot, event.op ≠ .snapshot snapshot)
    (hafter : (step event s).state = .syncing) :
    s.state = .syncing ∧ (step event s).book = s.book := by
  by_cases hupdate : ∀ update, event.op ≠ .update update
  · exact (idles_step hsnapshot hupdate).of_syncing hafter
  · obtain ⟨now, op⟩ := event
    simp only [not_forall, not_not] at hupdate
    obtain ⟨update, rfl⟩ := hupdate
    exact book_onUpdate_of_syncing h hafter

/-- The chunk of an image that an event brings. -/
def Event.chunk? (event : Event) : Option BookSnapshotEvent :=
  match event.op with
  | .snapshot snapshot => some snapshot
  | _ => none

theorem Event.chunk?_eq_none {event : Event} :
    event.chunk? = none ↔ ∀ snapshot, event.op ≠ .snapshot snapshot := by
  obtain ⟨now, op⟩ := event
  cases op <;> simp [chunk?]

theorem Event.eq_of_chunk? {event : Event} {snapshot : BookSnapshotEvent}
    (h : event.chunk? = some snapshot) : event = ⟨event.now, .snapshot snapshot⟩ := by
  obtain ⟨now, op⟩ := event
  cases op <;> simp_all [chunk?]

/-- A session with the image that is being delivered to it: the chunks that came since the
last first one, and what each was answered. -/
structure Delivery where
  session : BookSynchronizer
  chunks : List (BookLevels × Status) := []
  /-- The last chunk is still to come. -/
  isOpen : Bool := false

namespace Delivery

def step (event : Event) (world : Delivery) : Delivery :=
  match event.chunk? with
  | some snapshot =>
      if snapshot.symbol = world.session.symbol then
        { session := BookSynchronizer.step event world.session
          chunks :=
            (if snapshot.isFirst then [] else world.chunks) ++
              [(snapshot.levels, (call event world.session).1)]
          isOpen := !snapshot.isLast }
      else { world with session := BookSynchronizer.step event world.session }
  | none => { world with session := BookSynchronizer.step event world.session }

/-- A chunk that is not the first of its image follows one that is not the last. -/
def Framed (event : Event) (world : Delivery) : Prop :=
  ∀ snapshot ∈ event.chunk?, snapshot.symbol = world.session.symbol →
    snapshot.isFirst = false → world.isOpen = true

instance (event : Event) (world : Delivery) : Decidable (Framed event world) :=
  inferInstanceAs (Decidable (∀ _ ∈ _, _))

/-- A chunk that comes when it is of use and is not the last of its image can be staged. -/
def Intact (event : Event) (world : Delivery) : Prop :=
  ∀ snapshot ∈ event.chunk?, world.session.Expects snapshot → snapshot.isLast = false →
    OrderBook.Stageable snapshot.levels

instance (event : Event) (world : Delivery) : Decidable (Intact event world) :=
  inferInstanceAs (Decidable (∀ _ ∈ _, _))

/-- If the step is the last chunk of an image and makes the session ready, every chunk of
the image was taken, and the book shown, before the buffered updates went into it, holds the
best of the levels of all of them. -/
def Complete (event : Event) (world : Delivery) : Prop :=
  ∀ snapshot ∈ event.chunk?, snapshot.symbol = world.session.symbol → snapshot.isLast = true →
    world.session.state ≠ .ready → (step event world).session.state = .ready →
      (∀ chunk ∈ (step event world).chunks, chunk.2 = .ok) ∧
        ∃ shown : OrderBook,
          (world.session.stageChunk snapshot event.now).2.book.finishSnapshot
              snapshot.lastUpdateId = (.ok, shown) ∧
            (step event world).session.book =
              applied (fresh world.session.buffer snapshot.lastUpdateId) shown ∧
            ∀ which, IsBest shown.maxDepth which
              (OrderBook.imageLevels which ((step event world).chunks.map Prod.fst))
              (shown.side which)

/-- During a sync whose image is still open, what is staged is what was delivered. -/
structure Staged (world : Delivery) : Prop where
  sound : world.session.book.Sound
  building : world.session.state = .syncing → world.isOpen = true →
    world.session.book.buildingSnapshot = true ∧
      (∀ which, world.session.book.staging which =
        OrderBook.imageLevels which (world.chunks.map Prod.fst)) ∧
      ∀ chunk ∈ world.chunks, chunk.2 = .ok

variable {world : Delivery} {event : Event}

theorem step_of_other (hop : event.chunk? = none) :
    step event world = { world with session := BookSynchronizer.step event world.session } := by
  rw [step, hop]

theorem step_of_snapshot {snapshot : BookSnapshotEvent} {now : Nanos}
    (hsymbol : snapshot.symbol = world.session.symbol) :
    step ⟨now, .snapshot snapshot⟩ world =
      { session := (world.session.onSnapshot snapshot now).2
        chunks :=
          (if snapshot.isFirst then [] else world.chunks) ++
            [(snapshot.levels, (world.session.onSnapshot snapshot now).1)]
        isOpen := !snapshot.isLast } := by
  simp only [step, Event.chunk?, if_pos hsymbol]
  rfl

theorem step_of_foreign {snapshot : BookSnapshotEvent} {now : Nanos}
    (hsymbol : snapshot.symbol ≠ world.session.symbol) :
    step ⟨now, .snapshot snapshot⟩ world = world := by
  simp only [step, Event.chunk?, if_neg hsymbol, BookSynchronizer.step, call]
  rw [onSnapshot, if_pos hsymbol]

/-- The image that a chunk goes into is the one delivered so far. -/
theorem Staged.openBook (h : world.Staged) {snapshot : BookSnapshotEvent}
    (hframed : snapshot.isFirst = false → world.isOpen = true)
    (hstate : world.session.openState snapshot = .syncing) :
    (world.session.openBook snapshot).buildingSnapshot = true ∧
      (∀ which, ((world.session.openBook snapshot).withChunk snapshot.levels).staging which =
        OrderBook.imageLevels which
          (((if snapshot.isFirst then [] else world.chunks) ++ [(snapshot.levels, Status.ok)]).map
            Prod.fst)) ∧
      ∀ chunk ∈ if snapshot.isFirst then [] else world.chunks, chunk.2 = .ok := by
  rw [openState] at hstate
  rw [BookSynchronizer.openBook]
  by_cases hfirst : snapshot.isFirst = true
  · simp only [if_pos hfirst]
    refine ⟨rfl, ?_, by simp⟩
    rintro (_ | _) <;>
      simp [OrderBook.staging, OrderBook.withChunk, OrderBook.beginSnapshot, OrderBook.imageLevels,
        sideLevels]
  · rw [if_neg hfirst] at hstate
    simp only [if_neg hfirst]
    obtain ⟨hbuilding, hstaging, hok⟩ :=
      h.building hstate (hframed (eq_false_of_ne_true hfirst))
    refine ⟨hbuilding, ?_, hok⟩
    intro which
    have hside := hstaging which
    cases which <;>
      simp_all [OrderBook.staging, OrderBook.withChunk, OrderBook.imageLevels, sideLevels]

theorem Staged.step_snapshot (h : world.Staged) {snapshot : BookSnapshotEvent} {now : Nanos}
    (hsymbol : snapshot.symbol = world.session.symbol)
    (hframed : snapshot.isFirst = false → world.isOpen = true)
    (hintact : world.session.Expects snapshot → snapshot.isLast = false →
      OrderBook.Stageable snapshot.levels) :
    (step ⟨now, .snapshot snapshot⟩ world).Staged := by
  rw [step_of_snapshot hsymbol]
  refine ⟨(keeps_onSnapshot h.sound snapshot now).sound, ?_⟩
  have hexit := onSnapshot_exit h.sound snapshot now
  generalize world.session.onSnapshot snapshot now = result at hexit
  intro hsyncing hopen
  have hlast : snapshot.isLast = false := by simpa using hopen
  cases hexit with
  | ignored hnot =>
      have hstate : world.session.state = .syncing := hsyncing
      exact absurd ⟨hsymbol, by rw [hstate]; rfl⟩ hnot
  | refused hexpects hnot hbids hasks =>
      obtain ⟨changes, hopened⟩ := opened_eq hexpects now
      have hstate : (world.session.opened snapshot now).state = .syncing := hsyncing
      rw [hopened] at hstate
      exact absurd ⟨(h.openBook hframed hstate).1, hintact hexpects hlast⟩ hnot
  | staged hexpects hstages =>
      obtain ⟨changes, hopened⟩ := opened_eq hexpects now
      have hstate : (world.session.opened snapshot now).state = .syncing := hsyncing
      rw [hopened] at hstate
      obtain ⟨hbuilding, hstaging, hok⟩ := h.openBook hframed hstate
      exact ⟨hbuilding, hstaging, List.forall_mem_append.mpr ⟨hok, by simp⟩⟩
  | restarted hexpects hstages hlast' => exact absurd (hlast.symm.trans hlast') (by decide)
  | synchronized hexpects hstages hlast' => exact absurd (hlast.symm.trans hlast') (by decide)

theorem Staged.step (h : world.Staged) (hframed : Framed event world)
    (hintact : Intact event world) : (Delivery.step event world).Staged := by
  cases hop : event.chunk? with
  | none =>
      rw [step_of_other hop]
      refine ⟨(keeps_step event h.sound).sound, ?_⟩
      intro hsyncing hopen
      obtain ⟨hstate, hbook⟩ :=
        book_step_of_syncing h.sound (Event.chunk?_eq_none.mp hop) hsyncing
      rw [hbook]
      exact h.building hstate hopen
  | some snapshot =>
      rw [Event.eq_of_chunk? hop]
      by_cases hsymbol : snapshot.symbol = world.session.symbol
      · exact h.step_snapshot hsymbol (hframed snapshot hop hsymbol) (hintact snapshot hop)
      · rw [step_of_foreign hsymbol]
        exact h

theorem book_stageChunk {s : BookSynchronizer} (hsound : s.book.Sound)
    {snapshot : BookSnapshotEvent} (hexpects : s.Expects snapshot) (hstages : s.Stages snapshot)
    (now : Nanos) :
    (s.stageChunk snapshot now).2.book = (s.openBook snapshot).withChunk snapshot.levels := by
  have hopen := (keeps_opened hsound hexpects now).sound
  have hbook : (s.stageChunk snapshot now).2.book =
      ((s.opened snapshot now).book.addSnapshotLevels snapshot.levels).2 := rfl
  rw [hbook]
  rw [book_opened hexpects] at hopen ⊢
  rcases OrderBook.addSnapshotLevels_cases hopen.staged snapshot.levels with
    ⟨-, -, hadd⟩ | ⟨hnot, -⟩
  · rw [hadd]
    rfl
  · exact absurd hstages hnot

/-- A chunk that is expected finds the session short of ready. -/
theorem openState_ne_ready {s : BookSynchronizer} {snapshot : BookSnapshotEvent}
    (h : s.Expects snapshot) : s.openState snapshot ≠ .ready := by
  have hwindow := h.2
  rw [openState]
  split
  · decide
  · intro hready
    rw [hready] at hwindow
    cases hwindow

/-- A session becomes ready only out of a sync. -/
theorem openState_of_synchronized {s : BookSynchronizer} {snapshot : BookSnapshotEvent}
    (h : s.Expects snapshot) {now : Nanos} {diag : SyncDiagnostics}
    (hready : ((s.showing snapshot now).synchronized snapshot.lastUpdateId diag).state = .ready) :
    s.openState snapshot = .syncing := by
  obtain ⟨changes, hopened⟩ := opened_eq h now
  have hstate : (s.showing snapshot now).state = s.openState snapshot := by rw [showing, hopened]
  rw [synchronized, state_transition] at hready
  change (if (s.showing snapshot now).state.isLegalTransition .ready then SessionState.ready
    else .error) = .ready at hready
  rw [hstate] at hready
  have hwindow := h.2
  rw [openState] at hready ⊢
  split
  · rfl
  · rename_i hfirst
    rw [if_neg hfirst] at hready
    generalize s.state = state at hwindow hready
    cases state <;> first | rfl | exact absurd hready (by decide) | cases hwindow

/-- A last chunk that makes the session ready completes an image that was taken whole. -/
theorem Staged.complete (h : world.Staged) (hframed : Framed event world) :
    Complete event world := by
  intro snapshot hop hsymbol hlast hnotReady hready
  have hframed := hframed snapshot hop hsymbol
  rw [Event.eq_of_chunk? hop] at hready ⊢
  rw [step_of_snapshot hsymbol] at hready ⊢
  have hexit := onSnapshot_exit h.sound snapshot event.now
  generalize world.session.onSnapshot snapshot event.now = result at hexit hready
  cases hexit with
  | ignored hnot => exact absurd hready hnotReady
  | refused hexpects hnot hbids hasks =>
      obtain ⟨changes, hopened⟩ := opened_eq hexpects event.now
      have hstate : (world.session.opened snapshot event.now).state = .ready := hready
      rw [hopened] at hstate
      exact absurd hstate (openState_ne_ready hexpects)
  | staged hexpects hstages hlast' => exact absurd (hlast'.symm.trans hlast) (by decide)
  | restarted hexpects hstages hlast' hnot hafter =>
      rw [hafter.state] at hready
      exact absurd hready (resyncState_ne_ready _)
  | synchronized hexpects hstages hlast' hcompletes =>
      obtain ⟨hbuilding, hstaging, hok⟩ :=
        h.openBook hframed (openState_of_synchronized hexpects hready)
      refine ⟨List.forall_mem_append.mpr ⟨hok, by simp⟩,
        ((world.session.openBook snapshot).withChunk snapshot.levels).published
          snapshot.lastUpdateId, ?_, ?_, ?_⟩
      · rw [book_stageChunk h.sound hexpects hstages]
        rcases OrderBook.finishSnapshot_cases
            ((world.session.openBook snapshot).withChunk snapshot.levels)
            snapshot.lastUpdateId with ⟨-, hfinish⟩ | ⟨hnot, -⟩
        · exact hfinish
        · exact absurd hcompletes.1 hnot
      · exact book_synchronized hexpects event.now _
      · intro which
        have hbest := hcompletes.1.isBest which
        rw [hstaging which] at hbest
        cases which <;> exact hbest

/-- In every run over framed images in which every chunk before the last of its image can be
staged, a session that becomes ready through a last chunk shows a complete image. -/
theorem complete_of_intact (symbol : Symbol) (config : SyncConfig) {events : List Event}
    (hframed : Machine.Along step Framed events ⟨new symbol config, [], false⟩)
    (hintact : Machine.Along step Intact events ⟨new symbol config, [], false⟩) :
    Machine.Along step Complete events ⟨new symbol config, [], false⟩ := by
  have hstart : Staged ⟨new symbol config, [], false⟩ :=
    ⟨sound_new symbol config, fun _ hopen => by cases hopen⟩
  generalize (⟨new symbol config, [], false⟩ : Delivery) = world at hframed hintact hstart ⊢
  induction events generalizing world with
  | nil => trivial
  | cons event events ih =>
      refine ⟨hstart.complete hframed.1, ?_⟩
      exact ih _ hframed.2 hintact.2 (hstart.step hframed.1 hintact.1)

/-- An image in two chunks. -/
def twoChunks (bid : PriceLevel) : List Event :=
  [ ⟨0, .connected⟩,
    ⟨0, .subscribed⟩,
    ⟨1, .snapshot
      { symbol := sampleSymbol
        lastUpdateId := 10
        levels := { bids := [bid, OrderBook.sampleLevel 99 3] }
        isLast := false }⟩,
    ⟨2, .snapshot
      { symbol := sampleSymbol
        lastUpdateId := 10
        levels := { asks := [OrderBook.sampleLevel 101 4] }
        isFirst := false }⟩ ]

theorem complete_of_intact_twoChunks :
    Machine.Along step Complete (twoChunks (OrderBook.sampleLevel 100 5))
      ⟨new sampleSymbol {}, [], false⟩ := by
  apply complete_of_intact
  · decide +kernel
  · decide +kernel

/-- A bid without a price is refused with the first chunk; the second makes the session ready
all the same, on a book without bids. -/
theorem incomplete_image_shown :
    Machine.Along step Framed (twoChunks (OrderBook.sampleLevel 0 5))
        ⟨new sampleSymbol {}, [], false⟩ ∧
      ¬Machine.Along step Complete (twoChunks (OrderBook.sampleLevel 0 5))
        ⟨new sampleSymbol {}, [], false⟩ := by
  refine ⟨by decide +kernel, ?_⟩
  rintro ⟨-, -, -, hcomplete, -⟩
  have hok := (hcomplete _ rfl (by decide +kernel) rfl (by decide +kernel) (by decide +kernel)).1
  revert hok
  decide +kernel

end Delivery

end BookSynchronizer

end MmEngine.Book
