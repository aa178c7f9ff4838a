/-
# The book of the stream

Updates are buffered, discarded, applied or refused, depending on where the session is and
on what their identifiers say. However they are interleaved with images, connections,
timers and malformed messages, a session that is ready or stale keeps the book of the
stream: the last image it accepted, and after it received updates without a hole, of which
the first spans the image's end and each of the others begins where the one before ended.

Two books are the same here when they differ in their lifetime counters at most.
-/

import MmEngine.Book.PriceMap
import MmEngine.Book.SyncExits
import Mathlib.Data.List.Chain

namespace MmEngine.Book

open MmEngine.Exchange

namespace OrderBook

/-- The book without its lifetime counters. No call reads them. -/
def image (book : OrderBook) : OrderBook := { book with updatesApplied := 0, levelsDropped := 0 }

variable {book other : OrderBook}

theorem image_eq_iff : book.image = other.image ↔
    book.symbol = other.symbol ∧ book.maxDepth = other.maxDepth ∧ book.bids = other.bids ∧
      book.asks = other.asks ∧ book.stagingBids = other.stagingBids ∧
      book.stagingAsks = other.stagingAsks ∧ book.buildingSnapshot = other.buildingSnapshot ∧
      book.lastUpdateId = other.lastUpdateId ∧ book.snapshotApplied = other.snapshotApplied ∧
      book.violated = other.violated ∧ book.violation = other.violation := by
  simp [image]

theorem shaped_image : book.image.Shaped ↔ book.Shaped := Iff.rfl

theorem applicable_image {levels : BookLevels} {finalUpdateId : Seq64} :
    book.image.Applicable levels finalUpdateId ↔ book.Applicable levels finalUpdateId := Iff.rfl

theorem image_updated (levels : BookLevels) (finalUpdateId : Seq64) (dropped dropped' : Nat) :
    (book.updated levels finalUpdateId dropped).image =
      (book.image.updated levels finalUpdateId dropped').image := rfl

/-- Books with the same image take the same updates and stay alike. -/
theorem applyUpdate_congr (h : book.Shaped) (himage : book.image = other.image)
    {levels : BookLevels}
    {finalUpdateId : Seq64} (happlicable : book.Applicable levels finalUpdateId) :
    (other.applyUpdate levels finalUpdateId).1 = .ok ∧
      (book.applyUpdate levels finalUpdateId).2.image =
        (other.applyUpdate levels finalUpdateId).2.image := by
  have hother : other.Shaped := by
    rw [← shaped_image, ← himage]
    exact h
  have happlicable' : other.Applicable levels finalUpdateId := by
    rw [← applicable_image, ← himage]
    exact happlicable
  rcases applyUpdate_cases h levels finalUpdateId with ⟨-, dropped, hupdate⟩ | ⟨hnot, -⟩
  case inr => exact absurd happlicable hnot
  rcases applyUpdate_cases hother levels finalUpdateId with ⟨-, dropped', hupdate'⟩ | ⟨hnot, -⟩
  case inr => exact absurd happlicable' hnot
  rw [hupdate, hupdate']
  refine ⟨rfl, ?_⟩
  rw [image_updated levels finalUpdateId dropped 0, image_updated levels finalUpdateId dropped' 0,
    himage]

end OrderBook

namespace BookSynchronizer

/-- A whole update that the venue numbered: its range is not empty. -/
structure Numbered (update : BookUpdateEvent) : Prop where
  isLast : update.isLast = true
  first : update.firstUpdateId ≠ kNoSeq64
  final : update.finalUpdateId ≠ kNoSeq64
  le : update.firstUpdateId ≤ update.finalUpdateId

instance (update : BookUpdateEvent) : Decidable (Numbered update) :=
  decidable_of_iff
    (update.isLast = true ∧ update.firstUpdateId ≠ kNoSeq64 ∧ update.finalUpdateId ≠ kNoSeq64 ∧
      update.firstUpdateId ≤ update.finalUpdateId)
    ⟨fun h => ⟨h.1, h.2.1, h.2.2.1, h.2.2.2⟩, fun h => ⟨h.isLast, h.first, h.final, h.le⟩⟩

section Numbers

variable {update : BookUpdateEvent} {last : Seq64}

theorem first_eq_of_continuesFrom (h : continuesFrom update last = true)
    (hfirst : update.firstUpdateId ≠ kNoSeq64) : update.firstUpdateId = last + 1 := by
  rw [continuesFrom] at h
  split at h
  · rw [Bool.and_eq_true, Bool.or_eq_true, decide_eq_true_eq, decide_eq_true_eq,
      decide_eq_true_eq] at h
    obtain ⟨hprev, habsent | hfollows⟩ := h
    · exact absurd habsent hfirst
    · rw [hfollows, hprev]
  · exact of_decide_eq_true h

theorem toNat_first_of_continuesFrom (h : continuesFrom update last = true)
    (hfirst : update.firstUpdateId ≠ kNoSeq64) :
    update.firstUpdateId.toNat = last.toNat + 1 :=
  Seq64.toNat_of_eq_add_one (first_eq_of_continuesFrom h hfirst) hfirst

theorem toNat_of_spansSnapshot (h : spansSnapshot update last = true)
    (hfirst : update.firstUpdateId ≠ kNoSeq64) :
    update.firstUpdateId.toNat ≤ last.toNat + 1 ∧ last.toNat + 1 ≤ update.finalUpdateId.toNat := by
  rw [spansSnapshot, Bool.and_eq_true, decide_eq_true_eq, decide_eq_true_eq] at h
  obtain ⟨hbegins, hends⟩ := h
  have hnext : last + 1 ≠ kNoSeq64 := by
    intro hzero
    rw [hzero] at hbegins
    have hle : update.firstUpdateId.toNat ≤ 0 := hbegins
    exact hfirst (UInt64.toNat_inj.mp (Nat.le_zero.mp hle))
  have htoNat := Seq64.toNat_of_eq_add_one rfl hnext
  rw [← htoNat]
  exact ⟨hbegins, hends⟩

end Numbers

/-- The next update begins where this one ended. -/
def Abuts (update next : BookUpdateEvent) : Prop :=
  next.firstUpdateId.toNat = update.finalUpdateId.toNat + 1

instance : DecidableRel Abuts := fun _ _ => inferInstanceAs (Decidable (_ = _))

/-- Updates without a hole after an image: the first of them spans the identifier after the
image, and each of the others continues exactly from the one before. -/
def Chained (snapshotId : Seq64) (updates : List BookUpdateEvent) : Prop :=
  (∀ first ∈ updates.head?, first.firstUpdateId.toNat ≤ snapshotId.toNat + 1 ∧
      snapshotId.toNat + 1 ≤ first.finalUpdateId.toNat) ∧
    updates.IsChain Abuts

/-- The identifier that the last update ends with, or the image when there is none. -/
def lastId (snapshotId : Seq64) (updates : List BookUpdateEvent) : Seq64 :=
  (updates.getLast?.map BookUpdateEvent.finalUpdateId).getD snapshotId

theorem lastId_concat (snapshotId : Seq64) (updates : List BookUpdateEvent)
    (update : BookUpdateEvent) :
    lastId snapshotId (updates ++ [update]) = update.finalUpdateId := by
  simp [lastId]

/-- An update that begins one past the last identifier extends a chain. -/
theorem Chained.concat {snapshotId : Seq64} {updates : List BookUpdateEvent}
    {update : BookUpdateEvent} (h : Chained snapshotId updates) (hnumbered : Numbered update)
    (hnext : update.firstUpdateId.toNat = (lastId snapshotId updates).toNat + 1) :
    Chained snapshotId (updates ++ [update]) := by
  have hle : update.firstUpdateId.toNat ≤ update.finalUpdateId.toNat := hnumbered.le
  cases hlast : updates.getLast? with
  | none =>
      rw [List.getLast?_eq_none_iff] at hlast
      subst hlast
      have hfirst : update.firstUpdateId.toNat = snapshotId.toNat + 1 := hnext
      refine ⟨?_, List.IsChain.singleton _⟩
      rintro first ⟨⟩
      omega
  | some before =>
      rw [lastId, hlast] at hnext
      refine ⟨?_, List.IsChain.append h.2 (List.IsChain.singleton _) ?_⟩
      · intro first hfirst
        have hne : updates ≠ [] := by
          rintro rfl
          cases hlast
        rw [List.head?_append_of_ne_nil _ hne] at hfirst
        exact h.1 first hfirst
      · rintro x hx y ⟨⟩
        rw [hlast] at hx
        cases hx
        exact hnext

/-! ## The book of an image and updates -/

/-- Loading an image of one chunk and applying updates to it. -/
def streamOps (snapshot : BookSnapshotEvent) (updates : List BookUpdateEvent) : List OrderBook.Op :=
  OrderBook.loadOps [snapshot.levels] snapshot.lastUpdateId ++
    OrderBook.updateOps (updates.map fun update => (update.levels, update.finalUpdateId))

theorem streamOps_concat (snapshot : BookSnapshotEvent) (updates : List BookUpdateEvent)
    (update : BookUpdateEvent) :
    streamOps snapshot (updates ++ [update]) =
      streamOps snapshot updates ++ [.applyUpdate update.levels update.finalUpdateId] := by
  simp [streamOps, OrderBook.updateOps]

/-- The book is what the image and the updates make of an empty book, every one of them is
accepted there, and the updates have no hole. -/
structure Carries (base : OrderBook) (snapshot : BookSnapshotEvent)
    (updates : List BookUpdateEvent) (book : OrderBook) : Prop where
  succeeds : Machine.Along OrderBook.step OrderBook.Succeeds (streamOps snapshot updates) base
  image : book.image = (Machine.run OrderBook.step (streamOps snapshot updates) base).image
  valid : book.isValid = true
  lastUpdateId : book.lastUpdateId = lastId snapshot.lastUpdateId updates
  chained : Chained snapshot.lastUpdateId updates

section Carrying

variable {base book : OrderBook} {snapshot : BookSnapshotEvent} {updates : List BookUpdateEvent}

/-- An image that was just shown. -/
theorem carries_published (hsymbol : book.symbol = base.symbol)
    (hdepth : book.maxDepth = base.maxDepth) (hlevels : OrderBook.Stageable snapshot.levels)
    (hshown : (book.beginSnapshot.withChunk snapshot.levels).Publishable) :
    Carries base snapshot []
      ((book.beginSnapshot.withChunk snapshot.levels).published snapshot.lastUpdateId) := by
  have hadd : base.beginSnapshot.addSnapshotLevels snapshot.levels =
      (.ok, base.beginSnapshot.withChunk snapshot.levels) := by
    rcases @OrderBook.addSnapshotLevels_cases base.beginSnapshot
        ⟨by simp [OrderBook.beginSnapshot], by simp [OrderBook.beginSnapshot]⟩ snapshot.levels with
      ⟨-, -, hadd⟩ | ⟨hnot, -⟩
    · exact hadd
    · exact absurd ⟨rfl, hlevels⟩ hnot
  have hstaging : ∀ which, (book.beginSnapshot.withChunk snapshot.levels).staging which =
      (base.beginSnapshot.withChunk snapshot.levels).staging which := by
    rintro (_ | _) <;> rfl
  have hside : ∀ which, (book.beginSnapshot.withChunk snapshot.levels).imageSide which =
      (base.beginSnapshot.withChunk snapshot.levels).imageSide which := by
    intro which
    rw [OrderBook.imageSide, OrderBook.imageSide, hstaging which]
    exact congrArg (fun depth => List.take depth _) hdepth
  have hbase : (base.beginSnapshot.withChunk snapshot.levels).Publishable := by
    refine ⟨rfl, ?_, ?_⟩
    · intro which
      rw [← hstaging which]
      exact hshown.2.1 which
    · rw [← hside, ← hside]
      exact hshown.2.2
  have hfinish : (base.beginSnapshot.withChunk snapshot.levels).finishSnapshot
      snapshot.lastUpdateId =
        (.ok, (base.beginSnapshot.withChunk snapshot.levels).published snapshot.lastUpdateId) := by
    rcases OrderBook.finishSnapshot_cases (base.beginSnapshot.withChunk snapshot.levels)
        snapshot.lastUpdateId with ⟨-, hfinish⟩ | ⟨hnot, -⟩
    · exact hfinish
    · exact absurd hbase hnot
  have hstep : OrderBook.step (.addSnapshotLevels snapshot.levels)
      (OrderBook.step .beginSnapshot base) = base.beginSnapshot.withChunk snapshot.levels := by
    rw [OrderBook.step, OrderBook.call]
    exact congrArg Prod.snd hadd
  refine ⟨⟨rfl, ?_, ?_, trivial⟩, ?_, rfl, rfl, ⟨by simp, List.IsChain.nil⟩⟩
  · exact congrArg Prod.fst hadd
  · rw [hstep, OrderBook.Succeeds, OrderBook.call, hfinish]
  · rw [streamOps, List.map_nil, OrderBook.updateOps, List.map_nil, List.append_nil,
      OrderBook.loadOps, List.map_cons, List.map_nil, List.cons_append, List.nil_append,
      Machine.run_cons, Machine.run_cons, Machine.run_cons, Machine.run_nil, hstep, OrderBook.step,
      OrderBook.call, hfinish, OrderBook.image_eq_iff]
    exact ⟨hsymbol, hdepth, hside .buy, hside .sell, rfl, rfl, rfl, rfl, rfl, rfl, rfl⟩

/-- An update that follows on the book. -/
theorem Carries.concat (h : Carries base snapshot updates book) (hsound : book.Sound)
    {update : BookUpdateEvent} (hnumbered : Numbered update) (happlies : Applies book update)
    (hchained : Chained snapshot.lastUpdateId (updates ++ [update])) :
    Carries base snapshot (updates ++ [update])
      (book.applyUpdate update.levels (advanceTo update)).2 := by
  have hadvance : advanceTo update = update.finalUpdateId := by
    rw [advanceTo, if_pos hnumbered.isLast]
  rw [Applies, hadvance] at happlies
  obtain ⟨hok, himage⟩ := OrderBook.applyUpdate_congr hsound.shaped h.image happlies
  obtain ⟨dropped, hupdate⟩ :=
    @applyUpdate_of_applies book hsound update (by rw [Applies, hadvance]; exact happlies)
  refine ⟨?_, ?_, ?_, ?_, hchained⟩
  · rw [streamOps_concat, Machine.Along.append_iff]
    exact ⟨h.succeeds, hok, trivial⟩
  · rw [streamOps_concat, Machine.run_concat, hadvance]
    exact himage
  · rw [hupdate]
    exact h.valid
  · rw [hupdate, lastId_concat, hadvance]
    exact if_pos hnumbered.final

/-- Buffered updates that are drained after an update was applied. -/
theorem Carries.drains {rest : List BookUpdateEvent} (h : Carries base snapshot updates book)
    (hsound : book.Sound) (hnumbered : ∀ update ∈ rest, Numbered update)
    (hdrains : Drains rest true book) :
    Carries base snapshot (updates ++ rest) (applied rest book) := by
  induction rest generalizing updates book with
  | nil => simpa [applied] using h
  | cons update rest ih =>
      obtain ⟨hcontinues, happlies, hrest⟩ := hdrains
      obtain ⟨hhere, hlater⟩ := List.forall_mem_cons.mp hnumbered
      have hnext := toNat_first_of_continuesFrom (hcontinues rfl) hhere.first
      rw [h.lastUpdateId] at hnext
      have hcarries := h.concat hsound hhere happlies (h.chained.concat hhere hnext)
      rw [List.append_cons]
      exact ih hcarries (hsound.applyUpdate update.levels (advanceTo update)) hlater hrest

/-- The buffer that fits an image. -/
theorem Carries.reconciles {buffer : List BookUpdateEvent} (h : Carries base snapshot [] book)
    (hsound : book.Sound) (hnumbered : ∀ update ∈ buffer, Numbered update)
    (hfits : Reconciles buffer snapshot.lastUpdateId book) :
    Carries base snapshot (fresh buffer snapshot.lastUpdateId)
      (applied (fresh buffer snapshot.lastUpdateId) book) := by
  obtain ⟨hspans, hdrains⟩ := hfits
  have hnumbered : ∀ update ∈ fresh buffer snapshot.lastUpdateId, Numbered update :=
    fun update hupdate => hnumbered update ((List.dropWhile_sublist _).subset hupdate)
  generalize fresh buffer snapshot.lastUpdateId = updates at hspans hdrains hnumbered ⊢
  cases updates with
  | nil => exact h
  | cons update rest =>
      obtain ⟨-, happlies, hrest⟩ := hdrains
      obtain ⟨hhere, hlater⟩ := List.forall_mem_cons.mp hnumbered
      have hchained : Chained snapshot.lastUpdateId ([] ++ [update]) := by
        refine ⟨?_, List.IsChain.singleton _⟩
        rintro first ⟨⟩
        exact toNat_of_spansSnapshot (hspans update rfl) hhere.first
      rw [hhere.isLast, Bool.false_or] at hrest
      have hcarries := h.concat hsound hhere happlies hchained
      exact hcarries.drains (hsound.applyUpdate update.levels (advanceTo update)) hlater hrest

end Carrying

/-- Images come in one chunk, and updates in one chunk with their identifiers. -/
def Plain (event : Event) : Prop :=
  match event.op with
  | .snapshot snapshot => snapshot.isFirst = true ∧ snapshot.isLast = true
  | .update update =>
      update.isLast = true ∧ update.firstUpdateId ≠ kNoSeq64 ∧ update.finalUpdateId ≠ kNoSeq64
  | _ => True

/-- A session with the updates it was sent and the last image it accepted. -/
structure Feed where
  session : BookSynchronizer
  received : List BookUpdateEvent := []
  accepted : Option BookSnapshotEvent := none

namespace Feed

def step (event : Event) (world : Feed) : Feed where
  session := BookSynchronizer.step event world.session
  received :=
    match event.op with
    | .update update => world.received ++ [update]
    | _ => world.received
  accepted :=
    match event.op with
    | .snapshot snapshot =>
        if (call event world.session).1 = .ok then some snapshot else world.accepted
    | _ => world.accepted

/-- The book of a live session is that of the last image accepted and of updates received. -/
def IsStream (base : OrderBook) (world : Feed) : Prop :=
  ∃ snapshot updates, world.accepted = some snapshot ∧ updates.Sublist world.received ∧
    Carries base snapshot updates world.session.book

/-- What every step keeps. -/
structure Streams (base : OrderBook) (world : Feed) : Prop where
  sound : world.session.book.Sound
  symbol : world.session.book.symbol = base.symbol
  maxDepth : world.session.book.maxDepth = base.maxDepth
  numbered : ∀ update ∈ world.session.buffer, Numbered update
  buffer : world.session.buffer.Sublist world.received
  live : IsLive world.session.state → world.IsStream base

variable {base : OrderBook} {world : Feed}

/-- A step that buffers nothing. -/
theorem Streams.next (h : Streams base world) {after : BookSynchronizer}
    (hkeeps : Keeps world.session after)
    (hbuffer : after.buffer = world.session.buffer ∨ after.buffer = [])
    {received : List BookUpdateEvent} (hreceived : world.received.Sublist received)
    {accepted : Option BookSnapshotEvent}
    (hlive : IsLive after.state → IsStream base ⟨after, received, accepted⟩) :
    Streams base ⟨after, received, accepted⟩ := by
  refine ⟨hkeeps.sound, hkeeps.bookSymbol.trans h.symbol, hkeeps.maxDepth.trans h.maxDepth, ?_, ?_,
    hlive⟩
  · intro update hupdate
    rcases hbuffer with hsame | hempty
    · exact h.numbered update (hsame ▸ hupdate)
    · exact absurd (hempty ▸ hupdate) List.not_mem_nil
  · rcases hbuffer with hsame | hempty
    · exact hsame ▸ h.buffer.trans hreceived
    · exact hempty ▸ List.nil_sublist _

/-- A step that leaves a live book alone. -/
theorem Streams.of_idles (h : Streams base world) {after : BookSynchronizer}
    (hkeeps : Keeps world.session after) (hidles : Idles world.session after)
    {received : List BookUpdateEvent} (hreceived : world.received.Sublist received) :
    Streams base ⟨after, received, world.accepted⟩ := by
  apply h.next hkeeps hidles.buffer hreceived
  intro hlive
  obtain ⟨hbefore, hbook⟩ := hidles.of_isLive hlive
  obtain ⟨snapshot, updates, hsnapshot, hupdates, hcarries⟩ := h.live hbefore
  exact ⟨snapshot, updates, hsnapshot, hupdates.trans hreceived, hbook ▸ hcarries⟩

theorem Streams.step_update (h : Streams base world) {update : BookUpdateEvent} {now : Nanos}
    (hplain : Plain ⟨now, .update update⟩) :
    Streams base ⟨(world.session.onUpdate update now).2, world.received ++ [update],
      world.accepted⟩ := by
  have hkeeps := keeps_onUpdate h.sound update now
  have hexit := onUpdate_exit h.sound update now
  have hreceived : world.received.Sublist (world.received ++ [update]) :=
    List.sublist_append_left _ _
  generalize world.session.onUpdate update now = result at hkeeps hexit ⊢
  cases hexit with
  | foreign hsymbol => exact h.of_idles hkeeps ⟨.inl rfl, fun _ => ⟨rfl, .inl rfl⟩⟩ hreceived
  | malformed hnot => exact h.of_idles hkeeps (idles_onProtocolError _ _) hreceived
  | overflowed hlegible hstate hfull hafter => exact h.of_idles hkeeps hafter.idles hreceived
  | buffered hlegible hstate hroom =>
      have hnumbered : Numbered update :=
        ⟨hplain.1, hplain.2.1, hplain.2.2, hlegible.ids hplain.2.2⟩
      refine ⟨hkeeps.sound, h.symbol, h.maxDepth, ?_, h.buffer.append (List.Sublist.refl _), ?_⟩
      · exact List.forall_mem_append.mpr ⟨h.numbered, by simpa using hnumbered⟩
      · intro hlive
        change IsLive world.session.state at hlive
        rcases hstate with hstate | hstate
        · rw [hstate] at hlive
          exact absurd hlive (by decide)
        · rw [hstate] at hlive
          exact absurd hlive (by decide)
  | repeated hlegible hstate hcontains =>
      exact h.of_idles hkeeps ⟨.inl rfl, fun _ => ⟨rfl, .inl rfl⟩⟩ hreceived
  | restarted hlegible hstate hnot hbroken hafter => exact h.of_idles hkeeps hafter.idles hreceived
  | applied hlegible hstate hnot hfollows =>
      have hnumbered : Numbered update :=
        ⟨hplain.1, hplain.2.1, hplain.2.2, hlegible.ids hplain.2.2⟩
      apply h.next hkeeps (.inl rfl) hreceived
      intro _
      obtain ⟨snapshot, updates, hsnapshot, hupdates, hcarries⟩ := h.live hstate
      have hnext := toNat_first_of_continuesFrom hfollows.1 hnumbered.first
      rw [hcarries.lastUpdateId] at hnext
      refine ⟨snapshot, updates ++ [update], hsnapshot, hupdates.append (List.Sublist.refl _), ?_⟩
      exact hcarries.concat h.sound hnumbered hfollows.2 (hcarries.chained.concat hnumbered hnext)
  | noted hlegible hlive hbuffering =>
      exact h.of_idles hkeeps ⟨.inl rfl, fun _ => ⟨rfl, .inl rfl⟩⟩ hreceived

theorem Streams.step_snapshot (h : Streams base world) {snapshot : BookSnapshotEvent} {now : Nanos}
    (hplain : Plain ⟨now, .snapshot snapshot⟩) :
    Streams base ⟨(world.session.onSnapshot snapshot now).2, world.received,
      if (world.session.onSnapshot snapshot now).1 = .ok then some snapshot
      else world.accepted⟩ := by
  have hkeeps := keeps_onSnapshot h.sound snapshot now
  have hexit := onSnapshot_exit h.sound snapshot now
  generalize world.session.onSnapshot snapshot now = result at hkeeps hexit ⊢
  cases hexit with
  | ignored hnot =>
      exact h.of_idles hkeeps ⟨.inl rfl, fun _ => ⟨rfl, .inl rfl⟩⟩ (List.Sublist.refl _)
  | refused hexpects hnot hbids hasks =>
      obtain ⟨changes, hopened⟩ := opened_eq hexpects now
      have hstate : (world.session.opened snapshot now).state = .syncing := by
        rw [hopened]
        exact if_pos hplain.1
      refine h.next hkeeps (.inl (by rw [hopened])) (List.Sublist.refl _) ?_
      intro hlive
      have hlive : IsLive (world.session.opened snapshot now).state := hlive
      rw [hstate] at hlive
      exact absurd hlive (by decide)
  | staged hexpects hstages hlast => exact absurd (hlast.symm.trans hplain.2) (by decide)
  | restarted hexpects hstages hlast hnot hafter =>
      obtain ⟨changes, hopened⟩ := opened_eq hexpects now
      refine h.next hkeeps (.inr hafter.buffer) (List.Sublist.refl _) ?_
      intro hlive
      have hbefore := (hafter.idles.of_isLive hlive).1
      rw [hopened] at hbefore
      change IsLive (world.session.openState snapshot) at hbefore
      rw [openState, if_pos hplain.1] at hbefore
      exact absurd hbefore (by decide)
  | synchronized hexpects hstages hlast hcompletes =>
      have hopen : world.session.openBook snapshot = world.session.book.beginSnapshot :=
        if_pos hplain.1
      have hsound : (world.session.openBook snapshot).Sound := by
        rw [hopen]
        exact h.sound.beginSnapshot
      have hshown := (hsound.withChunk hstages.2).published hcompletes.1 snapshot.lastUpdateId
      rw [Completes, hopen] at hcompletes
      rw [hopen] at hshown
      have hcarries := (carries_published h.symbol h.maxDepth hstages.2 hcompletes.1).reconciles
        hshown h.numbered hcompletes.2
      refine h.next hkeeps (.inr (by simp [synchronized])) (List.Sublist.refl _) fun _ => ?_
      refine ⟨snapshot, fresh world.session.buffer snapshot.lastUpdateId, rfl,
        (List.dropWhile_sublist _).trans h.buffer, ?_⟩
      simp only [book_synchronized hexpects, hopen]
      exact hcarries

theorem Streams.step (h : Streams base world) {event : Event} (hplain : Plain event) :
    Streams base (Feed.step event world) := by
  have hkeeps := keeps_step event h.sound
  obtain ⟨now, op⟩ := event
  cases op with
  | snapshot snapshot => exact h.step_snapshot hplain
  | update update => exact h.step_update hplain
  | _ => exact h.of_idles hkeeps (idles_step (by simp) (by simp)) (List.Sublist.refl _)

/-- Along every run over images in one chunk and numbered updates, with any other calls
between them, a session that is ready or stale holds a valid book: the last image it
accepted, and after it received updates without a hole, the last of which gives the book its
identifier. -/
theorem live_book_is_stream (symbol : Symbol) (config : SyncConfig) {events : List Event}
    (hplain : ∀ event ∈ events, Plain event)
    (hlive : IsLive (Machine.run step events ⟨new symbol config, [], none⟩).session.state) :
    (Machine.run step events ⟨new symbol config, [], none⟩).IsStream
      (OrderBook.new symbol config.maxDepth) := by
  have hstart : Streams (OrderBook.new symbol config.maxDepth) ⟨new symbol config, [], none⟩ :=
    ⟨sound_new symbol config, rfl, rfl, by simp [new], by simp [new],
      fun hlive => absurd hlive (by simp [new, IsLive])⟩
  have hrun : Streams (OrderBook.new symbol config.maxDepth)
      (Machine.run step events ⟨new symbol config, [], none⟩) :=
    Machine.invariant_run (C := fun event _ => Plain event)
      (fun _ _ hstreams hevent => hstreams.step hevent) hstart
      (Machine.along_label_iff.mpr hplain)
  exact hrun.live hlive

/-- An update is buffered, the image arrives, a repeated update is dropped and the next one is
applied. -/
def streamEvents : List Event :=
  [ ⟨0, .connected⟩,
    ⟨0, .subscribed⟩,
    ⟨1, .update
      { symbol := sampleSymbol, firstUpdateId := 9, finalUpdateId := 12,
        levels := { bids := [OrderBook.sampleLevel 101 2] } }⟩,
    ⟨2, .snapshot
      { symbol := sampleSymbol, lastUpdateId := 10,
        levels :=
          { bids := [OrderBook.sampleLevel 100 5], asks := [OrderBook.sampleLevel 103 4] } }⟩,
    ⟨3, .update { symbol := sampleSymbol, firstUpdateId := 11, finalUpdateId := 12 }⟩,
    ⟨4, .update
      { symbol := sampleSymbol, firstUpdateId := 13, finalUpdateId := 13,
        levels := { asks := [OrderBook.sampleLevel 102 1] } }⟩ ]

theorem live_book_is_stream_sample :
    (Machine.run step streamEvents ⟨new sampleSymbol {}, [], none⟩).session.state = .ready ∧
      (Machine.run step streamEvents ⟨new sampleSymbol {}, [], none⟩).IsStream
        (OrderBook.new sampleSymbol 50) := by
  have hready : (Machine.run step streamEvents ⟨new sampleSymbol {}, [], none⟩).session.state =
      .ready := by
    decide +kernel
  refine ⟨hready, ?_⟩
  exact live_book_is_stream sampleSymbol {} (by simp [streamEvents, Plain, kNoSeq64]) (.inl hready)

end Feed

end BookSynchronizer

end MmEngine.Book
