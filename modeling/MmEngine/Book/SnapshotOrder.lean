/-
# When the snapshot arrives

The image and the stream travel separately, so the image may arrive before, between or
after the updates of a stream without holes. Updates that came first wait in the buffer and
are drained; the others are applied as they come. Both ways lead to the same ready book
exactly when the first update that the image does not contain begins where the image ends:
in the buffer it may begin earlier, on the live book it may not.
-/

import MmEngine.Book.StreamBook

namespace MmEngine.Book.BookSynchronizer

open MmEngine.Exchange

/-- The events bring these updates, whatever the clock says. -/
def Bring (events : List Event) (updates : List BookUpdateEvent) : Prop :=
  events.map Event.op = updates.map .update

theorem bring_nil {events : List Event} : Bring events [] ↔ events = [] := by
  simp [Bring]

theorem bring_cons {events : List Event} {update : BookUpdateEvent}
    {updates : List BookUpdateEvent} : Bring events (update :: updates) ↔
      ∃ now later, events = ⟨now, .update update⟩ :: later ∧ Bring later updates := by
  cases events with
  | nil => simp [Bring]
  | cons event events =>
      obtain ⟨now, op⟩ := event
      simp only [Bring, List.map_cons, List.cons.injEq]
      constructor
      · rintro ⟨rfl, hlater⟩
        exact ⟨now, events, ⟨rfl, rfl⟩, hlater⟩
      · rintro ⟨now', later, ⟨hevent, rfl⟩, hlater⟩
        cases hevent
        exact ⟨rfl, hlater⟩

/-- An update this session can read, whole and with its identifiers. -/
def Readable (s : BookSynchronizer) (update : BookUpdateEvent) : Prop :=
  s.Legible update ∧ Numbered update

instance (s : BookSynchronizer) (update : BookUpdateEvent) : Decidable (Readable s update) :=
  instDecidableAnd

theorem Legible.of_keeps {s after : BookSynchronizer} {update : BookUpdateEvent}
    (h : s.Legible update) (hkeeps : Keeps s after) : after.Legible update :=
  ⟨h.symbol.trans hkeeps.symbol.symm, h.counts, h.ids⟩

theorem Readable.of_keeps {s after : BookSynchronizer} {update : BookUpdateEvent}
    (h : Readable s update) (hkeeps : Keeps s after) : Readable after update :=
  ⟨h.1.of_keeps hkeeps, h.2⟩

section Updates

variable {s : BookSynchronizer} {events : List Event} {updates : List BookUpdateEvent}

theorem isLive_onUpdate {update : BookUpdateEvent} {now : Nanos} (hsound : s.book.Sound)
    (h : IsLive (s.onUpdate update now).2.state) : IsLive s.state := by
  have hexit := onUpdate_exit hsound update now
  generalize s.onUpdate update now = result at hexit h
  cases hexit with
  | foreign hsymbol => exact h
  | malformed hnot => exact ((idles_onProtocolError s _).of_isLive h).1
  | overflowed hlegible hstate hfull hafter => exact (hafter.idles.of_isLive h).1
  | buffered hlegible hstate hroom => exact h
  | repeated hlegible hstate hcontains => exact h
  | restarted hlegible hstate hnot hbroken hafter => exact (hafter.idles.of_isLive h).1
  | applied hlegible hstate hnot hfollows => exact hstate
  | noted hlegible hlive hbuffering => exact h

/-- Updates alone do not make a session live. -/
theorem isLive_of_run_updates (hsound : s.book.Sound) (hbring : Bring events updates)
    (h : IsLive (Machine.run step events s).state) : IsLive s.state := by
  induction updates generalizing s events with
  | nil =>
      rw [bring_nil.mp hbring] at h
      exact h
  | cons update updates ih =>
      obtain ⟨now, later, rfl, hlater⟩ := bring_cons.mp hbring
      exact isLive_onUpdate hsound (ih (keeps_onUpdate hsound update now).sound hlater h)

/-- Updates that a ready book contains pass by. -/
theorem run_contained (hsound : s.book.Sound) (hready : s.state = .ready)
    (hlegible : ∀ update ∈ updates, s.Legible update)
    (hcontains : ∀ update ∈ updates, Contains s.book update) (hbring : Bring events updates) :
    (Machine.run step events s).state = .ready ∧ (Machine.run step events s).book = s.book ∧
      Keeps s (Machine.run step events s) := by
  induction updates generalizing s events with
  | nil =>
      rw [bring_nil.mp hbring]
      exact ⟨hready, rfl, Keeps.refl hsound⟩
  | cons update updates ih =>
      obtain ⟨now, later, rfl, hlater⟩ := bring_cons.mp hbring
      obtain ⟨hhere, hrest⟩ := List.forall_mem_cons.mp hlegible
      obtain ⟨hcontained, hcontains⟩ := List.forall_mem_cons.mp hcontains
      have hkeeps := keeps_onUpdate hsound update now
      have hstep : (s.onUpdate update now).2.state = .ready ∧
          (s.onUpdate update now).2.book = s.book := by
        have hexit := onUpdate_exit hsound update now
        generalize s.onUpdate update now = result at hexit
        cases hexit with
        | foreign hsymbol => exact absurd hhere.symbol hsymbol
        | malformed hnot => exact absurd hhere hnot
        | overflowed hlegible hstate => exact absurd hstate (by rw [hready]; decide)
        | buffered hlegible hstate => exact absurd hstate (by rw [hready]; decide)
        | repeated hlegible hstate hcontains => exact ⟨hready, rfl⟩
        | restarted hlegible hstate hnot => exact absurd hcontained hnot
        | applied hlegible hstate hnot => exact absurd hcontained hnot
        | noted hlegible hlive => exact absurd (.inl hready) hlive
      obtain ⟨hstate, hbook, hkeeps'⟩ := ih hkeeps.sound hstep.1
        (fun later hmem => (hrest later hmem).of_keeps hkeeps)
        (fun later hmem => by rw [hstep.2]; exact hcontains later hmem) hlater
      exact ⟨hstate, hbook.trans hstep.2, hkeeps.trans hkeeps'⟩

/-- What a ready book does with an update it does not contain. -/
theorem onUpdate_of_ready {update : BookUpdateEvent} (hsound : s.book.Sound)
    (hready : s.state = .ready) (hlegible : s.Legible update) (hnew : ¬Contains s.book update)
    (now : Nanos) :
    (Follows s.book update ∧ (s.onUpdate update now).2.state = .ready ∧
        (s.onUpdate update now).2.book =
          (s.book.applyUpdate update.levels (advanceTo update)).2) ∨
      ¬Follows s.book update ∧ Restarted s (s.onUpdate update now).2 := by
  have hexit := onUpdate_exit hsound update now
  generalize s.onUpdate update now = result at hexit
  cases hexit with
  | foreign hsymbol => exact absurd hlegible.symbol hsymbol
  | malformed hnot => exact absurd hlegible hnot
  | overflowed hlegible hstate => exact absurd hstate (by rw [hready]; decide)
  | buffered hlegible hstate => exact absurd hstate (by rw [hready]; decide)
  | repeated hlegible hstate hcontains => exact absurd hcontains hnew
  | restarted hlegible hstate hnot hbroken hafter => exact .inr ⟨hbroken, hafter⟩
  | applied hlegible hstate hnot hfollows => exact .inl ⟨hfollows, rfl, rfl⟩
  | noted hlegible hlive => exact absurd (.inl hready) hlive

theorem lastUpdateId_of_follows {book : OrderBook} {update : BookUpdateEvent} (hsound : book.Sound)
    (hnumbered : Numbered update) (happlies : Applies book update) :
    (book.applyUpdate update.levels (advanceTo update)).2.lastUpdateId = update.finalUpdateId := by
  obtain ⟨dropped, hupdate⟩ := applyUpdate_of_applies hsound happlies
  rw [hupdate, advanceTo, if_pos hnumbered.isLast]
  exact if_pos hnumbered.final

/-- A ready book takes a stream without holes exactly when each update continues from the one
before and can be applied. -/
theorem run_live_iff (hsound : s.book.Sound) (hready : s.state = .ready)
    (hreadable : ∀ update ∈ updates, Readable s update) (hchain : updates.IsChain Abuts)
    (hnew : ∀ first ∈ updates.head?, s.book.lastUpdateId < first.finalUpdateId)
    (hbring : Bring events updates) :
    ((Machine.run step events s).state = .ready ↔ Drains updates true s.book) ∧
      (Drains updates true s.book → (Machine.run step events s).book = applied updates s.book) := by
  induction updates generalizing s events with
  | nil =>
      rw [bring_nil.mp hbring]
      exact ⟨iff_of_true hready trivial, fun _ => rfl⟩
  | cons update updates ih =>
      obtain ⟨now, later, rfl, hlater⟩ := bring_cons.mp hbring
      obtain ⟨hhere, hrest⟩ := List.forall_mem_cons.mp hreadable
      have hkeeps := keeps_onUpdate hsound update now
      have hnotYet : ¬Contains s.book update := fun hcontains =>
        absurd hcontains.2 (UInt64.not_le.mpr (hnew update rfl))
      rcases onUpdate_of_ready hsound hready hhere.1 hnotYet now with
        ⟨⟨hcontinues, happlies⟩, hstate, hbook⟩ | ⟨hbroken, hrestarted⟩
      · have hlast := lastUpdateId_of_follows hsound hhere.2 happlies
        -- The next update begins past the end of this one, and so ends past it as well.
        have hnext : ∀ first ∈ updates.head?,
            (s.onUpdate update now).2.book.lastUpdateId < first.finalUpdateId := by
          intro first hfirst
          have habuts : Abuts update first := (List.isChain_cons.mp hchain).1 first hfirst
          have hle : first.firstUpdateId.toNat ≤ first.finalUpdateId.toNat :=
            (hrest first (List.mem_of_mem_head? hfirst)).2.le
          rw [hbook, hlast, UInt64.lt_iff_toNat_lt]
          rw [Abuts] at habuts
          omega
        obtain ⟨hiff, happlied⟩ := ih hkeeps.sound hstate
          (fun later hmem => (hrest later hmem).of_keeps hkeeps) (List.isChain_cons.mp hchain).2
          hnext hlater
        rw [hbook] at hiff happlied
        constructor
        · refine hiff.trans ⟨fun hdrains => ⟨fun _ => hcontinues, happlies, hdrains⟩, ?_⟩
          exact fun hdrains => hdrains.2.2
        · exact fun hdrains => happlied hdrains.2.2
      · have hnot : ¬Drains (update :: updates) true s.book := fun hdrains =>
          hbroken ⟨hdrains.1 rfl, hdrains.2.1⟩
        refine ⟨iff_of_false ?_ hnot, fun hdrains => absurd hdrains hnot⟩
        intro hend
        have hlive := isLive_of_run_updates hkeeps.sound hlater (.inl hend)
        rw [hrestarted.state, hready] at hlive
        exact absurd hlive (by decide)

/-- Updates wait in the buffer as long as there is room. -/
theorem run_buffered (hsound : s.book.Sound) (hstate : s.state = .subscribed)
    (hreadable : ∀ update ∈ updates, Readable s update)
    (hroom : s.buffer.length + updates.length ≤ s.config.maxBufferedUpdates)
    (hbring : Bring events updates) :
    (Machine.run step events s).state = .subscribed ∧
      (Machine.run step events s).buffer = s.buffer ++ updates ∧
      (Machine.run step events s).book = s.book ∧ Keeps s (Machine.run step events s) := by
  induction updates generalizing s events with
  | nil =>
      rw [bring_nil.mp hbring]
      exact ⟨hstate, (List.append_nil _).symm, rfl, Keeps.refl hsound⟩
  | cons update updates ih =>
      obtain ⟨now, later, rfl, hlater⟩ := bring_cons.mp hbring
      obtain ⟨hhere, hrest⟩ := List.forall_mem_cons.mp hreadable
      rw [List.length_cons] at hroom
      have hkeeps := keeps_onUpdate hsound update now
      have hstep : (s.onUpdate update now).2.state = .subscribed ∧
          (s.onUpdate update now).2.buffer = s.buffer ++ [update] ∧
          (s.onUpdate update now).2.book = s.book := by
        have hexit := onUpdate_exit hsound update now
        generalize s.onUpdate update now = result at hexit
        cases hexit with
        | foreign hsymbol => exact absurd hhere.1.symbol hsymbol
        | malformed hnot => exact absurd hhere.1 hnot
        | overflowed hlegible hbuffering hfull => omega
        | buffered hlegible hbuffering hfits => exact ⟨hstate, rfl, rfl⟩
        | repeated hlegible hlive => exact absurd hlive (by rw [hstate]; decide)
        | restarted hlegible hlive => exact absurd hlive (by rw [hstate]; decide)
        | applied hlegible hlive => exact absurd hlive (by rw [hstate]; decide)
        | noted hlegible hlive hbuffering => exact absurd (.inl hstate) hbuffering
      obtain ⟨hstate', hbuffer, hbook⟩ := hstep
      obtain ⟨hend, hbuffer', hbook', hkeeps'⟩ := ih hkeeps.sound hstate'
        (fun later hmem => (hrest later hmem).of_keeps hkeeps)
        (by rw [hbuffer, hkeeps.config, List.length_append, List.length_singleton]; omega) hlater
      refine ⟨hend, ?_, hbook'.trans hbook, hkeeps.trans hkeeps'⟩
      rw [Machine.run_cons]
      exact hbuffer'.trans (by rw [hbuffer, List.append_assoc]; rfl)

end Updates

/-! ## Streams that can be drained -/

section Draining

variable {book : OrderBook} {updates later : List BookUpdateEvent}

theorem applied_append (updates later : List BookUpdateEvent) (book : OrderBook) :
    applied (updates ++ later) book = applied later (applied updates book) :=
  List.foldl_append

theorem drains_append : Drains (updates ++ later) true book ↔
    Drains updates true book ∧ Drains later true (applied updates book) := by
  induction updates generalizing book with
  | nil => simp [Drains, applied]
  | cons update updates ih =>
      simp only [List.cons_append, Drains, Bool.true_or, ih, and_assoc]
      rfl

/-- The first of the buffered updates need not continue. -/
theorem Drains.relax (h : Drains updates true book)
    (hnumbered : ∀ update ∈ updates, Numbered update) :
    Drains updates false book := by
  cases updates with
  | nil => trivial
  | cons update updates =>
      refine ⟨nofun, h.2.1, ?_⟩
      rw [(hnumbered update List.mem_cons_self).isLast]
      exact h.2.2

/-- The first of updates that drain begins one past the book, so that it spans the image the
book shows and is new to it. -/
theorem Drains.head (h : Drains updates true book) (hnumbered : ∀ update ∈ updates, Numbered update)
    {first : BookUpdateEvent} (hfirst : first ∈ updates.head?) :
    spansSnapshot first book.lastUpdateId = true ∧ book.lastUpdateId < first.finalUpdateId := by
  cases updates with
  | nil => cases hfirst
  | cons update updates =>
      cases hfirst
      have hnumber := hnumbered first List.mem_cons_self
      have hnext := first_eq_of_continuesFrom (h.1 rfl) hnumber.first
      have htoNat := toNat_first_of_continuesFrom (h.1 rfl) hnumber.first
      have hle : first.firstUpdateId.toNat ≤ first.finalUpdateId.toNat := hnumber.le
      constructor
      · rw [spansSnapshot, ← hnext, Bool.and_eq_true, decide_eq_true_eq, decide_eq_true_eq]
        exact ⟨UInt64.le_refl _, hnumber.le⟩
      · rw [UInt64.lt_iff_toNat_lt]
        omega

/-- Each of the updates can be applied to what the ones before made of the book. -/
def Takes : List BookUpdateEvent → OrderBook → Prop
  | [], _ => True
  | update :: updates, book =>
      Applies book update ∧ Takes updates (book.applyUpdate update.levels (advanceTo update)).2

/-- Each of the updates continues from the one before, the first from the identifier given. -/
def Seamless : List BookUpdateEvent → Seq64 → Prop
  | [], _ => True
  | update :: updates, last =>
      continuesFrom update last = true ∧ Seamless updates update.finalUpdateId

instance decidableTakes : ∀ updates book, Decidable (Takes updates book)
  | [], _ => .isTrue trivial
  | _ :: updates, _ => @instDecidableAnd _ _ _ (decidableTakes updates _)

instance decidableSeamless : ∀ updates last, Decidable (Seamless updates last)
  | [], _ => .isTrue trivial
  | _ :: updates, _ => @instDecidableAnd _ _ _ (decidableSeamless updates _)

theorem drains_iff (hsound : book.Sound) (hnumbered : ∀ update ∈ updates, Numbered update) :
    Drains updates true book ↔ Takes updates book ∧ Seamless updates book.lastUpdateId := by
  induction updates generalizing book with
  | nil => simp [Drains, Takes, Seamless]
  | cons update updates ih =>
      obtain ⟨hhere, hlater⟩ := List.forall_mem_cons.mp hnumbered
      have hrest := ih (hsound.applyUpdate update.levels (advanceTo update)) hlater
      simp only [Drains, Takes, Seamless, Bool.true_or, hrest, forall_const]
      constructor
      · rintro ⟨hcontinues, happlies, htakes, hseamless⟩
        rw [lastUpdateId_of_follows hsound hhere happlies] at hseamless
        exact ⟨⟨happlies, htakes⟩, hcontinues, hseamless⟩
      · rintro ⟨⟨happlies, htakes⟩, hcontinues, hseamless⟩
        rw [lastUpdateId_of_follows hsound hhere happlies]
        exact ⟨hcontinues, happlies, htakes, hseamless⟩

end Draining

/-- The updates that an image contains, at the front of a stream. -/
def contained (updates : List BookUpdateEvent) (snapshotId : Seq64) : List BookUpdateEvent :=
  updates.takeWhile fun update => update.finalUpdateId ≤ snapshotId

section Cutting

variable (updates : List BookUpdateEvent) (snapshotId : Seq64) (k : Nat)

theorem contained_append_fresh :
    contained updates snapshotId ++ fresh updates snapshotId = updates :=
  List.takeWhile_append_dropWhile

theorem fresh_take : fresh (updates.take k) snapshotId =
    (fresh updates snapshotId).take (k - (contained updates snapshotId).length) := by
  induction updates generalizing k with
  | nil => simp [fresh]
  | cons update updates ih =>
      cases k with
      | zero => simp [fresh]
      | succ k =>
          simp only [fresh, contained, List.take_succ_cons] at ih ⊢
          by_cases hcontained : update.finalUpdateId ≤ snapshotId
          · simp [hcontained, ih]
          · simp [hcontained]

theorem drop_eq : updates.drop k = (contained updates snapshotId).drop k ++
    (fresh updates snapshotId).drop (k - (contained updates snapshotId).length) := by
  conv_lhs => rw [← contained_append_fresh updates snapshotId]
  exact List.drop_append

variable {updates snapshotId}

theorem le_of_mem_contained {update : BookUpdateEvent} (h : update ∈ contained updates snapshotId) :
    update.finalUpdateId ≤ snapshotId := by
  have hall := List.all_takeWhile (p := fun update => decide (update.finalUpdateId ≤ snapshotId))
    (l := updates)
  rw [List.all_eq_true] at hall
  exact of_decide_eq_true (hall update h)

theorem lt_of_mem_head?_fresh {update : BookUpdateEvent}
    (h : update ∈ (fresh updates snapshotId).head?) : snapshotId < update.finalUpdateId := by
  have hnot := List.head?_dropWhile_not (fun update => decide (update.finalUpdateId ≤ snapshotId))
    updates
  rw [fresh] at h
  rw [h] at hnot
  exact UInt64.not_le.mp (of_decide_eq_false hnot)

end Cutting

/-- The book that shows an image of one chunk. -/
def shownBook (s : BookSynchronizer) (snapshot : BookSnapshotEvent) : OrderBook :=
  (s.book.beginSnapshot.withChunk snapshot.levels).published snapshot.lastUpdateId

/-- The image can be shown. -/
def Shows (s : BookSynchronizer) (snapshot : BookSnapshotEvent) : Prop :=
  OrderBook.Stageable snapshot.levels ∧
    (s.book.beginSnapshot.withChunk snapshot.levels).Publishable

instance (s : BookSynchronizer) (snapshot : BookSnapshotEvent) : Decidable (s.Shows snapshot) :=
  instDecidableAnd

/-- An image of one chunk for this session. -/
structure IsImage (s : BookSynchronizer) (snapshot : BookSnapshotEvent) : Prop where
  symbol : snapshot.symbol = s.symbol
  isFirst : snapshot.isFirst = true
  isLast : snapshot.isLast = true

section Image

variable {s : BookSynchronizer} {snapshot : BookSnapshotEvent}

theorem sound_shownBook (hsound : s.book.Sound) (h : Shows s snapshot) :
    (s.shownBook snapshot).Sound :=
  (hsound.beginSnapshot.withChunk h.1).published h.2 snapshot.lastUpdateId

/-- What an image does to a session that waits for one. -/
theorem onSnapshot_of_isImage (hsound : s.book.Sound) (hstate : s.state = .subscribed)
    (himage : s.IsImage snapshot) (now : Nanos) :
    ((s.Shows snapshot ∧ Reconciles s.buffer snapshot.lastUpdateId (s.shownBook snapshot)) ∧
        (s.onSnapshot snapshot now).2.state = .ready ∧
        (s.onSnapshot snapshot now).2.book =
          applied (fresh s.buffer snapshot.lastUpdateId) (s.shownBook snapshot)) ∨
      ¬(s.Shows snapshot ∧ Reconciles s.buffer snapshot.lastUpdateId (s.shownBook snapshot)) ∧
        ¬IsLive (s.onSnapshot snapshot now).2.state := by
  have hopen : s.openBook snapshot = s.book.beginSnapshot := if_pos himage.isFirst
  have hsyncing : s.openState snapshot = .syncing := if_pos himage.isFirst
  have hexit := onSnapshot_exit hsound snapshot now
  generalize s.onSnapshot snapshot now = result at hexit
  cases hexit with
  | ignored hnot => exact absurd ⟨himage.symbol, by rw [hstate]; rfl⟩ hnot
  | refused hexpects hnot hbids hasks =>
      obtain ⟨changes, hopened⟩ := opened_eq hexpects now
      refine .inr ⟨fun hall => hnot ⟨by rw [hopen]; rfl, hall.1.1⟩, ?_⟩
      have hafter : (s.opened snapshot now).state = .syncing := by rw [hopened, hsyncing]
      change ¬IsLive (s.opened snapshot now).state
      rw [hafter]
      decide
  | staged hexpects hstages hlast => exact absurd (hlast.symm.trans himage.isLast) (by decide)
  | restarted hexpects hstages hlast hnot hafter =>
      obtain ⟨changes, hopened⟩ := opened_eq hexpects now
      refine .inr ⟨fun hall => hnot ?_, ?_⟩
      · rw [Completes, hopen]
        exact ⟨hall.1.2, hall.2⟩
      · intro hlive
        have hbefore := (hafter.idles.of_isLive hlive).1
        rw [hopened] at hbefore
        change IsLive (s.openState snapshot) at hbefore
        rw [hsyncing] at hbefore
        exact absurd hbefore (by decide)
  | synchronized hexpects hstages hlast hcompletes =>
      have hbook := book_synchronized hexpects now
      rw [hopen] at hbook
      rw [Completes, hopen] at hcompletes
      refine .inl ⟨⟨⟨hstages.2, hcompletes.1⟩, hcompletes.2⟩, ?_, hbook _⟩
      obtain ⟨changes, hopened⟩ := opened_eq hexpects now
      have hafter : (s.showing snapshot now).state = .syncing := by rw [showing, hopened, hsyncing]
      simp only [synchronized, state_transition, hafter]
      rfl

end Image

/-- The stream with the image after its first `k` updates. -/
def delivery (updates : List BookUpdateEvent) (snapshot : BookSnapshotEvent) (k : Nat) : List Op :=
  (updates.take k).map .update ++ .snapshot snapshot :: (updates.drop k).map .update

/-- Wherever the image arrives, and whatever the clock says, the session ends up ready with
one and the same book. -/
def PositionFree (s : BookSynchronizer) (snapshot : BookSnapshotEvent)
    (updates : List BookUpdateEvent) : Prop :=
  ∃ book, ∀ k events, events.map Event.op = delivery updates snapshot k →
    (Machine.run step events s).state = .ready ∧ (Machine.run step events s).book = book

theorem exists_of_delivery {events : List Event} {updates : List BookUpdateEvent}
    {snapshot : BookSnapshotEvent} {k : Nat}
    (h : events.map Event.op = delivery updates snapshot k) :
    ∃ before now after, events = before ++ ⟨now, .snapshot snapshot⟩ :: after ∧
      Bring before (updates.take k) ∧ Bring after (updates.drop k) := by
  obtain ⟨before, rest, rfl, hbefore, hrest⟩ := List.map_eq_append_iff.mp h
  obtain ⟨event, after, rfl, hevent, hafter⟩ := List.map_eq_cons_iff.mp hrest
  refine ⟨before, event.now, after, ?_, hbefore, hafter⟩
  rw [← hevent]

theorem bring_append {events : List Event} {updates later : List BookUpdateEvent}
    (h : Bring events (updates ++ later)) :
    ∃ first second, events = first ++ second ∧ Bring first updates ∧ Bring second later := by
  rw [Bring, List.map_append] at h
  obtain ⟨first, second, rfl, hfirst, hsecond⟩ := List.map_eq_append_iff.mp h
  exact ⟨first, second, rfl, hfirst, hsecond⟩

section Position

variable {s : BookSynchronizer} {snapshot : BookSnapshotEvent} {updates : List BookUpdateEvent}

/-- A ready book takes the rest of the stream: what it contains passes by, and the others
continue. -/
theorem run_rest {events : List Event} {stale live : List BookUpdateEvent} (hsound : s.book.Sound)
    (hready : s.state = .ready) (hreadable : ∀ update ∈ stale ++ live, Readable s update)
    (hstale : ∀ update ∈ stale, update.finalUpdateId ≤ s.book.lastUpdateId)
    (hchain : live.IsChain Abuts)
    (hnew : ∀ first ∈ live.head?, s.book.lastUpdateId < first.finalUpdateId)
    (hbring : Bring events (stale ++ live)) :
    ((Machine.run step events s).state = .ready ↔ Drains live true s.book) ∧
      (Drains live true s.book → (Machine.run step events s).book = applied live s.book) := by
  obtain ⟨first, second, rfl, hfirst, hsecond⟩ := bring_append hbring
  obtain ⟨hreadStale, hreadLive⟩ := List.forall_mem_append.mp hreadable
  obtain ⟨hstate, hbook, hkeeps⟩ := run_contained hsound hready
    (fun update hupdate => (hreadStale update hupdate).1)
    (fun update hupdate => ⟨(hreadStale update hupdate).2.final, hstale update hupdate⟩) hfirst
  rw [Machine.run_append, ← hbook]
  exact run_live_iff hkeeps.sound hstate
    (fun update hupdate => (hreadLive update hupdate).of_keeps hkeeps) hchain
    (by rw [hbook]; exact hnew) hsecond

/-- With the image first, the session ends up ready only if the stream goes on where the image
ends. -/
theorem drains_of_ready_first (hsound : s.book.Sound) (hstate : s.state = .subscribed)
    (hbuffer : s.buffer = []) (himage : s.IsImage snapshot)
    (hreadable : ∀ update ∈ updates, Readable s update) (hchain : updates.IsChain Abuts)
    {now : Nanos} {events : List Event} (hbring : Bring events updates)
    (hready : (Machine.run step (⟨now, .snapshot snapshot⟩ :: events) s).state = .ready) :
    s.Shows snapshot ∧
      Drains (fresh updates snapshot.lastUpdateId) true (s.shownBook snapshot) := by
  have hkeeps := keeps_onSnapshot hsound snapshot now
  rcases onSnapshot_of_isImage hsound hstate himage now with
    ⟨⟨hshows, -⟩, hlive, hbook⟩ | ⟨-, hlost⟩
  case inr => exact absurd (isLive_of_run_updates hkeeps.sound hbring (.inl hready)) hlost
  have hshown : (s.onSnapshot snapshot now).2.book = s.shownBook snapshot := by
    rw [hbook, hbuffer]
    rfl
  refine ⟨hshows, ?_⟩
  have hcut := contained_append_fresh updates snapshot.lastUpdateId
  rw [← hcut] at hbring hreadable hchain
  have hrest := run_rest hkeeps.sound hlive
    (fun update hupdate => (hreadable update hupdate).of_keeps hkeeps)
    (fun update hupdate => by rw [hshown]; exact le_of_mem_contained hupdate)
    hchain.right_of_append
    (fun update hupdate => by rw [hshown]; exact lt_of_mem_head?_fresh hupdate) hbring
  rw [hshown] at hrest
  exact hrest.1.mp hready

/-- The updates before the image wait in the buffer, and the image is shown with the buffer
drained into it. -/
theorem run_image {early : List BookUpdateEvent} {before : List Event} (hsound : s.book.Sound)
    (hstate : s.state = .subscribed) (hbuffer : s.buffer = []) (himage : s.IsImage snapshot)
    (hreadable : ∀ update ∈ early, Readable s update)
    (hroom : early.length ≤ s.config.maxBufferedUpdates) (hshows : s.Shows snapshot)
    (hreconciles : Reconciles early snapshot.lastUpdateId (s.shownBook snapshot))
    (hbring : Bring before early) (now : Nanos) :
    ((Machine.run step before s).onSnapshot snapshot now).2.state = .ready ∧
      ((Machine.run step before s).onSnapshot snapshot now).2.book =
        applied (fresh early snapshot.lastUpdateId) (s.shownBook snapshot) ∧
      Keeps s ((Machine.run step before s).onSnapshot snapshot now).2 := by
  obtain ⟨hwaiting, hheld, hbook, hkeeps⟩ := run_buffered hsound hstate hreadable
    (by rw [hbuffer, List.length_nil, Nat.zero_add]; exact hroom) hbring
  rw [hbuffer, List.nil_append] at hheld
  generalize Machine.run step before s = waiting at *
  have hshown : waiting.shownBook snapshot = s.shownBook snapshot := by
    rw [shownBook, hbook, shownBook]
  have hfits : Reconciles waiting.buffer snapshot.lastUpdateId (waiting.shownBook snapshot) := by
    rw [hheld, hshown]
    exact hreconciles
  have hshowsThen : waiting.Shows snapshot := by
    rw [Shows, hbook]
    exact hshows
  have himageThen : waiting.IsImage snapshot :=
    ⟨himage.symbol.trans hkeeps.symbol.symm, himage.isFirst, himage.isLast⟩
  rcases onSnapshot_of_isImage hkeeps.sound hwaiting himageThen now with
    ⟨-, hready, hafter⟩ | ⟨hnot, -⟩
  · rw [hheld, hshown] at hafter
    exact ⟨hready, hafter, hkeeps.trans (keeps_onSnapshot hkeeps.sound snapshot now)⟩
  · exact absurd ⟨hshowsThen, hfits⟩ hnot

/-- A stream that goes on where the image ends leads to the same ready book, wherever the
image arrives. -/
theorem run_delivery_of_drains (hsound : s.book.Sound) (hstate : s.state = .subscribed)
    (hbuffer : s.buffer = []) (himage : s.IsImage snapshot)
    (hreadable : ∀ update ∈ updates, Readable s update)
    (hroom : updates.length ≤ s.config.maxBufferedUpdates) (hchain : updates.IsChain Abuts)
    (hshows : s.Shows snapshot)
    (hdrains : Drains (fresh updates snapshot.lastUpdateId) true (s.shownBook snapshot)) {k : Nat}
    {events : List Event} (hevents : events.map Event.op = delivery updates snapshot k) :
    (Machine.run step events s).state = .ready ∧
      (Machine.run step events s).book =
        applied (fresh updates snapshot.lastUpdateId) (s.shownBook snapshot) := by
  obtain ⟨before, now, after, rfl, hbefore, hafter⟩ := exists_of_delivery hevents
  have hcut := contained_append_fresh updates snapshot.lastUpdateId
  have hnumbered : ∀ update ∈ fresh updates snapshot.lastUpdateId, Readable s update :=
    fun update hupdate => hreadable update (hcut ▸ List.mem_append_right _ hupdate)
  have hlive : (fresh updates snapshot.lastUpdateId).IsChain Abuts := by
    rw [← hcut] at hchain
    exact hchain.right_of_append
  -- The stream after the image is cut where the image arrives.
  generalize hj : k - (contained updates snapshot.lastUpdateId).length = j
  have hsplit := List.take_append_drop j (fresh updates snapshot.lastUpdateId)
  have hfresh := fresh_take updates snapshot.lastUpdateId k
  rw [drop_eq updates snapshot.lastUpdateId k] at hafter
  rw [hj] at hfresh hafter
  have hstale : ∀ update ∈ (contained updates snapshot.lastUpdateId).drop k, j = 0 ∧
      update.finalUpdateId ≤ snapshot.lastUpdateId ∧ Readable s update := by
    intro update hupdate
    have hmem := List.mem_of_mem_drop hupdate
    have hlt : k < (contained updates snapshot.lastUpdateId).length := by
      by_contra hnot
      rw [List.drop_eq_nil_of_le (Nat.le_of_not_lt hnot)] at hupdate
      cases hupdate
    exact ⟨by omega, le_of_mem_contained hmem,
      hreadable update (hcut ▸ List.mem_append_left _ hmem)⟩
  generalize fresh updates snapshot.lastUpdateId = live at *
  rw [← hsplit] at hdrains hlive
  obtain ⟨hfirst, hsecond⟩ := drains_append.mp hdrains
  have hnumberedFirst : ∀ update ∈ live.take j, Numbered update := fun update hupdate =>
    (hnumbered update (List.mem_of_mem_take hupdate)).2
  have hreconciles : Reconciles (updates.take k) snapshot.lastUpdateId (s.shownBook snapshot) := by
    rw [Reconciles, hfresh]
    exact ⟨fun update hupdate => (hfirst.head hnumberedFirst hupdate).1,
      hfirst.relax hnumberedFirst⟩
  obtain ⟨hready, hbook, hkeeps⟩ := run_image hsound hstate hbuffer himage
    (fun update hupdate => hreadable update (List.mem_of_mem_take hupdate))
    (by rw [List.length_take]; omega) hshows hreconciles hbefore now
  rw [hfresh] at hbook
  rw [Machine.run_append, Machine.run_cons]
  have hrest := run_rest hkeeps.sound hready ?_ ?_ hlive.right_of_append ?_ hafter
  · rw [hbook] at hrest
    refine ⟨hrest.1.mpr hsecond, (hrest.2 hsecond).trans ?_⟩
    rw [← applied_append, hsplit]
  · rw [List.forall_mem_append]
    refine ⟨fun update hupdate => (hstale update hupdate).2.2.of_keeps hkeeps, ?_⟩
    exact fun update hupdate => (hnumbered update (List.mem_of_mem_drop hupdate)).of_keeps hkeeps
  · intro update hupdate
    obtain ⟨rfl, hle, -⟩ := hstale update hupdate
    rw [hbook]
    exact hle
  · intro update hupdate
    rw [hbook]
    exact (hsecond.head (fun later hlater => (hnumbered later (List.mem_of_mem_drop hlater)).2)
      hupdate).2

/-- From any session that is subscribed with an empty buffer that has room for all of a stream
without holes: the image may arrive anywhere in the stream, with one and the same ready book
in the end, exactly when the image and the updates it does not contain can be applied and
each of these updates, the first of them included, continues from what comes before it. -/
theorem positionFree_iff (symbol : Symbol) (config : SyncConfig) (earlier : List Event)
    (hstate : (Machine.run step earlier (new symbol config)).state = .subscribed)
    (hbuffer : (Machine.run step earlier (new symbol config)).buffer = [])
    (himage : (Machine.run step earlier (new symbol config)).IsImage snapshot)
    (hreadable : ∀ update ∈ updates,
      Readable (Machine.run step earlier (new symbol config)) update)
    (hroom : updates.length ≤ config.maxBufferedUpdates) (hchain : updates.IsChain Abuts) :
    PositionFree (Machine.run step earlier (new symbol config)) snapshot updates ↔
      (Shows (Machine.run step earlier (new symbol config)) snapshot ∧
          Takes (fresh updates snapshot.lastUpdateId)
            (shownBook (Machine.run step earlier (new symbol config)) snapshot)) ∧
        Seamless (fresh updates snapshot.lastUpdateId) snapshot.lastUpdateId := by
  have hkeeps := keeps_run earlier (sound_new symbol config)
  rw [← show (new symbol config).config = config from rfl, ← hkeeps.config] at hroom
  have hsound := hkeeps.sound
  generalize Machine.run step earlier (new symbol config) = s at *
  have hnumbered : ∀ update ∈ fresh updates snapshot.lastUpdateId, Numbered update :=
    fun update hupdate => (hreadable update ((List.dropWhile_sublist _).subset hupdate)).2
  constructor
  · rintro ⟨book, hall⟩
    have hbring : Bring (updates.map fun update => ⟨0, .update update⟩) updates := by
      simp [Bring, Function.comp_def]
    have hready := (hall 0
      (⟨0, .snapshot snapshot⟩ :: updates.map fun update => ⟨0, .update update⟩)
      (by simp [delivery, Function.comp_def])).1
    obtain ⟨hshows, hdrains⟩ :=
      drains_of_ready_first hsound hstate hbuffer himage hreadable hchain hbring hready
    obtain ⟨htakes, hseamless⟩ := (drains_iff (sound_shownBook hsound hshows) hnumbered).mp hdrains
    exact ⟨⟨hshows, htakes⟩, hseamless⟩
  · rintro ⟨⟨hshows, htakes⟩, hseamless⟩
    have hdrains := (drains_iff (sound_shownBook hsound hshows) hnumbered).mpr ⟨htakes, hseamless⟩
    exact ⟨_, fun k events hevents =>
      run_delivery_of_drains hsound hstate hbuffer himage hreadable hroom hchain hshows hdrains
        hevents⟩

/-- An image that ends at ten. -/
def sampleImage : BookSnapshotEvent where
  symbol := sampleSymbol
  lastUpdateId := 10
  levels := { bids := [OrderBook.sampleLevel 100 5], asks := [OrderBook.sampleLevel 103 4] }

/-- Two updates without a hole; the second goes to thirteen. -/
def sampleStream (cut : Seq64) : List BookUpdateEvent :=
  [ { symbol := sampleSymbol, firstUpdateId := 8, finalUpdateId := cut },
    { symbol := sampleSymbol, firstUpdateId := cut + 1, finalUpdateId := 13,
      levels := { bids := [OrderBook.sampleLevel 101 2] } } ]

/-- The connection comes up and is subscribed. -/
def subscribedEvents : List Event := [⟨0, .connected⟩, ⟨0, .subscribed⟩]

theorem positionFree_iff_sample :
    PositionFree (Machine.run step subscribedEvents (new sampleSymbol {})) sampleImage
      (sampleStream 10) := by
  rw [positionFree_iff sampleSymbol {} subscribedEvents (by decide +kernel) (by decide +kernel)
    ⟨by decide +kernel, rfl, rfl⟩ (by decide +kernel) (by decide) (by decide +kernel)]
  decide +kernel

/-- An update that goes from nine to thirteen straddles the image. It is drained when it came
first, and it is a gap when the image did: the session ends without a book. -/
theorem straddling_update_position :
    ((sampleStream 8).IsChain Abuts ∧
      (∀ update ∈ sampleStream 8,
        Readable (Machine.run step subscribedEvents (new sampleSymbol {})) update) ∧
      Shows (Machine.run step subscribedEvents (new sampleSymbol {})) sampleImage ∧
      Takes (fresh (sampleStream 8) 10)
        (shownBook (Machine.run step subscribedEvents (new sampleSymbol {})) sampleImage)) ∧
      ¬PositionFree (Machine.run step subscribedEvents (new sampleSymbol {})) sampleImage
        (sampleStream 8) := by
  refine ⟨by decide +kernel, ?_⟩
  rintro ⟨book, hall⟩
  have hready := (hall 0
    (⟨0, .snapshot sampleImage⟩ :: (sampleStream 8).map fun update => ⟨0, .update update⟩) rfl).1
  revert hready
  decide +kernel

end Position

end MmEngine.Book.BookSynchronizer
