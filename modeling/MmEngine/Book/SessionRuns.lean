/-
# What holds along the runs of a session

Two promises over whole runs. An error is there to stay: nothing but the report that the
transport is gone moves a session out of it, and that report is not the operator's alone.
Requests for an image are spaced by the retry delay: the delay is asked for as long as an
attempt is counted, so whatever sets that count back lets the next request go at once.
-/

import MmEngine.Book.SyncExits

namespace MmEngine.Book.BookSynchronizer

open MmEngine.Exchange

variable {s : BookSynchronizer}

/-- The call is no report of a lost transport to a session in error. -/
def LeavesError (event : Event) (s : BookSynchronizer) : Prop :=
  s.state = .error → ∀ reason, event.op ≠ .disconnected reason

theorem state_onProtocolError_of_error (h : s.state = .error) (detail : String) :
    (s.onProtocolError detail).state = .error := by
  rcases onProtocolError_exit s detail with ⟨diag, count, hcounted⟩ | hhalted
  · rw [hcounted]
    exact h
  · exact hhalted.state

theorem state_onUpdate_of_error (h : s.state = .error) (update : BookUpdateEvent) (now : Nanos) :
    (s.onUpdate update now).2.state = .error := by
  have hclock : (s.touchDataClock now).state = .error := h
  rw [onUpdate]
  split
  · exact h
  · split
    · exact state_onProtocolError_of_error h _
    · split
      · exact state_onProtocolError_of_error h _
      · simp only [hclock]

theorem state_onSnapshot_of_error (h : s.state = .error) (snapshot : BookSnapshotEvent)
    (now : Nanos) : (s.onSnapshot snapshot now).2.state = .error := by
  rw [onSnapshot]
  split
  · exact h
  · rw [if_pos (by rw [h]; rfl)]
    exact h

theorem state_step_of_error {event : Event} (h : s.state = .error)
    (hop : ∀ reason, event.op ≠ .disconnected reason) : (step event s).state = .error := by
  obtain ⟨now, op⟩ := event
  cases op with
  | connecting => simp [step, call, onConnecting, state_transition, h,
      SessionState.isLegalTransition]
  | connected => simp [step, call, onConnected, state_transition, h, SessionState.isLegalTransition]
  | subscribed => simp [step, call, onSubscribed, state_transition, h,
      SessionState.isLegalTransition]
  | disconnected reason => exact absurd rfl (hop reason)
  | backoff reason =>
      simp [step, call, onBackoff, state_transition, h, SessionState.isLegalTransition]
  | fatal reason => exact (halted_onFatal s reason).state
  | snapshot snapshot => exact state_onSnapshot_of_error h snapshot now
  | update update => exact state_onUpdate_of_error h update now
  | protocolError detail => exact state_onProtocolError_of_error h detail
  | timer => simp [step, call, onTimer, h]
  | snapshotRequested => exact h
  | snapshotFailed reason =>
      simp only [step, call]
      rcases noteSnapshotFailed_exit s reason with hagain | hhalted
      · rw [hagain]
        exact h
      · exact hhalted.state

/-- A session in error stays in error, and so never comes back to be quoted against, along
every run in which no lost transport is reported to it while it is in error. -/
theorem error_latched_of_leavesError {s : BookSynchronizer} (h : s.state = .error)
    {events : List Event} (hevents : Machine.Along step LeavesError events s) (n : Nat) :
    (Machine.run step (events.take n) s).state = .error ∧
      (Machine.run step (events.take n) s).state ≠ .ready := by
  have hprefix : Machine.Along step LeavesError (events.take n) s := by
    rw [← List.take_append_drop n events] at hevents
    exact (Machine.Along.append_iff.mp hevents).1
  have herror : (Machine.run step (events.take n) s).state = .error :=
    Machine.invariant_run (I := fun s => s.state = .error)
      (fun _ _ herror hleaves => state_step_of_error herror (hleaves herror)) h hprefix
  exact ⟨herror, by rw [herror]; decide⟩

/-- A session that has just failed for good. -/
def failedSession : BookSynchronizer :=
  step ⟨0, .fatal "unrecoverable"⟩ (new sampleSymbol {})

/-- Calls that do not mention the transport's loss. -/
def retryEvents : List Event := [⟨1, .connecting⟩, ⟨1, .connected⟩, ⟨2, .subscribed⟩, ⟨3, .timer⟩]

theorem error_latched_of_leavesError_retry :
    (Machine.run step (retryEvents.take 4) failedSession).state = .error :=
  (@error_latched_of_leavesError failedSession (by decide) retryEvents
    (by simp [Machine.Along, LeavesError, retryEvents]) 4).1

/-- What the adapter reports for a socket that dropped and came back, and the image it then
fetches. -/
def reconnectEvents : List Event :=
  [ ⟨1, .disconnected "socket lost"⟩, ⟨1, .connecting⟩, ⟨1, .backoff "socket lost"⟩,
    ⟨2, .connected⟩, ⟨2, .subscribed⟩,
    ⟨3, .snapshot { symbol := sampleSymbol, lastUpdateId := 10 }⟩ ]

/-- A socket that drops clears the error without an operator. -/
theorem error_cleared_by_reconnect :
    failedSession.state = .error ∧
      (Machine.run step reconnectEvents failedSession).state = .ready := by
  decide +kernel

/-- The session asks for an image. -/
def Waits (state : SessionState) : Prop := state = .subscribed ∨ state = .resyncRequired

instance (state : SessionState) : Decidable (Waits state) := instDecidableOr

/-- The transport is up and nothing is subscribed. -/
def Attached (state : SessionState) : Prop := state = .connected ∨ state = .authenticated

instance (state : SessionState) : Decidable (Attached state) := instDecidableOr

/-- The call ends with the book given up: an image that cannot be shown or does not fit the
buffer, an update that overflows the buffer, one that does not follow on a live book, or
data that has stopped for too long. -/
def Resyncs (event : Event) (s : BookSynchronizer) : Prop :=
  match event.op with
  | .snapshot snapshot =>
      s.Expects snapshot ∧ s.Stages snapshot ∧ snapshot.isLast = true ∧ ¬s.Completes snapshot
  | .update update =>
      s.Legible update ∧
        (IsBuffering s.state ∧ s.config.maxBufferedUpdates ≤ s.buffer.length ∨
          IsLive s.state ∧ ¬Contains s.book update ∧ ¬Follows s.book update)
  | .timer => s.Expired event.now
  | _ => False

/-- The call sets the count of attempts back while a request may be under way: it gives the
book up, or confirms the subscription once more. -/
def Rearms (event : Event) (s : BookSynchronizer) : Prop :=
  Resyncs event s ∨ event.op = .subscribed ∧ s.state = .subscribed

/-- The session neither asks for an image nor is about to subscribe. -/
def Elsewhere (state : SessionState) : Prop := ¬Waits state ∧ ¬Attached state

instance (state : SessionState) : Decidable (Elsewhere state) := instDecidableAnd

theorem not_attached_resyncState (state : SessionState) : ¬Attached (resyncState state) := by
  cases state <;> decide

theorem not_waits_transition {target : SessionState} (h : ¬Waits target) (s : BookSynchronizer)
    (reason : String) : ¬Waits (s.transition target reason).state := by
  rw [state_transition]
  split
  · exact h
  · decide

theorem elsewhere_transition {target : SessionState} (h : Elsewhere target) (s : BookSynchronizer)
    (reason : String) : Elsewhere (s.transition target reason).state := by
  rw [state_transition]
  split
  · exact h
  · decide

/-- What a call that is no request means for the next request: none can follow it at once,
it sets the count back, or the count is what it was. Only a new connection attaches the
session. -/
structure Paces (event : Event) (s after : BookSynchronizer) : Prop where
  last : after.lastSnapshotRequestNs = s.lastSnapshotRequestNs
  attached : Attached after.state → event.op = .connected ∨ Attached s.state
  waits : ¬Waits after.state ∨ Rearms event s ∨ (event.op = .subscribed ∧ Attached s.state) ∨
    Waits s.state ∧ after.snapshotAttempts = s.snapshotAttempts

section Pacing

variable {event : Event} {after : BookSynchronizer}

theorem Paces.of_elsewhere (hlast : after.lastSnapshotRequestNs = s.lastSnapshotRequestNs)
    (h : Elsewhere after.state) : Paces event s after :=
  ⟨hlast, fun hattached => absurd hattached h.2, .inl h.1⟩

theorem Paces.of_rearms (hlast : after.lastSnapshotRequestNs = s.lastSnapshotRequestNs)
    {state : SessionState} (hstate : after.state = resyncState state) (h : Rearms event s) :
    Paces event s after := by
  refine ⟨hlast, fun hattached => ?_, .inr (.inl h)⟩
  rw [hstate] at hattached
  exact absurd hattached (not_attached_resyncState state)

/-- A call that leaves the state, the count and the time of the last request. -/
theorem Paces.of_same (hlast : after.lastSnapshotRequestNs = s.lastSnapshotRequestNs)
    (hstate : after.state = s.state) (hattempts : after.snapshotAttempts = s.snapshotAttempts) :
    Paces event s after := by
  refine ⟨hlast, fun hattached => .inr (by rwa [hstate] at hattached), ?_⟩
  by_cases hwaits : Waits s.state
  · exact .inr (.inr (.inr ⟨hwaits, hattempts⟩))
  · exact .inl (by rwa [hstate])

theorem Halted.paces (h : Halted s after) : Paces event s after :=
  .of_elsewhere h.lastSnapshotRequestNs (by rw [h.state]; decide)

theorem paces_onProtocolError (s : BookSynchronizer) (detail : String) :
    Paces event s (s.onProtocolError detail) := by
  rcases onProtocolError_exit s detail with ⟨diag, count, hcounted⟩ | hhalted
  · rw [hcounted]
    exact .of_same rfl rfl rfl
  · exact hhalted.paces

/-- A chunk that ends no image. -/
theorem paces_opened {snapshot : BookSnapshotEvent} (h : s.Expects snapshot) (now : Nanos)
    (book : OrderBook) : Paces event s { s.opened snapshot now with book := book } := by
  obtain ⟨changes, hopened⟩ := opened_eq h now
  have hstate : (s.opened snapshot now).state = s.openState snapshot := by rw [hopened]
  have hlast : (s.opened snapshot now).lastSnapshotRequestNs = s.lastSnapshotRequestNs := by
    rw [hopened]
  have hattempts : (s.opened snapshot now).snapshotAttempts = s.snapshotAttempts := by rw [hopened]
  rw [openState] at hstate
  by_cases hfirst : snapshot.isFirst = true
  · rw [if_pos hfirst] at hstate
    refine .of_elsewhere hlast ?_
    simp only [hstate]
    decide
  · rw [if_neg hfirst] at hstate
    exact .of_same hlast hstate hattempts

/-- Only a session that is subscribed or attached may confirm a subscription. -/
theorem paces_subscribed (s : BookSynchronizer) (now : Nanos) :
    Paces ⟨now, .subscribed⟩ s s.onSubscribed := by
  have hlast : s.onSubscribed.lastSnapshotRequestNs = s.lastSnapshotRequestNs := by
    simp [onSubscribed]
  have hstate : s.onSubscribed.state =
      if s.state.isLegalTransition .subscribed then .subscribed else .error :=
    state_transition s _ _
  by_cases hattached : Attached s.state
  · exact ⟨hlast, fun _ => .inr hattached, .inr (.inr (.inl ⟨rfl, hattached⟩))⟩
  by_cases hsubscribed : s.state = .subscribed
  · have hagain : s.onSubscribed.state = resyncState .subscribed := by
      rw [hstate, hsubscribed]
      rfl
    exact .of_rearms hlast hagain (.inr ⟨rfl, hsubscribed⟩)
  · refine .of_elsewhere hlast ?_
    rw [hstate]
    generalize s.state = state at hattached hsubscribed
    cases state <;> first | decide | exact absurd (by decide) hattached |
        exact absurd rfl hsubscribed

theorem paces_snapshot (h : s.book.Sound) (snapshot : BookSnapshotEvent) (now : Nanos) :
    Paces ⟨now, .snapshot snapshot⟩ s (s.onSnapshot snapshot now).2 := by
  have hexit := onSnapshot_exit h snapshot now
  generalize s.onSnapshot snapshot now = result at hexit
  cases hexit with
  | ignored hnot => exact .of_same rfl rfl rfl
  | refused hexpects hnot hbids hasks => exact paces_opened hexpects now _
  | staged hexpects hstages hlast => exact paces_opened hexpects now _
  | restarted hexpects hstages hlast hnot hafter =>
      obtain ⟨changes, hopened⟩ := opened_eq hexpects now
      refine .of_rearms ?_ hafter.state (.inl ⟨hexpects, hstages, hlast, hnot⟩)
      rw [hafter.lastSnapshotRequestNs, hopened]
  | synchronized hexpects hstages hlast hcompletes =>
      obtain ⟨changes, hopened⟩ := opened_eq hexpects now
      refine .of_elsewhere ?_ (elsewhere_transition (by decide) _ _)
      simp [synchronized, showing, hopened]

theorem paces_update (h : s.book.Sound) (update : BookUpdateEvent) (now : Nanos) :
    Paces ⟨now, .update update⟩ s (s.onUpdate update now).2 := by
  have hexit := onUpdate_exit h update now
  generalize s.onUpdate update now = result at hexit
  cases hexit with
  | foreign hsymbol => exact .of_same rfl rfl rfl
  | malformed hnot => exact paces_onProtocolError s _
  | overflowed hlegible hstate hfull hafter =>
      exact .of_rearms hafter.lastSnapshotRequestNs hafter.state
        (.inl ⟨hlegible, .inl ⟨hstate, hfull⟩⟩)
  | buffered hlegible hstate hroom => exact .of_same rfl rfl rfl
  | repeated hlegible hstate hcontains => exact .of_same rfl rfl rfl
  | restarted hlegible hstate hnot hbroken hafter =>
      exact .of_rearms hafter.lastSnapshotRequestNs hafter.state
        (.inl ⟨hlegible, .inr ⟨hstate, hnot, hbroken⟩⟩)
  | applied hlegible hstate hnot hfollows =>
      exact .of_elsewhere rfl (show Elsewhere .ready by decide)
  | noted hlegible hlive hbuffering => exact .of_same rfl rfl rfl

theorem paces_timer (s : BookSynchronizer) (now : Nanos) :
    Paces ⟨now, .timer⟩ s (s.onTimer now) := by
  rcases onTimer_exit s now with
    ⟨-, hsame | ⟨-, diag, failure, changes, hstale⟩⟩ | ⟨hexpired, hafter⟩
  · rw [hsame]
    exact .of_same rfl rfl rfl
  · rw [hstale]
    exact .of_elsewhere rfl (show Elsewhere .stale by decide)
  · exact .of_rearms hafter.lastSnapshotRequestNs hafter.state (.inl hexpired)

end Pacing

theorem paces_step (h : s.book.Sound) {event : Event} (hop : event.op ≠ .snapshotRequested) :
    Paces event s (step event s) := by
  obtain ⟨now, op⟩ := event
  cases op with
  | connecting =>
      exact .of_elsewhere (by simp [step, call, onConnecting])
          (elsewhere_transition (by decide) _ _)
  | connected =>
      refine ⟨?_, fun _ => .inl rfl, .inl (not_waits_transition (by decide) _ _)⟩
      simp only [step, call, onConnected]
      split <;> simp
  | subscribed => exact paces_subscribed s now
  | disconnected reason =>
      exact .of_elsewhere (by simp [step, call, onDisconnected])
          (elsewhere_transition (by decide) _ _)
  | backoff reason =>
      exact .of_elsewhere (by simp [step, call, onBackoff]) (elsewhere_transition (by decide) _ _)
  | fatal reason => exact (halted_onFatal s reason).paces
  | snapshot snapshot => exact paces_snapshot h snapshot now
  | update update => exact paces_update h update now
  | protocolError detail => exact paces_onProtocolError s detail
  | timer => exact paces_timer s now
  | snapshotRequested => exact absurd rfl hop
  | snapshotFailed reason =>
      simp only [step, call]
      rcases noteSnapshotFailed_exit s reason with hagain | hhalted
      · rw [hagain]
        exact .of_same rfl rfl rfl
      · exact hhalted.paces

/-- A session with the reading of the clock and the time of the last request that was made
in this connection. -/
structure Pacing where
  session : BookSynchronizer
  clock : Nanos
  latest : Option Nanos := none

namespace Pacing

def step (event : Event) (world : Pacing) : Pacing where
  session := BookSynchronizer.step event world.session
  clock := event.now
  latest :=
    match event.op with
    | .connected => none
    | .snapshotRequested => some event.now
    | _ => world.latest

/-- The delay has passed since the last request of this connection. -/
def Rested (world : Pacing) (now : Nanos) : Prop :=
  ∀ last ∈ world.latest, last + world.session.config.snapshotRetryDelayNs ≤ now

/-- The clock does not go back, and a request is made only when one is wanted. -/
def Polite (event : Event) (world : Pacing) : Prop :=
  world.clock ≤ event.now ∧
    (event.op = .snapshotRequested → world.session.wantsSnapshot event.now = true)

/-- The count of attempts is set back only once the delay has passed. -/
def Patient (event : Event) (world : Pacing) : Prop :=
  Rearms event world.session → world.Rested event.now

/-- A request comes no sooner than the delay after the one before. -/
def Spaced (event : Event) (world : Pacing) : Prop :=
  event.op = .snapshotRequested → world.Rested event.now

instance (event : Event) (world : Pacing) : Decidable (Polite event world) := instDecidableAnd

instance (world : Pacing) (now : Nanos) : Decidable (world.Rested now) :=
  inferInstanceAs (Decidable (∀ _ ∈ _, _))

instance (event : Event) (world : Pacing) : Decidable (Spaced event world) :=
  inferInstanceAs (Decidable (_ → _))

/-- What a run of patient steps keeps. -/
structure Paced (world : Pacing) : Prop where
  sound : world.session.book.Sound
  attached : Attached world.session.state → world.latest = none
  last : ∀ last ∈ world.latest, world.session.lastSnapshotRequestNs = last
  rested : Waits world.session.state → world.session.snapshotAttempts = 0 →
    world.Rested world.clock

theorem waits_of_wantsSnapshot {now : Nanos} (h : s.wantsSnapshot now = true) : Waits s.state := by
  rw [wantsSnapshot] at h
  split at h
  · cases h
  · rename_i hwaits
    simpa [Waits, Classical.or_iff_not_imp_left] using hwaits

theorem not_attached_of_waits {state : SessionState} (h : Waits state) : ¬Attached state := by
  rcases h with rfl | rfl <;> decide

theorem Paced.spaced {world : Pacing} (h : world.Paced) {event : Event}
    (hpolite : Polite event world) : Spaced event world := by
  intro hrequest last hlast
  have hwants := hpolite.2 hrequest
  have hwaits := waits_of_wantsSnapshot hwants
  rw [wantsSnapshot] at hwants
  split at hwants
  · cases hwants
  split at hwants
  · cases hwants
  split at hwants
  · rename_i hzero
    exact (h.rested hwaits hzero last hlast).trans hpolite.1
  · rw [h.last last hlast, decide_eq_true_eq] at hwants
    exact Int.add_le_of_le_sub_left hwants

theorem Paced.step {world : Pacing} (h : world.Paced) {event : Event}
    (hpolite : Polite event world) (hpatient : Patient event world) :
    (Pacing.step event world).Paced := by
  have hkeeps := keeps_step event h.sound
  by_cases hrequest : event.op = .snapshotRequested
  case pos =>
    have hwaits := waits_of_wantsSnapshot (hpolite.2 hrequest)
    have hsession : (Pacing.step event world).session =
        world.session.noteSnapshotRequested event.now := by
      simp only [Pacing.step, BookSynchronizer.step, call, hrequest]
    refine ⟨hkeeps.sound, ?_, ?_, ?_⟩
    · rw [hsession]
      intro hattached
      exact absurd hattached (not_attached_of_waits hwaits)
    · rw [hsession]
      simp [Pacing.step, hrequest, noteSnapshotRequested]
    · rw [hsession]
      intro _ hzero
      cases hzero
  have hpaces := paces_step h.sound hrequest
  by_cases hconnected : event.op = .connected
  case pos =>
    have hlatest : (Pacing.step event world).latest = none := by
      simp only [Pacing.step, hconnected]
    refine ⟨hkeeps.sound, fun _ => hlatest, ?_, fun _ _ => ?_⟩
    · simp [hlatest]
    · simp [Rested, hlatest]
  have hlatest : (Pacing.step event world).latest = world.latest := by
    simp only [Pacing.step]
  have hrested : ∀ now, (Pacing.step event world).Rested now ↔ world.Rested now := by
    intro now
    rw [Rested, Rested, hlatest]
    simp only [Pacing.step, hkeeps.config]
  refine ⟨hkeeps.sound, ?_, ?_, ?_⟩
  · intro hattached
    rw [hlatest]
    exact h.attached ((hpaces.attached hattached).resolve_left hconnected)
  · intro last hlast
    rw [hlatest] at hlast
    exact hpaces.last.trans (h.last last hlast)
  · intro hwaits hzero
    rw [hrested]
    rcases hpaces.waits with hnot | hrearms | ⟨-, hattached⟩ | ⟨hstill, hattempts⟩
    · exact absurd hwaits hnot
    · exact hpatient hrearms
    · rw [Rested, h.attached hattached]
      simp
    · intro last hlast
      exact (h.rested hstill (hattempts.symm.trans hzero) last hlast).trans hpolite.1

/-- In every run with a clock that does not go back, in which a request is made only when
one is wanted and the count of attempts is set back only once the retry delay has passed
since the last request of the connection, consecutive requests of one connection are at
least the delay apart. -/
theorem requests_spaced_of_patient (symbol : Symbol) (config : SyncConfig) (clock : Nanos)
    {events : List Event}
    (hpolite : Machine.Along step Polite events ⟨new symbol config, clock, none⟩)
    (hpatient : Machine.Along step Patient events ⟨new symbol config, clock, none⟩) :
    Machine.Along step Spaced events ⟨new symbol config, clock, none⟩ := by
  have hstart : Paced ⟨new symbol config, clock, none⟩ := by
    refine ⟨sound_new symbol config, fun _ => rfl, by simp, ?_⟩
    simp [Rested]
  generalize (⟨new symbol config, clock, none⟩ : Pacing) = world at hpolite hpatient hstart ⊢
  induction events generalizing world with
  | nil => trivial
  | cons event events ih =>
      refine ⟨hstart.spaced hpolite.1, ?_⟩
      exact ih _ hpolite.2 hpatient.2 (hstart.step hpolite.1 hpatient.1)

/-- A session that is subscribed and has asked for an image. -/
def askedEvents : List Event := [⟨0, .connected⟩, ⟨0, .subscribed⟩, ⟨0, .snapshotRequested⟩]

/-- The request fails, and is made again once the delay has passed. -/
def retriedEvents : List Event :=
  askedEvents ++ [⟨1, .snapshotFailed "timeout"⟩, ⟨500000000, .snapshotRequested⟩]

theorem requests_spaced_of_patient_retry :
    Machine.Along step Spaced retriedEvents ⟨new sampleSymbol {}, 0, none⟩ := by
  apply requests_spaced_of_patient
  · decide +kernel
  · simp [Machine.Along, Patient, Rearms, Resyncs, retriedEvents, askedEvents]
    decide +kernel

/-- The image that answers is crossed, and the next request goes out a nanosecond after the
first. -/
def stormEvents : List Event :=
  askedEvents ++
    [ ⟨1, .snapshot
        { symbol := sampleSymbol
          lastUpdateId := 10
          levels :=
            { bids := [OrderBook.sampleLevel 101 1], asks := [OrderBook.sampleLevel 100 1] } }⟩,
      ⟨1, .snapshotRequested⟩ ]

/-- An image that fails its validation takes the delay away. -/
theorem requests_not_spaced_after_resync :
    Machine.Along step Polite stormEvents ⟨new sampleSymbol {}, 0, none⟩ ∧
      ¬Machine.Along step Spaced stormEvents ⟨new sampleSymbol {}, 0, none⟩ := by
  decide +kernel

end Pacing

end MmEngine.Book.BookSynchronizer
