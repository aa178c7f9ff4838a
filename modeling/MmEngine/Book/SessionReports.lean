/-
# What a session reports

The callback of a session is told every change of its state, and it reads the session as it
stands at that moment. A call changes the state once at most, with two exceptions: a
connection that begins after a pause dials first, and the last chunk of an image may also be
its first. The reports of a session therefore lead from state to state along its table, and
the session that a report finds is either the one the call leaves or one without a book to
quote.
-/

import MmEngine.Book.SyncExits

namespace MmEngine.Book

open MmEngine.Exchange

/-- Reports that lead from one state to another, each along the table of the session. -/
def Leads : SessionState → List StateChange → SessionState → Prop
  | source, [], target => source = target
  | source, change :: changes, target =>
      change.source = source ∧ source.isLegalTransition change.target = true ∧
        Leads change.target changes target

theorem Leads.append {source middle target : SessionState} {changes more : List StateChange}
    (h : Leads source changes middle) (h' : Leads middle more target) :
    Leads source (changes ++ more) target := by
  induction changes generalizing source with
  | nil =>
      cases h
      exact h'
  | cons change changes ih => exact ⟨h.1, h.2.1, ih h.2.2⟩

/-- The state after reports, the last of which says it. -/
def lastTarget (state : SessionState) (changes : List StateChange) : SessionState :=
  (changes.getLast?.map StateChange.target).getD state

theorem Leads.lastTarget_eq {source target : SessionState} {changes : List StateChange}
    (h : Leads source changes target) : lastTarget source changes = target := by
  induction changes generalizing source with
  | nil => exact h
  | cons change changes ih =>
      have hrest := ih h.2.2
      cases changes with
      | nil => exact hrest
      | cons next rest =>
          rw [lastTarget, List.getLast?_cons_cons]
          rw [lastTarget, List.getLast?_cons, Option.map_some, Option.getD_some] at hrest
          rw [List.getLast?_cons, Option.map_some, Option.getD_some, hrest]

namespace BookSynchronizer

variable {s t after : BookSynchronizer}

/-- On the way from one session to the other the changes `more` were reported. -/
structure Reports (s : BookSynchronizer) (more : List StateChange) (after : BookSynchronizer) :
    Prop where
  changes : after.changes = s.changes ++ more
  leads : Leads s.state more after.state

/-- Nothing was reported, and nothing happened that would have been. -/
def Quiet (s t : BookSynchronizer) : Prop := t.changes = s.changes ∧ t.state = s.state

/-- One change was reported at most. -/
def ReportsOnce (s after : BookSynchronizer) : Prop :=
  ∃ more, more.length ≤ 1 ∧ Reports s more after

theorem Reports.trans {more later : List StateChange} (h : Reports s more t)
    (h' : Reports t later after) : Reports s (more ++ later) after :=
  ⟨by rw [h'.changes, h.changes, List.append_assoc], h.leads.append h'.leads⟩

theorem Quiet.reports (h : Quiet s t) : Reports s [] t :=
  ⟨by rw [h.1, List.append_nil], h.2.symm⟩

theorem Quiet.once (h : Quiet s t) : ReportsOnce s t := ⟨[], Nat.zero_le _, h.reports⟩

theorem ReportsOnce.of_quiet (h : ReportsOnce t after) (hquiet : Quiet s t) :
    ReportsOnce s after := by
  obtain ⟨more, hlength, hreports⟩ := h
  exact ⟨more, hlength, hquiet.reports.trans hreports⟩

theorem ReportsOnce.quiet (h : ReportsOnce s t) (hquiet : Quiet t after) : ReportsOnce s after := by
  obtain ⟨more, hlength, hreports⟩ := h
  have hboth := hreports.trans hquiet.reports
  rw [List.append_nil] at hboth
  exact ⟨more, hlength, hboth⟩

theorem once_transition (s : BookSynchronizer) (target : SessionState) (reason : String) :
    ReportsOnce s (s.transition target reason) := by
  rw [transition]
  split
  · exact Quiet.once ⟨rfl, rfl⟩
  · split
    · exact ⟨[_], Nat.le_refl 1, rfl, rfl, by cases s.state <;> rfl, rfl⟩
    · rename_i hlegal
      rw [Bool.not_eq_true', Bool.not_eq_false] at hlegal
      exact ⟨[_], Nat.le_refl 1, rfl, rfl, hlegal, rfl⟩

theorem once_beginResync (s : BookSynchronizer) (failure : SyncFailure) (reason : String) :
    ReportsOnce s (s.beginResync failure reason) := by
  rw [beginResync]
  split
  · exact Quiet.once ⟨rfl, rfl⟩
  · exact (once_transition _ _ _).of_quiet ⟨rfl, rfl⟩

theorem once_onFatal (s : BookSynchronizer) (reason : String) :
    ReportsOnce s (s.onFatal reason) :=
  (once_transition _ _ _).of_quiet ⟨rfl, rfl⟩

theorem once_onProtocolError (s : BookSynchronizer) (detail : String) :
    ReportsOnce s (s.onProtocolError detail) := by
  simp only [onProtocolError]
  split
  · exact (once_onFatal _ _).of_quiet ⟨rfl, rfl⟩
  · exact Quiet.once ⟨rfl, rfl⟩

theorem once_noteSnapshotFailed (s : BookSynchronizer) (reason : String) :
    ReportsOnce s (s.noteSnapshotFailed reason) := by
  simp only [noteSnapshotFailed]
  split
  · exact (once_onFatal _ _).of_quiet ⟨rfl, rfl⟩
  · exact Quiet.once ⟨rfl, rfl⟩

theorem once_onTimer (s : BookSynchronizer) (now : Nanos) : ReportsOnce s (s.onTimer now) := by
  rw [onTimer]
  split
  · split
    · exact (once_transition _ _ _).of_quiet ⟨rfl, rfl⟩
    · exact Quiet.once ⟨rfl, rfl⟩
  · split
    · exact once_beginResync _ _ _
    · exact Quiet.once ⟨rfl, rfl⟩

theorem quiet_applyUpdateToBook (s : BookSynchronizer) (update : BookUpdateEvent) :
    Quiet s (s.applyUpdateToBook update).2 := by
  rw [applyUpdateToBook]
  split
  · exact ⟨rfl, rfl⟩
  · exact ⟨rfl, rfl⟩

theorem once_drain (updates : List BookUpdateEvent) (firstApplied : Bool) (s : BookSynchronizer) :
    ReportsOnce s (drain updates firstApplied s).2 := by
  induction updates generalizing firstApplied s with
  | nil => exact Quiet.once ⟨rfl, rfl⟩
  | cons update rest ih =>
      rw [drain]
      split
      · exact (once_beginResync _ _ _).of_quiet ⟨rfl, rfl⟩
      · have happly := quiet_applyUpdateToBook { s with buffer := rest } update
        split
        · rename_i applied heq
          rw [heq] at happly
          exact (ih _ _).of_quiet happly
        · rename_i damaged heq
          rw [heq] at happly
          exact (once_beginResync _ _ _).of_quiet happly

/-- A buffer that was applied to its end has reported nothing. -/
theorem quiet_drain {updates : List BookUpdateEvent} {firstApplied : Bool}
    (h : drain updates firstApplied s = (.ok, after)) : Quiet s after := by
  induction updates generalizing firstApplied s with
  | nil =>
      cases h
      exact ⟨rfl, rfl⟩
  | cons update rest ih =>
      rw [drain] at h
      split at h
      · cases h
      · have happly := quiet_applyUpdateToBook { s with buffer := rest } update
        split at h
        · rename_i applied heq
          rw [heq] at happly
          have hrest := ih h
          exact ⟨hrest.1.trans happly.1, hrest.2.trans happly.2⟩
        · cases h

theorem once_completeSync (s : BookSynchronizer) : ReportsOnce s s.completeSync.2 := by
  rw [completeSync]
  split
  · exact (once_transition _ _ _).of_quiet ⟨rfl, rfl⟩
  · exact once_beginResync _ _ _

theorem once_reconcile (s : BookSynchronizer) (snapshotId : Seq64) :
    ReportsOnce s (s.reconcile snapshotId).2 := by
  simp only [reconcile]
  split
  · exact (once_beginResync _ _ _).of_quiet ⟨rfl, rfl⟩
  · split
    · rename_i drained heq
      have hquiet := quiet_drain heq
      exact (once_completeSync drained).of_quiet hquiet
    · exact (once_drain _ _ _).of_quiet ⟨rfl, rfl⟩

theorem once_bufferUpdate (s : BookSynchronizer) (update : BookUpdateEvent) :
    ReportsOnce s (s.bufferUpdate update).2 := by
  rw [bufferUpdate]
  split
  · exact (once_beginResync _ _ _).of_quiet ⟨rfl, rfl⟩
  · exact Quiet.once ⟨rfl, rfl⟩

theorem once_liveUpdate (s : BookSynchronizer) (update : BookUpdateEvent) :
    ReportsOnce s (s.liveUpdate update).2 := by
  rw [liveUpdate]
  split
  · exact Quiet.once ⟨rfl, rfl⟩
  · split
    · exact (once_beginResync _ _ _).of_quiet ⟨rfl, rfl⟩
    · have happly := quiet_applyUpdateToBook s update
      split
      · rename_i applied heq
        rw [heq] at happly
        simp only
        split
        · exact (once_transition _ _ _).of_quiet happly
        · exact happly.once
      · rename_i damaged heq
        rw [heq] at happly
        exact (once_beginResync _ _ _).of_quiet happly

theorem once_onUpdate (s : BookSynchronizer) (update : BookUpdateEvent) (now : Nanos) :
    ReportsOnce s (s.onUpdate update now).2 := by
  rw [onUpdate]
  split
  · exact Quiet.once ⟨rfl, rfl⟩
  · split
    · exact once_onProtocolError _ _
    · split
      · exact once_onProtocolError _ _
      · simp only
        split
        · exact (once_bufferUpdate _ _).of_quiet ⟨rfl, rfl⟩
        · exact (once_bufferUpdate _ _).of_quiet ⟨rfl, rfl⟩
        · exact (once_liveUpdate _ _).of_quiet ⟨rfl, rfl⟩
        · exact (once_liveUpdate _ _).of_quiet ⟨rfl, rfl⟩
        all_goals exact Quiet.once ⟨rfl, rfl⟩

/-- The session once the first chunk of an image has started the sync. -/
def syncStarted (s : BookSynchronizer) (snapshot : BookSnapshotEvent) (now : Nanos) :
    BookSynchronizer :=
  if s.Expects snapshot ∧ snapshot.isFirst = true then
    (s.touchDataClock now).transition .syncing "applying snapshot"
  else s

theorem quiet_stageChunk {snapshot : BookSnapshotEvent} (h : s.Expects snapshot) (now : Nanos) :
    Quiet (s.syncStarted snapshot now) (s.stageChunk snapshot now).2 := by
  simp only [syncStarted, stageChunk, h, true_and]
  split
  · simp only [beginImage]
    split
    · exact ⟨rfl, rfl⟩
    · rename_i hsyncing
      rw [transition, if_pos (not_not.mp hsyncing)]
      exact ⟨rfl, rfl⟩
  · exact ⟨rfl, rfl⟩

/-- Behind the start of the sync a chunk has one change to report at most. -/
theorem once_onSnapshot (s : BookSynchronizer) (snapshot : BookSnapshotEvent) (now : Nanos) :
    ReportsOnce (s.syncStarted snapshot now) (s.onSnapshot snapshot now).2 := by
  by_cases hexpects : s.Expects snapshot
  · have hstage := quiet_stageChunk hexpects now
    rw [onSnapshot, if_neg (not_not.mpr hexpects.1), if_neg (by simp [hexpects.2])]
    split
    · rename_i heq
      rw [heq] at hstage
      exact hstage.once
    · rename_i staged heq
      rw [heq] at hstage
      split
      · exact hstage.once
      · split
        · exact (once_beginResync _ _ _).of_quiet hstage
        · exact (once_reconcile _ _).of_quiet hstage
  · rw [syncStarted, if_neg (fun hboth => hexpects hboth.1), onSnapshot]
    split
    · exact Quiet.once ⟨rfl, rfl⟩
    · rename_i hsymbol
      rw [if_pos]
      · exact Quiet.once ⟨rfl, rfl⟩
      · rw [Bool.not_eq_true', ← Bool.not_eq_true]
        exact fun hwindow => hexpects ⟨not_not.mp hsymbol, hwindow⟩

/-! ## The sessions that the callback finds -/

/-- The session behind the first of the two changes that a call may make. -/
def halfway (event : Event) (s : BookSynchronizer) : BookSynchronizer :=
  match event.op with
  | .connected =>
      if s.state = .disconnected || s.state = .backoff then s.transition .connecting "dialling"
      else s
  | .snapshot snapshot => s.syncStarted snapshot event.now
  | _ => s

/-- What the callback finds between two sessions that are one change apart at most. -/
def calledBack (s after : BookSynchronizer) : List BookSynchronizer :=
  if after.changes.length = s.changes.length then [] else [after]

/-- The session as the callback finds it, for each change that a call makes. -/
def trail (event : Event) (s : BookSynchronizer) : List BookSynchronizer :=
  calledBack s (halfway event s) ++ calledBack (halfway event s) (step event s)

theorem once_halfway (event : Event) (s : BookSynchronizer) :
    ReportsOnce s (halfway event s) := by
  rw [halfway]
  split
  · split
    · exact once_transition _ _ _
    · exact Quiet.once ⟨rfl, rfl⟩
  · rw [syncStarted]
    split
    · exact (once_transition _ _ _).of_quiet ⟨rfl, rfl⟩
    · exact Quiet.once ⟨rfl, rfl⟩
  · exact Quiet.once ⟨rfl, rfl⟩

theorem once_step (event : Event) (s : BookSynchronizer) :
    ReportsOnce (halfway event s) (step event s) := by
  obtain ⟨now, op⟩ := event
  cases op with
  | connecting => exact once_transition _ _ _
  | connected => exact once_transition _ _ _
  | subscribed => exact (once_transition _ _ _).quiet ⟨rfl, rfl⟩
  | disconnected reason => exact (once_transition _ _ _).of_quiet ⟨rfl, rfl⟩
  | backoff reason => exact once_transition _ _ _
  | fatal reason => exact once_onFatal _ _
  | snapshot snapshot => exact once_onSnapshot _ _ _
  | update update => exact once_onUpdate _ _ _
  | protocolError detail => exact once_onProtocolError _ _
  | timer => exact once_onTimer _ _
  | snapshotRequested => exact Quiet.once ⟨rfl, rfl⟩
  | snapshotFailed reason => exact once_noteSnapshotFailed _ _

theorem calledBack_of_once (h : ReportsOnce s after) : ∃ more, Reports s more after ∧
    (calledBack s after).map (fun found => found.changes.getLast?) = more.map some := by
  obtain ⟨more, hlength, hreports⟩ := h
  refine ⟨more, hreports, ?_⟩
  rw [calledBack, hreports.changes, List.length_append]
  match more with
  | [] => simp
  | [change] => simp [hreports.changes]
  | _ :: _ :: _ => exact absurd hlength (by simp)

/-- The callback is told each change of a call, in order, in the session that made it. -/
theorem reports_step (event : Event) (s : BookSynchronizer) :
    ∃ more, Reports s more (step event s) ∧
      (trail event s).map (fun found => found.changes.getLast?) = more.map some := by
  obtain ⟨first, hfirst, hseen⟩ := calledBack_of_once (once_halfway event s)
  obtain ⟨second, hsecond, hseen'⟩ := calledBack_of_once (once_step event s)
  refine ⟨first ++ second, hfirst.trans hsecond, ?_⟩
  rw [trail, List.map_append, List.map_append, hseen, hseen']

theorem quiet_of_calledBack (h : ReportsOnce s after) (hnone : calledBack s after = []) :
    Quiet s after := by
  obtain ⟨more, hreports, hseen⟩ := calledBack_of_once h
  rw [hnone] at hseen
  have hmore : more = [] := List.map_eq_nil_iff.mp hseen.symm
  subst hmore
  exact ⟨by rw [hreports.changes, List.append_nil], hreports.leads.symm⟩

theorem mem_calledBack {found : BookSynchronizer} (h : found ∈ calledBack s after) :
    found = after ∧ after ≠ s := by
  rw [calledBack] at h
  split at h
  · exact absurd h List.not_mem_nil
  · rename_i hchanged
    refine ⟨List.mem_singleton.mp h, ?_⟩
    rintro rfl
    exact hchanged rfl

/-- A call that is not over leaves the book alone and nothing to quote. -/
theorem halfway_eq (event : Event) (s : BookSynchronizer) :
    (halfway event s).book = s.book ∧
      (halfway event s = s ∨ (halfway event s).state ≠ .ready) := by
  have hdialled : ∀ (t : BookSynchronizer) (target : SessionState) (reason : String),
      target ≠ .ready → (t.transition target reason).state ≠ .ready := by
    intro t target reason htarget
    rw [state_transition]
    split
    · exact htarget
    · decide
  rw [halfway]
  split
  · split
    · exact ⟨book_transition _ _ _, .inr (hdialled _ _ _ (by decide))⟩
    · exact ⟨rfl, .inl rfl⟩
  · rw [syncStarted]
    split
    · exact ⟨book_transition _ _ _, .inr (hdialled _ _ _ (by decide))⟩
    · exact ⟨rfl, .inl rfl⟩
  · exact ⟨rfl, .inl rfl⟩

/-- The callback finds the book the call began with or left, and a session that is ready is
the one the call left. -/
theorem mem_trail {event : Event} {found : BookSynchronizer} (h : found ∈ trail event s) :
    (found.book = s.book ∨ found = step event s) ∧
      (found.state = .ready → found = step event s) := by
  obtain ⟨hbook, hhalf⟩ := halfway_eq event s
  rcases List.mem_append.mp h with hfirst | hsecond
  · obtain ⟨rfl, hne⟩ := mem_calledBack hfirst
    refine ⟨.inl hbook, fun hready => ?_⟩
    rcases hhalf with hsame | hnot
    · exact absurd hsame hne
    · exact absurd hready hnot
  · obtain ⟨rfl, -⟩ := mem_calledBack hsecond
    exact ⟨.inr rfl, fun _ => rfl⟩

/-- What the callback found last is where the call left the session. -/
theorem getLast_trail (event : Event) (s : BookSynchronizer) :
    (trail event s = [] → (step event s).state = s.state) ∧
      ∀ found, (trail event s).getLast? = some found →
        found.state = (step event s).state ∧ (found.state = .ready → found = step event s) := by
  constructor
  · intro hnone
    obtain ⟨hfirst, hsecond⟩ := List.append_eq_nil_iff.mp hnone
    rw [(quiet_of_calledBack (once_step event s) hsecond).2,
      (quiet_of_calledBack (once_halfway event s) hfirst).2]
  · intro found hfound
    refine ⟨?_, (mem_trail (List.mem_of_getLast? hfound)).2⟩
    rw [trail, List.getLast?_append] at hfound
    cases hsecond : (calledBack (halfway event s) (step event s)).getLast? with
    | some last =>
        rw [hsecond, Option.some_or, Option.some.injEq] at hfound
        rw [← hfound, (mem_calledBack (List.mem_of_getLast? hsecond)).1]
    | none =>
        rw [hsecond, Option.none_or] at hfound
        rw [(mem_calledBack (List.mem_of_getLast? hfound)).1]
        exact (quiet_of_calledBack (once_step event s)
            (List.getLast?_eq_none_iff.mp hsecond)).2.symm

/-- The book is sound, and one that is live is valid. -/
structure LiveSound (s : BookSynchronizer) : Prop where
  sound : s.book.Sound
  valid : IsLive s.state → s.book.isValid = true

theorem liveSound_new (symbol : Symbol) (config : SyncConfig) : LiveSound (new symbol config) :=
  ⟨sound_new symbol config, fun hlive => absurd hlive (by simp [new, IsLive])⟩

theorem Idles.liveSound (h : Idles s after) (hlive : LiveSound s) (hsound : after.book.Sound) :
    LiveSound after where
  sound := hsound
  valid hafter := by
    obtain ⟨hbefore, hbook⟩ := h.of_isLive hafter
    rw [hbook]
    exact hlive.valid hbefore

theorem liveSound_onUpdate (h : LiveSound s) (update : BookUpdateEvent) (now : Nanos) :
    LiveSound (s.onUpdate update now).2 := by
  have hsound := (keeps_onUpdate h.sound update now).sound
  have hexit := onUpdate_exit h.sound update now
  generalize s.onUpdate update now = result at hsound hexit ⊢
  cases hexit with
  | foreign hsymbol => exact h
  | malformed hnot => exact (idles_onProtocolError _ _).liveSound h hsound
  | overflowed hlegible hstate hfull hafter => exact hafter.idles.liveSound h hsound
  | buffered hlegible hstate hroom => exact ⟨hsound, h.valid⟩
  | repeated hlegible hstate hcontains => exact ⟨hsound, h.valid⟩
  | restarted hlegible hstate hnot hbroken hafter => exact hafter.idles.liveSound h hsound
  | applied hlegible hstate hnot hfollows =>
      refine ⟨hsound, fun _ => ?_⟩
      obtain ⟨dropped, hupdate⟩ := applyUpdate_of_applies h.sound hfollows.2
      simp only [hupdate]
      exact h.valid hstate
  | noted hlegible hlive hbuffering => exact ⟨hsound, h.valid⟩

theorem liveSound_onSnapshot (h : LiveSound s) (snapshot : BookSnapshotEvent) (now : Nanos) :
    LiveSound (s.onSnapshot snapshot now).2 := by
  have hsound := (keeps_onSnapshot h.sound snapshot now).sound
  have hexit := onSnapshot_exit h.sound snapshot now
  have hopened : s.Expects snapshot → ¬IsLive (s.opened snapshot now).state := by
    intro hexpects
    obtain ⟨changes, hopened⟩ := opened_eq hexpects now
    rw [hopened]
    show ¬IsLive (s.openState snapshot)
    rw [openState]
    have hwindow := hexpects.2
    split
    · decide
    · generalize s.state = state at hwindow ⊢
      cases state <;> first | decide | exact absurd hwindow (by decide)
  generalize s.onSnapshot snapshot now = result at hsound hexit ⊢
  cases hexit with
  | ignored hnot => exact h
  | refused hexpects hnot hbids hasks => exact ⟨hsound, fun hlive =>
      absurd hlive (hopened hexpects)⟩
  | staged hexpects hstages hlast => exact ⟨hsound, fun hlive => absurd hlive (hopened hexpects)⟩
  | restarted hexpects hstages hlast hnot hafter =>
      exact ⟨hsound, fun hlive => absurd (hafter.idles.of_isLive hlive).1 (hopened hexpects)⟩
  | synchronized hexpects hstages hlast hcompletes =>
      refine ⟨hsound, fun _ => ?_⟩
      have hopen := sound_openBook h.sound snapshot
      have hshown := (hopen.withChunk hstages.2).published hcompletes.1 snapshot.lastUpdateId
      rw [book_synchronized hexpects]
      exact isValid_applied hshown (by rfl) hcompletes.2.2

theorem liveSound_step (event : Event) (h : LiveSound s) : LiveSound (step event s) := by
  have hsound := (keeps_step event h.sound).sound
  obtain ⟨now, op⟩ := event
  cases op with
  | snapshot snapshot => exact liveSound_onSnapshot h snapshot now
  | update update => exact liveSound_onUpdate h update now
  | _ => exact (idles_step (by simp) (by simp)).liveSound h hsound

/-- Only an update changes the book of a session that was ready and still is. -/
theorem book_eq_of_ready {event : Event} (hupdate : ∀ update, event.op ≠ .update update)
    (hbefore : s.state = .ready) (hafter : (step event s).state = .ready) :
    (step event s).book = s.book := by
  by_cases hsnapshot : ∃ snapshot, event.op = .snapshot snapshot
  · obtain ⟨snapshot, hop⟩ := hsnapshot
    rw [step, call, hop]
    simp only [onSnapshot]
    split
    · rfl
    · rw [if_pos (by rw [hbefore]; decide)]
  · have hidles : Idles s (step event s) :=
      idles_step (fun snapshot hop => hsnapshot ⟨snapshot, hop⟩) hupdate
    exact (hidles.of_isLive (.inl hafter)).2

/-- The changes of a session, from its first state to the one it is in, are what it
reported. -/
theorem leads_run (symbol : Symbol) (config : SyncConfig) (events : List Event) :
    Leads .disconnected (Machine.run step events (new symbol config)).changes
      (Machine.run step events (new symbol config)).state := by
  refine Machine.invariant_run_always
    (I := fun s : BookSynchronizer => Leads .disconnected s.changes s.state)
    (fun event s h => ?_) events (show Leads _ [] _ from rfl)
  obtain ⟨more, hreports, -⟩ := reports_step event s
  rw [hreports.changes]
  exact h.append hreports.leads

end BookSynchronizer

end MmEngine.Book
