/-
# What a replay reproduces

A session and its replay run the same inputs on clocks of different origins, over books
that may be of different depths. Read on one clock, the two venues are one venue: each
input keeps them so, as long as no request that arrived at the very moment the session
began waits for a later poll, both books take its image in full, and none of its times
outgrows 64 bits.
-/

import MmEngine.Exchange.Paper.PaperReplay
import MmEngine.Exchange.Paper.Deliveries

namespace MmEngine.Exchange.Paper

open MmEngine.Book (OrderBook sortSide)

/-- Two books show the same. -/
structure SameImage (a b : OrderBook) : Prop where
  bids : a.bids = b.bids
  asks : a.asks = b.asks
  applied : a.snapshotApplied = b.snapshotApplied
  violated : a.violated = b.violated

/-- The image is no deeper than the book. -/
def FitsDepth (levels : BookLevels) (depth : Nat) : Prop :=
  levels.bids.length ≤ depth ∧ levels.asks.length ≤ depth

theorem length_stageLevels (levels staged : List Exchange.PriceLevel) :
    (OrderBook.stageLevels levels staged).2.length ≤ staged.length + levels.length := by
  induction levels generalizing staged with
  | nil => exact Nat.le_refl _
  | cons level levels ih =>
      unfold OrderBook.stageLevels
      split
      · exact (ih staged).trans (by simp)
      split
      · simp
      · refine (ih _).trans ?_
        rw [List.length_append, List.length_singleton, List.length_cons]
        omega

/-- What is staged of an image depends on the image alone, and is no deeper. -/
theorem addSnapshotLevels_begun (levels : BookLevels) :
    ∃ bids asks, (∀ book : OrderBook, (book.beginSnapshot.addSnapshotLevels levels).2 =
        { book.beginSnapshot with stagingBids := bids, stagingAsks := asks }) ∧
      bids.length ≤ levels.bids.length ∧ asks.length ≤ levels.asks.length := by
  have hbids := length_stageLevels levels.bids []
  have hasks := length_stageLevels levels.asks []
  rw [List.length_nil, Nat.zero_add] at hbids hasks
  by_cases hsane : levels.countsAreSane = true
  · cases hstagedBids : OrderBook.stageLevels levels.bids [] with
    | mk validBids bids =>
        rw [hstagedBids] at hbids
        cases hstagedAsks : OrderBook.stageLevels levels.asks [] with
        | mk validAsks asks =>
            rw [hstagedAsks] at hasks
            cases validBids with
            | false =>
                refine ⟨bids, [], fun book => ?_, hbids, Nat.zero_le _⟩
                simp [OrderBook.addSnapshotLevels, OrderBook.beginSnapshot, hsane, hstagedBids]
            | true =>
                refine ⟨bids, asks, fun book => ?_, hbids, hasks⟩
                cases validAsks with
                | false =>
                    simp [OrderBook.addSnapshotLevels, OrderBook.beginSnapshot, hsane, hstagedBids,
                      hstagedAsks]
                | true =>
                    simp [OrderBook.addSnapshotLevels, OrderBook.beginSnapshot, hsane, hstagedBids,
                      hstagedAsks]
  · refine ⟨[], [], fun book => ?_, Nat.zero_le _, Nat.zero_le _⟩
    simp [OrderBook.addSnapshotLevels, OrderBook.beginSnapshot, hsane]

/-- An image that fits two books leaves them alike when they were. -/
theorem finishSnapshot_same {a b : OrderBook} (h : SameImage a b)
    {bids asks : List Exchange.PriceLevel} (hbidsA : bids.length ≤ a.maxDepth)
    (hasksA : asks.length ≤ a.maxDepth) (hbidsB : bids.length ≤ b.maxDepth)
    (hasksB : asks.length ≤ b.maxDepth) (updateId : Seq64) :
    SameImage
      ({ a.beginSnapshot with stagingBids := bids, stagingAsks := asks }.finishSnapshot updateId).2
      ({ b.beginSnapshot with
        stagingBids := bids
        stagingAsks := asks }.finishSnapshot updateId).2 := by
  have hsort : ∀ (which : Side) (side : List Exchange.PriceLevel) (depth : Nat),
      side.length ≤ depth → (sortSide which side).take depth = sortSide which side := by
    intro which side depth hle
    apply List.take_of_length_le
    rw [sortSide, List.length_insertionSort]
    exact hle
  unfold OrderBook.finishSnapshot OrderBook.beginSnapshot
  dsimp only
  rw [hsort .buy bids _ hbidsA, hsort .buy bids _ hbidsB, hsort .sell asks _ hasksA,
    hsort .sell asks _ hasksB]
  simp only [Bool.not_true, Bool.false_eq_true, if_false]
  split
  · exact ⟨h.bids, h.asks, h.applied, rfl⟩
  split
  · exact ⟨rfl, rfl, rfl, rfl⟩
  · exact ⟨h.bids, h.asks, h.applied, rfl⟩

/-- So does any image, when the books are of one depth. -/
theorem finishSnapshot_same_of_depth {a b : OrderBook} (h : SameImage a b)
    (hdepth : a.maxDepth = b.maxDepth) {bids asks : List Exchange.PriceLevel} (updateId : Seq64) :
    SameImage
      ({ a.beginSnapshot with stagingBids := bids, stagingAsks := asks }.finishSnapshot updateId).2
      ({ b.beginSnapshot with
        stagingBids := bids
        stagingAsks := asks }.finishSnapshot updateId).2 := by
  unfold OrderBook.finishSnapshot OrderBook.beginSnapshot
  dsimp only
  rw [hdepth]
  simp only [Bool.not_true, Bool.false_eq_true, if_false]
  split
  · exact ⟨h.bids, h.asks, h.applied, rfl⟩
  split
  · exact ⟨rfl, rfl, rfl, rfl⟩
  · exact ⟨h.bids, h.asks, h.applied, rfl⟩

namespace VenueBook

/-- Loading keeps the depth of a book. -/
theorem maxDepth_load (levels : BookLevels) (updateId : Seq64) (b : VenueBook) :
    (b.load levels updateId).book.maxDepth = b.book.maxDepth := by
  obtain ⟨bids, asks, hstaged, -⟩ := addSnapshotLevels_begun levels
  unfold load
  dsimp only
  rw [hstaged]
  unfold OrderBook.finishSnapshot
  dsimp only
  repeat' split
  all_goals rfl

/-- Two books that show the same show the same image, if they are of one depth or take it in
full. -/
theorem load_same {a b : VenueBook} (h : SameImage a.book b.book) {levels : BookLevels}
    (hdepth : a.book.maxDepth = b.book.maxDepth ∨
      FitsDepth levels a.book.maxDepth ∧ FitsDepth levels b.book.maxDepth) (updateId : Seq64) :
    SameImage (a.load levels updateId).book (b.load levels updateId).book := by
  obtain ⟨bids, asks, hstaged, hbids, hasks⟩ := addSnapshotLevels_begun levels
  unfold load
  dsimp only
  rw [hstaged a.book, hstaged b.book]
  rcases hdepth with hsame | ⟨ha, hb⟩
  · exact finishSnapshot_same_of_depth h hsame updateId
  · exact finishSnapshot_same h (hbids.trans ha.1) (hasks.trans ha.2) (hbids.trans hb.1)
      (hasks.trans hb.2) updateId

theorem view_same {a b : VenueBook} (h : SameImage a.book b.book) : a.view = b.view := by
  obtain ⟨hbids, hasks, happlied, hviolated⟩ := h
  simp only [view, OrderBook.isValid, hbids, hasks, happlied, hviolated]

end VenueBook

namespace PaperExecution

/-- The clock has come to a moment, and nothing on its way arrives before it. -/
structure Since (origin : Nanos) (v : PaperExecution) : Prop where
  clock : origin ≤ v.clock
  inFlight : ∀ pending ∈ v.inFlight, origin ≤ pending.dueNs

theorem Since.step {origin : Nanos} {op : Op} {v : PaperExecution} (hplain : op.Plain)
    (hfits : op.Fits v) (h : v.Orderly) (hsince : Since origin v) :
    Since origin (PaperExecution.step op v) := by
  rcases step_cases hplain hfits h with ⟨rfl, -, hpumps⟩ | ⟨-, hgrows⟩ | ⟨rfl, -, hsame⟩
  · constructor
    · rw [hpumps.clock]
      exact hsince.clock
    · rw [hpumps.inFlight]
      exact fun pending hmem => hsince.inFlight pending (List.mem_of_mem_filter hmem)
  · obtain ⟨requests, hrequests, hasked, -⟩ := hgrows.requests
    constructor
    · exact hsince.clock.trans hgrows.clock
    · rw [hrequests]
      exact List.forall_mem_append.mpr
        ⟨hsince.inFlight, fun pending hmem => hsince.clock.trans (hasked.due pending hmem)⟩
  · rw [hsame]
    exact hsince

/-- What a session relies on in its venue. -/
structure Running (origin : Nanos) (v : PaperExecution) : Prop where
  orderly : v.Orderly
  since : Since origin v

theorem Running.step {origin : Nanos} {v : PaperExecution} (h : Running origin v) (op : Op)
    (hplain : op.Plain) (hfits : op.Fits v) : Running origin (PaperExecution.step op v) where
  orderly := h.orderly.step hplain hfits
  since := h.since.step hplain hfits h.orderly

section Shifts

variable {origin : Nanos} {v : PaperExecution} (horigin : 0 ≤ origin) (h : Running origin v)

include horigin h

/-- What is dated from the clock is dated the same on both clocks. -/
theorem Running.shifts {delay : Nanos} (hdelay : 0 ≤ delay) (hfits : FitsNanos (v.clock + delay)) :
    Shifts origin (v.clock + delay) :=
  .of_fits horigin hfits (h.since.clock.trans (le_add_of_nonneg_right hdelay))

theorem Running.requestShifts (hfits : v.RequestFits) : v.RequestShifts origin :=
  .of_fits horigin hfits (h.since.clock.trans
    ((le_add_of_nonneg_right h.orderly.latency.request).trans
      (le_add_of_nonneg_right h.orderly.delay)))

end Shifts

/-- What answers requests that have arrived since is dated the same on both clocks. -/
theorem answersAlike_of_fits {origin : Nanos} (horigin : 0 ≤ origin)
    {requests : List PendingRequest} {w : PaperExecution} (hclock : origin ≤ w.clock)
    (hlatency : w.config.latency.Nonneg)
    (hdue : ∀ pending ∈ requests, origin ≤ pending.dueNs)
    (hdecided : ∀ pending ∈ requests, 0 ≤ pending.decisionDelayNs)
    (hfits : Machine.Along (fun pending v => v.processRequest pending) PendingRequest.Fits requests
      w) :
    Machine.Along (fun pending v => v.processRequest pending) (AnswersAlike origin) requests w := by
  induction requests generalizing w with
  | nil => trivial
  | cons pending later ih =>
      rw [List.forall_mem_cons] at hdue hdecided
      have hbase : origin ≤ base { w with processingArrivalNs := pending.dueNs } := by
        unfold base
        dsimp only
        split
        · exact hdue.1
        · exact hclock
      have hsetting := w.processRequest_setting pending
      refine ⟨⟨.of_fits horigin hfits.1.1 ?_, fun hexecuted =>
        .of_fits horigin (hfits.1.2 hexecuted) ?_⟩, ih ?_ ?_ hdue.2 hdecided.2 hfits.2⟩
      · exact hbase.trans (le_add_of_nonneg_right hdecided.1)
      · exact hbase.trans (le_add_of_nonneg_right (add_nonneg hdecided.1 hlatency.fill))
      · exact hclock.trans_eq (congrArg Setting.clock hsetting).symm
      · have hconfig : (w.processRequest pending).config = w.config :=
          congrArg Setting.config hsetting
        exact hconfig.symm ▸ hlatency

/-- On a clock of the same origin everything is dated the same. -/
theorem answersAlike_zero (requests : List PendingRequest) (v : PaperExecution) :
    Machine.Along (fun pending v => v.processRequest pending) (AnswersAlike 0) requests v := by
  induction requests generalizing v with
  | nil => trivial
  | cons pending later ih => exact ⟨⟨shifts_zero _, fun _ => shifts_zero _⟩, ih _⟩

end PaperExecution

namespace PaperExecution

variable (v : PaperExecution)

theorem takeRequest_clock (request : Request) (delay : Nanos) :
    (v.takeRequest request delay).clock = v.clock := by
  unfold takeRequest
  split
  · rfl
  · rfl

theorem submit_clock (request : OrderRequest) : (v.submit request).2.clock = v.clock := by
  unfold submit
  repeat' split
  all_goals first | rfl | exact takeRequest_clock _ _ _

theorem cancel_clock (request : CancelRequest) : (v.cancel request).2.clock = v.clock := by
  unfold cancel
  repeat' split
  all_goals first | rfl | exact takeRequest_clock _ _ _

theorem replace_clock (request : ReplaceRequest) : (v.replace request).2.clock = v.clock := by
  unfold replace
  repeat' split
  all_goals first | rfl | exact takeRequest_clock _ _ _

theorem onMarketUpdate_clock (symbol : Symbol) (updateNs : Nanos) :
    (v.onMarketUpdate symbol updateNs).clock = v.clock :=
  congrArg Setting.clock (matchSymbol_setting
    { v with bookUpdatedNs := v.bookUpdatedNs.insert symbol updateNs } symbol v.clock)

theorem poll_clock : v.poll.2.clock = v.clock := by
  cases hstarted : v.started with
  | false =>
      have hidle : v.poll = ([], v) := if_pos (by simp [hstarted])
      rw [hidle]
  | true => exact congrArg Setting.clock (v.poll_setting hstarted)

end PaperExecution

namespace Session

open PaperExecution (Running)

variable {origin : Nanos} {s : Session}

/-- The call of the venue that an input makes, and the venue it makes it of. -/
def asked (attached : Symbol) (action : Action) (s : Session) :
    PaperExecution.Op × PaperExecution :=
  match action with
  | .submit request => (.submit request, s.venue)
  | .cancel request => (.cancel request, s.venue)
  | .replace request => (.replace request, s.venue)
  | .marketUpdate symbol levels updateId =>
      (.onMarketUpdate symbol s.venue.clock,
        s.venue.attachBook attached (s.book.load levels updateId).view)
  | .poll => (.poll, s.venue)

/-- Nothing that the input makes the venue add up outgrows 64 bits. -/
def InTime (attached : Symbol) (action : Action) (s : Session) : Prop :=
  (s.asked attached action).1.Fits (s.asked attached action).2

instance (attached : Symbol) (action : Action) (s : Session) :
    Decidable (s.InTime attached action) :=
  inferInstanceAs (Decidable (PaperExecution.Op.Fits _ _))

theorem running_perform (h : Running origin s.venue) (attached : Symbol) (action : Action)
    (hfits : s.InTime attached action) : Running origin (s.perform attached action).venue := by
  cases action with
  | submit request => exact h.step (.submit request) trivial hfits
  | cancel request => exact h.step (.cancel request) trivial hfits
  | replace request => exact h.step (.replace request) trivial hfits
  | marketUpdate symbol levels updateId =>
      exact (h.step (.attachBook attached (s.book.load levels updateId).view) trivial
        ⟨h.orderly.count, trivial⟩).step (.onMarketUpdate symbol s.venue.clock) trivial hfits
  | poll => exact h.step .poll trivial hfits

/-- An input takes no time. -/
theorem clock_perform (s : Session) (attached : Symbol) (action : Action) :
    (s.perform attached action).venue.clock = s.venue.clock := by
  cases action with
  | submit request => exact s.venue.submit_clock request
  | cancel request => exact s.venue.cancel_clock request
  | replace request => exact s.venue.replace_clock request
  | marketUpdate symbol levels updateId => exact PaperExecution.onMarketUpdate_clock _ _ _
  | poll => exact s.venue.poll_clock

/-- A market update executes nothing where there are no orders. -/
theorem onMarketUpdate_of_none {v : PaperExecution} (horders : v.orders = []) (symbol : Symbol)
    (updateNs : Nanos) :
    (v.onMarketUpdate symbol updateNs).nextTradeSeq = v.nextTradeSeq ∧
      (v.onMarketUpdate symbol updateNs).nextOrdinal = v.nextOrdinal := by
  have hnone : PaperExecution.matchingOrder
      { v with bookUpdatedNs := v.bookUpdatedNs.insert symbol updateNs } symbol = [] := by
    simp [PaperExecution.matchingOrder, horders]
  unfold PaperExecution.onMarketUpdate PaperExecution.matchSymbol
  rw [hnone]
  repeat' split
  all_goals exact ⟨rfl, rfl⟩

theorem running_start {config : PaperExecutionConfig} (hlatency : config.latency.Nonneg)
    (hreading : FitsNanos origin) (wall : Nanos) (book : VenueBook) (symbol : Symbol) :
    Running origin (start (.init config origin wall) book symbol).venue := by
  have hinit : Running origin (.init config origin wall) :=
    ⟨PaperExecution.orderly_init hlatency hreading wall, le_rfl, by simp [PaperExecution.init]⟩
  have hstarted := hinit.step .start trivial ⟨Nat.zero_le _, trivial⟩
  have hattached := hstarted.step (.attachBook symbol book.view) trivial ⟨Nat.zero_le _, trivial⟩
  obtain ⟨htrades, hordinal⟩ := onMarketUpdate_of_none
    (v := (PaperExecution.init config origin wall).start.2.attachBook symbol book.view) rfl symbol
    (PaperExecution.init config origin wall).start.2.clock
  refine hattached.step (.onMarketUpdate symbol _) trivial ⟨?_, fun hexecuted => ?_⟩
  · exact hordinal.trans_le (Nat.zero_le _)
  · exact absurd htrades hexecuted

end Session

/-! ## A session and its replay -/

/-- A session at some moment, and its replay. -/
structure Twin (origin : Nanos) (s : Session) (r : Replay) : Prop where
  venue : s.venue.rebase origin = r.session.venue.rebase 0
  transcript : s.transcript = r.session.transcript
  book : SameImage s.book.book r.session.book.book
  applied : r.appliedNs = s.venue.clock - origin
  running : s.venue.Running origin

@[simp]
theorem transcribe_unstamped (event : ExecutionEvent) :
    transcribe event.unstamped = transcribe event := by
  cases event <;> rfl

/-- What is read on one clock at one moment is the same at a later one. -/
theorem rebase_advance (origin : Nanos) (v : PaperExecution) (elapsed : Nat) (wall : Nanos) :
    { v.advance elapsed with wall := wall }.rebase origin =
      { v.rebase origin with clock := v.clock - origin + elapsed } := by
  unfold PaperExecution.rebase PaperExecution.advance
  dsimp only
  rw [add_sub_right_comm]

theorem Twin.clock {origin : Nanos} {s : Session} {r : Replay} (h : Twin origin s r) :
    r.session.venue.clock = s.venue.clock - origin := by
  have hclock : s.venue.clock - origin = r.session.venue.clock - 0 :=
    congrArg PaperExecution.clock h.venue
  rw [hclock, sub_zero]

/-- A request that arrived as the session began does not wait for a later poll. -/
def Prompt (origin : Nanos) (action : Action) (v : PaperExecution) : Prop :=
  match action with
  | .poll => ∀ pending ∈ v.inFlight, pending.dueNs = origin → v.clock = origin
  | _ => True

instance (origin : Nanos) (action : Action) (v : PaperExecution) :
    Decidable (Prompt origin action v) :=
  match action with
  | .poll => inferInstanceAs
      (Decidable (∀ pending ∈ v.inFlight, pending.dueNs = origin → v.clock = origin))
  | .submit _ => .isTrue trivial
  | .cancel _ => .isTrue trivial
  | .replace _ => .isTrue trivial
  | .marketUpdate _ _ _ => .isTrue trivial

/-- The replay's book, which keeps 32 levels of a side, keeps what one of the depth does. -/
def KeepsImage (levels : BookLevels) (depth : Nat) : Prop := depth = 32 ∨ FitsDepth levels depth

instance (levels : BookLevels) (depth : Nat) : Decidable (KeepsImage levels depth) :=
  inferInstanceAs (Decidable (_ ∨ _ ∧ _))

/-- Both books show the image that comes, if one comes. -/
def Action.Shown (action : Action) (depth : Nat) : Prop :=
  match action with
  | .marketUpdate _ levels _ => KeepsImage levels depth
  | _ => True

instance (action : Action) (depth : Nat) : Decidable (action.Shown depth) :=
  match action with
  | .marketUpdate _ levels _ => inferInstanceAs (Decidable (KeepsImage levels depth))
  | .submit _ | .cancel _ | .replace _ | .poll => .isTrue trivial

theorem KeepsImage.depths {levels : BookLevels} {a b : OrderBook}
    (h : KeepsImage levels a.maxDepth) (ha : a.maxDepth ≤ 32) (hb : b.maxDepth = 32) :
    a.maxDepth = b.maxDepth ∨ FitsDepth levels a.maxDepth ∧ FitsDepth levels b.maxDepth := by
  rcases h with hsame | hfits
  · exact .inl (hsame.trans hb.symm)
  · exact .inr ⟨hfits, hb ▸ ⟨hfits.1.trans ha, hfits.2.trans ha⟩⟩

/-- A venue that reads the same as an idle one is idle. -/
theorem idle_of_rebase {origin : Nanos} {v w : PaperExecution}
    (h : v.rebase origin = w.rebase 0) (hidle : v.processingArrivalNs = 0) :
    w.processingArrivalNs = 0 := by
  have harrival : rebaseArrival origin v.processingArrivalNs =
      rebaseArrival 0 w.processingArrivalNs := congrArg PaperExecution.processingArrivalNs h
  rw [rebaseArrival, if_pos hidle, rebaseArrival] at harrival
  split at harrival
  · assumption
  · rw [sub_zero] at harrival
    exact harrival.symm

/-- Venues that are alike stay so when they are told of a book as it is attached. -/
theorem attach_rebase {origin : Nanos} {v w : PaperExecution}
    (h : v.rebase origin = w.rebase 0) (hidle : v.processingArrivalNs = 0)
    (attached symbol : Symbol) (book : BookView)
    (hfill : ((v.attachBook attached book).onMarketUpdate symbol v.clock).nextTradeSeq ≠
      v.nextTradeSeq → Shifts origin (v.clock + v.config.latency.fillNs)) :
    ((v.attachBook attached book).onMarketUpdate symbol v.clock).rebase origin =
      ((w.attachBook attached book).onMarketUpdate symbol w.clock).rebase 0 := by
  have hattached : (v.attachBook attached book).rebase origin =
      (w.attachBook attached book).rebase 0 :=
    congrArg (fun u => u.attachBook attached book) h
  calc
    _ = ((v.attachBook attached book).rebase origin).matchFresh symbol :=
      PaperExecution.onMarketUpdate_rebase (v := v.attachBook attached book) hidle symbol hfill
    _ = ((w.attachBook attached book).rebase 0).matchFresh symbol := by rw [hattached]
    _ = _ :=
      (PaperExecution.onMarketUpdate_rebase (v := w.attachBook attached book)
        (idle_of_rebase (v := v.attachBook attached book) hattached hidle) symbol
        fun _ => shifts_zero _).symm

/-- An input does the same to a session and to its replay. -/
theorem Twin.perform {origin : Nanos} (horigin : 0 < origin) {s : Session} {r : Replay}
    (h : Twin origin s r) (attached : Symbol) {action : Action}
    (hdepth : s.book.book.maxDepth ≤ 32) (hdepth' : r.session.book.book.maxDepth = 32)
    (hshown : action.Shown s.book.book.maxDepth) (hfits : s.InTime attached action)
    (hprompt : Prompt origin action s.venue) :
    Twin origin (s.perform attached action)
      { r with session := r.session.perform attached action } := by
  have hrunning := s.running_perform h.running attached action hfits
  have happlied : r.appliedNs = (s.perform attached action).venue.clock - origin := by
    rw [s.clock_perform]
    exact h.applied
  cases action with
  | submit request =>
      refine ⟨?_, h.transcript, h.book, happlied, hrunning⟩
      calc
        _ = ((s.venue.rebase origin).submit request).2 :=
          PaperExecution.submit_rebase request fun hgrew =>
            h.running.requestShifts horigin.le (hfits.2 hgrew)
        _ = ((r.session.venue.rebase 0).submit request).2 := by rw [h.venue]
        _ = _ := (PaperExecution.submit_rebase request fun _ => shifts_zero _).symm
  | cancel request =>
      refine ⟨?_, h.transcript, h.book, happlied, hrunning⟩
      calc
        _ = ((s.venue.rebase origin).cancel request).2 :=
          PaperExecution.cancel_rebase request fun hgrew =>
            h.running.requestShifts horigin.le (hfits.2 hgrew)
        _ = ((r.session.venue.rebase 0).cancel request).2 := by rw [h.venue]
        _ = _ := (PaperExecution.cancel_rebase request fun _ => shifts_zero _).symm
  | replace request =>
      refine ⟨?_, h.transcript, h.book, happlied, hrunning⟩
      calc
        _ = ((s.venue.rebase origin).replace request).2 :=
          PaperExecution.replace_rebase request fun hgrew =>
            h.running.requestShifts horigin.le (hfits.2 hgrew)
        _ = ((r.session.venue.rebase 0).replace request).2 := by rw [h.venue]
        _ = _ := (PaperExecution.replace_rebase request fun _ => shifts_zero _).symm
  | marketUpdate symbol levels updateId =>
      have hbook := VenueBook.load_same h.book (hshown.depths hdepth hdepth') updateId
      have hview := VenueBook.view_same hbook
      refine ⟨?_, h.transcript, hbook, happlied, hrunning⟩
      have hfill := fun hexecuted =>
        h.running.shifts horigin.le h.running.orderly.latency.fill (hfits.2 hexecuted)
      have hattached := attach_rebase h.venue h.running.orderly.idle attached symbol
        (s.book.load levels updateId).view hfill
      exact hattached.trans (by rw [hview]; rfl)
  | poll =>
      have hdatable : ∀ pending ∈ s.venue.arrived,
          PaperExecution.Datable origin s.venue pending := by
        intro pending hmem
        have hinFlight := (PaperExecution.mem_arrived hmem).1
        have hdue := h.running.since.inFlight pending hinFlight
        exact .inr ⟨(horigin.trans_le hdue).ne', hprompt pending hinFlight⟩
      have halike := fun hstarted =>
        PaperExecution.answersAlike_of_fits horigin.le (w := s.venue.polled)
          h.running.since.clock h.running.orderly.latency
          (fun pending hmem =>
            h.running.since.inFlight pending (PaperExecution.mem_arrived hmem).1)
          (fun pending hmem =>
            h.running.orderly.decided pending (PaperExecution.mem_arrived hmem).1)
          (hfits.2 hstarted)
      have hdatable' : ∀ pending ∈ r.session.venue.arrived,
          PaperExecution.Datable 0 r.session.venue pending := fun _ _ => .inl rfl
      obtain ⟨hevents, hpolled⟩ := PaperExecution.poll_rebase hdatable halike
      obtain ⟨hevents', hpolled'⟩ := PaperExecution.poll_rebase hdatable'
        fun _ => PaperExecution.answersAlike_zero _ _
      have hlines : ∀ events : List ExecutionEvent,
          events.map transcribe = (events.map ExecutionEvent.unstamped).map transcribe := by
        intro events
        rw [List.map_map]
        exact List.map_congr_left fun event _ => (transcribe_unstamped event).symm
      refine ⟨?_, ?_, h.book, happlied, hrunning⟩
      · exact hpolled.trans ((congrArg (fun v => v.poll.2) h.venue).trans hpolled'.symm)
      · show s.transcript ++ s.venue.poll.1.map transcribe =
          r.session.transcript ++ r.session.venue.poll.1.map transcribe
        rw [h.transcript, hlines, hevents, h.venue, ← hevents', ← hlines]

/-- Time passes for a session, and the replay catches up with the offset. -/
theorem Twin.advance {origin : Nanos} {s : Session} {r : Replay} (h : Twin origin s r)
    (elapsed : Nat) (wall offset : Nanos) (hoffset : offset = s.venue.clock + elapsed - origin)
    (hreading : FitsNanos (s.venue.clock + elapsed)) :
    Twin origin { s with venue := { s.venue.advance elapsed with wall := wall } }
      (if r.appliedNs < offset then
        { session :=
            { r.session with venue := r.session.venue.advance (offset - r.appliedNs).toNat }
          appliedNs := offset }
      else r) := by
  have hclock : ({ s.venue.advance elapsed with wall := wall } : PaperExecution).clock =
      s.venue.clock + elapsed := rfl
  have hmoved : { s.venue.advance elapsed with wall := wall }.rebase origin =
      { r.session.venue.rebase 0 with clock := r.session.venue.clock - 0 + elapsed } := by
    rw [rebase_advance, h.venue, h.clock, sub_zero]
  have hrunning := (h.running.step (.advance elapsed) trivial
    ⟨h.running.orderly.count, hreading⟩).step (.setWall wall) trivial
    ⟨h.running.orderly.count, trivial⟩
  have hgap : offset - r.appliedNs = elapsed := by
    rw [hoffset, h.applied, sub_sub_sub_cancel_right, add_sub_cancel_left]
  split
  · rename_i hlater
    have helapsed : (offset - r.appliedNs).toNat = elapsed := by
      rw [hgap]
      exact Int.toNat_natCast elapsed
    rw [helapsed]
    exact
      { venue := hmoved.trans
          (rebase_advance 0 r.session.venue elapsed (r.session.venue.wall + elapsed)).symm
        transcript := h.transcript
        book := h.book
        applied := hoffset
        running := hrunning }
  · rename_i hnow
    have helapsed : (elapsed : Int) = 0 := by
      refine le_antisymm ?_ (Int.natCast_nonneg elapsed)
      rw [← hgap]
      exact sub_nonpos.mpr (not_lt.mp hnow)
    refine ⟨?_, h.transcript, h.book, ?_, hrunning⟩
    · rw [hmoved, helapsed, add_zero]
      rfl
    · rw [h.applied, hclock, helapsed, add_zero]

/-- A session and its replay start alike. -/
theorem Twin.start {config : PaperExecutionConfig} (hlatency : config.latency.Nonneg)
    {origin : Nanos} (hreading : FitsNanos origin) (wall : Nanos) {a b : VenueBook}
    (h : SameImage a.book b.book) (symbol : Symbol) :
    Twin origin (.start (.init config origin wall) a symbol)
      { session := .start (.init config 0 0) b symbol, appliedNs := 0 } := by
  have hstarted : (PaperExecution.init config origin wall).start.2.rebase origin =
      (PaperExecution.init config 0 0).start.2.rebase 0 := by
    have hinit : (PaperExecution.init config origin wall).rebase origin =
        (PaperExecution.init config 0 0).rebase 0 := by
      simp [PaperExecution.init, PaperExecution.rebase, rebaseArrival]
    exact congrArg (fun v => v.start.2) hinit
  refine ⟨?_, rfl, h, ?_, Session.running_start hlatency hreading wall a symbol⟩
  · have hattached := attach_rebase hstarted rfl symbol symbol a.view fun hexecuted =>
      absurd (Session.onMarketUpdate_of_none rfl symbol _).1 hexecuted
    exact hattached.trans (by rw [VenueBook.view_same h]; rfl)
  · show 0 = PaperExecution.clock _ - origin
    rw [Session.start, PaperExecution.onMarketUpdate_clock]
    exact (sub_self origin).symm

/-- Orders that read the same on one clock are compared as the same. -/
theorem all_sameFinalOrder {origin : Nanos} {a b : List PaperOrder}
    (h : a.map (PaperOrder.rebase origin) = b.map (PaperOrder.rebase 0)) :
    a.length = b.length ∧ (b.zip a).all (fun pair => sameFinalOrder pair.1 pair.2) = true := by
  induction a generalizing b with
  | nil =>
      obtain rfl : b = [] := by simpa using h.symm
      exact ⟨rfl, rfl⟩
  | cons first rest ih =>
      cases b with
      | nil => simp at h
      | cons first' rest' =>
          obtain ⟨hfirst, hrest⟩ := List.cons.inj h
          obtain ⟨hlength, hall⟩ := ih hrest
          have hsame : sameFinalOrder first' first = true := by
            have hfields := hfirst
            simp only [PaperOrder.rebase, PaperOrder.mk.injEq] at hfields
            simp [sameFinalOrder, hfields]
          refine ⟨congrArg Nat.succ hlength, ?_⟩
          rw [List.zip_cons_cons, List.all_cons, hall, hsame]
          rfl

theorem Twin.matches {origin : Nanos} {s : Session} {r : Replay} (h : Twin origin s r) :
    r.session.result.matches s.result = true := by
  obtain ⟨hlength, hall⟩ := all_sameFinalOrder (congrArg PaperExecution.orders h.venue)
  have htranscript : r.session.result.transcript = s.result.transcript := h.transcript.symm
  have horders : r.session.result.finalOrders.length = s.result.finalOrders.length := hlength.symm
  rw [ReplayResult.matches, if_neg (not_not.mpr htranscript), if_neg (not_not.mpr horders)]
  exact hall

/-- The session as an input finds it. -/
def Live.found (timed : Timed) (live : Live) : Session :=
  { live.session with
    venue := { live.session.venue.advance timed.elapsed with wall := timed.wall } }

/-- An input that a replay repeats: no poll comes late for a request that arrived as the
session began, both books show what image it brings, and what the clock reads and what the
venue adds up to it fits in 64 bits. -/
def Live.Repeatable (origin : Nanos) (timed : Timed) (live : Live) : Prop :=
  Prompt origin timed.action (live.found timed).venue ∧
    timed.action.Shown live.session.book.book.maxDepth ∧
    FitsNanos (live.session.venue.clock + timed.elapsed) ∧
    (live.found timed).InTime live.recorded.symbol timed.action

instance (origin : Nanos) (timed : Timed) (live : Live) :
    Decidable (live.Repeatable origin timed) :=
  inferInstanceAs (Decidable (_ ∧ _ ∧ _ ∧ _))

/-- A session and the replay of what was recorded of it so far. -/
structure Live.Faithful (origin : Nanos) (live : Live) : Prop where
  twin : Twin origin live.session (Replay.run live.recorded)
  depth : live.session.book.book.maxDepth ≤ 32
  depth' : (Replay.run live.recorded).session.book.book.maxDepth = 32

/-- An input leaves the depth of the book alone. -/
theorem Session.maxDepth_perform (s : Session) (attached : Symbol) (action : Action) :
    (s.perform attached action).book.book.maxDepth = s.book.book.maxDepth := by
  cases action with
  | marketUpdate symbol levels updateId => exact s.book.maxDepth_load levels updateId
  | _ => rfl

theorem Live.faithful_start {config : PaperExecutionConfig} (hlatency : config.latency.Nonneg)
    {origin : Nanos} (hreading : FitsNanos origin) (wall : Nanos) (symbol : Symbol) {depth : Nat}
    (hdepth : (VenueBook.new symbol depth).book.maxDepth ≤ 32) {initial : BookLevels}
    (hinitial : KeepsImage initial (VenueBook.new symbol depth).book.maxDepth)
    (initialUpdateId : Seq64) :
    (Live.start config symbol depth initial initialUpdateId origin wall).Faithful origin := by
  have hnew : SameImage (VenueBook.new symbol depth).book (VenueBook.new symbol 32).book :=
    ⟨rfl, rfl, rfl, rfl⟩
  have hloaded := VenueBook.load_same hnew (hinitial.depths hdepth rfl) initialUpdateId
  refine ⟨Twin.start hlatency hreading wall hloaded symbol, ?_, ?_⟩
  · exact (VenueBook.maxDepth_load initial initialUpdateId _).trans_le hdepth
  · exact VenueBook.maxDepth_load initial initialUpdateId (VenueBook.new symbol 32)

/-- What is written down is replayed last. -/
theorem Replay.run_note (offset : Nanos) (action : Action) (session : RecordedSession) :
    Replay.run (Live.note offset action session) =
      Replay.step session.symbol (Replay.run session) ⟨offset, action⟩ := by
  cases action <;> exact List.foldl_append

/-- Every input that can be repeated keeps a session and its replay alike. -/
theorem Live.Faithful.step {origin : Nanos} (horigin : 0 < origin) {timed : Timed} {live : Live}
    (h : live.Faithful origin) (hrepeatable : live.Repeatable origin timed) :
    (live.step origin timed).Faithful origin := by
  obtain ⟨hprompt, hshown, hreading, hfits⟩ := hrepeatable
  have hadvanced := h.twin.advance timed.elapsed timed.wall _ rfl hreading
  have hdepth' : (if (Replay.run live.recorded).appliedNs <
      live.session.venue.clock + timed.elapsed - origin then
        { session :=
            { (Replay.run live.recorded).session with
              venue := (Replay.run live.recorded).session.venue.advance
                (live.session.venue.clock + timed.elapsed - origin -
                  (Replay.run live.recorded).appliedNs).toNat }
          appliedNs := live.session.venue.clock + timed.elapsed - origin }
      else Replay.run live.recorded).session.book.book.maxDepth = 32 := by
    split
    · exact h.depth'
    · exact h.depth'
  have hperformed := hadvanced.perform horigin live.recorded.symbol h.depth hdepth' hshown hfits
    hprompt
  refine ⟨?_, ?_, ?_⟩
  · show Twin origin _ (Replay.run (Live.note _ timed.action live.recorded))
    rw [Replay.run_note]
    exact hperformed
  · show (Session.perform _ _ _).book.book.maxDepth ≤ 32
    rw [Session.maxDepth_perform]
    exact h.depth
  · show (Replay.run (Live.note _ timed.action live.recorded)).session.book.book.maxDepth = 32
    rw [Replay.run_note]
    show (Session.perform _ _ _).book.book.maxDepth = 32
    rw [Session.maxDepth_perform]
    exact hdepth'

/-- A session is reproduced by its replay, whatever its inputs, unless a request that
arrived the moment the session began waits for a later poll, an image is deeper than a book
that keeps less of it than the replay's, or a time outgrows 64 bits. -/
theorem reproduces_of_repeatable {config : PaperExecutionConfig} (hlatency : config.latency.Nonneg)
    {origin : Nanos} (horigin : 0 < origin) (hreading : FitsNanos origin) (wall : Nanos)
    (symbol : Symbol) {depth : Nat} (hdepth : (VenueBook.new symbol depth).book.maxDepth ≤ 32)
    {initial : BookLevels}
    (hinitial : KeepsImage initial (VenueBook.new symbol depth).book.maxDepth)
    (initialUpdateId : Seq64) {timeds : List Timed}
    (hrepeatable : Machine.Along (Live.step origin) (Live.Repeatable origin) timeds
      (.start config symbol depth initial initialUpdateId origin wall)) :
    (Machine.run (Live.step origin) timeds
      (.start config symbol depth initial initialUpdateId origin wall)).Reproduces := by
  have hstart := Live.faithful_start hlatency hreading wall symbol hdepth hinitial initialUpdateId
  have hfaithful := Machine.invariant_run (I := Live.Faithful origin)
    (fun timed live h hstep => h.step horigin hstep) hstart hrepeatable
  exact hfaithful.twin.matches

/-- A session whose only request is answered at the poll ten nanoseconds on, where the
request takes the given time to arrive. -/
def Sample.oneRequest (requestNs : Nanos) : List Timed × Live :=
  ([⟨0, 0, .submit (Sample.request 'a' .buy Sample.price Sample.three)⟩, ⟨10, 0, .poll⟩],
    .start { latency := ⟨requestNs, 5, 0, 0, 0, 0⟩ } Sample.symbol 32 {} 1 1 0)

/-- A cheap offer of one in front of an offer of four. -/
def Sample.thinOffers : BookLevels where
  asks := [⟨⟨1, Sample.rawMin_le_one, Sample.one_le_rawMax⟩, Sample.one⟩,
    ⟨Sample.price, Sample.four⟩]

/-- A bid for three that meets two offers, over a book that keeps as many of a side as given,
and then meets them again. -/
def Sample.offeredTwice (depth : Nat) : List Timed × Live :=
  ([⟨0, 0, .submit (Sample.request 'a' .buy Sample.price Sample.three)⟩, ⟨10, 0, .poll⟩,
      ⟨0, 0, .marketUpdate Sample.symbol Sample.thinOffers 2⟩, ⟨10, 0, .poll⟩],
    .start { latency := ⟨2, 5, 0, 0, 0, 0⟩, queueShareBps := 10000 } Sample.symbol depth
      Sample.thinOffers 1 1 0)

theorem reproduces_of_repeatable_sample :
    (Machine.run (Live.step 1) (Sample.offeredTwice 2).1 (Sample.offeredTwice 2).2).Reproduces :=
  reproduces_of_repeatable ⟨by decide, by decide, by decide, by decide, by decide, by decide⟩
    Int.one_pos (by decide) 0 Sample.symbol
    (show (VenueBook.new Sample.symbol 2).book.maxDepth ≤ 32 by decide)
    (.inr ⟨by decide, by decide⟩) 1 (by decide +kernel)

/-- What is written down of a session and of its replay differs in length. -/
theorem Live.not_reproduces {live : Live}
    (h : (replay live.recorded).transcript.length ≠ live.session.result.transcript.length) :
    ¬live.Reproduces := by
  intro hsame
  rw [Live.Reproduces, ReplayResult.matches,
    if_pos fun heq => h (congrArg List.length heq)] at hsame
  cases hsame

/-- A request that takes no time to arrive is answered by that poll, and in the replay it is
not: there it arrives at zero, and is dated from the poll. A book of depth one leaves some of
the bid for the second time, and the replay's does not. A request that would arrive past the
last 64-bit time has arrived at once, and in the replay it does not arrive. -/
theorem not_reproduces_sample :
    ¬(Machine.run (Live.step 1) (Sample.oneRequest 0).1 (Sample.oneRequest 0).2).Reproduces ∧
      ¬(Machine.run (Live.step 1) (Sample.offeredTwice 1).1
        (Sample.offeredTwice 1).2).Reproduces ∧
      ¬(Machine.run (Live.step 1) (Sample.oneRequest (2 ^ 63 - 1)).1
        (Sample.oneRequest (2 ^ 63 - 1)).2).Reproduces :=
  ⟨Live.not_reproduces (by decide +kernel), Live.not_reproduces (by decide +kernel),
    Live.not_reproduces (by decide +kernel)⟩

end MmEngine.Exchange.Paper
