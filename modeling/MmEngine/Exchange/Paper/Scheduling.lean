/-
# What a call schedules

A call appends events to the queue, each with a number of its own, and none that falls
due before a base: the arrival of the request that is processed, or the clock. Along a
call this is one relation between the venue before and after, which holds of doing
nothing and of doing one thing after another. It is said of sums that 64 bits can hold;
the due time of any other has wrapped.
-/

import MmEngine.Exchange.Paper.Executions

namespace MmEngine.Exchange.Paper

/-- No latency is negative. -/
structure PaperLatency.Nonneg (latency : PaperLatency) : Prop where
  request : 0 ≤ latency.requestNs
  ack : 0 ≤ latency.ackNs
  cancel : 0 ≤ latency.cancelNs
  replace : 0 ≤ latency.replaceNs
  fill : 0 ≤ latency.fillNs
  query : 0 ≤ latency.queryNs

/-- A sum of times that 64 bits can hold. -/
def FitsNanos (sum : Int) : Prop := -2 ^ 63 ≤ sum ∧ sum < 2 ^ 63

instance (sum : Int) : Decidable (FitsNanos sum) := inferInstanceAs (Decidable (_ ∧ _))

theorem wrapNs_of_fits {sum : Int} (h : FitsNanos sum) : wrapNs sum = sum := by
  unfold FitsNanos at h
  exact Int.bmod_eq_of_le (by omega) (by omega)

/-- What is between two times that 64 bits can hold is one. -/
theorem FitsNanos.of_le {least sum most : Int} (hleast : FitsNanos least) (hmost : FitsNanos most)
    (hlower : least ≤ sum) (hupper : sum ≤ most) : FitsNanos sum :=
  ⟨hleast.1.trans hlower, hupper.trans_lt hmost.2⟩

namespace PaperExecution

variable {v w x : PaperExecution} {least : Nanos}

/-- Things are numbered in the order they are added, within the numbers drawn, as long as
the numbers do not wrap, and none falls due too soon. -/
structure Drawn {α : Type} (dueNs : α → Nanos) (ordinal : α → Nat) (least : Nanos)
    (first next : Nat) (added : List α) : Prop where
  drawn : first ≤ next
  due : ∀ a ∈ added, least ≤ dueNs a
  fits : ∀ a ∈ added, FitsNanos (dueNs a)
  ordered : next ≤ 2 ^ 64 → added.Pairwise fun a b => ordinal a < ordinal b
  lower : next ≤ 2 ^ 64 → ∀ a ∈ added, first ≤ ordinal a
  upper : next ≤ 2 ^ 64 → ∀ a ∈ added, ordinal a < next

section Drawn

variable {α : Type} {dueNs : α → Nanos} {ordinal : α → Nat} {first middle next : Nat}

theorem Drawn.nil (hdrawn : first ≤ next) : Drawn dueNs ordinal least first next [] where
  drawn := hdrawn
  due := by simp
  fits := by simp
  ordered := fun _ => .nil
  lower := by simp
  upper := by simp

theorem Drawn.singleton {a : α} (hdue : least ≤ dueNs a) (hfits : FitsNanos (dueNs a))
    (hordinal : ordinal a = first % 2 ^ 64) :
    Drawn dueNs ordinal least first (first + 1) [a] where
  drawn := Nat.le_succ _
  due := List.forall_mem_singleton.mpr hdue
  fits := List.forall_mem_singleton.mpr hfits
  ordered := fun _ => List.pairwise_singleton _ _
  lower := fun hnext => List.forall_mem_singleton.mpr (by omega)
  upper := fun hnext => List.forall_mem_singleton.mpr (by omega)

theorem Drawn.append {earlier later : List α}
    (hearlier : Drawn dueNs ordinal least first middle earlier)
    (hlater : Drawn dueNs ordinal least middle next later) :
    Drawn dueNs ordinal least first next (earlier ++ later) where
  drawn := hearlier.drawn.trans hlater.drawn
  due := List.forall_mem_append.mpr ⟨hearlier.due, hlater.due⟩
  fits := List.forall_mem_append.mpr ⟨hearlier.fits, hlater.fits⟩
  ordered := fun hnext =>
    have hmiddle := hlater.drawn.trans hnext
    List.pairwise_append.mpr ⟨hearlier.ordered hmiddle, hlater.ordered hnext, fun a ha b hb =>
      (hearlier.upper hmiddle a ha).trans_le (hlater.lower hnext b hb)⟩
  lower := fun hnext => List.forall_mem_append.mpr
    ⟨hearlier.lower (hlater.drawn.trans hnext),
      fun a ha => hearlier.drawn.trans (hlater.lower hnext a ha)⟩
  upper := fun hnext => List.forall_mem_append.mpr
    ⟨fun a ha => (hearlier.upper (hlater.drawn.trans hnext) a ha).trans_le hlater.drawn,
      hlater.upper hnext⟩

theorem Drawn.mono {added : List α} (h : Drawn dueNs ordinal least first next added)
    {sooner : Nanos} (hle : sooner ≤ least) : Drawn dueNs ordinal sooner first next added :=
  { h with due := fun a ha => hle.trans (h.due a ha) }

end Drawn

/-- Events that were scheduled, as `Drawn` says it. -/
abbrev EventsDrawn (least : Nanos) (first next : Nat) (events : List Scheduled) : Prop :=
  Drawn Scheduled.dueNs Scheduled.ordinal least first next events

/-- A part of a call: it may append to the queue, and it leaves alone what events are
dated from and the faults that touch the queue. -/
structure Schedules (least : Nanos) (v w : PaperExecution) : Prop where
  setting : w.setting = v.setting
  arrival : w.processingArrivalNs = v.processingArrivalNs
  duplicates : w.faults.duplicateNextEvent = v.faults.duplicateNextEvent
  reorders : w.faults.reorderNextEvent = v.faults.reorderNextEvent
  delay : w.faults.delayNextRequestNs = v.faults.delayNextRequestNs
  appends : ∃ events, w.pending = v.pending ++ events ∧
    w.nextOrdinal = v.nextOrdinal + events.length ∧
      EventsDrawn least v.nextOrdinal w.nextOrdinal events

namespace Schedules

theorem frame (hsetting : w.setting = v.setting)
    (harrival : w.processingArrivalNs = v.processingArrivalNs)
    (hduplicates : w.faults.duplicateNextEvent = v.faults.duplicateNextEvent)
    (hreorders : w.faults.reorderNextEvent = v.faults.reorderNextEvent)
    (hdelay : w.faults.delayNextRequestNs = v.faults.delayNextRequestNs)
    (hpending : w.pending = v.pending) (hordinal : w.nextOrdinal = v.nextOrdinal) :
    Schedules least v w where
  setting := hsetting
  arrival := harrival
  duplicates := hduplicates
  reorders := hreorders
  delay := hdelay
  appends := ⟨[], by rw [hpending, List.append_nil], hordinal, hordinal ▸ .nil le_rfl⟩

theorem refl (v : PaperExecution) : Schedules least v v := .frame rfl rfl rfl rfl rfl rfl rfl

theorem trans (h : Schedules least v w) (h' : Schedules least w x) : Schedules least v x := by
  obtain ⟨earlier, hearlier, hcount, hdrawn⟩ := h.appends
  obtain ⟨later, hlater, hcount', hdrawn'⟩ := h'.appends
  exact
    { setting := h'.setting.trans h.setting
      arrival := h'.arrival.trans h.arrival
      duplicates := h'.duplicates.trans h.duplicates
      reorders := h'.reorders.trans h.reorders
      delay := h'.delay.trans h.delay
      appends := ⟨earlier ++ later, by rw [hlater, hearlier, List.append_assoc],
        by rw [hcount', hcount, List.length_append, Nat.add_assoc], hdrawn.append hdrawn'⟩ }

theorem mono (h : Schedules least v w) {sooner : Nanos} (hle : sooner ≤ least) :
    Schedules sooner v w := by
  obtain ⟨events, hevents, hcount, hdrawn⟩ := h.appends
  exact { h with appends := ⟨events, hevents, hcount, hdrawn.mono hle⟩ }

theorem clock (h : Schedules least v w) : w.clock = v.clock := congrArg Setting.clock h.setting

theorem config (h : Schedules least v w) : w.config = v.config :=
  congrArg Setting.config h.setting

theorem base (h : Schedules least v w) : w.base = v.base := by
  rw [PaperExecution.base, PaperExecution.base, h.arrival, h.clock]

end Schedules

/-- Nothing duplicates an event, and nothing scheduled now falls due too soon. -/
structure Steady (least : Nanos) (v : PaperExecution) : Prop where
  duplicates : v.faults.duplicateNextEvent = 0
  base : least ≤ v.base
  latency : v.config.latency.Nonneg

theorem Steady.of_schedules (h : Steady least v) (hschedules : Schedules least v w) :
    Steady least w where
  duplicates := hschedules.duplicates.trans h.duplicates
  base := h.base.trans_eq hschedules.base.symm
  latency := hschedules.config ▸ h.latency

/-- An event scheduled after the delay falls due no sooner than now, in 64 bits. -/
structure Dates (v : PaperExecution) (delay : Nanos) : Prop where
  nonneg : 0 ≤ delay
  fits : FitsNanos (v.base + delay)

theorem Schedules.dates (h : Schedules least v w) {delay : Nanos} (hdates : v.Dates delay) :
    w.Dates delay where
  nonneg := hdates.nonneg
  fits := h.base.symm ▸ hdates.fits

/-- An event that is scheduled is dropped or appended. -/
theorem schedule_schedules (h : Steady least v) {delay : Nanos} (hdates : v.Dates delay)
    (event : ExecutionEvent) : Schedules least v (v.schedule delay event) := by
  have hdue : least ≤ v.base + delay := h.base.trans (le_add_of_nonneg_right hdates.nonneg)
  unfold schedule
  rw [wrapNs_of_fits hdates.fits]
  unfold scheduleAt
  split
  · exact .frame rfl rfl rfl rfl rfl rfl rfl
  · dsimp only
    rw [if_pos h.duplicates]
    exact
      { setting := rfl
        arrival := rfl
        duplicates := rfl
        reorders := rfl
        delay := rfl
        appends := ⟨_, rfl, rfl, .singleton hdue hdates.fits rfl⟩ }

theorem scheduleFill_schedules (h : Steady least v) {delay : Nanos} (hdates : v.Dates delay)
    (order : PaperOrder) (result : MatchResult) :
    Schedules least v (v.scheduleFill order result delay) := by
  have hcounted : Schedules least v
      { (v.count fun k =>
          if order.remaining.isZero then { k with fills := k.fills + 1 }
          else { k with partialFills := k.partialFills + 1 }).advanceSeq with
        nextTradeSeq := v.nextTradeSeq + 1 } := .frame rfl rfl rfl rfl rfl rfl rfl
  exact hcounted.trans (schedule_schedules (h.of_schedules hcounted) (hcounted.dates hdates) _)

/-! ## Requests -/

theorem rejectOrder_schedules (h : Steady least v) {delay : Nanos} (hdates : v.Dates delay)
    (request : OrderRequest) (reason : RejectReason) :
    Schedules least v (v.rejectOrder request reason delay) := by
  have hcounted : Schedules least v
      (v.count fun k => { k with newRejects := k.newRejects + 1 }).advanceSeq :=
    .frame rfl rfl rfl rfl rfl rfl rfl
  exact hcounted.trans (schedule_schedules (h.of_schedules hcounted) (hcounted.dates hdates) _)

theorem expireOrder_schedules (h : Steady least v) {delay : Nanos} (hdates : v.Dates delay)
    (order : PaperOrder) : Schedules least v (v.expireOrder order delay) := by
  have hcounted : Schedules least v
      (v.count fun k => { k with expiries := k.expiries + 1 }).advanceSeq :=
    .frame rfl rfl rfl rfl rfl rfl rfl
  exact hcounted.trans (schedule_schedules (h.of_schedules hcounted) (hcounted.dates hdates) _)

theorem listOrder_schedules (h : Steady least v) {delay : Nanos} (hdates : v.Dates delay)
    (order : PaperOrder) : Schedules least v (v.listOrder order delay) := by
  have hlisted : Schedules least v
      ({ v with
        orders := v.orders ++ [order]
        byClientId := v.byClientId.insert order.clientOrderId v.orders.length
        byExchangeId := v.byExchangeId.insert order.exchangeOrderId v.orders.length }.count
          fun k => { k with newAcks := k.newAcks + 1 }).advanceSeq :=
    .frame rfl rfl rfl rfl rfl rfl rfl
  exact hlisted.trans (schedule_schedules (h.of_schedules hlisted) (hlisted.dates hdates) _)

theorem schedule_nextTradeSeq (delay : Nanos) (event : ExecutionEvent) :
    (v.schedule delay event).nextTradeSeq = v.nextTradeSeq :=
  congrArg Table.nextTradeSeq (v.schedule_table delay event)

theorem takeOnArrival_schedules (h : Steady least v) {delay : Nanos} (index : Nat)
    (order : PaperOrder) (book : BookView)
    (hfill : (v.takeOnArrival index order book delay).nextTradeSeq ≠ v.nextTradeSeq →
      v.Dates (delay + v.config.latency.fillNs)) :
    Schedules least v (v.takeOnArrival index order book delay) := by
  unfold takeOnArrival at *
  dsimp only at *
  split
  · rename_i hpositive
    rw [if_pos hpositive] at hfill
    have hset : ∀ filled, Schedules least v (v.setOrder index filled) := fun filled =>
      .frame rfl rfl rfl rfl rfl rfl rfl
    have hexecuted : ∀ filled taker, ((v.setOrder index filled).scheduleFill filled taker
        (delay + v.config.latency.fillNs)).nextTradeSeq ≠ v.nextTradeSeq := by
      intro filled taker
      rw [scheduleFill, schedule_nextTradeSeq]
      exact (Nat.lt_succ_self _).ne'
    exact (hset _).trans (scheduleFill_schedules (h.of_schedules (hset _))
      ((hset _).dates (hfill (hexecuted _ _))) _ _)
  · exact .refl v

theorem acceptOrder_schedules (h : Steady least v) {delay : Nanos} (hdates : v.Dates delay)
    (request : OrderRequest)
    (hfill : (v.acceptOrder request delay).nextTradeSeq ≠ v.nextTradeSeq →
      v.Dates (delay + v.config.latency.fillNs)) :
    Schedules least v (v.acceptOrder request delay) := by
  unfold acceptOrder at *
  dsimp only at *
  generalize hnumbered : { v with
    nextExchangeSeq := v.nextExchangeSeq + 1
    nextArrivalSeq := v.nextArrivalSeq + 1 } = numbered at hfill ⊢
  have htrades : numbered.nextTradeSeq = v.nextTradeSeq := by rw [← hnumbered]
  have hframe : Schedules least v numbered := by
    rw [← hnumbered]
    exact .frame rfl rfl rfl rfl rfl rfl rfl
  have hsteady := h.of_schedules hframe
  have hlisted := listOrder_schedules hsteady (hframe.dates hdates) (v.arrivingOrder request)
  refine hframe.trans ?_
  cases hbook : v.books.lookup request.symbol with
  | none => exact hlisted
  | some book =>
      rw [hbook] at hfill
      dsimp only at hfill ⊢
      split
      · exact hlisted
      rename_i hmarketable
      rw [if_neg hmarketable] at hfill
      split
      · have hcounted : Schedules least numbered (numbered.count fun k =>
            { k with postOnlyRejections := k.postOnlyRejections + 1 }) :=
          .frame rfl rfl rfl rfl rfl rfl rfl
        have hcounted' := hframe.trans hcounted
        refine hcounted.trans ?_
        split
        · exact rejectOrder_schedules (h.of_schedules hcounted') (hcounted'.dates hdates) _ _
        · exact expireOrder_schedules (h.of_schedules hcounted') (hcounted'.dates hdates) _
      · rename_i hpostOnly
        rw [if_neg hpostOnly] at hfill
        refine hlisted.trans (takeOnArrival_schedules (hsteady.of_schedules hlisted) _ _ _ ?_)
        intro hexecuted
        rw [(hframe.trans hlisted).config]
        refine (hframe.trans hlisted).dates (hfill fun hsame => hexecuted ?_)
        rw [hsame, listOrder, schedule_nextTradeSeq, ← htrades]
        rfl

theorem processSubmit_schedules (h : Steady least v) {delay : Nanos} (hdates : v.Dates delay)
    (request : OrderRequest)
    (hfill : (v.processSubmit request delay).nextTradeSeq ≠ v.nextTradeSeq →
      v.Dates (delay + v.config.latency.fillNs)) :
    Schedules least v (v.processSubmit request delay) := by
  unfold processSubmit at *
  dsimp only at *
  split
  · have hfaulted : Schedules least v
        ({ v with
          faults :=
            { v.faults with errorNextRequest := v.faults.errorNextRequest - 1 } }.count fun k =>
              { k with executionErrors := k.executionErrors + 1 }) :=
      .frame rfl rfl rfl rfl rfl rfl rfl
    exact hfaulted.trans (schedule_schedules (h.of_schedules hfaulted) (hfaulted.dates hdates) _)
  rename_i herror
  rw [if_neg herror] at hfill
  split
  · have hfaulted : Schedules least v
        { v with faults := { v.faults with rejectNextNew := v.faults.rejectNextNew - 1 } } :=
      .frame rfl rfl rfl rfl rfl rfl rfl
    exact hfaulted.trans
      (rejectOrder_schedules (h.of_schedules hfaulted) (hfaulted.dates hdates) _ _)
  rename_i hreject
  rw [if_neg hreject] at hfill
  split
  · exact rejectOrder_schedules h hdates _ _
  · rename_i hnew
    rw [if_neg hnew] at hfill
    exact acceptOrder_schedules h hdates _ hfill

theorem processCancel_schedules (h : Steady least v) {delay : Nanos} (hdates : v.Dates delay)
    (request : CancelRequest) : Schedules least v (v.processCancel request delay) := by
  have hnumbered : Schedules least v v.advanceSeq := .frame rfl rfl rfl rfl rfl rfl rfl
  have hrejected : Schedules least v v.advanceSeq.countCancelReject :=
    .frame rfl rfl rfl rfl rfl rfl rfl
  unfold processCancel
  dsimp only
  split
  · exact hrejected.trans (schedule_schedules (h.of_schedules hrejected) (hrejected.dates hdates) _)
  split
  · have hfaulted : Schedules least v
        { v.advanceSeq.countCancelReject with
          faults := { v.faults with rejectNextCancel := v.faults.rejectNextCancel - 1 } } :=
      .frame rfl rfl rfl rfl rfl rfl rfl
    exact hfaulted.trans (schedule_schedules (h.of_schedules hfaulted) (hfaulted.dates hdates) _)
  split
  · exact hrejected.trans (schedule_schedules (h.of_schedules hrejected) (hrejected.dates hdates) _)
  · have hmarked : ∀ index order, Schedules least v (v.advanceSeq.setOrder index order) :=
      fun _ _ => .frame rfl rfl rfl rfl rfl rfl rfl
    exact (hmarked _ _).trans
      (schedule_schedules (h.of_schedules (hmarked _ _)) ((hmarked _ _).dates hdates) _)

theorem processReplace_schedules (h : Steady least v) {delay : Nanos} (hdates : v.Dates delay)
    (request : ReplaceRequest) : Schedules least v (v.processReplace request delay) := by
  have hrejected : Schedules least v v.advanceSeq.countReplaceReject :=
    .frame rfl rfl rfl rfl rfl rfl rfl
  unfold processReplace
  dsimp only
  split
  · exact hrejected.trans (schedule_schedules (h.of_schedules hrejected) (hrejected.dates hdates) _)
  split
  · have hfaulted : Schedules least v
        { v.advanceSeq.countReplaceReject with
          faults := { v.faults with rejectNextReplace := v.faults.rejectNextReplace - 1 } } :=
      .frame rfl rfl rfl rfl rfl rfl rfl
    exact hfaulted.trans (schedule_schedules (h.of_schedules hfaulted) (hfaulted.dates hdates) _)
  split
  · exact hrejected.trans (schedule_schedules (h.of_schedules hrejected) (hrejected.dates hdates) _)
  · have hswapped : ∀ index order replaced, Schedules least v
        ((v.advanceSeq.swapOrder index order replaced).count fun k =>
          { k with replaceAcks := k.replaceAcks + 1 }) :=
      fun _ _ _ => .frame rfl rfl rfl rfl rfl rfl rfl
    exact (hswapped _ _ _).trans
      (schedule_schedules (h.of_schedules (hswapped _ _ _)) ((hswapped _ _ _).dates hdates) _)

end PaperExecution

/-- What answers a request, and what it executes on arrival, is dated in 64 bits. -/
def PendingRequest.Fits (pending : PendingRequest) (v : PaperExecution) : Prop :=
  let arrivalNs := PaperExecution.base { v with processingArrivalNs := pending.dueNs }
  FitsNanos (arrivalNs + pending.decisionDelayNs) ∧
    ((v.processRequest pending).nextTradeSeq ≠ v.nextTradeSeq →
      FitsNanos (arrivalNs + (pending.decisionDelayNs + v.config.latency.fillNs)))

instance (pending : PendingRequest) (v : PaperExecution) : Decidable (pending.Fits v) :=
  inferInstanceAs (Decidable (_ ∧ (_ → _)))

namespace PaperExecution

variable {v w x : PaperExecution} {least : Nanos}

/-- What answers a request falls due no sooner than the request arrived, when that is no
later than what its answers are dated from. -/
theorem processRequest_schedules_of_base {pending : PendingRequest}
    (hduplicates : v.faults.duplicateNextEvent = 0) (hlatency : v.config.latency.Nonneg)
    (hidle : v.processingArrivalNs = 0)
    (hbase : pending.dueNs ≤ base { v with processingArrivalNs := pending.dueNs })
    (hdelay : 0 ≤ pending.decisionDelayNs) (hfits : pending.Fits v) :
    Schedules pending.dueNs v (v.processRequest pending) := by
  obtain ⟨hanswer, hfill⟩ := hfits
  have hsteady : Steady pending.dueNs { v with processingArrivalNs := pending.dueNs } :=
    ⟨hduplicates, hbase, hlatency⟩
  have hdates : Dates { v with processingArrivalNs := pending.dueNs } pending.decisionDelayNs :=
    ⟨hdelay, hanswer⟩
  unfold processRequest at hfill ⊢
  dsimp only at hfill ⊢
  generalize hprocessing : { v with processingArrivalNs := pending.dueNs } = processing at *
  have hfinish : ∀ processed, Schedules pending.dueNs processing processed →
      Schedules pending.dueNs v { processed with processingArrivalNs := 0 } := by
    intro processed hprocessed
    subst hprocessing
    exact
      { setting := hprocessed.setting
        arrival := hidle.symm
        duplicates := hprocessed.duplicates
        reorders := hprocessed.reorders
        delay := hprocessed.delay
        appends := hprocessed.appends }
  have htrades : processing.nextTradeSeq = v.nextTradeSeq := hprocessing ▸ rfl
  have hconfig : processing.config = v.config := hprocessing ▸ rfl
  apply hfinish
  cases hrequest : pending.request with
  | submit request =>
      rw [hrequest] at hfill
      refine processSubmit_schedules hsteady hdates request fun hexecuted => ?_
      rw [hconfig]
      exact ⟨add_nonneg hdelay hlatency.fill, hfill (htrades ▸ hexecuted)⟩
  | cancel request => exact processCancel_schedules hsteady hdates request
  | replace request => exact processReplace_schedules hsteady hdates request

/-- So it is for a request that has arrived by now. -/
theorem processRequest_schedules {pending : PendingRequest}
    (hduplicates : v.faults.duplicateNextEvent = 0) (hlatency : v.config.latency.Nonneg)
    (hidle : v.processingArrivalNs = 0) (harrived : pending.dueNs ≤ v.clock)
    (hdelay : 0 ≤ pending.decisionDelayNs) (hfits : pending.Fits v) :
    Schedules pending.dueNs v (v.processRequest pending) := by
  refine processRequest_schedules_of_base hduplicates hlatency hidle ?_ hdelay hfits
  rw [base]
  dsimp only
  split
  · exact le_rfl
  · exact harrived

theorem scheduleFill_nextTradeSeq (delay : Nanos) (order : PaperOrder) (result : MatchResult) :
    (v.scheduleFill order result delay).nextTradeSeq = v.nextTradeSeq + 1 := by
  rw [scheduleFill, schedule_nextTradeSeq]

/-- Matching one order leaves the venue alone, or executes the order and reports it. -/
theorem matchOrder_venue_cases (now : Nanos) (sweep : Sweep) (index : Nat) :
    (sweep.matchOrder now index).venue = sweep.venue ∨ ∃ filled result,
      (sweep.matchOrder now index).venue =
        (sweep.venue.setOrder index filled).scheduleFill filled result
          sweep.venue.config.latency.fillNs := by
  cases horder : sweep.venue.orders[index]? with
  | none => exact .inl (by rw [Sweep.matchOrder, horder])
  | some order =>
      by_cases hresting : order.isResting = true
      · rw [sweep.matchOrder_of_resting now index horder hresting]
        dsimp only
        split
        · exact .inr ⟨_, _, rfl⟩
        · exact .inl rfl
      · refine .inl ?_
        rw [Sweep.matchOrder, horder]
        dsimp only
        rw [if_pos (by simpa using hresting)]

theorem matchOrder_nextTradeSeq_le (now : Nanos) (sweep : Sweep) (index : Nat) :
    sweep.venue.nextTradeSeq ≤ (sweep.matchOrder now index).venue.nextTradeSeq := by
  obtain hsame | ⟨filled, result, hfilled⟩ := matchOrder_venue_cases now sweep index
  · rw [hsame]
  · rw [hfilled, scheduleFill_nextTradeSeq]
    exact Nat.le_succ _

theorem sweep_nextTradeSeq_le (now : Nanos) (indices : List Nat) (sweep : Sweep) :
    sweep.venue.nextTradeSeq ≤
      (indices.foldl (Sweep.matchOrder now) sweep).venue.nextTradeSeq := by
  induction indices generalizing sweep with
  | nil => exact le_rfl
  | cons index indices ih => exact (matchOrder_nextTradeSeq_le now sweep index).trans (ih _)

theorem matchOrder_schedules {sweep : Sweep} (h : Steady least sweep.venue) (now : Nanos)
    (index : Nat)
    (hfill : (sweep.matchOrder now index).venue.nextTradeSeq ≠ sweep.venue.nextTradeSeq →
      sweep.venue.Dates sweep.venue.config.latency.fillNs) :
    Schedules least sweep.venue (sweep.matchOrder now index).venue := by
  obtain hsame | ⟨filled, result, hfilled⟩ := matchOrder_venue_cases now sweep index
  · rw [hsame]
    exact .refl _
  · have hset : Schedules least sweep.venue (sweep.venue.setOrder index filled) :=
      .frame rfl rfl rfl rfl rfl rfl rfl
    rw [hfilled, scheduleFill_nextTradeSeq] at hfill
    rw [hfilled]
    exact hset.trans (scheduleFill_schedules (h.of_schedules hset)
      (hset.dates (hfill (Nat.lt_succ_self _).ne')) _ _)

theorem sweep_schedules (now : Nanos) (indices : List Nat) {sweep : Sweep}
    (h : Steady least sweep.venue)
    (hfill : (indices.foldl (Sweep.matchOrder now) sweep).venue.nextTradeSeq ≠
      sweep.venue.nextTradeSeq → sweep.venue.Dates sweep.venue.config.latency.fillNs) :
    Schedules least sweep.venue (indices.foldl (Sweep.matchOrder now) sweep).venue := by
  induction indices generalizing sweep with
  | nil => exact .refl _
  | cons index indices ih =>
      have hlater := sweep_nextTradeSeq_le now indices (sweep.matchOrder now index)
      have hsooner := matchOrder_nextTradeSeq_le now sweep index
      rw [List.foldl_cons] at hfill ⊢
      have hfirst := matchOrder_schedules h now index fun hexecuted => hfill (by omega)
      refine hfirst.trans (ih (h.of_schedules hfirst) fun hexecuted => ?_)
      rw [hfirst.config]
      exact hfirst.dates (hfill (by omega))

theorem matchSymbol_schedules (h : Steady least v) (symbol : Symbol) (now : Nanos)
    (hfill : (v.matchSymbol symbol now).nextTradeSeq ≠ v.nextTradeSeq →
      v.Dates v.config.latency.fillNs) :
    Schedules least v (v.matchSymbol symbol now) := by
  cases hbook : v.books.lookup symbol with
  | none =>
      rw [matchSymbol, hbook]
      exact .refl v
  | some book =>
      unfold matchSymbol at *
      rw [hbook] at hfill ⊢
      dsimp only at hfill ⊢
      split
      · exact .refl v
      rename_i hvalid
      rw [if_neg hvalid] at hfill
      split
      · exact .frame rfl rfl rfl rfl rfl rfl rfl
      · rename_i hfresh
        rw [if_neg hfresh] at hfill
        exact sweep_schedules now _ (show Steady least (v.sweepOf book).venue from h) hfill

theorem scheduleEach_schedules (h : Steady least v) {delay : Nanos} (hdates : v.Dates delay)
    (event : ExecutionEvent) (chunks : Nat) :
    Schedules least v (scheduleEach delay event chunks v) := by
  induction chunks generalizing v with
  | zero => exact .refl v
  | succ chunks ih =>
      have hfirst := schedule_schedules h hdates event
      exact hfirst.trans (ih (h.of_schedules hfirst) (hfirst.dates hdates))

theorem queryOpenOrders_schedules (h : Steady least v) (symbol : Symbol)
    (hdates : v.requireConnected.isError = false → v.Dates v.config.latency.queryNs) :
    Schedules least v (v.queryOpenOrders symbol).2 := by
  unfold queryOpenOrders
  split
  · exact .refl v
  · rename_i hconnected
    have hasked : Schedules least v
        ({ v with faults := { v.faults with hideNextSnapshotOrders := 0 } }.count fun k =>
          { k with snapshots := k.snapshots + 1 }) := .frame rfl rfl rfl rfl rfl rfl rfl
    exact hasked.trans (scheduleEach_schedules (h.of_schedules hasked)
      (hasked.dates (hdates (Bool.eq_false_of_not_eq_true hconnected))) _ _)

theorem queryOrder_schedules (h : Steady least v) (clientOrderId : ClientOrderId)
    (exchangeOrderId : ExchangeOrderId)
    (hdates : v.requireConnected.isError = false → v.Dates v.config.latency.queryNs) :
    Schedules least v (v.queryOrder clientOrderId exchangeOrderId).2 := by
  unfold queryOrder
  split
  · exact .refl v
  rename_i hconnected
  replace hdates := hdates (Bool.eq_false_of_not_eq_true hconnected)
  split
  · exact schedule_schedules h hdates _
  · exact schedule_schedules h hdates _

end PaperExecution

end MmEngine.Exchange.Paper
