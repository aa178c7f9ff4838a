/-
# What waits, between polls and across them

Between polls a call only adds to what waits: requests on their way, and events in the
queue. A poll answers the requests that have arrived and takes off whatever is due. From
the two follows what holds of every state of a run: the queue is numbered in the order it
was filled, and a venue that was never started holds nothing.
-/

import MmEngine.Exchange.Paper.Scheduling
import Mathlib.Data.Prod.Lex

namespace MmEngine.Exchange.Paper

namespace PaperExecution

variable {v w x : PaperExecution}

variable (v) in
/-- The venue as a poll finds it: what has arrived is no longer on its way. -/
def polled : PaperExecution :=
  { v with inFlight := v.inFlight.filter fun request => ¬ request.dueNs ≤ v.clock }

/-- What processing a list of requests schedules, each event beside the request that it
answers. -/
def requestsScheduled : List PendingRequest → PaperExecution → List (PendingRequest × Scheduled)
  | [], _ => []
  | pending :: later, v =>
      ((v.processRequest pending).pending.drop v.pending.length).map (fun e => (pending, e)) ++
        requestsScheduled later (v.processRequest pending)

/-- The call keeps the transport up and injects no fault that repeats an event, moves
one past another or sends a request back in time. -/
def Op.Plain : Op → Prop
  | .stop => False
  | .inject faults =>
      faults.duplicateNextEvent = 0 ∧ faults.reorderNextEvent = 0 ∧ 0 ≤ faults.delayNextRequestNs
  | _ => True

/-- Each time that a call adds up fits in 64 bits, and so does each number that it draws:
the time a request it hands over falls due, that of an event it schedules, or the time to
which it lets the clock run. -/
def Op.Fits (op : Op) (v : PaperExecution) : Prop :=
  (step op v).nextOrdinal ≤ 2 ^ 64 ∧
    match op with
    | .submit _ | .cancel _ | .cancelAll _ | .replace _ =>
        (step op v).inFlight.length ≠ v.inFlight.length →
          FitsNanos (v.clock + v.config.latency.requestNs + v.faults.delayNextRequestNs)
    | .queryOpenOrders _ | .queryOrder _ _ =>
        v.requireConnected.isError = false → FitsNanos (v.clock + v.config.latency.queryNs)
    | .onMarketUpdate _ _ =>
        (step op v).nextTradeSeq ≠ v.nextTradeSeq →
          FitsNanos (v.clock + v.config.latency.fillNs)
    | .poll =>
        v.started = true →
          Machine.Along (fun pending v => v.processRequest pending) PendingRequest.Fits v.arrived
            v.polled
    | .advance elapsed => FitsNanos (v.clock + elapsed)
    | _ => True

instance (op : Op) (v : PaperExecution) : Decidable (op.Fits v) :=
  @instDecidableAnd _ _ _
    (match op with
      | .submit _ | .cancel _ | .cancelAll _ | .replace _ => inferInstanceAs (Decidable (_ → _))
      | .queryOpenOrders _ | .queryOrder _ _ => inferInstanceAs (Decidable (_ → _))
      | .onMarketUpdate _ _ => inferInstanceAs (Decidable (_ → _))
      | .poll => inferInstanceAs (Decidable (_ → _))
      | .advance elapsed => inferInstanceAs (Decidable (FitsNanos (v.clock + elapsed)))
      | .start | .stop | .setConnection _ | .setAuthenticated _ | .inject _ | .attachBook _ _
      | .setWall _ => .isTrue trivial)

/-- No request is being processed, nothing repeats or moves an event, nothing takes
negative time, and the clock reads a 64-bit time. -/
structure Calm (v : PaperExecution) : Prop where
  latency : v.config.latency.Nonneg
  duplicates : v.faults.duplicateNextEvent = 0
  reorders : v.faults.reorderNextEvent = 0
  delay : 0 ≤ v.faults.delayNextRequestNs
  idle : v.processingArrivalNs = 0
  reading : FitsNanos v.clock

theorem Calm.base_eq (h : v.Calm) : v.base = v.clock := by
  rw [base, if_neg (by simp [h.idle])]

theorem Calm.steady (h : v.Calm) : Steady v.clock v where
  duplicates := h.duplicates
  base := h.base_eq.ge
  latency := h.latency

theorem Calm.of_schedules {least : Nanos} (h : v.Calm) (hschedules : Schedules least v w) :
    w.Calm where
  latency := hschedules.config ▸ h.latency
  duplicates := hschedules.duplicates.trans h.duplicates
  reorders := hschedules.reorders.trans h.reorders
  delay := h.delay.trans_eq hschedules.delay.symm
  idle := hschedules.arrival.trans h.idle
  reading := hschedules.clock.symm ▸ h.reading

/-- What is scheduled between polls is dated from the clock. -/
theorem Calm.dates (h : v.Calm) {delay : Nanos} (hdelay : 0 ≤ delay)
    (hfits : FitsNanos (v.clock + delay)) : v.Dates delay :=
  ⟨hdelay, h.base_eq.symm ▸ hfits⟩

/-- Between polls events and requests are only added, and none that falls due before
now. -/
structure Grows (v w : PaperExecution) : Prop where
  calm : w.Calm
  clock : v.clock ≤ w.clock
  started : v.started = true → w.started = true
  events : ∃ events, w.pending = v.pending ++ events ∧
    EventsDrawn v.clock v.nextOrdinal w.nextOrdinal events
  requests : ∃ requests, w.inFlight = v.inFlight ++ requests ∧
    Drawn PendingRequest.dueNs PendingRequest.ordinal v.clock v.nextOrdinal w.nextOrdinal
      requests ∧ ∀ request ∈ requests, 0 ≤ request.decisionDelayNs

namespace Grows

theorem frame (hcalm : w.Calm) (hclock : v.clock ≤ w.clock)
    (hstarted : v.started = true → w.started = true) (hpending : w.pending = v.pending)
    (hinFlight : w.inFlight = v.inFlight) (hordinal : w.nextOrdinal = v.nextOrdinal) :
    Grows v w where
  calm := hcalm
  clock := hclock
  started := hstarted
  events := ⟨[], by rw [hpending, List.append_nil], .nil hordinal.ge⟩
  requests := ⟨[], by rw [hinFlight, List.append_nil], .nil hordinal.ge, by simp⟩

theorem refl (h : v.Calm) : Grows v v := .frame h le_rfl id rfl rfl rfl

theorem trans (h : Grows v w) (h' : Grows w x) : Grows v x := by
  obtain ⟨earlier, hearlier, hdrawn⟩ := h.events
  obtain ⟨later, hlater, hdrawn'⟩ := h'.events
  obtain ⟨first, hfirst, hasked, hdecided⟩ := h.requests
  obtain ⟨second, hsecond, hasked', hdecided'⟩ := h'.requests
  exact
    { calm := h'.calm
      clock := h.clock.trans h'.clock
      started := h'.started ∘ h.started
      events := ⟨earlier ++ later, by rw [hlater, hearlier, List.append_assoc],
        hdrawn.append (hdrawn'.mono h.clock)⟩
      requests := ⟨first ++ second, by rw [hsecond, hfirst, List.append_assoc],
        hasked.append (hasked'.mono h.clock), List.forall_mem_append.mpr ⟨hdecided, hdecided'⟩⟩ }

theorem of_schedules (hcalm : v.Calm) (h : Schedules v.clock v w) : Grows v w := by
  obtain ⟨events, hevents, -, hdrawn⟩ := h.appends
  have hinFlight : w.inFlight = v.inFlight := congrArg Setting.inFlight h.setting
  exact
    { calm := hcalm.of_schedules h
      clock := h.clock.ge
      started := (congrArg Setting.started h.setting).trans
      events := ⟨events, hevents, hdrawn⟩
      requests := ⟨[], by rw [hinFlight, List.append_nil], .nil hdrawn.drawn, by simp⟩ }

end Grows

variable (v) in
/-- The time that a request made now would reach the venue at fits in 64 bits. -/
def RequestFits : Prop :=
  FitsNanos (v.clock + v.config.latency.requestNs + v.faults.delayNextRequestNs)

theorem enqueueRequest_grows (h : v.Calm) (request : Request) {delay : Nanos} (hdelay : 0 ≤ delay)
    (hfits : v.RequestFits) : Grows v (v.enqueueRequest request delay) where
  calm := { h with delay := le_rfl }
  clock := le_rfl
  started := id
  events := ⟨[], (List.append_nil _).symm, .nil (Nat.le_succ _)⟩
  requests := by
    have hdue : v.requestDueNs =
        v.clock + v.config.latency.requestNs + v.faults.delayNextRequestNs :=
      wrapNs_of_fits hfits
    refine ⟨_, rfl, .singleton ?_ ?_ rfl, List.forall_mem_singleton.mpr hdelay⟩
    · calc
        v.clock ≤ v.clock + v.config.latency.requestNs := le_add_of_nonneg_right h.latency.request
        _ ≤ _ := le_add_of_nonneg_right h.delay
        _ = _ := hdue.symm
    · exact hdue.symm ▸ hfits

/-- A request that the checks let through is counted, and dropped or handed over. -/
theorem takeCounted_grows (h : v.Calm) (bump : PaperMetrics → PaperMetrics) (request : Request)
    {delay : Nanos} (hdelay : 0 ≤ delay)
    (hfits : ((v.count bump).takeRequest request delay).inFlight.length ≠ v.inFlight.length →
      v.RequestFits) : Grows v ((v.count bump).takeRequest request delay) := by
  have hcounted : Grows v (v.count bump) := .frame { h with } le_rfl id rfl rfl rfl
  unfold takeRequest at *
  split
  · rename_i hkept
    rw [if_pos hkept] at hfits
    exact hcounted.trans (enqueueRequest_grows hcounted.calm request hdelay
      (hfits (by simp [enqueueRequest, count])))
  · exact hcounted.trans (.frame { h with } le_rfl id rfl rfl rfl)

/-- A submit leaves the venue alone, or counts the request and takes it. -/
theorem submit_cases (v : PaperExecution) (request : OrderRequest) :
    (v.submit request).2 = v ∨ ∃ bump, (v.submit request).2 =
      (v.count bump).takeRequest (.submit request) v.config.latency.ackNs := by
  unfold submit
  repeat' split
  all_goals first
    | exact .inl rfl
    | exact .inr ⟨_, rfl⟩

theorem cancel_cases (v : PaperExecution) (request : CancelRequest) :
    (v.cancel request).2 = v ∨ ∃ bump, (v.cancel request).2 =
      (v.count bump).takeRequest (.cancel request) v.config.latency.cancelNs := by
  unfold cancel
  repeat' split
  all_goals first
    | exact .inl rfl
    | exact .inr ⟨_, rfl⟩

theorem replace_cases (v : PaperExecution) (request : ReplaceRequest) :
    (v.replace request).2 = v ∨ ∃ bump, (v.replace request).2 =
      (v.count bump).takeRequest (.replace request) v.config.latency.replaceNs := by
  unfold replace
  repeat' split
  all_goals first
    | exact .inl rfl
    | exact .inr ⟨_, rfl⟩

theorem submit_grows (h : v.Calm) (request : OrderRequest)
    (hfits : (v.submit request).2.inFlight.length ≠ v.inFlight.length → v.RequestFits) :
    Grows v (v.submit request).2 := by
  obtain hrefused | ⟨bump, htaken⟩ := v.submit_cases request
  · rw [hrefused]
    exact .refl h
  · rw [htaken] at hfits ⊢
    exact takeCounted_grows h _ _ h.latency.ack hfits

theorem cancel_grows (h : v.Calm) (request : CancelRequest)
    (hfits : (v.cancel request).2.inFlight.length ≠ v.inFlight.length → v.RequestFits) :
    Grows v (v.cancel request).2 := by
  obtain hrefused | ⟨bump, htaken⟩ := v.cancel_cases request
  · rw [hrefused]
    exact .refl h
  · rw [htaken] at hfits ⊢
    exact takeCounted_grows h _ _ h.latency.cancel hfits

theorem replace_grows (h : v.Calm) (request : ReplaceRequest)
    (hfits : (v.replace request).2.inFlight.length ≠ v.inFlight.length → v.RequestFits) :
    Grows v (v.replace request).2 := by
  obtain hrefused | ⟨bump, htaken⟩ := v.replace_cases request
  · rw [hrefused]
    exact .refl h
  · rw [htaken] at hfits ⊢
    exact takeCounted_grows h _ _ h.latency.replace hfits

/-- After a request that was let through, the next one would reach the venue no later. -/
theorem Grows.requestFits (h : Grows v w) (hv : v.Calm) (hfits : v.RequestFits)
    (hclock : w.clock = v.clock) (hconfig : w.config = v.config)
    (hdelay : w.faults.delayNextRequestNs ≤ v.faults.delayNextRequestNs) : w.RequestFits := by
  unfold RequestFits at *
  rw [hclock, hconfig]
  refine hv.reading.of_le hfits ?_ (add_le_add_right hdelay _)
  exact (le_add_of_nonneg_right hv.latency.request).trans (le_add_of_nonneg_right h.calm.delay)

theorem cancel_later (h : v.Calm) (request : CancelRequest) :
    (v.cancel request).2.clock = v.clock ∧ (v.cancel request).2.config = v.config ∧
      (v.cancel request).2.faults.delayNextRequestNs ≤ v.faults.delayNextRequestNs := by
  obtain hrefused | ⟨bump, htaken⟩ := v.cancel_cases request
  · rw [hrefused]
    exact ⟨rfl, rfl, le_rfl⟩
  · rw [htaken]
    unfold takeRequest
    split
    · exact ⟨rfl, rfl, h.delay⟩
    · exact ⟨rfl, rfl, le_rfl⟩

theorem cancel_length_inFlight (v : PaperExecution) (request : CancelRequest) :
    v.inFlight.length ≤ (v.cancel request).2.inFlight.length := by
  obtain hrefused | ⟨bump, htaken⟩ := v.cancel_cases request
  · rw [hrefused]
  · rw [htaken]
    unfold takeRequest
    split
    · simp [enqueueRequest, count]
    · exact le_rfl

theorem cancelEach_length_inFlight (symbol : Symbol) (orders : List PaperOrder)
    (v : PaperExecution) :
    v.inFlight.length ≤ (cancelEach symbol orders v).2.inFlight.length := by
  induction orders generalizing v with
  | nil => exact le_rfl
  | cons order orders ih =>
      rw [cancelEach]
      split
      · exact ih v
      dsimp only
      split
      · exact v.cancel_length_inFlight _
      · exact (v.cancel_length_inFlight _).trans (ih _)

theorem cancelEach_grows (symbol : Symbol) (orders : List PaperOrder) (h : v.Calm)
    (hfits : (cancelEach symbol orders v).2.inFlight.length ≠ v.inFlight.length →
      v.RequestFits) : Grows v (cancelEach symbol orders v).2 := by
  induction orders generalizing v with
  | nil => exact .refl h
  | cons order orders ih =>
      rw [cancelEach] at hfits ⊢
      split
      · rename_i hpassed
        rw [if_pos hpassed] at hfits
        exact ih h hfits
      · rename_i hasked
        rw [if_neg hasked] at hfits
        dsimp only at hfits ⊢
        generalize hrequest : ({ clientOrderId := order.clientOrderId
                                 exchangeOrderId := order.exchangeOrderId
                                 symbol := order.symbol
                                 createdNs := 0 } : CancelRequest) = request at hfits ⊢
        split
        · rename_i hrefused
          rw [if_pos hrefused] at hfits
          exact cancel_grows h request hfits
        · rename_i htaken
          rw [if_neg htaken] at hfits
          have hsooner := v.cancel_length_inFlight request
          have hlater := cancelEach_length_inFlight symbol orders (v.cancel request).2
          have hfirst := cancel_grows h request fun hgrew => hfits (by omega)
          obtain ⟨hclock, hconfig, hdelay⟩ := cancel_later h request
          exact hfirst.trans (ih hfirst.calm fun hgrew =>
            hfirst.requestFits h (hfits (by omega)) hclock hconfig hdelay)

theorem setConnection_grows (h : v.Calm) (state : ConnectionState) :
    Grows v (v.setConnection state).2 := by
  unfold setConnection
  split
  · exact .refl h
  · exact .frame { h with } le_rfl id rfl rfl rfl

theorem start_grows (h : v.Calm) : Grows v v.start.2 := by
  have hstarted : Grows v { v with started := true } :=
    .frame { h with } le_rfl (fun _ => rfl) rfl rfl rfl
  have hconnecting := hstarted.trans (setConnection_grows hstarted.calm .connecting)
  have hauthenticated : Grows v
      { ({ v with started := true }.setConnection .connecting).2 with authenticated := true } :=
    hconnecting.trans (.frame { hconnecting.calm with } le_rfl id rfl rfl rfl)
  exact hauthenticated.trans (setConnection_grows hauthenticated.calm .connected)

/-- Between polls the venue only adds to what is on its way. -/
theorem step_grows {op : Op} (hplain : op.Plain) (hpoll : op ≠ .poll) (h : v.Calm)
    (hfits : op.Fits v) : Grows v (step op v) := by
  replace hfits := hfits.2
  cases op with
  | start => exact start_grows h
  | stop => exact absurd hplain not_false
  | setConnection state => exact setConnection_grows h state
  | setAuthenticated authenticated => exact .frame { h with } le_rfl id rfl rfl rfl
  | inject faults =>
      exact .frame
        { h with
          duplicates := hplain.1
          reorders := hplain.2.1
          delay := hplain.2.2 } le_rfl id rfl rfl rfl
  | submit request => exact submit_grows h request hfits
  | cancel request => exact cancel_grows h request hfits
  | cancelAll symbol =>
      change (v.cancelAll symbol).2.inFlight.length ≠ _ → v.RequestFits at hfits
      show Grows v (v.cancelAll symbol).2
      unfold cancelAll at *
      split
      · exact .refl h
      · rename_i hconnected
        rw [if_neg hconnected] at hfits
        exact cancelEach_grows symbol v.orders h hfits
  | replace request => exact replace_grows h request hfits
  | queryOpenOrders symbol =>
      exact .of_schedules h (queryOpenOrders_schedules h.steady symbol fun hconnected =>
        h.dates h.latency.query (hfits hconnected))
  | queryOrder clientOrderId exchangeOrderId =>
      exact .of_schedules h (queryOrder_schedules h.steady clientOrderId exchangeOrderId
        fun hconnected => h.dates h.latency.query (hfits hconnected))
  | attachBook symbol book => exact .frame { h with } le_rfl id rfl rfl rfl
  | onMarketUpdate symbol updateNs =>
      have hupdated : Grows v { v with bookUpdatedNs := v.bookUpdatedNs.insert symbol updateNs } :=
        .frame { h with } le_rfl id rfl rfl rfl
      exact hupdated.trans
        (.of_schedules hupdated.calm (matchSymbol_schedules hupdated.calm.steady symbol v.clock
          fun hexecuted => hupdated.calm.dates h.latency.fill (hfits hexecuted)))
  | poll => exact absurd rfl hpoll
  | advance elapsed =>
      exact .frame { h with reading := hfits } (by simp [step, advance]) id rfl rfl rfl
  | setWall wall => exact .frame { h with } le_rfl id rfl rfl rfl

/-! ## A poll -/

end PaperExecution

/-- What the queue sorts by: the sooner due first, and the earlier scheduled first among
equals. -/
def Scheduled.stamp (e : Scheduled) : Nanos ×ₗ Nat := toLex (e.dueNs, e.ordinal)

theorem Scheduled.comesBefore_iff (a b : Scheduled) :
    comesBefore a.dueNs a.ordinal b.dueNs b.ordinal = true ↔ a.stamp ≤ b.stamp := by
  rw [stamp, stamp, Prod.Lex.toLex_le_toLex, comesBefore]
  by_cases hdue : a.dueNs = b.dueNs
  · simp [hdue]
  · simp [hdue]

namespace PaperExecution

variable {v w x : PaperExecution}

theorem dueEvents_eq (hreorders : v.faults.reorderNextEvent = 0) :
    v.dueEvents = (v.pending.filter fun scheduled => scheduled.dueNs ≤ v.clock).insertionSort
      fun a b => comesBefore a.dueNs a.ordinal b.dueNs b.ordinal = true := by
  rw [dueEvents, hreorders]
  rfl

theorem mem_dueEvents (hreorders : v.faults.reorderNextEvent = 0) {e : Scheduled} :
    e ∈ v.dueEvents ↔ e ∈ v.pending ∧ e.dueNs ≤ v.clock := by
  rw [dueEvents_eq hreorders, List.mem_insertionSort, List.mem_filter, decide_eq_true_iff]

/-- Due events are delivered in the order of their stamps. -/
theorem pairwise_dueEvents (hreorders : v.faults.reorderNextEvent = 0)
    (hordered : v.pending.Pairwise fun a b => a.ordinal < b.ordinal) :
    v.dueEvents.Pairwise fun a b => a.stamp < b.stamp := by
  have hsorted : v.dueEvents.Pairwise fun a b => a.stamp ≤ b.stamp := by
    rw [dueEvents_eq hreorders, ← List.pairwise_map, List.map_insertionSort _ (· ≤ ·)]
    · exact List.pairwise_insertionSort _ _
    · exact fun a _ b _ => a.comesBefore_iff b
  have hdistinct : v.dueEvents.Pairwise fun a b => a.stamp ≠ b.stamp := by
    rw [dueEvents_eq hreorders]
    refine ((List.perm_insertionSort _ _).pairwise_iff fun h => h.symm).mpr ?_
    refine (hordered.filter _).imp fun hlt heq => ?_
    exact hlt.ne (congrArg (fun s => (ofLex s).2) heq)
  exact (hsorted.and hdistinct).imp fun h => lt_of_le_of_ne h.1 h.2

/-- Processing requests that have arrived schedules nothing too soon. -/
theorem foldl_processRequest_schedules {least : Nanos} {requests : List PendingRequest}
    (hleast : ∀ request ∈ requests, least ≤ request.dueNs)
    (harrived : ∀ request ∈ requests, request.dueNs ≤ v.clock)
    (hdecided : ∀ request ∈ requests, 0 ≤ request.decisionDelayNs) (h : v.Calm)
    (hfits : Machine.Along (fun pending v => v.processRequest pending) PendingRequest.Fits requests
      v) : Schedules least v (requests.foldl processRequest v) := by
  induction requests generalizing v with
  | nil => exact .refl v
  | cons pending later ih =>
      rw [List.forall_mem_cons] at hleast harrived hdecided
      have hfirst := processRequest_schedules h.duplicates h.latency h.idle harrived.1 hdecided.1
        hfits.1
      refine (hfirst.mono hleast.1).trans
        (ih hleast.2 ?_ hdecided.2 (h.of_schedules hfirst) hfits.2)
      rw [hfirst.clock]
      exact harrived.2

/-- What processing requests adds to the queue, and what it answers. -/
theorem requestsScheduled_spec {requests : List PendingRequest}
    (harrived : ∀ request ∈ requests, request.dueNs ≤ v.clock)
    (hdecided : ∀ request ∈ requests, 0 ≤ request.decisionDelayNs) (h : v.Calm)
    (hfits : Machine.Along (fun pending v => v.processRequest pending) PendingRequest.Fits requests
      v) :
    (requests.foldl processRequest v).pending =
        v.pending ++ (requestsScheduled requests v).map Prod.snd ∧
      ∀ answer ∈ requestsScheduled requests v,
        answer.1 ∈ requests ∧ answer.1.dueNs ≤ answer.2.dueNs := by
  induction requests generalizing v with
  | nil => exact ⟨(List.append_nil _).symm, by simp [requestsScheduled]⟩
  | cons pending later ih =>
      rw [List.forall_mem_cons] at harrived hdecided
      have hfirst := processRequest_schedules h.duplicates h.latency h.idle harrived.1 hdecided.1
        hfits.1
      obtain ⟨events, hevents, -, hdrawn⟩ := hfirst.appends
      have hnew : (v.processRequest pending).pending.drop v.pending.length = events := by
        rw [hevents, List.drop_left]
      obtain ⟨hpending, hanswers⟩ := ih (v := v.processRequest pending)
        (by rw [hfirst.clock]; exact harrived.2) hdecided.2 (h.of_schedules hfirst) hfits.2
      rw [requestsScheduled, hnew]
      constructor
      · rw [List.foldl_cons, hpending, hevents]
        simp [List.append_assoc, Function.comp_def]
      · intro answer hanswer
        rcases List.mem_append.mp hanswer with hmine | hlater
        · obtain ⟨e, he, rfl⟩ := List.mem_map.mp hmine
          exact ⟨List.mem_cons_self, hdrawn.due e he⟩
        · obtain ⟨hmem, hdue⟩ := hanswers answer hlater
          exact ⟨List.mem_cons_of_mem _ hmem, hdue⟩

theorem exists_least (requests : List PendingRequest) :
    ∃ least, ∀ request ∈ requests, least ≤ request.dueNs := by
  induction requests with
  | nil => exact ⟨0, by simp⟩
  | cons first later ih =>
      obtain ⟨least, hleast⟩ := ih
      exact ⟨min first.dueNs least, List.forall_mem_cons.mpr ⟨min_le_left _ _,
        fun request hmem => (min_le_right _ _).trans (hleast request hmem)⟩⟩

theorem deliver_frame (event : ExecutionEvent) (v : PaperExecution) :
    ∃ orders metrics, (v.deliver event).2 = { v with orders := orders, metrics := metrics } := by
  cases event with
  | orderCancel cancel =>
      unfold deliver resolvePendingCancel
      dsimp only
      repeat' split
      all_goals exact ⟨_, _, rfl⟩
  | _ => exact ⟨_, _, rfl⟩

/-- Delivering events writes the orders and the metrics. -/
theorem deliverAll_frame (events : List ExecutionEvent) (v : PaperExecution) :
    ∃ orders metrics,
      (deliverAll events v).2 = { v with orders := orders, metrics := metrics } := by
  induction events generalizing v with
  | nil => exact ⟨_, _, rfl⟩
  | cons event events ih =>
      obtain ⟨orders, metrics, hfirst⟩ := v.deliver_frame event
      obtain ⟨orders', metrics', hrest⟩ := ih (v.deliver event).2
      refine ⟨orders', metrics', ?_⟩
      rw [deliverAll, hrest, hfirst]

/-- The venue with the due events taken off the queue, and as many of the injected
reorderings used up as there was room for. -/
def emptied (v : PaperExecution) (now : Nanos) : PaperExecution :=
  let reordered := if v.dueEvents.length < 2 then 0 else v.faults.reorderNextEvent
  { v with
    pending := v.pending.filter fun scheduled => ¬ scheduled.dueNs ≤ now
    faults :=
      { v.faults with
        reorderNextEvent := v.faults.reorderNextEvent - reordered } }.count fun k =>
      { k with reordersInjected := k.reordersInjected + reordered }

theorem poll_of_started (hstarted : v.started = true) :
    v.poll = deliverAll (v.processArrived.dueEvents.map Scheduled.event)
      (v.processArrived.emptied v.clock) :=
  if_neg (by simp [hstarted])

/-- What a poll does to what is on its way: it adds the given answers to the queue and
takes off whatever is due. -/
structure Pumps (v w : PaperExecution) (answers : List (PendingRequest × Scheduled)) : Prop where
  calm : w.Calm
  clock : w.clock = v.clock
  started : w.started = v.started
  inFlight : w.inFlight = v.inFlight.filter fun request => ¬ request.dueNs ≤ v.clock
  pending : w.pending =
    (v.pending ++ answers.map Prod.snd).filter fun scheduled => ¬ scheduled.dueNs ≤ v.clock
  drawn : ∀ least, (∀ request ∈ v.inFlight, least ≤ request.dueNs) →
    EventsDrawn least v.nextOrdinal w.nextOrdinal (answers.map Prod.snd)
  answers : ∀ answer ∈ answers, answer.1 ∈ v.inFlight ∧ answer.1.dueNs ≤ v.clock ∧
    answer.1.dueNs ≤ answer.2.dueNs

section Poll

variable (h : v.Calm) (hdecided : ∀ request ∈ v.inFlight, 0 ≤ request.decisionDelayNs)
  (hfits : Machine.Along (fun pending v => v.processRequest pending) PendingRequest.Fits v.arrived
    v.polled)

include h hdecided hfits

theorem processArrived_schedules {least : Nanos}
    (hleast : ∀ request ∈ v.inFlight, least ≤ request.dueNs) :
    Schedules least v.polled v.processArrived :=
  foldl_processRequest_schedules (v := v.polled)
    (fun request hmem => hleast request (mem_arrived hmem).1)
    (fun _ hmem => (mem_arrived hmem).2) (fun request hmem => hdecided request (mem_arrived hmem).1)
    { h with } hfits

theorem processArrived_spec :
    v.processArrived.pending =
        v.pending ++ (requestsScheduled v.arrived v.polled).map Prod.snd ∧
      ∀ answer ∈ requestsScheduled v.arrived v.polled,
        answer.1 ∈ v.arrived ∧ answer.1.dueNs ≤ answer.2.dueNs :=
  requestsScheduled_spec (v := v.polled) (fun _ hmem => (mem_arrived hmem).2)
    (fun request hmem => hdecided request (mem_arrived hmem).1) { h with } hfits

theorem processArrived_calm : v.processArrived.Calm := by
  obtain ⟨least, hleast⟩ := exists_least v.inFlight
  have hpolled : v.polled.Calm := { h with }
  exact hpolled.of_schedules (processArrived_schedules h hdecided hfits hleast)

theorem processArrived_clock : v.processArrived.clock = v.clock := by
  obtain ⟨least, hleast⟩ := exists_least v.inFlight
  exact (processArrived_schedules h hdecided hfits hleast).clock

/-- A poll answers the requests that have arrived and delivers what is due. -/
theorem step_poll_pumps (hstarted : v.started = true) :
    Pumps v (step .poll v) (requestsScheduled v.arrived v.polled) := by
  have hcalm := processArrived_calm h hdecided hfits
  have hclock := processArrived_clock h hdecided hfits
  obtain ⟨hpending, hanswers⟩ := processArrived_spec h hdecided hfits
  have hsetting := v.poll_setting hstarted
  obtain ⟨orders, metrics, hdelivered⟩ := deliverAll_frame
    (v.processArrived.dueEvents.map Scheduled.event) (v.processArrived.emptied v.clock)
  have hstep : step .poll v =
      { v.processArrived.emptied v.clock with orders := orders, metrics := metrics } := by
    rw [← hdelivered, ← poll_of_started hstarted]
    rfl
  exact
    { calm :=
        { latency := by rw [hstep]; exact hcalm.latency
          duplicates := by rw [hstep]; exact hcalm.duplicates
          reorders := by rw [hstep]; simp [emptied, count, hcalm.reorders]
          delay := by rw [hstep]; exact hcalm.delay
          idle := by rw [hstep]; exact hcalm.idle
          reading := by rw [hstep]; exact hcalm.reading }
      clock := by rw [hstep]; exact hclock
      started := congrArg Setting.started hsetting
      inFlight := congrArg Setting.inFlight hsetting
      pending := by rw [hstep, ← hpending]; rfl
      drawn := by
        intro least hleast
        obtain ⟨events, hevents, -, hdrawn⟩ :=
          (processArrived_schedules h hdecided hfits hleast).appends
        obtain rfl : (requestsScheduled v.arrived v.polled).map Prod.snd = events :=
          List.append_cancel_left (hpending.symm.trans hevents)
        rw [hstep]
        exact hdrawn
      answers := fun answer hmem =>
        ⟨(mem_arrived (hanswers answer hmem).1).1, (mem_arrived (hanswers answer hmem).1).2,
          (hanswers answer hmem).2⟩ }

end Poll

/-- A venue that was never started holds nothing. -/
def Asleep (v : PaperExecution) : Prop :=
  v.started = false → v.orders = [] ∧ v.pending = [] ∧ v.inFlight = []

theorem requireConnected_isError (hstarted : v.started = false) :
    v.requireConnected.isError = true := by
  unfold requireConnected
  rw [hstarted]
  rfl

theorem matchSymbol_pending (horders : v.orders = []) (symbol : Symbol) (now : Nanos) :
    (v.matchSymbol symbol now).orders = [] ∧ (v.matchSymbol symbol now).pending = v.pending := by
  have hnone : v.matchingOrder symbol = [] := by simp [matchingOrder, horders]
  unfold matchSymbol
  rw [hnone]
  repeat' split
  all_goals exact ⟨horders, rfl⟩

theorem setConnection_waiting (state : ConnectionState) :
    (v.setConnection state).2.orders = v.orders ∧ (v.setConnection state).2.pending = v.pending ∧
      (v.setConnection state).2.inFlight = v.inFlight := by
  unfold setConnection
  split
  · exact ⟨rfl, rfl, rfl⟩
  · exact ⟨rfl, rfl, rfl⟩

/-- A call on a venue that was not started puts nothing on its way. -/
theorem step_asleep {op : Op} (hplain : op.Plain) (hstarted : v.started = false)
    (horders : v.orders = []) :
    (step op v).orders = [] ∧ (step op v).pending = v.pending ∧
      (step op v).inFlight = v.inFlight := by
  have hrefused := requireConnected_isError hstarted
  have hsame : step op v = v → (step op v).orders = [] ∧ (step op v).pending = v.pending ∧
      (step op v).inFlight = v.inFlight := fun h => by
    rw [h]
    exact ⟨horders, rfl, rfl⟩
  cases op with
  | start =>
      obtain ⟨hfirst, hfirst', hfirst''⟩ :=
        setConnection_waiting (v := { v with started := true }) .connecting
      obtain ⟨hsecond, hsecond', hsecond''⟩ := setConnection_waiting
        (v := { ({ v with started := true }.setConnection .connecting).2 with
          authenticated := true }) .connected
      exact ⟨hsecond.trans (hfirst.trans horders), hsecond'.trans hfirst',
        hsecond''.trans hfirst''⟩
  | stop => exact absurd hplain not_false
  | setConnection state =>
      obtain ⟨hstate, hstate', hstate''⟩ := v.setConnection_waiting state
      exact ⟨hstate.trans horders, hstate', hstate''⟩
  | setAuthenticated authenticated => exact ⟨horders, rfl, rfl⟩
  | inject faults => exact ⟨horders, rfl, rfl⟩
  | submit request => exact hsame (congrArg Prod.snd (if_pos hrefused))
  | cancel request => exact hsame (congrArg Prod.snd (if_pos (by simp [hstarted])))
  | cancelAll symbol => exact hsame (congrArg Prod.snd (if_pos hrefused))
  | replace request =>
      apply hsame
      show (v.replace request).2 = v
      unfold replace
      rw [if_pos hrefused]
      split
      · rfl
      · rfl
  | queryOpenOrders symbol => exact hsame (congrArg Prod.snd (if_pos hrefused))
  | queryOrder clientOrderId exchangeOrderId =>
      exact hsame (congrArg Prod.snd (if_pos hrefused))
  | attachBook symbol book => exact ⟨horders, rfl, rfl⟩
  | onMarketUpdate symbol updateNs =>
      have hsetting := matchSymbol_setting
        { v with bookUpdatedNs := v.bookUpdatedNs.insert symbol updateNs } symbol v.clock
      obtain ⟨hempty, hpending⟩ := matchSymbol_pending
        (v := { v with bookUpdatedNs := v.bookUpdatedNs.insert symbol updateNs }) horders symbol
        v.clock
      exact ⟨hempty, hpending, congrArg Setting.inFlight hsetting⟩
  | poll => exact hsame (congrArg Prod.snd (if_pos (by simp [hstarted])))
  | advance elapsed => exact ⟨horders, rfl, rfl⟩
  | setWall wall => exact ⟨horders, rfl, rfl⟩

/-- What holds of a venue along a run of plain calls. -/
structure Orderly (v : PaperExecution) : Prop extends v.Calm where
  count : v.nextOrdinal ≤ 2 ^ 64
  ordered : v.pending.Pairwise fun a b => a.ordinal < b.ordinal
  drawn : ∀ e ∈ v.pending, e.ordinal < v.nextOrdinal
  asked : ∀ request ∈ v.inFlight, request.ordinal < v.nextOrdinal
  decided : ∀ request ∈ v.inFlight, 0 ≤ request.decisionDelayNs
  asleep : v.Asleep

/-- A plain call is a poll of a started venue, a call that only adds to what is on its
way, or a poll that does nothing. -/
theorem step_cases {op : Op} (hplain : op.Plain) (hfits : op.Fits v) (h : v.Orderly) :
    (op = .poll ∧ v.started = true ∧
      Pumps v (step op v) (requestsScheduled v.arrived v.polled)) ∨
    (op ≠ .poll ∧ Grows v (step op v)) ∨ (op = .poll ∧ v.started = false ∧ step op v = v) := by
  by_cases hpoll : op = .poll
  · subst hpoll
    cases hstarted : v.started with
    | true => exact .inl ⟨rfl, rfl, step_poll_pumps h.toCalm h.decided (hfits.2 hstarted) hstarted⟩
    | false => exact .inr (.inr ⟨rfl, rfl, congrArg Prod.snd (if_pos (by simp [hstarted]))⟩)
  · exact .inr (.inl ⟨hpoll, step_grows hplain hpoll h.toCalm hfits⟩)

theorem orderly_init {config : PaperExecutionConfig} (hlatency : config.latency.Nonneg)
    {clock : Nanos} (hclock : FitsNanos clock) (wall : Nanos) :
    (init config clock wall).Orderly where
  latency := hlatency
  duplicates := rfl
  reorders := rfl
  delay := le_rfl
  idle := rfl
  reading := hclock
  count := Nat.zero_le _
  ordered := .nil
  drawn := by simp [init]
  asked := by simp [init]
  decided := by simp [init]
  asleep := fun _ => ⟨rfl, rfl, rfl⟩

theorem Orderly.added {answers : List Scheduled} {least : Nanos} (h : v.Orderly)
    (hdrawn : EventsDrawn least v.nextOrdinal w.nextOrdinal answers)
    (hcount : w.nextOrdinal ≤ 2 ^ 64) :
    ((v.pending ++ answers).Pairwise fun a b => a.ordinal < b.ordinal) ∧
      ∀ e ∈ v.pending ++ answers, e.ordinal < w.nextOrdinal :=
  ⟨List.pairwise_append.mpr ⟨h.ordered, hdrawn.ordered hcount, fun a ha b hb =>
      (h.drawn a ha).trans_le (hdrawn.lower hcount b hb)⟩,
    List.forall_mem_append.mpr
      ⟨fun e he => (h.drawn e he).trans_le hdrawn.drawn, hdrawn.upper hcount⟩⟩

/-- Every plain call keeps the venue in order. -/
theorem Orderly.step {op : Op} (hplain : op.Plain) (hfits : op.Fits v) (h : v.Orderly) :
    (PaperExecution.step op v).Orderly := by
  rcases step_cases hplain hfits h with ⟨rfl, hstarted, hpumps⟩ | ⟨hpoll, hgrows⟩ | ⟨rfl, -, hsame⟩
  · obtain ⟨least, hleast⟩ := exists_least v.inFlight
    have hdrawn := hpumps.drawn least hleast
    obtain ⟨hordered, hbelow⟩ := h.added hdrawn hfits.1
    exact
      { hpumps.calm with
        count := hfits.1
        ordered := by rw [hpumps.pending]; exact hordered.filter _
        drawn := by
          rw [hpumps.pending]
          exact fun e he => hbelow e (List.mem_of_mem_filter he)
        asked := by
          rw [hpumps.inFlight]
          exact fun r hr => (h.asked r (List.mem_of_mem_filter hr)).trans_le hdrawn.drawn
        decided := by
          rw [hpumps.inFlight]
          exact fun r hr => h.decided r (List.mem_of_mem_filter hr)
        asleep := fun hasleep => by simp [hpumps.started, hstarted] at hasleep }
  · obtain ⟨events, hevents, hdrawn⟩ := hgrows.events
    obtain ⟨requests, hrequests, hasked, hdecided⟩ := hgrows.requests
    obtain ⟨hordered, hbelow⟩ := h.added hdrawn hfits.1
    exact
      { hgrows.calm with
        count := hfits.1
        ordered := by rw [hevents]; exact hordered
        drawn := by rw [hevents]; exact hbelow
        asked := by
          rw [hrequests]
          exact List.forall_mem_append.mpr
            ⟨fun r hr => (h.asked r hr).trans_le hasked.drawn, hasked.upper hfits.1⟩
        decided := by
          rw [hrequests]
          exact List.forall_mem_append.mpr ⟨h.decided, hdecided⟩
        asleep := fun hasleep => by
          have hbefore : v.started = false := by
            by_contra hstarted
            simp [hgrows.started (by simpa using hstarted)] at hasleep
          obtain ⟨horders, hpending, hinFlight⟩ := h.asleep hbefore
          obtain ⟨horders', hpending', hinFlight'⟩ := step_asleep hplain hbefore horders
          exact ⟨horders', hpending'.trans hpending, hinFlight'.trans hinFlight⟩ }
  · rw [hsame]
    exact h

end PaperExecution

end MmEngine.Exchange.Paper
