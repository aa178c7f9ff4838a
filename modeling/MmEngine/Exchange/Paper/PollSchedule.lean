/-
# The polling schedule

A venue is asked things and polled. The polls but for the last may be left out: what is
handed to the sink and what becomes of the orders is the same, as long as the requests are
let in the same and the last poll can make up for the others. It cannot where a request
comes for an order whose cancel was already due, where it has more answers to keep than
there is room for, and for a request that arrived at time zero, which it dates from now;
nor where a time outgrows 64 bits and falls due in the past.
-/

import MmEngine.Exchange.Paper.OnePoll

namespace MmEngine.Exchange.Paper

namespace PaperExecution

variable {v w y y' : PaperExecution} {past : Nanos}

theorem Framed.nextTradeSeq (h : Framed v w) : w.nextTradeSeq = v.nextTradeSeq := by
  obtain ⟨_, _, _, _, _, _, _, rfl⟩ := h
  rfl

/-- What answers a request that did not arrive at time zero is dated the same in both. -/
theorem fits_of_framed {pending pending' : PendingRequest} (hfits : pending.Fits v)
    (hflight : pending'.flight = pending.flight) (htimed : pending.dueNs ≠ 0) (h : Framed v w)
    (hafter : Framed (v.processRequest pending) (w.processRequest pending')) :
    pending'.Fits w := by
  simp only [PendingRequest.flight, Prod.mk.injEq] at hflight
  obtain ⟨hdue, -, hdelay⟩ := hflight
  have hbase : base { w with processingArrivalNs := pending'.dueNs } =
      base { v with processingArrivalNs := pending.dueNs } := by
    rw [base, base, if_pos (show pending'.dueNs ≠ 0 from hdue ▸ htimed), if_pos htimed, hdue]
  unfold PendingRequest.Fits at *
  rw [hbase, hdelay, hafter.nextTradeSeq, h.nextTradeSeq, h.config]
  exact hfits

/-- What is untroubled in one venue is untroubled in another that agrees with it, and leaves
them in agreement. -/
theorem Untroubled.congr {requests requests' : List PendingRequest} (h : Untroubled requests v)
    (hflights : requests'.map PendingRequest.flight = requests.map PendingRequest.flight)
    (hquiet : v.faults = {}) (halike : Alike ∅ v w) (hqueue : w.queue = v.queue) :
    Untroubled requests' w ∧
      Alike ∅ (requests.foldl processRequest v) (requests'.foldl processRequest w) ∧
      (requests'.foldl processRequest w).queue = (requests.foldl processRequest v).queue := by
  induction requests generalizing v w requests' with
  | nil =>
      rw [List.map_nil, List.map_eq_nil_iff] at hflights
      rw [hflights]
      exact ⟨trivial, halike, hqueue⟩
  | cons pending later ih =>
      rw [List.map_cons, List.map_eq_cons_iff] at hflights
      obtain ⟨pending', later', rfl, hflight, hlater⟩ := hflights
      have hmirrors : Mirrors ∅ v w (v.processRequest pending) (w.processRequest pending') :=
        (Mirrors.of_alike halike hquiet (congrArg List.length hqueue).le).processRequest hflight
          h.1.1.timed fun _ _ _ => Set.notMem_empty _
      obtain ⟨hkept, added, hadded, hadded'⟩ := hmirrors.added h.1.1.kept
      have hfits := fits_of_framed h.1.2 hflight h.1.1.timed halike.framed hmirrors.framed
      have hnext : (w.processRequest pending').queue = (v.processRequest pending).queue := by
        rw [hadded, hadded', hqueue]
      obtain ⟨huntroubled, hrest⟩ :=
        ih h.2 hlater (processRequest_quiet hquiet pending) hmirrors.toAlike hnext
      refine ⟨⟨⟨?_, hfits⟩, huntroubled⟩, hrest⟩
      simp only [PendingRequest.flight, Prod.mk.injEq] at hflight
      obtain ⟨hdue, hrequest, -⟩ := hflight
      constructor
      · rw [hdue]
        exact h.1.1.timed
      · exact hkept
      · intro e' he' hle id hconfirms
        -- The same confirmation waits in the first venue.
        have hmem : e'.report ∈ v.queue := by
          rw [← hqueue]
          exact List.mem_map_of_mem he'
        obtain ⟨e, he, hreport⟩ := List.mem_map.mp hmem
        simp only [Scheduled.report, Prod.mk.injEq] at hreport
        rw [hdue, ← hreport.1] at hle
        rw [ExecutionEvent.confirms_congr hreport.2] at hconfirms
        rw [hrequest]
        exact (h.1.1.spares e he hle id hconfirms).of_alike halike fun _ _ _ => Set.notMem_empty _

/-- Two venues that are as if the same had been processed first have delivered the same, and
agree. -/
theorem Merged.agree {out out' : List (Nanos × ExecutionEvent)} {w' : PaperExecution}
    (h : Merged y past w out) (h' : Merged y' past w' out') (halike : Alike ∅ y y')
    (hqueue : y'.queue = y.queue) : out = out' ∧ Alike ∅ w w' := by
  have hreports : (dueBy past y.pending).map Scheduled.report =
      (dueBy past y'.pending).map Scheduled.report := by
    rw [map_dueBy h.ordered, map_dueBy h'.ordered]
    show List.insertionSort _ (y.queue.filter _) = List.insertionSort _ (y'.queue.filter _)
    rw [hqueue]
  have hevents := congrArg (List.map Prod.snd) hreports
  rw [report_snd, report_snd] at hevents
  constructor
  · rw [h.out, h'.out]
    exact handedOf_alike halike hreports
  · exact (h.alike.symm.trans (deliverAll_alike halike hevents)).trans h'.alike

/-- What holds of a venue along a run without faults. -/
structure Undisturbed (v : PaperExecution) : Prop where
  quiet : v.faults = {}
  orderly : v.Orderly
  asks : v.Asks
  range : v.table.InRange
  queued : v.inFlight.Pairwise fun a b => a.ordinal < b.ordinal

theorem undisturbed_init {config : PaperExecutionConfig} (hlatency : config.latency.Nonneg)
    {clock : Nanos} (hclock : FitsNanos clock) (wall : Nanos) :
    (init config clock wall).Undisturbed where
  quiet := rfl
  orderly := orderly_init hlatency hclock wall
  asks := fun _ hmem => absurd hmem List.not_mem_nil
  range := fun id index hindex => by
    rw [table, init, AList.lookup_empty] at hindex
    cases hindex
  queued := .nil

theorem Undisturbed.step {op : Op} (hfaultless : op.Faultless) (hfits : op.Fits v)
    (h : v.Undisturbed) : (PaperExecution.step op v).Undisturbed where
  quiet := step_quiet hfaultless h.quiet
  orderly := h.orderly.step hfaultless.plain hfits
  asks := h.asks.step op
  range := by
    exact step_keeps (fun w pending _ hrange => processRequest_inRange hrange pending)
      (fun w cancel hrange => resolvePendingCancel_inRange hrange cancel)
      (fun now sweep index hrange => matchOrder_inRange now index hrange) op h.asks h.range
  queued := by
    rcases step_cases hfaultless.plain hfits h.orderly with ⟨rfl, -, hpumps⟩ | ⟨-, hgrows⟩ |
      ⟨rfl, -, hsame⟩
    · rw [hpumps.inFlight]
      exact h.queued.filter _
    · obtain ⟨requests, hrequests, hasked, -⟩ := hgrows.requests
      rw [hrequests]
      exact List.pairwise_append.mpr ⟨h.queued, hasked.ordered hfits.1, fun a ha b hb =>
        (h.orderly.asked a ha).trans_le (hasked.lower hfits.1 b hb)⟩
    · rw [hsame]
      exact h.queued

theorem dueBy_of_late {events : List Scheduled} (h : ∀ e ∈ events, past < e.dueNs) :
    dueBy past events = [] := by
  rw [List.eq_nil_iff_forall_not_mem]
  intro e he
  obtain ⟨hmem, hdue⟩ := mem_dueBy.mp he
  exact absurd (h e hmem) (not_lt.mpr hdue)

theorem queue_of_late (h : ∀ e ∈ v.pending, past < e.dueNs) :
    (v.queue.filter fun r => ¬ r.1 ≤ past) = v.queue := by
  rw [List.filter_eq_self]
  intro r hr
  obtain ⟨e, he, rfl⟩ := List.mem_map.mp hr
  exact decide_eq_true (not_le.mpr (h e he))

/-- Before the first of the polls to come nothing has been put off. -/
theorem Undisturbed.merged (h : v.Undisturbed) (hstarted : v.started = true) :
    ∃ past, Merged v past v [] ∧ ∀ e ∈ v.pending, past < e.dueNs := by
  obtain ⟨least, hbelow⟩ := (((v.clock :: v.inFlight.map PendingRequest.dueNs) ++
    v.pending.map Scheduled.dueNs).finite_toSet).bddBelow
  have hleast : ∀ time ∈ (v.clock :: v.inFlight.map PendingRequest.dueNs) ++
      v.pending.map Scheduled.dueNs, least ≤ time := fun time htime => hbelow htime
  have hbefore : least - 1 ≤ least := (sub_one_lt least).le
  have hlate : ∀ e ∈ v.pending, least - 1 < e.dueNs := fun e he =>
    (sub_one_lt least).trans_le
      (hleast _ (List.mem_append_right _ (List.mem_map_of_mem he)))
  have hnone := dueBy_of_late hlate
  refine ⟨least - 1, ?_, hlate⟩
  exact
    { quiet := h.quiet
      orderly := h.orderly
      started := hstarted
      polled := hbefore.trans (hleast _ (List.mem_append_left _ List.mem_cons_self))
      asked := fun pending hmem => hbefore.trans
        (hleast _ (List.mem_append_left _ (List.mem_cons_of_mem _ (List.mem_map_of_mem hmem))))
      quiet' := h.quiet
      calm := h.orderly.toCalm
      range := h.range
      ordered := h.orderly.ordered
      drawn := h.orderly.drawn
      fewer := le_rfl
      alike := by
        rw [hnone]
        exact .refl v
      queue := (queue_of_late hlate).symm
      out := by
        rw [hnone]
        rfl }

/-! ## Leaving polls out -/

/-- Everything a run hands to the sink, each event beside the time it was due. -/
def handedOver (ops : List Op) (v : PaperExecution) : List (Nanos × ExecutionEvent) :=
  (Machine.outputs step handed ops v).flatten

/-- The run may leave out its polls, and be polled once at its end instead. -/
structure OnePollSuffices (ops : List Op) (v : PaperExecution) : Prop where
  events : handedOver (withoutPolls ops ++ [.poll]) v = handedOver (ops ++ [.poll]) v
  orders : (Machine.run step (withoutPolls ops ++ [.poll]) v).orders.map PaperOrder.unstamped =
    (Machine.run step (ops ++ [.poll]) v).orders.map PaperOrder.unstamped

/-- The run lets in the same requests as its start would, a poll at its end troubles none of
them, and nothing outgrows 64 bits with the polls or without. -/
structure PollsLate (ops : List Op) (v : PaperExecution) : Prop where
  admitted : Machine.Along step (Op.AdmittedAs v) ops v
  untouched : Machine.Along (fun pending v => v.processRequest pending) Untouched
    (Machine.run step (withoutPolls ops) v).arrived (Machine.run step (withoutPolls ops) v).polled
  fits : Machine.Along step Op.Fits (ops ++ [.poll]) v
  fitsWithout : Machine.Along step Op.Fits (withoutPolls ops ++ [.poll]) v

/-- Calls that are no polls process and deliver nothing. -/
theorem Merged.entries {out : List (Nanos × ExecutionEvent)} {ops : List Op}
    (h : Merged y past w out) (htimed : ∀ op ∈ ops, op.Timed)
    (hfits : Machine.Along step Op.Fits ops w)
    (hentries : ∀ op ∈ ops, op.isPoll = false) :
    Merged y past (Machine.run step ops w) out ∧
      (Machine.outputs step taken ops w).flatten = [] ∧ handedOver ops w = [] := by
  induction ops generalizing w with
  | nil => exact ⟨h, rfl, rfl⟩
  | cons op ops ih =>
      rw [List.forall_mem_cons] at htimed hentries
      obtain ⟨hmerged, htaken, hhanded⟩ :=
        ih (h.entry htimed.1 hentries.1 hfits.1) htimed.2 hfits.2 hentries.2
      refine ⟨hmerged, ?_, ?_⟩
      · rw [Machine.outputs, List.flatten_cons, taken_of_entry hentries.1, htaken]
        rfl
      · rw [handedOver, Machine.outputs, List.flatten_cons, handed_of_entry hentries.1]
        exact hhanded

theorem onePollSuffices_of_undisturbed (h : v.Undisturbed) (hstarted : v.started = true)
    {ops : List Op} (htimed : ∀ op ∈ ops, op.Timed) (hlate : PollsLate ops v) :
    OnePollSuffices ops v := by
  obtain ⟨past, hmerged, hpending⟩ := h.merged hstarted
  obtain ⟨hfitsBefore, hfitsLast, -⟩ := Machine.Along.append_iff.mp hlate.fits
  obtain ⟨hfitsEntries, hfitsLate, -⟩ := Machine.Along.append_iff.mp hlate.fitsWithout
  have htimed' : ∀ op ∈ withoutPolls ops, op.Timed := fun op hop =>
    htimed op (List.mem_of_mem_filter hop)
  have hentries : ∀ op ∈ withoutPolls ops, op.isPoll = false := fun op hop => by
    simpa using (List.mem_filter.mp hop).2
  -- Without the polls everything is processed by the last one.
  obtain ⟨hlast, htaken, hhanded⟩ := hmerged.entries htimed' hfitsEntries hentries
  have hall : (Machine.outputs step taken (withoutPolls ops ++ [.poll]) v).flatten =
      (Machine.run step (withoutPolls ops) v).arrived := by
    rw [Machine.flatten_outputs_concat, htaken]
    exact List.nil_append _
  have halike : Alike ∅ (Machine.run step (withoutPolls ops) v).polled v := by
    have hafter := hlast.alike
    rw [dueBy_of_late hpending] at hafter
    exact hafter.of_frame.symm
  have hqueue : v.queue = (Machine.run step (withoutPolls ops) v).polled.queue :=
    (hlast.queue.trans (queue_of_late hpending)).symm
  -- The requests are the same, and they come in the same order.
  have hready := hmerged.toReady
  obtain ⟨hentered, hclock⟩ := flights_of_admitted hready hready htimed hfitsBefore hfitsEntries
    (.refl v) hlate.admitted
  have hflights : (Machine.outputs step taken (ops ++ [.poll]) v).flatten.map
      PendingRequest.flight =
        (Machine.run step (withoutPolls ops) v).arrived.map PendingRequest.flight := by
    rw [← hall, taken_flights hready h.queued htimed hlate.fits,
      taken_flights hready h.queued htimed' hlate.fitsWithout, hentered, hclock]
  have hquiet := hlast.quiet
  have huntroubledLate : Untroubled (Machine.run step (withoutPolls ops) v).arrived
      (Machine.run step (withoutPolls ops) v).polled :=
    hlate.untouched.and (hfitsLate.2 hlast.started)
  obtain ⟨huntroubled, hmany, hmanyQueue⟩ := huntroubledLate.congr hflights hquiet halike hqueue
  obtain ⟨huntroubled', hone, honeQueue⟩ := huntroubledLate.congr rfl hquiet halike hqueue
  -- So each run is as if it had processed them first and then delivered what fell due.
  rw [Machine.flatten_outputs_concat] at huntroubled hmany hmanyQueue
  obtain ⟨hbefore, hfinal⟩ := Machine.Along.append_iff.mp huntroubled
  obtain ⟨past', hrun⟩ := hmerged.run htimed hfitsBefore hbefore
  have hmanyPolls := hrun.poll hfitsLast hfinal
  have honePoll := hlast.poll hfitsLate huntroubled'
  rw [List.foldl_append] at hmany hmanyQueue
  rw [hclock] at honePoll
  obtain ⟨hout, hend⟩ := honePoll.agree hmanyPolls (hone.symm.trans hmany)
    (hmanyQueue.trans honeQueue.symm)
  constructor
  · rw [handedOver, handedOver, Machine.flatten_outputs_concat, Machine.flatten_outputs_concat]
    exact (congrArg (· ++ _) hhanded).trans hout
  · rw [Machine.run_concat, Machine.run_concat]
    exact hend.orders.map_unstamped.symm

/-- From any venue that is reached without faults, a run that is polled can be polled once
at its end instead, if its requests are let in the same then and that poll finds room for
every answer, no request that arrived at time zero and none for an order whose cancel should
have been confirmed before; as long as nothing outgrows 64 bits. -/
theorem one_poll_suffices {config : PaperExecutionConfig} (hlatency : config.latency.Nonneg)
    {clock : Nanos} (hclock : FitsNanos clock) (wall : Nanos) {before ops : List Op}
    (hbefore : ∀ op ∈ before, op.Faultless)
    (hfits : Machine.Along step Op.Fits before (init config clock wall))
    (hstarted : (Machine.run step before (init config clock wall)).started = true)
    (htimed : ∀ op ∈ ops, op.Timed)
    (hlate : PollsLate ops (Machine.run step before (init config clock wall))) :
    OnePollSuffices ops (Machine.run step before (init config clock wall)) := by
  have hundisturbed : (Machine.run step before (init config clock wall)).Undisturbed :=
    Machine.invariant_run (C := fun op v => op.Faultless ∧ op.Fits v)
      (fun op v h hop => h.step hop.1 hop.2) (undisturbed_init hlatency hclock wall)
      ((Machine.along_label_iff.mpr hbefore).and hfits)
  exact onePollSuffices_of_undisturbed hundisturbed hstarted htimed hlate

end PaperExecution

namespace Sample

/-- A venue whose answers take their time. -/
def slow : PaperExecutionConfig where
  latency := ⟨1, 2, 3, 4, 5, 6⟩

def cancelOf (c : Char) : CancelRequest where
  clientOrderId := clientId c
  exchangeOrderId := .empty
  symbol := symbol
  createdNs := 0

/-- A bid is cancelled and another comes before the cancel is confirmed. -/
def twoPolls : List PaperExecution.Op :=
  [.submit (request 'a' .buy price one), .advance 2, .poll, .cancel (cancelOf 'a'), .advance 1,
    .poll, .submit (request 'b' .buy price one), .advance 10]

/-- A bid is replaced after its cancel has been confirmed. -/
def replacedLate : List PaperExecution.Op :=
  [.submit (request 'a' .buy price one), .cancel (cancelOf 'a'), .poll,
    .replace
      { originalClientOrderId := clientId 'a'
        originalExchangeOrderId := .empty
        newClientOrderId := clientId 'b'
        symbol := symbol
        newPrice := price
        newQuantity := three
        createdNs := 0 }]

/-- One bid after the other. -/
def bidAfterBid : List PaperExecution.Op :=
  [.submit (request 'a' .buy price one), .poll, .submit (request 'b' .buy price one), .advance 5]

/-- A cancel of an order that is not there, and a bid. -/
def cancelThenBid : List PaperExecution.Op :=
  [.cancel (cancelOf 'a'), .poll, .submit (request 'b' .buy price one)]

/-- The venue with the configuration, as it has started at the time. -/
def started (config : PaperExecutionConfig) (clock : Nanos) : PaperExecution :=
  Machine.run PaperExecution.step [.start] (.init config clock 0)

end Sample

namespace PaperExecution

/-- Requests that come before any cancel is due trouble none. -/
theorem untouched_of_unconfirmed {requests : List PendingRequest} {v : PaperExecution}
    (h : Machine.Along (fun pending v => v.processRequest pending)
      (fun pending v => pending.dueNs ≠ 0 ∧
        (v.processRequest pending).metrics.eventsDropped = v.metrics.eventsDropped ∧
        ∀ e ∈ v.pending, e.dueNs ≤ pending.dueNs → e.event.confirms = none) requests v) :
    Machine.Along (fun pending v => v.processRequest pending) Untouched requests v :=
  Machine.Along.mono (fun pending v hpending =>
    { timed := hpending.1
      kept := hpending.2.1
      spares := fun e he hle id hconfirms => by
        rw [hpending.2.2 e he hle] at hconfirms
        cases hconfirms }) h

theorem one_poll_suffices_twoPolls :
    OnePollSuffices Sample.twoPolls (Sample.started Sample.slow 5) := by
  have hlate : PollsLate Sample.twoPolls (Sample.started Sample.slow 5) :=
    { admitted := by decide +kernel
      untouched := untouched_of_unconfirmed (by decide +kernel)
      fits := by decide +kernel
      fitsWithout := by decide +kernel }
  exact one_poll_suffices ⟨by decide, by decide, by decide, by decide, by decide, by decide⟩
    (by decide) 0 (by simp [Op.Faultless]) (by decide +kernel) (by decide +kernel)
    (by simp [Sample.twoPolls, Op.Timed]) hlate

/-- Each of the conditions is needed. -/
theorem early_polls_matter :
    ¬OnePollSuffices Sample.replacedLate (Sample.started Sample.config 5) ∧
      ¬OnePollSuffices Sample.bidAfterBid
        (Sample.started { Sample.config with maxOrders := 1 } 5) ∧
      ¬OnePollSuffices Sample.bidAfterBid
        (Sample.started { Sample.config with maxPendingEvents := 1 } 5) ∧
      ¬OnePollSuffices Sample.bidAfterBid (Sample.started Sample.config 0) ∧
      ¬OnePollSuffices Sample.cancelThenBid
        (Sample.started { Sample.config with latency := ⟨0, 2 ^ 63 - 1, 0, 0, 0, 0⟩ } 5) := by
  refine ⟨fun h => ?_, fun h => ?_, fun h => ?_, fun h => ?_, fun h => ?_⟩
  all_goals
    have hevents := h.events
    revert hevents
    decide +kernel

end PaperExecution

end MmEngine.Exchange.Paper
