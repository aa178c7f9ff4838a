/-
# When a venue is polled

However often a venue is polled, it processes the same requests in the same order, and
hands the same events to the sink. What has been delivered so far is what would be
delivered by then had every request been processed first: a poll that comes late finds the
requests that came in the meantime in front of the events that fell due in the meantime,
and the two do not disturb each other.
-/

import MmEngine.Exchange.Paper.Confirmation
import MmEngine.Exchange.Paper.Deliveries
import MmEngine.Lib.StableSort

namespace MmEngine.Exchange.Paper

/-- Between what is numbered in order only the time counts. -/
theorem comesBefore_of_lt {ordinalA ordinalB : Nat} (h : ordinalA < ordinalB)
    (dueA dueB : Nanos) : comesBefore dueA ordinalA dueB ordinalB = true ↔ dueA ≤ dueB := by
  rw [comesBefore]
  by_cases hdue : dueA = dueB
  · simp [hdue, h.le]
  · rw [if_pos hdue, decide_eq_true_iff]
    exact ⟨le_of_lt, fun hle => lt_of_le_of_ne hle hdue⟩

theorem comesBefore_of_earlier {dueA dueB : Nanos} {ordinalA ordinalB : Nat}
    (h : dueA < dueB ∨ dueA = dueB ∧ ordinalA < ordinalB) :
    comesBefore dueA ordinalA dueB ordinalB = true ∧
      ¬comesBefore dueB ordinalB dueA ordinalA = true := by
  rw [comesBefore, comesBefore]
  rcases h with hlt | ⟨rfl, hlt⟩
  · simp [hlt.ne, hlt.ne', hlt, hlt.le]
  · simp [hlt.le, hlt]

/-- Those of some events that are due by a time, in the order they are delivered. -/
def dueBy (due : Nanos) (events : List Scheduled) : List Scheduled :=
  (events.filter fun e => e.dueNs ≤ due).insertionSort fun a b =>
    comesBefore a.dueNs a.ordinal b.dueNs b.ordinal = true

theorem mem_dueBy {due : Nanos} {events : List Scheduled} {e : Scheduled} :
    e ∈ dueBy due events ↔ e ∈ events ∧ e.dueNs ≤ due := by
  rw [dueBy, List.mem_insertionSort, List.mem_filter, decide_eq_true_iff]

/-- Events that are numbered in order are sorted by their due times alone. -/
theorem map_dueBy {events : List Scheduled}
    (hordered : events.Pairwise fun a b => a.ordinal < b.ordinal) (due : Nanos) :
    (dueBy due events).map Scheduled.report =
      ((events.map Scheduled.report).filter fun r => r.1 ≤ due).insertionSort fun a b =>
        a.1 ≤ b.1 := by
  have hsorted := List.map_insertionSort_of_pairwise
    (fun a b : Scheduled => comesBefore a.dueNs a.ordinal b.dueNs b.ordinal = true)
    (fun a b : Nanos × ExecutionEvent => a.1 ≤ b.1) Scheduled.report
    (l := events.filter fun e => e.dueNs ≤ due)
    ((hordered.filter _).imp fun hlt => comesBefore_of_lt hlt _ _)
  rw [dueBy, hsorted, List.filter_map]
  rfl

/-- What was due before is delivered before what is added. -/
theorem dueBy_append {first next : Nat} {past due : Nanos} {events added : List Scheduled}
    (hle : past ≤ due) (hbelow : ∀ e ∈ events, e.ordinal < first)
    (hdrawn : PaperExecution.EventsDrawn past first next added) (hnext : next ≤ 2 ^ 64) :
    dueBy due (events ++ added) =
      dueBy past events ++ dueBy due ((events.filter fun e => ¬ e.dueNs ≤ past) ++ added) := by
  have hsplit := List.insertionSort_eq_append
    (fun a b : Scheduled => comesBefore a.dueNs a.ordinal b.dueNs b.ordinal = true)
    (fun e => decide (e.dueNs ≤ past) && decide (e.ordinal < first))
    (l := (events ++ added).filter fun e => e.dueNs ≤ due) ?_
  · rw [dueBy, hsplit, dueBy, dueBy]
    congr 2
    · rw [List.filter_filter, List.filter_append]
      have hnone : added.filter (fun e => (decide (e.dueNs ≤ past) && decide (e.ordinal < first)) &&
          decide (e.dueNs ≤ due)) = [] := by
        rw [List.filter_eq_nil_iff]
        intro e he
        simp [Nat.not_lt.mpr (hdrawn.lower hnext e he)]
      rw [hnone, List.append_nil]
      refine List.filter_congr fun e he => ?_
      by_cases hpast : e.dueNs ≤ past
      · simp [hpast, hbelow e he, hpast.trans hle]
      · simp [hpast]
    · rw [List.filter_append, List.filter_append, List.filter_append]
      congr 1
      · rw [List.filter_filter, List.filter_filter]
        refine List.filter_congr fun e he => ?_
        by_cases hpast : e.dueNs ≤ past
        · simp [hpast, hbelow e he]
        · simp [hpast]
      · rw [List.filter_filter]
        refine List.filter_congr fun e he => ?_
        simp [Nat.not_lt.mpr (hdrawn.lower hnext e he)]
  · intro a ha b hb hpast hlate
    simp only [Bool.and_eq_true, decide_eq_true_eq] at hpast
    have hlater : a.dueNs < b.dueNs ∨ a.dueNs = b.dueNs ∧ a.ordinal < b.ordinal := by
      rcases List.mem_append.mp (List.mem_of_mem_filter hb) with hmem | hmem
      · left
        simp only [hbelow b hmem, decide_true, Bool.and_true, decide_eq_false_iff_not, not_le]
          at hlate
        exact hpast.1.trans_lt hlate
      · have hdue := hpast.1.trans (hdrawn.due b hmem)
        rcases lt_or_eq_of_le hdue with hlt | heq
        · exact .inl hlt
        · exact .inr ⟨heq, hpast.2.trans_le (hdrawn.lower hnext b hmem)⟩
    exact comesBefore_of_earlier hlater

namespace PaperExecution

variable {v w y z : PaperExecution} {apart : Set Nat}

/-- What delivering some events hands to the sink: each event beside the time it was due. -/
def handedOf (events : List Scheduled) (v : PaperExecution) : List (Nanos × ExecutionEvent) :=
  (events.map Scheduled.dueNs).zip
    ((deliverAll (events.map Scheduled.event) v).1.map ExecutionEvent.unstamped)

theorem length_deliverAll (events : List ExecutionEvent) (v : PaperExecution) :
    (deliverAll events v).1.length = events.length := by
  induction events generalizing v with
  | nil => rfl
  | cons event events ih => rw [deliverAll, List.length_cons, ih, List.length_cons]

theorem handedOf_append (earlier later : List Scheduled) (v : PaperExecution) :
    handedOf (earlier ++ later) v =
      handedOf earlier v ++
        handedOf later (deliverAll (earlier.map Scheduled.event) v).2 := by
  unfold handedOf
  rw [List.map_append, List.map_append, deliverAll_append]
  dsimp only
  rw [List.map_append, List.zip_append]
  rw [List.length_map, List.length_map, length_deliverAll, List.length_map]

theorem report_fst (events : List Scheduled) :
    (events.map Scheduled.report).map Prod.fst = events.map Scheduled.dueNs := by
  rw [List.map_map]
  rfl

theorem report_snd (events : List Scheduled) :
    (events.map Scheduled.report).map Prod.snd =
      (events.map Scheduled.event).map ExecutionEvent.unstamped := by
  rw [List.map_map, List.map_map]
  rfl

/-- The same events, of orders that agree. -/
theorem handedOf_agree {ids : Set ClientOrderId} {events events' : List Scheduled}
    (h : v.table.Agree ids w.table)
    (hreports : events.map Scheduled.report = events'.map Scheduled.report)
    (hids : ∀ e ∈ events, ∀ id, e.event.confirms = some id → id ∈ ids) :
    handedOf events v = handedOf events' w := by
  have hdue : events.map Scheduled.dueNs = events'.map Scheduled.dueNs := by
    rw [← report_fst, hreports, report_fst]
  have hevents : (events.map Scheduled.event).map ExecutionEvent.unstamped =
      (events'.map Scheduled.event).map ExecutionEvent.unstamped := by
    rw [← report_snd, hreports, report_snd]
  have hanswers := (deliverAll_agree h hevents (by
    intro event hevent id hconfirms
    obtain ⟨e, he, rfl⟩ := List.mem_map.mp hevent
    exact hids e he id hconfirms)).1
  rw [handedOf, handedOf, hdue, hanswers]

theorem handedOf_alike {events events' : List Scheduled} (h : Alike ∅ v w)
    (hreports : events.map Scheduled.report = events'.map Scheduled.report) :
    handedOf events v = handedOf events' w :=
  handedOf_agree (show v.table.Agree Set.univ w.table from h.agree) hreports
    fun _ _ _ _ => Set.mem_univ _

/-! ## A venue that is polled late -/

/-- A started venue without faults, polled last at the given time or not at all. -/
structure Ready (past : Nanos) (w : PaperExecution) : Prop where
  quiet : w.faults = {}
  orderly : w.Orderly
  started : w.started = true
  polled : past ≤ w.clock
  asked : ∀ pending ∈ w.inFlight, past ≤ pending.dueNs

/-- The venue has been polled, last at the given time, and it is as if it had processed all
those requests first, which leads to the state `y`, and then delivered whatever fell due. -/
structure Merged (y : PaperExecution) (past : Nanos) (w : PaperExecution)
    (out : List (Nanos × ExecutionEvent)) : Prop extends Ready past w where
  quiet' : y.faults = {}
  calm : y.Calm
  range : y.table.InRange
  ordered : y.pending.Pairwise fun a b => a.ordinal < b.ordinal
  drawn : ∀ e ∈ y.pending, e.ordinal < y.nextOrdinal
  fewer : y.nextOrdinal ≤ w.nextOrdinal
  alike : Alike ∅ (deliverAll ((dueBy past y.pending).map Scheduled.event) y).2 w
  queue : w.queue = y.queue.filter fun r => ¬ r.1 ≤ past
  out : out = handedOf (dueBy past y.pending) y

/-- What a poll hands to the sink: each event beside the time it was due. -/
def handed (op : Op) (v : PaperExecution) : List (Nanos × ExecutionEvent) :=
  match op with
  | .poll => ((delivered .poll v).map Scheduled.dueNs).zip (v.poll.1.map ExecutionEvent.unstamped)
  | _ => []

theorem handed_poll (hstarted : v.started = true) :
    handed .poll v = handedOf v.processArrived.dueEvents (v.processArrived.emptied v.clock) := by
  rw [handed, delivered, if_pos hstarted, poll_of_started hstarted]
  rfl

/-- Taking the due events off the queue changes nothing else when none is to be moved. -/
theorem emptied_of_quiet (hquiet : v.faults = {}) (now : Nanos) :
    v.emptied now =
      { v with
        pending := v.pending.filter fun scheduled => ¬ scheduled.dueNs ≤ now
        metrics := { v.metrics with reordersInjected := v.metrics.reordersInjected + 0 } } := by
  unfold emptied count
  simp [hquiet]

theorem queue_filter (now : Nanos) :
    (v.pending.filter fun scheduled => ¬ scheduled.dueNs ≤ now).map Scheduled.report =
      v.queue.filter fun r => ¬ r.1 ≤ now := by
  rw [queue, List.filter_map]
  rfl

theorem Alike.of_frame (h : Alike apart v w) {pending : List Scheduled}
    {inFlight : List PendingRequest} {metrics : PaperMetrics} :
    Alike apart v { w with pending := pending, inFlight := inFlight, metrics := metrics } where
  framed := by
    obtain ⟨_, _, _, _, _, _, _, rfl⟩ := h.framed
    exact ⟨_, _, _, _, _, _, _, rfl⟩
  orders := h.orders

/-- Venues that may differ in orders that some identities stand for agree, if they agree in
what these stand for. -/
theorem Alike.close {ids : Set ClientOrderId} (h : Alike apart v w)
    (hagree : v.table.Agree ids w.table)
    (hids : ∀ index ∈ apart, ∃ id ∈ ids, v.byClientId.lookup id = some index) : Alike ∅ v w where
  framed := h.framed
  orders :=
    { length := h.orders.length
      get := fun index _ => by
        by_cases happart : index ∈ apart
        · obtain ⟨id, hid, hindex⟩ := hids index happart
          exact hagree.order id hid index hindex
        · exact h.orders.get index happart }

variable {past : Nanos}

/-- What a poll delivers changes orders and counts, and no more. -/
theorem step_poll_frame (hstarted : w.started = true) :
    ∃ orders metrics, step .poll w =
      { w.processArrived.emptied w.clock with orders := orders, metrics := metrics } := by
  obtain ⟨orders, metrics, hdelivered⟩ := deliverAll_frame
    (w.processArrived.dueEvents.map Scheduled.event) (w.processArrived.emptied w.clock)
  refine ⟨orders, metrics, ?_⟩
  rw [← hdelivered, ← poll_of_started hstarted]
  rfl

theorem nextOrdinal_poll (hstarted : w.started = true) :
    (step .poll w).nextOrdinal = w.processArrived.nextOrdinal := by
  obtain ⟨orders, metrics, hstep⟩ := step_poll_frame hstarted
  rw [hstep]
  rfl

theorem queue_poll (hstarted : w.started = true) (hquiet : w.processArrived.faults = {}) :
    (step .poll w).queue = w.processArrived.queue.filter fun r => ¬ r.1 ≤ w.clock := by
  obtain ⟨orders, metrics, hstep⟩ := step_poll_frame hstarted
  have hpending : (step .poll w).pending =
      w.processArrived.pending.filter fun e => ¬ e.dueNs ≤ w.clock := by
    rw [hstep, emptied_of_quiet hquiet]
  rw [queue, hpending, queue_filter]

/-- The events that a poll finds waiting are numbered in order, those of the requests it
processes included. -/
theorem Ready.numbered (h : Ready past w) (hfits : Op.poll.Fits w) :
    (w.processArrived.pending.Pairwise fun a b => a.ordinal < b.ordinal) ∧
      ∃ events, w.processArrived.pending = w.pending ++ events ∧
        w.processArrived.nextOrdinal = w.nextOrdinal + events.length := by
  obtain ⟨least, hleast⟩ := exists_least w.inFlight
  obtain ⟨events, hevents, hcount, hdrawn⟩ :=
    (processArrived_schedules h.orderly.toCalm h.orderly.decided (hfits.2 h.started)
      hleast).appends
  refine ⟨?_, events, hevents, hcount⟩
  rw [hevents]
  exact (h.orderly.added (w := w.processArrived) hdrawn
    (nextOrdinal_poll h.started ▸ hfits.1)).1

/-- A poll leaves the venue without faults, and nothing that has arrived on its way. -/
theorem Ready.poll (h : Ready past w) (hfits : Op.poll.Fits w) :
    Ready w.clock (step .poll w) := by
  have hsetting := w.poll_setting h.started
  have hinFlight : (step .poll w).inFlight =
      w.inFlight.filter fun request => ¬ request.dueNs ≤ w.clock :=
    congrArg Setting.inFlight hsetting
  exact
    { quiet := poll_quiet h.quiet
      orderly := h.orderly.step trivial hfits
      started := (congrArg Setting.started hsetting).trans h.started
      polled := (congrArg Setting.clock hsetting).ge
      asked := by
        rw [hinFlight]
        intro pending hpending
        obtain ⟨-, hlate⟩ := List.mem_filter.mp hpending
        exact (not_le.mp (of_decide_eq_true hlate)).le }

namespace Merged

variable {out : List (Nanos × ExecutionEvent)}

/-- The requests that have come since the last poll, processed in the venue as it is and
as if they had come before everything that was delivered. Delivering that afterwards makes
up for the difference. -/
theorem arrivals (h : Merged y past w out) (huntroubled : Untroubled w.arrived y) :
    ∃ answers, (w.arrived.foldl processRequest y).pending = y.pending ++ answers ∧
      (w.arrived.foldl processRequest y).nextOrdinal = y.nextOrdinal + answers.length ∧
      EventsDrawn past y.nextOrdinal (w.arrived.foldl processRequest y).nextOrdinal answers ∧
      (w.arrived.foldl processRequest y).Calm ∧
      (w.arrived.foldl processRequest y).faults = {} ∧ w.processArrived.faults = {} ∧
      w.processArrived.queue = w.queue ++ answers.map Scheduled.report ∧
      y.table.Agree { id | ∃ e ∈ dueBy past y.pending, e.event.confirms = some id }
        (w.arrived.foldl processRequest y).table ∧
      Alike ∅ (deliverAll ((dueBy past y.pending).map Scheduled.event)
        (w.arrived.foldl processRequest y)).2 w.processArrived := by
  generalize hids : { id | ∃ e ∈ dueBy past y.pending, e.event.confirms = some id } = ids
  obtain ⟨apart, happart⟩ :
      ∃ apart, apart = { index | ∃ id ∈ ids, y.byClientId.lookup id = some index } := ⟨_, rfl⟩
  have hconfirms : ∀ event ∈ (dueBy past y.pending).map Scheduled.event, ∀ id,
      event.confirms = some id → id ∈ ids := by
    intro event hevent id hconfirms
    obtain ⟨e, he, rfl⟩ := List.mem_map.mp hevent
    rw [← hids]
    exact ⟨e, he, hconfirms⟩
  have harrived : ∀ pending ∈ w.arrived, past ≤ pending.dueNs :=
    fun pending hmem => h.asked pending (mem_arrived hmem).1
  have hdecided : ∀ pending ∈ w.arrived, 0 ≤ pending.decisionDelayNs :=
    fun pending hmem => h.orderly.decided pending (mem_arrived hmem).1
  -- Before the requests the two differ in the orders of what was delivered.
  have hdelivered : Alike apart y
      (deliverAll ((dueBy past y.pending).map Scheduled.event) y).2 :=
    deliverAll_apart (.refl y) fun event hevent id index hconfirmed hindex => by
      rw [happart]
      exact ⟨id, hconfirms event hevent id hconfirmed, hindex⟩
  have hpolled : Alike apart y w.polled := (hdelivered.trans h.alike.mono).of_frame
  have hmirrors : Mirrors apart y w.polled y w.polled := by
    refine .of_alike hpolled h.quiet' ?_
    show w.queue.length ≤ y.queue.length
    rw [h.queue]
    exact List.length_filter_le _ _
  obtain ⟨hafter, hagree, hagree'⟩ := huntroubled.mirrors h.calm h.range hdecided
    (fun e he => (mem_dueBy.mp he).1)
    (fun e he pending hmem => (mem_dueBy.mp he).2.trans (harrived pending hmem))
    hids.symm happart hmirrors (Table.agree_of_eq rfl rfl) h.alike.agree
  -- After them the requests have added the same to both queues.
  obtain ⟨-, added, hqueue, hqueue'⟩ := hafter.added huntroubled.kept
  have hschedules := huntroubled.schedules h.calm hdecided harrived
  obtain ⟨answers, hanswers, hcount, hdrawn⟩ := hschedules.appends
  obtain rfl : added = answers.map Scheduled.report := by
    rw [PaperExecution.queue, hanswers, List.map_append] at hqueue
    exact (List.append_cancel_left hqueue).symm
  refine ⟨answers, hanswers, hcount, hdrawn, h.calm.of_schedules hschedules, hafter.quiet, ?_,
    hqueue', hagree, ?_⟩
  · exact hafter.framed.quiet hafter.quiet
  · have hlater : Alike apart (w.arrived.foldl processRequest y)
        (deliverAll ((dueBy past y.pending).map Scheduled.event)
          (w.arrived.foldl processRequest y)).2 :=
      deliverAll_apart (.refl _) fun event hevent id index hconfirmed hindex => by
        rw [happart]
        have hid := hconfirms event hevent id hconfirmed
        exact ⟨id, hid, (hagree.lookup id hid).symm.trans hindex⟩
    have hdelivered' := (deliverAll_agree hagree rfl hconfirms).2
    refine (hlater.symm.trans hafter.toAlike).close (hdelivered'.symm.trans hagree') ?_
    rw [happart]
    rintro index ⟨id, hid, hindex⟩
    refine ⟨id, hid, ?_⟩
    have hlookup := hagree.lookup id hid
    have hsame := hlater.byClientId
    rw [hsame]
    exact hlookup.trans hindex

/-- Another poll is as if its requests had come before everything delivered so far. -/
theorem poll (h : Merged y past w out) (hfits : Op.poll.Fits w)
    (huntroubled : Untroubled w.arrived y) :
    Merged (w.arrived.foldl processRequest y) w.clock (step .poll w) (out ++ handed .poll w) := by
  obtain ⟨answers, hanswers, hcount, hdrawn, hcalm, hquiet', hquiet, hqueue, hagree, halike⟩ :=
    h.arrivals huntroubled
  have hclock := processArrived_clock h.orderly.toCalm h.orderly.decided (hfits.2 h.started)
  have hafter := nextOrdinal_poll h.started
  obtain ⟨hordered, events, hevents, hcount'⟩ := h.toReady.numbered hfits
  have hlength : events.length = answers.length := by
    have hqueues := congrArg List.length hqueue
    rw [PaperExecution.queue, hevents] at hqueues
    simpa [PaperExecution.queue] using hqueues
  have hfewer : (w.arrived.foldl processRequest y).nextOrdinal ≤
      w.processArrived.nextOrdinal := by
    rw [hcount, hcount', hlength]
    exact Nat.add_le_add_right h.fewer _
  have hroom : (w.arrived.foldl processRequest y).nextOrdinal ≤ 2 ^ 64 :=
    hfewer.trans (hafter ▸ hfits.1)
  have hordered' : (w.arrived.foldl processRequest y).pending.Pairwise fun a b =>
      a.ordinal < b.ordinal := by
    rw [hanswers]
    exact List.pairwise_append.mpr ⟨h.ordered, hdrawn.ordered hroom, fun a ha b hb =>
      (h.drawn a ha).trans_le (hdrawn.lower hroom b hb)⟩
  -- What is delivered now is what was not due at the last poll.
  have hsplit : dueBy w.clock (w.arrived.foldl processRequest y).pending =
      dueBy past y.pending ++
        dueBy w.clock ((y.pending.filter fun e => ¬ e.dueNs ≤ past) ++ answers) := by
    rw [hanswers]
    exact dueBy_append h.polled h.drawn hdrawn hroom
  have hnow : (dueBy w.clock ((y.pending.filter fun e => ¬ e.dueNs ≤ past) ++ answers)).map
      Scheduled.report = w.processArrived.dueEvents.map Scheduled.report := by
    have hlater : ((y.pending.filter fun e => ¬ e.dueNs ≤ past) ++ answers).Pairwise fun a b =>
        a.ordinal < b.ordinal := by
      rw [hanswers] at hordered'
      exact hordered'.sublist (List.filter_sublist.append (.refl _))
    have hdue : w.processArrived.dueEvents = dueBy w.clock w.processArrived.pending := by
      rw [dueEvents_eq (by rw [hquiet]), hclock]
      rfl
    rw [hdue, map_dueBy hlater, map_dueBy hordered, List.map_append, queue_filter, ← h.queue,
      ← hqueue]
    rfl
  have hmoved : Alike ∅ (deliverAll ((dueBy past y.pending).map Scheduled.event)
      (w.arrived.foldl processRequest y)).2 (w.processArrived.emptied w.clock) := by
    rw [emptied_of_quiet hquiet]
    exact halike.of_frame
  exact
    { h.toReady.poll hfits with
      quiet' := hquiet'
      calm := hcalm
      range := foldl_processRequest_inRange h.range w.arrived
      ordered := hordered'
      drawn := by
        rw [hanswers]
        exact List.forall_mem_append.mpr
          ⟨fun e he => (h.drawn e he).trans_le hdrawn.drawn, hdrawn.upper hroom⟩
      fewer := hafter ▸ hfewer
      alike := by
        rw [hsplit, List.map_append, deliverAll_append]
        dsimp only
        have hreports := congrArg (List.map Prod.snd) hnow
        rw [report_snd, report_snd] at hreports
        have hdone := deliverAll_alike hmoved hreports
        rwa [← poll_of_started h.started] at hdone
      queue := by
        have hbefore : (w.arrived.foldl processRequest y).queue =
            y.queue ++ answers.map Scheduled.report := by
          rw [PaperExecution.queue, hanswers, List.map_append]
          rfl
        rw [queue_poll h.started hquiet, hqueue, h.queue, hbefore, List.filter_append,
          List.filter_append, List.filter_filter]
        congr 1
        refine List.filter_congr fun r _ => ?_
        by_cases hlate : r.1 ≤ w.clock
        · simp [hlate]
        · simp [hlate, h.polled.trans_lt (not_le.mp hlate)]
      out := by
        rw [hsplit, handedOf_append, handed_poll h.started, ← handedOf_alike hmoved hnow, h.out]
        congr 1
        exact handedOf_agree hagree rfl fun e he id hconfirms => ⟨e, he, hconfirms⟩ }

end Merged

end PaperExecution

end MmEngine.Exchange.Paper
