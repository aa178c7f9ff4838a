/-
# What a run delivers, and when

Every event is scheduled by a call: a market update or a query, or a poll on behalf of
a request that has arrived. A poll delivers what is due by then. Along a run on one
clock the deliveries come in the order of their due times, and each event is delivered
by the first poll, from the call that caused it on, that does not come too soon for it.
-/

import MmEngine.Exchange.Paper.Waiting
import MmEngine.Lib.Passage

namespace MmEngine.Exchange.Paper

namespace PaperExecution

variable {v w : PaperExecution}

/-- The events that a call schedules, each beside the request that it answers, if it
answers one. An event that the queue has no room for is counted as dropped and is not
among them. -/
def scheduled (op : Op) (v : PaperExecution) : List (Option PendingRequest × Scheduled) :=
  match op with
  | .poll =>
      if v.started then
        (requestsScheduled v.arrived v.polled).map fun answer => (some answer.1, answer.2)
      else []
  | op => ((step op v).pending.drop v.pending.length).map fun e => (none, e)

/-- The requests that a call hands to the transport. -/
def enqueued (op : Op) (v : PaperExecution) : List PendingRequest :=
  match op with
  | .poll => []
  | op => (step op v).inFlight.drop v.inFlight.length

/-- The scheduled events that a call delivers. -/
def delivered (op : Op) (v : PaperExecution) : List Scheduled :=
  match op with
  | .poll => if v.started then v.processArrived.dueEvents else []
  | _ => []

/-- The scheduled events that a run delivers, in the order it delivers them. -/
def deliveries (ops : List Op) (v : PaperExecution) : List Scheduled :=
  (Machine.outputs step delivered ops v).flatten

/-- A plain call whose sums and numbers fit in 64 bits. -/
def Op.Regular (op : Op) (v : PaperExecution) : Prop := op.Plain ∧ op.Fits v

/-- Nothing on its way comes before the given stamp, and nothing to come will. -/
structure Beyond (due : Nanos) (ordinal : Nat) (v : PaperExecution) : Prop where
  clock : due ≤ v.clock
  count : ordinal ≤ v.nextOrdinal
  pending : ∀ e ∈ v.pending, toLex (due, ordinal) ≤ e.stamp
  inFlight : ∀ request ∈ v.inFlight, due ≤ request.dueNs

theorem le_stamp {due : Nanos} {ordinal : Nat} {e : Scheduled} (hdue : due ≤ e.dueNs)
    (hordinal : ordinal ≤ e.ordinal) : toLex (due, ordinal) ≤ e.stamp :=
  Prod.Lex.toLex_mono ⟨hdue, hordinal⟩

theorem stamp_lt {due : Nanos} {ordinal : Nat} {e : Scheduled} (hdue : e.dueNs ≤ due)
    (hordinal : e.ordinal < ordinal) : e.stamp < toLex (due, ordinal) :=
  Prod.Lex.toLex_strictMono (Prod.lt_iff.mpr (.inr ⟨hdue, hordinal⟩))

theorem Beyond.of_grows {due : Nanos} {ordinal : Nat} (h : Beyond due ordinal v)
    (hgrows : Grows v w) (hcount : w.nextOrdinal ≤ 2 ^ 64) : Beyond due ordinal w := by
  obtain ⟨events, hevents, hdrawn⟩ := hgrows.events
  obtain ⟨requests, hrequests, hasked, -⟩ := hgrows.requests
  exact
    { clock := h.clock.trans hgrows.clock
      count := h.count.trans hdrawn.drawn
      pending := by
        rw [hevents]
        exact List.forall_mem_append.mpr ⟨h.pending, fun e he =>
          le_stamp (h.clock.trans (hdrawn.due e he)) (h.count.trans (hdrawn.lower hcount e he))⟩
      inFlight := by
        rw [hrequests]
        exact List.forall_mem_append.mpr
          ⟨h.inFlight, fun r hr => h.clock.trans (hasked.due r hr)⟩ }

/-- What a poll finds in the queue, with the answers it adds, comes after the stamp. -/
theorem Beyond.found {due : Nanos} {ordinal : Nat} (h : Beyond due ordinal v)
    {answers : List (PendingRequest × Scheduled)} (hpumps : Pumps v w answers)
    (hcount : w.nextOrdinal ≤ 2 ^ 64) :
    ∀ e ∈ v.pending ++ answers.map Prod.snd, toLex (due, ordinal) ≤ e.stamp := by
  have hdrawn := hpumps.drawn due h.inFlight
  exact List.forall_mem_append.mpr ⟨h.pending, fun e he =>
    le_stamp (hdrawn.due e he) (h.count.trans (hdrawn.lower hcount e he))⟩

/-- After a poll nothing on its way is due. -/
theorem Pumps.beyond {answers : List (PendingRequest × Scheduled)} (h : Pumps v w answers) :
    Beyond v.clock w.nextOrdinal w where
  clock := h.clock.ge
  count := le_rfl
  pending := by
    rw [h.pending]
    intro e he
    have hlate : v.clock < e.dueNs := by simpa using (List.mem_filter.mp he).2
    exact Prod.Lex.toLex_le_toLex.mpr (.inl hlate)
  inFlight := by
    rw [h.inFlight]
    intro r hr
    have hlate : v.clock < r.dueNs := by simpa using (List.mem_filter.mp hr).2
    exact hlate.le

/-- What a poll of a started venue delivers: what it finds in the queue, with the answers
it adds, that is due. -/
theorem mem_delivered_poll (hfits : Op.poll.Fits v) (h : v.Orderly) (hstarted : v.started = true)
    {e : Scheduled} :
    e ∈ delivered .poll v ↔
      e ∈ v.pending ++ (requestsScheduled v.arrived v.polled).map Prod.snd ∧
        e.dueNs ≤ v.clock := by
  replace hfits := hfits.2 hstarted
  rw [delivered, if_pos hstarted,
    mem_dueEvents (processArrived_calm h.toCalm h.decided hfits).reorders,
    (processArrived_spec h.toCalm h.decided hfits).1, processArrived_clock h.toCalm h.decided hfits]

theorem delivered_of_ne_poll {op : Op} (hpoll : op ≠ .poll) (v : PaperExecution) :
    delivered op v = [] := by
  cases op with
  | poll => exact absurd rfl hpoll
  | _ => rfl

/-- Along a run everything is delivered in the order of the stamps, from any stamp that
nothing comes before. -/
theorem deliveries_pairwise {ops : List Op} (hops : Machine.Along step Op.Regular ops v)
    (h : v.Orderly) {due : Nanos} {ordinal : Nat} (hbeyond : Beyond due ordinal v) :
    (∀ e ∈ deliveries ops v, toLex (due, ordinal) ≤ e.stamp) ∧
      (deliveries ops v).Pairwise fun a b => a.stamp < b.stamp := by
  induction ops generalizing v due ordinal with
  | nil => exact ⟨by simp [deliveries, Machine.outputs], .nil⟩
  | cons op ops ih =>
      obtain ⟨⟨hplain, hfits⟩, hlater⟩ := hops
      have hsplit : deliveries (op :: ops) v = delivered op v ++ deliveries ops (step op v) := rfl
      have hnext := h.step hplain hfits
      rw [hsplit]
      rcases step_cases hplain hfits h with ⟨rfl, hstarted, hpumps⟩ | ⟨hpoll, hgrows⟩ |
        ⟨rfl, hstarted, hsame⟩
      · obtain ⟨hafterwards, hordered⟩ := ih hlater hnext hpumps.beyond
        have hbelow : ∀ e ∈ delivered .poll v, e.stamp < toLex (v.clock,
            (step .poll v).nextOrdinal) := by
          intro e he
          obtain ⟨hfound, hdue⟩ := (mem_delivered_poll hfits h hstarted).mp he
          obtain ⟨least, hleast⟩ := exists_least v.inFlight
          exact stamp_lt hdue ((h.added (hpumps.drawn least hleast) hfits.1).2 e hfound)
        have hafter : ∀ e ∈ delivered .poll v, toLex (due, ordinal) ≤ e.stamp := fun e he =>
          hbeyond.found hpumps hfits.1 e ((mem_delivered_poll hfits h hstarted).mp he).1
        have hcount : ordinal ≤ (step .poll v).nextOrdinal :=
          hbeyond.count.trans (hpumps.drawn due hbeyond.inFlight).drawn
        have hsorted : (delivered .poll v).Pairwise fun a b => a.stamp < b.stamp := by
          obtain ⟨least, hleast⟩ := exists_least v.inFlight
          rw [delivered, if_pos hstarted]
          have harrivals := hfits.2 hstarted
          apply pairwise_dueEvents (processArrived_calm h.toCalm h.decided harrivals).reorders
          rw [(processArrived_spec h.toCalm h.decided harrivals).1]
          exact (h.added (hpumps.drawn least hleast) hfits.1).1
        refine ⟨List.forall_mem_append.mpr ⟨hafter, fun e he => ?_⟩,
          List.pairwise_append.mpr ⟨hsorted, hordered, fun a ha b hb =>
            (hbelow a ha).trans_le (hafterwards b hb)⟩⟩
        exact (Prod.Lex.toLex_mono ⟨hbeyond.clock, hcount⟩).trans (hafterwards e he)
      · rw [delivered_of_ne_poll hpoll, List.nil_append]
        exact ih hlater hnext (hbeyond.of_grows hgrows hfits.1)
      · have hnone : delivered .poll v = [] := if_neg (by simp [hstarted])
        rw [hnone, List.nil_append]
        rw [hsame] at hlater hnext ⊢
        exact ih hlater hnext hbeyond

/-! ## The poll that delivers an event -/

theorem scheduled_of_ne_poll {op : Op} (hpoll : op ≠ .poll) (v : PaperExecution) :
    scheduled op v = ((step op v).pending.drop v.pending.length).map fun e => (none, e) := by
  cases op with
  | poll => exact absurd rfl hpoll
  | _ => rfl

theorem enqueued_of_ne_poll {op : Op} (hpoll : op ≠ .poll) (v : PaperExecution) :
    enqueued op v = (step op v).inFlight.drop v.inFlight.length := by
  cases op with
  | poll => exact absurd rfl hpoll
  | _ => rfl

theorem scheduled_poll (hstarted : v.started = true) {e : Scheduled} :
    (∃ cause, (cause, e) ∈ scheduled .poll v) ↔
      e ∈ (requestsScheduled v.arrived v.polled).map Prod.snd := by
  rw [scheduled, if_pos hstarted]
  simp

theorem scheduled_of_grows {op : Op} (hpoll : op ≠ .poll) {events : List Scheduled}
    (hevents : (step op v).pending = v.pending ++ events) {e : Scheduled} :
    (∃ cause, (cause, e) ∈ scheduled op v) ↔ e ∈ events := by
  rw [scheduled_of_ne_poll hpoll, hevents, List.drop_left]
  simp

/-- What answers a request is scheduled by a poll that the request has arrived by, and
falls due no sooner than the request arrived. -/
theorem answers_of_mem_scheduled {op : Op} (hop : op.Regular v) (h : v.Orderly)
    {request : PendingRequest} {e : Scheduled} (hmem : (some request, e) ∈ scheduled op v) :
    request ∈ v.inFlight ∧ request.dueNs ≤ e.dueNs := by
  rcases step_cases hop.1 hop.2 h with ⟨rfl, hstarted, hpumps⟩ | ⟨hpoll, -⟩ | ⟨rfl, hstarted, -⟩
  · rw [scheduled, if_pos hstarted] at hmem
    obtain ⟨answer, hanswer, heq⟩ := List.mem_map.mp hmem
    obtain ⟨rfl, rfl⟩ : answer.1 = request ∧ answer.2 = e := by simpa using heq
    obtain ⟨hinFlight, -, hdue⟩ := hpumps.answers answer hanswer
    exact ⟨hinFlight, hdue⟩
  · rw [scheduled_of_ne_poll hpoll] at hmem
    obtain ⟨event, -, heq⟩ := List.mem_map.mp hmem
    simp at heq
  · rw [scheduled, if_neg (by simp [hstarted])] at hmem
    exact absurd hmem List.not_mem_nil

/-- Events pass through the queue, and a poll takes off those that are due. -/
theorem events_pass : Machine.Passes step Op.Regular Orderly (fun v e => e ∈ v.pending)
    (fun op v e => ∃ cause, (cause, e) ∈ scheduled op v)
    (fun op v e => op = .poll ∧ e.dueNs ≤ v.clock) Scheduled.ordinal nextOrdinal where
  keeps op v hop h := h.step hop.1 hop.2
  held_step := by
    intro op v hop h e
    rcases step_cases hop.1 hop.2 h with ⟨rfl, hstarted, hpumps⟩ | ⟨hpoll, hgrows⟩ |
      ⟨rfl, hstarted, hsame⟩
    · rw [scheduled_poll hstarted, hpumps.pending, List.mem_filter, List.mem_append]
      simp
    · obtain ⟨events, hevents, -⟩ := hgrows.events
      rw [scheduled_of_grows hpoll hevents, hevents, List.mem_append]
      simp [hpoll]
    · rw [hsame, scheduled, if_neg (by simp [hstarted]), (h.asleep hstarted).2.1]
      simp
  stamp_enters := by
    intro op v hop h e hentered
    rcases step_cases hop.1 hop.2 h with ⟨rfl, hstarted, hpumps⟩ | ⟨hpoll, hgrows⟩ |
      ⟨rfl, hstarted, -⟩
    · rw [scheduled_poll hstarted] at hentered
      obtain ⟨least, hleast⟩ := exists_least v.inFlight
      have hdrawn := hpumps.drawn least hleast
      exact ⟨hdrawn.lower hop.2.1 e hentered, hdrawn.upper hop.2.1 e hentered⟩
    · obtain ⟨events, hevents, hdrawn⟩ := hgrows.events
      rw [scheduled_of_grows hpoll hevents] at hentered
      exact ⟨hdrawn.lower hop.2.1 e hentered, hdrawn.upper hop.2.1 e hentered⟩
    · obtain ⟨cause, hmem⟩ := hentered
      rw [scheduled, if_neg (by simp [hstarted])] at hmem
      exact absurd hmem List.not_mem_nil
  stamp_held v h e := h.drawn e
  count_le := by
    intro op v hop h
    rcases step_cases hop.1 hop.2 h with ⟨rfl, hstarted, hpumps⟩ | ⟨-, hgrows⟩ | ⟨-, -, hsame⟩
    · obtain ⟨least, hleast⟩ := exists_least v.inFlight
      exact (hpumps.drawn least hleast).drawn
    · obtain ⟨events, hevents, hdrawn⟩ := hgrows.events
      exact hdrawn.drawn
    · exact (congrArg nextOrdinal hsame).ge

/-- Requests pass through the transport, and a poll takes off those that have arrived. -/
theorem requests_pass :
    Machine.Passes step Op.Regular Orderly (fun v request => request ∈ v.inFlight)
    (fun op v request => request ∈ enqueued op v)
    (fun op v request => op = .poll ∧ request.dueNs ≤ v.clock) PendingRequest.ordinal
    nextOrdinal where
  keeps := events_pass.keeps
  held_step := by
    intro op v hop h request
    rcases step_cases hop.1 hop.2 h with ⟨rfl, -, hpumps⟩ | ⟨hpoll, hgrows⟩ |
      ⟨rfl, hstarted, hsame⟩
    · rw [hpumps.inFlight, List.mem_filter, enqueued]
      simp
    · obtain ⟨requests, hrequests, -⟩ := hgrows.requests
      rw [enqueued_of_ne_poll hpoll, hrequests, List.drop_left, List.mem_append]
      simp [hpoll]
    · rw [hsame, enqueued, (h.asleep hstarted).2.2]
      simp
  stamp_enters := by
    intro op v hop h request hentered
    rcases step_cases hop.1 hop.2 h with ⟨rfl, -, -⟩ | ⟨hpoll, hgrows⟩ | ⟨rfl, -, -⟩
    · exact absurd hentered List.not_mem_nil
    · obtain ⟨requests, hrequests, hasked, -⟩ := hgrows.requests
      rw [enqueued_of_ne_poll hpoll, hrequests, List.drop_left] at hentered
      exact ⟨hasked.lower hop.2.1 request hentered, hasked.upper hop.2.1 request hentered⟩
    · exact absurd hentered List.not_mem_nil
  stamp_held v h request := h.asked request
  count_le := events_pass.count_le

/-- What a call delivers is what it finds in the queue or schedules, when it is a poll
that does not come too soon. -/
theorem mem_delivered_iff {op : Op} (hop : op.Regular v) (h : v.Orderly) {e : Scheduled} :
    e ∈ delivered op v ↔ (e ∈ v.pending ∨ ∃ cause, (cause, e) ∈ scheduled op v) ∧
      op = .poll ∧ e.dueNs ≤ v.clock := by
  rcases step_cases hop.1 hop.2 h with ⟨rfl, hstarted, -⟩ | ⟨hpoll, -⟩ | ⟨rfl, hstarted, -⟩
  · rw [mem_delivered_poll hop.2 h hstarted, scheduled_poll hstarted, List.mem_append]
    simp
  · rw [delivered_of_ne_poll hpoll]
    simp [hpoll]
  · have hnone : delivered .poll v = [] := if_neg (by simp [hstarted])
    rw [hnone, scheduled, if_neg (by simp [hstarted]), (h.asleep hstarted).2.1]
    simp

/-- The sink is shown what the venue makes of each event as it is delivered. -/
def Shows (scheduled : Scheduled) (event : ExecutionEvent) : Prop :=
  ∃ w : PaperExecution, event = (w.deliver scheduled.event).1

theorem deliverAll_shows (due : List Scheduled) (v : PaperExecution) :
    List.Forall₂ Shows due (deliverAll (due.map Scheduled.event) v).1 := by
  induction due generalizing v with
  | nil => exact .nil
  | cons scheduled due ih => exact .cons ⟨v, rfl⟩ (ih _)

theorem poll_shows (v : PaperExecution) : List.Forall₂ Shows (delivered .poll v) v.poll.1 := by
  unfold delivered poll
  cases v.started with
  | false => exact .nil
  | true => exact deliverAll_shows _ _

/-- The call at a position of a run is what caused an event: the call that scheduled the
event, at `k`, or the one that made the request which the event answers. -/
def CausedAt (ops : List Op) (v : PaperExecution) (k : Nat) (cause : Option PendingRequest)
    (c : Nat) : Prop :=
  match cause with
  | none => c = k
  | some request =>
      ∃ op, ops[c]? = some op ∧ request ∈ enqueued op (Machine.stateAt step ops v c)

/-- A run delivers its events in order, and each of them once, at the first poll from its
cause on that does not come too soon for it. -/
structure Timely (ops : List Op) (v : PaperExecution) : Prop where
  ordered : (deliveries ops v).Pairwise fun a b => a.stamp < b.stamp
  caused : ∀ (k : Nat) (op : Op) (cause : Option PendingRequest) (e : Scheduled),
    ops[k]? = some op → (cause, e) ∈ scheduled op (Machine.stateAt step ops v k) →
      ∃ c ≤ k, CausedAt ops v k cause c
  delivered_iff : ∀ (k : Nat) (op : Op) (cause : Option PendingRequest) (e : Scheduled) (c : Nat),
    ops[k]? = some op → (cause, e) ∈ scheduled op (Machine.stateAt step ops v k) →
      CausedAt ops v k cause c → ∀ (j : Nat) (opj : Op), ops[j]? = some opj →
        (e ∈ delivered opj (Machine.stateAt step ops v j) ↔
          c ≤ j ∧ opj = .poll ∧ e.dueNs ≤ (Machine.stateAt step ops v j).clock ∧
            ∀ i, c ≤ i → i < j → ops[i]? = some .poll →
              (Machine.stateAt step ops v i).clock < e.dueNs)
  shown : ∀ k, ops[k]? = some .poll →
    List.Forall₂ Shows (delivered .poll (Machine.stateAt step ops v k))
      (Machine.stateAt step ops v k).poll.1

/-- The request that an event answers was made before, and no poll since has come as late
as the event. -/
theorem CausedAt.waits {ops : List Op} (hops : Machine.Along step Op.Regular ops v)
    (h : v.Orderly) {k : Nat}
    {op : Op} {cause : Option PendingRequest} {e : Scheduled} {c : Nat} (hop : ops[k]? = some op)
    (hmem : (cause, e) ∈ scheduled op (Machine.stateAt step ops v k))
    (hcaused : CausedAt ops v k cause c) :
    c ≤ k ∧ ∀ i, c ≤ i → i < k → ops[i]? = some .poll →
      (Machine.stateAt step ops v i).clock < e.dueNs := by
  cases cause with
  | none =>
      obtain rfl : c = k := hcaused
      exact ⟨le_rfl, fun i hci hik => absurd hci (not_le.mpr hik)⟩
  | some request =>
      obtain ⟨opc, hopc, henters⟩ := hcaused
      have hrun := Machine.invariant_stateAt events_pass.keeps hops h k
      obtain ⟨hheld, hdue⟩ :=
        answers_of_mem_scheduled (hops.at_getElem? hop) hrun hmem
      obtain ⟨hck, hwaits⟩ :=
        (requests_pass.present_iff hops h hopc henters hop).mp (.inl hheld)
      refine ⟨hck, fun i hci hik hpoll => ?_⟩
      have hlate := hwaits i .poll hci hik hpoll
      exact (not_le.mp fun hle => hlate ⟨rfl, hle⟩).trans_le hdue

theorem exists_causedAt {ops : List Op} (hops : Machine.Along step Op.Regular ops v)
    (h : v.Orderly)
    (hidle : v.inFlight = []) {k : Nat} {op : Op} {cause : Option PendingRequest} {e : Scheduled}
    (hop : ops[k]? = some op) (hmem : (cause, e) ∈ scheduled op (Machine.stateAt step ops v k)) :
    ∃ c ≤ k, CausedAt ops v k cause c := by
  cases cause with
  | none => exact ⟨k, le_rfl, rfl⟩
  | some request =>
      have hrun := Machine.invariant_stateAt events_pass.keeps hops h k
      obtain ⟨hheld, -⟩ := answers_of_mem_scheduled (hops.at_getElem? hop) hrun hmem
      obtain ⟨c, opc, hck, hopc, henters⟩ :=
        requests_pass.exists_enters hops h (by simp [hidle]) hheld
      exact ⟨c, hck.le, opc, hopc, henters⟩

/-- An event is delivered by the first poll from its cause on that is not too soon. -/
theorem delivered_iff_first {ops : List Op} (hops : Machine.Along step Op.Regular ops v)
    (h : v.Orderly)
    {k : Nat} {op : Op} {cause : Option PendingRequest} {e : Scheduled} {c : Nat}
    (hop : ops[k]? = some op) (hmem : (cause, e) ∈ scheduled op (Machine.stateAt step ops v k))
    (hcaused : CausedAt ops v k cause c) {j : Nat} {opj : Op} (hopj : ops[j]? = some opj) :
    e ∈ delivered opj (Machine.stateAt step ops v j) ↔
      c ≤ j ∧ opj = .poll ∧ e.dueNs ≤ (Machine.stateAt step ops v j).clock ∧
        ∀ i, c ≤ i → i < j → ops[i]? = some .poll →
          (Machine.stateAt step ops v i).clock < e.dueNs := by
  have hrun := Machine.invariant_stateAt events_pass.keeps hops h j
  obtain ⟨hck, hwaits⟩ := hcaused.waits hops h hop hmem
  rw [mem_delivered_iff (hops.at_getElem? hopj) hrun,
    events_pass.leaves_iff hops h hop ⟨cause, hmem⟩ hopj]
  constructor
  · rintro ⟨hkj, ⟨hpoll, hdue⟩, hfirst⟩
    refine ⟨hck.trans hkj, hpoll, hdue, fun i hci hij hpolli => ?_⟩
    rcases lt_or_ge i k with hik | hki
    · exact hwaits i hci hik hpolli
    · exact not_le.mp fun hle => hfirst i .poll hki hij hpolli ⟨rfl, hle⟩
  · rintro ⟨hcj, hpoll, hdue, hfirst⟩
    have hkj : k ≤ j := by
      by_contra hjk
      exact absurd (hwaits j hcj (not_le.mp hjk) (hpoll ▸ hopj)) (not_lt.mpr hdue)
    refine ⟨hkj, ⟨hpoll, hdue⟩, fun i opi hki hij hopi => ?_⟩
    rintro ⟨rfl, hdue'⟩
    exact absurd (hfirst i (hck.trans hki) hij hopi) (not_lt.mpr hdue')

/-- Along every run of plain calls, with no negative latency, each scheduled event is
delivered once, in order, by the first poll that may deliver it, as long as no time and no
number of the run outgrows 64 bits. -/
theorem timely {config : PaperExecutionConfig} (hlatency : config.latency.Nonneg) {clock : Nanos}
    (hclock : FitsNanos clock) (wall : Nanos) {ops : List Op} (hops : ∀ op ∈ ops, op.Plain)
    (hfits : Machine.Along step Op.Fits ops (init config clock wall)) :
    Timely ops (init config clock wall) := by
  have h := orderly_init hlatency hclock wall
  have hregular : Machine.Along step Op.Regular ops (init config clock wall) :=
    (Machine.along_label_iff.mpr hops).and hfits
  have hbeyond : Beyond clock 0 (init config clock wall) :=
    { clock := le_rfl
      count := Nat.zero_le _
      pending := by simp [init]
      inFlight := by simp [init] }
  exact
    { ordered := (deliveries_pairwise hregular h hbeyond).2
      caused := fun k op cause e hop hmem => exists_causedAt hregular h rfl hop hmem
      delivered_iff := fun k op cause e c hop hmem hcaused j opj hopj =>
        delivered_iff_first hregular h hop hmem hcaused hopj
      shown := fun k hop => poll_shows _ }

/-- Two orders, a market update and polls that come too soon, late and at once. -/
theorem timely_sample :
    Timely
      [.start, .submit (Sample.request 'a' .buy Sample.price Sample.three), .advance 600000, .poll,
        .attachBook Sample.symbol (Sample.offer Sample.four (by decide)),
        .submit (Sample.request 'b' .buy Sample.price Sample.three), .advance 1400000, .poll,
        .onMarketUpdate Sample.symbol 2000000, .queryOpenOrders Sample.symbol,
        .advance 10000000, .poll, .poll] (init {} 0 0) :=
  timely ⟨by decide, by decide, by decide, by decide, by decide, by decide⟩ (by decide) 0
    (by simp [Op.Plain]) (by decide +kernel)

/-- With a latency that takes the due time past the last 64-bit time, the acknowledgement is
due in the far past: it is delivered at once, after an event that was due later. -/
theorem not_timely_past_range :
    let latency : PaperLatency :=
      { requestNs := 0, ackNs := 2 ^ 63 - 1, cancelNs := 0, replaceNs := 0, fillNs := 0,
        queryNs := 0 }
    let ops : List Op :=
      [.start, .queryOpenOrders Sample.symbol, .poll,
        .submit (Sample.request 'a' .buy Sample.price Sample.three), .poll]
    latency.Nonneg ∧ (∀ op ∈ ops, op.Plain) ∧ ¬Timely ops (init { latency := latency } 1 0) := by
  intro latency ops
  refine ⟨⟨by decide, by decide, by decide, by decide, by decide, by decide⟩,
    by simp [ops, Op.Plain], fun htimely => ?_⟩
  have hordered := htimely.ordered
  revert hordered
  decide +kernel

end PaperExecution

end MmEngine.Exchange.Paper
