/-
# One poll instead of many

Requests are made of a venue, time passes, and now and then the venue is polled. Which
requests are on their way does not depend on the polls, and neither does the order in which
they are processed. So a single poll at the end does what all of them do, unless a request
finds an order whose cancel should have been confirmed before it arrived, an answer finds no
room, or a call is not answered the same.
-/

import MmEngine.Exchange.Paper.PollTimes

namespace MmEngine.Exchange.Paper

namespace PaperExecution

variable {v w : PaperExecution}

/-- A call that makes a request, time that passes, or a poll. -/
def Op.Timed : Op → Prop
  | .submit _ => True
  | .cancel _ => True
  | .replace _ => True
  | .poll => True
  | .advance _ => True
  | _ => False

def Op.isPoll : Op → Bool
  | .poll => true
  | _ => false

/-- The time that passes. -/
def Op.elapsed : Op → Nat
  | .advance elapsed => elapsed
  | _ => 0

/-- The request that a call makes, and the latency its answer is to have. -/
def Op.asks (config : PaperExecutionConfig) : Op → Option (Request × Nanos)
  | .submit request => some (.submit request, config.latency.ackNs)
  | .cancel request => some (.cancel request, config.latency.cancelNs)
  | .replace request => some (.replace request, config.latency.replaceNs)
  | _ => none

/-- What a call that makes a request is answered. -/
def answered (op : Op) (v : PaperExecution) : Option Status :=
  match op with
  | .submit request => some (v.submit request).1
  | .cancel request => some (v.cancel request).1
  | .replace request => some (v.replace request).1
  | _ => none

/-- The request that a call puts on its way, if it is not refused. -/
def entered (op : Op) (v : PaperExecution) : List PendingRequest :=
  match op.asks v.config, answered op v with
  | some (request, delay), some .ok =>
      [{ dueNs := v.requestDueNs
         ordinal := v.ordinal
         request := request
         decisionDelayNs := delay }]
  | _, _ => []

theorem entered_of_ok {op : Op} {request : Request} {delay : Nanos}
    (hasks : op.asks v.config = some (request, delay)) (hok : answered op v = some .ok) :
    entered op v =
      [{ dueNs := v.requestDueNs
         ordinal := v.ordinal
         request := request
         decisionDelayNs := delay }] := by
  rw [entered, hasks, hok]

theorem entered_of_refused {op : Op} (hrefused : answered op v ≠ some .ok) :
    entered op v = [] := by
  unfold entered
  split
  · rename_i hok
    exact absurd hok hrefused
  · rfl

/-- A call that makes a request is refused and does nothing, or puts the request on its
way. -/
theorem asking_cases {op : Op} {request : Request} {delay : Nanos}
    (hasks : op.asks v.config = some (request, delay)) :
    (answered op v ≠ some .ok ∧ step op v = v) ∨
      answered op v = some .ok ∧ ∃ bump, step op v = (v.count bump).takeRequest request delay := by
  have hunconnected : v.requireConnected.isError = true → v.requireConnected ≠ .ok := by
    intro herror heq
    rw [heq] at herror
    cases herror
  cases op with
  | submit order =>
      cases hasks
      show (some (v.submit order).1 ≠ some .ok ∧ (v.submit order).2 = v) ∨
        some (v.submit order).1 = some .ok ∧ ∃ bump, (v.submit order).2 = _
      unfold submit
      split
      · rename_i herror
        exact .inl ⟨fun heq => hunconnected herror (Option.some.inj heq), rfl⟩
      · repeat' split
        all_goals first
          | exact .inl ⟨by simp, rfl⟩
          | exact .inr ⟨rfl, _, rfl⟩
  | cancel order =>
      cases hasks
      show (some (v.cancel order).1 ≠ some .ok ∧ (v.cancel order).2 = v) ∨
        some (v.cancel order).1 = some .ok ∧ ∃ bump, (v.cancel order).2 = _
      unfold cancel
      repeat' split
      all_goals first
        | exact .inl ⟨by simp, rfl⟩
        | exact .inr ⟨rfl, _, rfl⟩
  | replace order =>
      cases hasks
      show (some (v.replace order).1 ≠ some .ok ∧ (v.replace order).2 = v) ∨
        some (v.replace order).1 = some .ok ∧ ∃ bump, (v.replace order).2 = _
      unfold replace
      split
      · exact .inl ⟨by simp, rfl⟩
      split
      · rename_i herror
        exact .inl ⟨fun heq => hunconnected herror (Option.some.inj heq), rfl⟩
      · repeat' split
        all_goals first
          | exact .inl ⟨by simp, rfl⟩
          | exact .inr ⟨rfl, _, rfl⟩
  | _ => cases hasks

/-- A call without a poll lets time pass and puts the request it makes on its way. -/
theorem step_entry {op : Op} (htimed : op.Timed) (hpoll : op.isPoll = false)
    (hquiet : v.faults = {}) :
    ∃ wall metrics, step op v =
      { v with
        clock := v.clock + op.elapsed
        wall := wall
        inFlight := v.inFlight ++ entered op v
        nextOrdinal := v.nextOrdinal + (entered op v).length
        metrics := metrics } := by
  cases hasks : op.asks v.config with
  | none =>
      cases op with
      | advance elapsed =>
          refine ⟨v.wall + elapsed, v.metrics, ?_⟩
          have hentered : entered (.advance elapsed) v = [] := rfl
          rw [hentered, List.append_nil]
          rfl
      | poll => cases hpoll
      | submit _ => cases hasks
      | cancel _ => cases hasks
      | replace _ => cases hasks
      | _ => exact htimed.elim
  | some asked =>
      have helapsed : op.elapsed = 0 := by
        cases op with
        | advance elapsed => cases hasks
        | _ => rfl
      rw [helapsed, Nat.cast_zero, add_zero]
      rcases asking_cases hasks with ⟨hrefused, hsame⟩ | ⟨hok, bump, htaken⟩
      · rw [entered_of_refused hrefused, hsame, List.append_nil]
        exact ⟨_, _, rfl⟩
      · have hnone : (v.count bump).faults.dropNextRequest = 0 := by
          show v.faults.dropNextRequest = 0
          rw [hquiet]
        have hdue : (v.count bump).requestDueNs = v.requestDueNs := rfl
        have hordinal : (v.count bump).ordinal = v.ordinal := rfl
        rw [entered_of_ok hasks hok, htaken, takeRequest, if_pos hnone, enqueueRequest, hdue,
          hordinal]
        exact ⟨v.wall, bump v.metrics, by simp [count, hquiet]⟩

/-- What a call puts on its way, in 64 bits, arrives later and is numbered next. -/
theorem mem_entered {op : Op} {pending : PendingRequest} (htimed : op.Timed)
    (hpoll : op.isPoll = false) (hquiet : v.faults = {}) (hfits : op.Fits v)
    (h : pending ∈ entered op v) :
    pending.dueNs = v.clock + v.config.latency.requestNs ∧ pending.ordinal = v.nextOrdinal := by
  obtain ⟨wall, metrics, hstep⟩ := step_entry htimed hpoll hquiet
  have hpositive := List.length_pos_of_mem h
  have hcount : v.nextOrdinal + (entered op v).length ≤ 2 ^ 64 := by
    have hnext := hfits.1
    rwa [hstep] at hnext
  have hgrew : (step op v).inFlight.length ≠ v.inFlight.length := by
    rw [hstep, List.length_append]
    omega
  have hsum : v.RequestFits := by
    have htimes := hfits.2
    cases op with
    | submit request => exact htimes hgrew
    | cancel request => exact htimes hgrew
    | replace request => exact htimes hgrew
    | poll => cases hpoll
    | advance elapsed => exact absurd h List.not_mem_nil
    | _ => exact htimed.elim
  have hdue : v.requestDueNs = v.clock + v.config.latency.requestNs := by
    rw [requestDueNs, wrapNs_of_fits hsum, hquiet, add_zero]
  have hordinal : v.ordinal = v.nextOrdinal := Nat.mod_eq_of_lt (by omega)
  unfold entered at h
  split at h
  · rw [List.mem_singleton] at h
    rw [h]
    exact ⟨hdue, hordinal⟩
  · exact absurd h List.not_mem_nil

theorem Op.Timed.plain {op : Op} (h : op.Timed) : op.Plain := by
  cases op with
  | stop => exact h.elim
  | inject faults => exact h.elim
  | _ => trivial

variable {past : Nanos}

theorem Ready.entry (h : Ready past w) {op : Op} (htimed : op.Timed) (hpoll : op.isPoll = false)
    (hfits : op.Fits w) : Ready past (step op w) := by
  have horderly := h.orderly.step htimed.plain hfits
  obtain ⟨wall, metrics, hstep⟩ := step_entry htimed hpoll h.quiet
  rw [hstep] at horderly ⊢
  have hlater : w.clock ≤ w.clock + op.elapsed := le_add_of_nonneg_right (Int.natCast_nonneg _)
  exact
    { quiet := h.quiet
      orderly := horderly
      started := h.started
      polled := h.polled.trans hlater
      asked := by
        refine List.forall_mem_append.mpr ⟨h.asked, fun pending hmem => ?_⟩
        rw [(mem_entered htimed hpoll h.quiet hfits hmem).1]
        have hdue : w.clock ≤ w.clock + w.config.latency.requestNs :=
          le_add_of_nonneg_right h.orderly.latency.request
        exact h.polled.trans hdue }

namespace Merged

variable {y : PaperExecution} {out : List (Nanos × ExecutionEvent)}

theorem entry (h : Merged y past w out) {op : Op} (htimed : op.Timed)
    (hpoll : op.isPoll = false) (hfits : op.Fits w) : Merged y past (step op w) out := by
  have hready := h.toReady.entry htimed hpoll hfits
  obtain ⟨wall, metrics, hstep⟩ := step_entry htimed hpoll h.quiet
  rw [hstep] at hready ⊢
  exact
    { hready, h with
      fewer := h.fewer.trans (Nat.le_add_right _ _)
      alike :=
        { framed := by
            obtain ⟨_, _, _, _, _, _, _, hframed⟩ := h.alike.framed
            rw [hframed]
            exact ⟨_, _, _, _, _, _, _, rfl⟩
          orders := h.alike.orders } }

end Merged

/-- The requests that a call has the venue process. -/
def taken (op : Op) (v : PaperExecution) : List PendingRequest :=
  match op with
  | .poll => v.arrived
  | _ => []

theorem Op.isPoll_iff {op : Op} : op.isPoll = true ↔ op = .poll := by
  cases op with
  | poll => exact iff_of_true rfl rfl
  | _ => exact iff_of_false Bool.false_ne_true (by simp)

theorem taken_of_entry {op : Op} (hpoll : op.isPoll = false) (v : PaperExecution) :
    taken op v = [] := by
  cases op with
  | poll => cases hpoll
  | _ => rfl

theorem handed_of_entry {op : Op} (hpoll : op.isPoll = false) (v : PaperExecution) :
    handed op v = [] := by
  cases op with
  | poll => cases hpoll
  | _ => rfl

/-- A whole run is as if its requests had come before everything it delivered. -/
theorem Merged.run {y : PaperExecution} {out : List (Nanos × ExecutionEvent)} {ops : List Op}
    (h : Merged y past w out) (htimed : ∀ op ∈ ops, op.Timed)
    (hfits : Machine.Along step Op.Fits ops w)
    (huntroubled : Untroubled (Machine.outputs step taken ops w).flatten y) :
    ∃ past', Merged ((Machine.outputs step taken ops w).flatten.foldl processRequest y) past'
      (Machine.run step ops w) (out ++ (Machine.outputs step handed ops w).flatten) := by
  induction ops generalizing y past w out with
  | nil =>
      rw [Machine.outputs, Machine.outputs, List.flatten_nil, List.flatten_nil, List.append_nil]
      exact ⟨past, h⟩
  | cons op ops ih =>
      rw [List.forall_mem_cons] at htimed
      rw [Machine.outputs, List.flatten_cons] at huntroubled
      rw [Machine.outputs, Machine.outputs, List.flatten_cons, List.flatten_cons,
        List.foldl_append, ← List.append_assoc]
      cases hpoll : op.isPoll with
      | false =>
          rw [taken_of_entry hpoll, List.nil_append] at huntroubled
          rw [taken_of_entry hpoll, handed_of_entry hpoll, List.append_nil]
          exact ih (h.entry htimed.1 hpoll hfits.1) htimed.2 hfits.2 huntroubled
      | true =>
          obtain rfl := Op.isPoll_iff.mp hpoll
          obtain ⟨hnow, hlater⟩ := Machine.Along.append_iff.mp huntroubled
          exact ih (h.poll hfits.1 hnow) htimed.2 hfits.2 hlater

/-! ## The order in which requests are processed -/

/-- Requests in the order they are processed. -/
def inTurn (requests : List PendingRequest) : List PendingRequest :=
  requests.insertionSort fun a b => comesBefore a.dueNs a.ordinal b.dueNs b.ordinal = true

theorem map_inTurn {requests : List PendingRequest}
    (hordered : requests.Pairwise fun a b => a.ordinal < b.ordinal) :
    (inTurn requests).map PendingRequest.flight =
      (requests.map PendingRequest.flight).insertionSort fun a b => a.1 ≤ b.1 :=
  List.map_insertionSort_of_pairwise
    (fun a b : PendingRequest => comesBefore a.dueNs a.ordinal b.dueNs b.ordinal = true)
    (fun a b : Nanos × Request × Nanos => a.1 ≤ b.1) PendingRequest.flight
    (hordered.imp fun hlt => comesBefore_of_lt hlt _ _)

/-- The last poll found the request on its way, and arrived. -/
def foundBy (past : Nanos) (first : Nat) (pending : PendingRequest) : Bool :=
  pending.dueNs ≤ past && pending.ordinal < first

/-- Of all requests that were made, those that the last poll found have been processed, in
their turn, and the others are on their way. -/
structure Queued (all done : List PendingRequest) (past : Nanos) (first : Nat)
    (w : PaperExecution) : Prop extends Ready past w where
  count : first ≤ w.nextOrdinal
  inFlight : w.inFlight = all.filter fun pending => !foundBy past first pending
  done : done = inTurn (all.filter (foundBy past first))
  late : ∀ pending ∈ all, first ≤ pending.ordinal → past ≤ pending.dueNs
  ordered : all.Pairwise fun a b => a.ordinal < b.ordinal
  drawn : ∀ pending ∈ all, pending.ordinal < w.nextOrdinal

namespace Queued

variable {all done : List PendingRequest} {first : Nat}

theorem entry (h : Queued all done past first w) {op : Op} (htimed : op.Timed)
    (hpoll : op.isPoll = false) (hfits : op.Fits w) :
    Queued (all ++ entered op w) done past first (step op w) := by
  have hready := h.toReady.entry htimed hpoll hfits
  have hentered : ∀ pending ∈ entered op w, _ := fun pending hmem =>
    mem_entered htimed hpoll h.quiet hfits hmem
  obtain ⟨wall, metrics, hstep⟩ := step_entry htimed hpoll h.quiet
  have hnot : ∀ pending ∈ entered op w, foundBy past first pending = false := by
    intro pending hmem
    rw [foundBy, (hentered pending hmem).2, decide_eq_false (Nat.not_lt.mpr h.count),
      Bool.and_false]
  have hnone : (entered op w).filter (foundBy past first) = [] := by
    rw [List.filter_eq_nil_iff]
    exact fun pending hmem => Bool.eq_false_iff.mp (hnot pending hmem)
  have hall : (entered op w).filter (fun pending => !foundBy past first pending) = entered op w :=
    List.filter_eq_self.mpr fun pending hmem => by rw [hnot pending hmem, Bool.not_false]
  have hlength : (entered op w).Pairwise fun a b => a.ordinal < b.ordinal := by
    unfold entered
    split
    · exact List.pairwise_singleton _ _
    · exact .nil
  rw [hstep] at hready ⊢
  exact
    { hready with
      count := h.count.trans (Nat.le_add_right _ _)
      inFlight := by rw [List.filter_append, hall, h.inFlight]
      done := by rw [List.filter_append, hnone, List.append_nil, h.done]
      late := List.forall_mem_append.mpr ⟨h.late, fun pending hmem _ => by
        rw [(hentered pending hmem).1]
        exact h.polled.trans (le_add_of_nonneg_right h.orderly.latency.request)⟩
      ordered := List.pairwise_append.mpr ⟨h.ordered, hlength, fun a ha b hb =>
        (h.drawn a ha).trans_eq (hentered b hb).2.symm⟩
      drawn := List.forall_mem_append.mpr
        ⟨fun pending hmem => (h.drawn pending hmem).trans_le (Nat.le_add_right _ _),
          fun pending hmem => by
            rw [(hentered pending hmem).2]
            exact Nat.lt_add_of_pos_right (List.length_pos_of_mem hmem)⟩ }

theorem poll (h : Queued all done past first w) (hfits : Op.poll.Fits w) :
    Queued all (done ++ w.arrived) w.clock (step .poll w).nextOrdinal (step .poll w) := by
  have hready := h.toReady.poll hfits
  have hcount : w.nextOrdinal ≤ (step .poll w).nextOrdinal := by
    obtain ⟨least, hleast⟩ := exists_least w.inFlight
    exact ((step_poll_pumps h.orderly.toCalm h.orderly.decided (hfits.2 h.started)
      h.started).drawn least hleast).drawn
  have hdrawn : ∀ pending ∈ all, pending.ordinal < (step .poll w).nextOrdinal :=
    fun pending hmem => (h.drawn pending hmem).trans_le hcount
  have hfound : ∀ pending ∈ all,
      foundBy w.clock (step .poll w).nextOrdinal pending = decide (pending.dueNs ≤ w.clock) :=
    fun pending hmem => by rw [foundBy, decide_eq_true (hdrawn pending hmem), Bool.and_true]
  have hbefore : ∀ pending : PendingRequest, foundBy past first pending = true →
      pending.dueNs ≤ w.clock := by
    intro pending hfirst
    rw [foundBy, Bool.and_eq_true, decide_eq_true_iff] at hfirst
    exact hfirst.1.trans h.polled
  exact
    { hready with
      count := le_rfl
      inFlight := by
        have hinFlight : (step .poll w).inFlight =
            w.inFlight.filter fun request => ¬ request.dueNs ≤ w.clock :=
          congrArg Setting.inFlight (w.poll_setting h.started)
        rw [hinFlight, h.inFlight, List.filter_filter]
        refine List.filter_congr fun pending hmem => ?_
        rw [hfound pending hmem]
        by_cases harrived : pending.dueNs ≤ w.clock
        · simp [harrived]
        · simp [harrived, Bool.eq_false_iff.mpr (mt (hbefore pending) harrived)]
      done := by
        have hsplit := List.insertionSort_eq_append
          (fun a b : PendingRequest => comesBefore a.dueNs a.ordinal b.dueNs b.ordinal = true)
          (foundBy past first)
          (l := all.filter (foundBy w.clock (step .poll w).nextOrdinal)) ?_
        · rw [inTurn, hsplit, h.done, arrived, h.inFlight, inTurn, List.filter_filter,
            List.filter_filter, List.filter_filter]
          congr 2
          · refine List.filter_congr fun pending hmem => ?_
            rw [hfound pending hmem]
            cases hfirst : foundBy past first pending with
            | true => simp [hbefore pending hfirst]
            | false => rfl
          · refine List.filter_congr fun pending hmem => ?_
            rw [hfound pending hmem, Bool.and_comm]
        · intro a ha b hb hfirst hnot
          refine comesBefore_of_earlier ?_
          have hmem := List.mem_of_mem_filter hb
          rw [foundBy, Bool.and_eq_true, decide_eq_true_iff, decide_eq_true_iff] at hfirst
          rw [foundBy, Bool.and_eq_false_iff, decide_eq_false_iff_not, decide_eq_false_iff_not,
            not_le, not_lt] at hnot
          rcases hnot with hlate | hlater
          · exact .inl (hfirst.1.trans_lt hlate)
          · have hdue := hfirst.1.trans (h.late b hmem hlater)
            exact (lt_or_eq_of_le hdue).imp_right fun heq => ⟨heq, hfirst.2.trans_le hlater⟩
      late := fun pending hmem hlater => absurd (hdrawn pending hmem) (Nat.not_lt.mpr hlater)
      ordered := h.ordered
      drawn := hdrawn }

theorem run {ops : List Op} (h : Queued all done past first w) (htimed : ∀ op ∈ ops, op.Timed)
    (hfits : Machine.Along step Op.Fits ops w) :
    ∃ past' first', Queued (all ++ (Machine.outputs step entered ops w).flatten)
      (done ++ (Machine.outputs step taken ops w).flatten) past' first'
        (Machine.run step ops w) := by
  induction ops generalizing w past first all done with
  | nil =>
      rw [Machine.outputs, Machine.outputs, List.flatten_nil, List.append_nil, List.append_nil]
      exact ⟨past, first, h⟩
  | cons op ops ih =>
      rw [List.forall_mem_cons] at htimed
      rw [Machine.outputs, Machine.outputs, List.flatten_cons, List.flatten_cons,
        ← List.append_assoc, ← List.append_assoc]
      cases hpoll : op.isPoll with
      | false =>
          rw [taken_of_entry hpoll, List.append_nil]
          exact ih (h.entry htimed.1 hpoll hfits.1) htimed.2 hfits.2
      | true =>
          obtain rfl := Op.isPoll_iff.mp hpoll
          have hentered : entered .poll w = [] := rfl
          rw [hentered, List.append_nil]
          exact ih (h.poll hfits.1) htimed.2 hfits.2

end Queued

/-- Before the first poll nothing has been processed. -/
theorem Ready.queued (h : Ready past v)
    (hordered : v.inFlight.Pairwise fun a b => a.ordinal < b.ordinal) :
    Queued v.inFlight [] past 0 v := by
  have hnone : ∀ pending : PendingRequest, foundBy past 0 pending = false := fun pending => by
    rw [foundBy, decide_eq_false (Nat.not_lt_zero _), Bool.and_false]
  exact
    { h with
      count := Nat.zero_le _
      inFlight := (List.filter_eq_self.mpr fun pending _ => by rw [hnone, Bool.not_false]).symm
      done := by
        have hfound : v.inFlight.filter (foundBy past 0) = [] :=
          List.filter_eq_nil_iff.mpr fun pending _ => Bool.eq_false_iff.mp (hnone pending)
        rw [hfound]
        rfl
      late := fun pending hmem _ => h.asked pending hmem
      ordered := hordered
      drawn := h.orderly.asked }

/-- What a run has processed after a last poll: every request that has arrived, in order of
arrival. -/
theorem taken_flights {ops : List Op} (h : Ready past v)
    (hordered : v.inFlight.Pairwise fun a b => a.ordinal < b.ordinal)
    (htimed : ∀ op ∈ ops, op.Timed) (hfits : Machine.Along step Op.Fits (ops ++ [.poll]) v) :
    (Machine.outputs step taken (ops ++ [.poll]) v).flatten.map PendingRequest.flight =
      ((v.flights ++ (Machine.outputs step entered ops v).flatten.map
        PendingRequest.flight).filter fun r =>
          r.1 ≤ (Machine.run step ops v).clock).insertionSort fun a b => a.1 ≤ b.1 := by
  obtain ⟨hbefore, hfinal, -⟩ := Machine.Along.append_iff.mp hfits
  obtain ⟨past', first, hrun⟩ := (h.queued hordered).run htimed hbefore
  have hlast := hrun.poll hfinal
  have htaken : (Machine.outputs step taken (ops ++ [.poll]) v).flatten =
      (Machine.outputs step taken ops v).flatten ++ (Machine.run step ops v).arrived :=
    Machine.flatten_outputs_concat ops .poll v
  have hdone := hlast.done
  rw [List.nil_append] at hdone
  rw [htaken, hdone, map_inTurn (hlast.ordered.filter _), flights, ← List.map_append,
    List.filter_map]
  congr 2
  refine List.filter_congr fun pending hmem => ?_
  rw [foundBy, decide_eq_true (hlast.drawn pending hmem), Bool.and_true]
  rfl

/-! ## Requests that are let in the same -/

/-- Nothing is wrong with the request by itself. -/
def WellFormed (request : OrderRequest) : Prop :=
  request.clientOrderId.isEmpty = false ∧
    request.clientOrderId.chars.length ≤ kMaxClientOrderIdLen ∧
    (request.type = .limit ∨ request.type = .limitMaker) ∧
    request.price.isPositive = true ∧ request.quantity.isPositive = true

instance (request : OrderRequest) : Decidable (WellFormed request) :=
  inferInstanceAs (Decidable (_ ∧ _))

/-- The venue has room for another order, and knows none by the request's identity. -/
def Admits (v : PaperExecution) (request : OrderRequest) : Prop :=
  v.orders.length < v.config.maxOrders ∧ (v.findOrder request.clientOrderId).isSome = false

instance (v : PaperExecution) (request : OrderRequest) : Decidable (v.Admits request) :=
  inferInstanceAs (Decidable (_ ∧ _))

/-- A connected venue takes the requests that are well formed and that it admits. -/
theorem submit_ok_iff (hconnected : v.requireConnected = .ok) (request : OrderRequest) :
    (v.submit request).1 = .ok ↔ WellFormed request ∧ v.Admits request := by
  have herror : ¬v.requireConnected.isError = true := by
    rw [hconnected]
    exact Bool.false_ne_true
  unfold submit
  rw [if_neg herror]
  split
  · rename_i hfull
    exact iff_of_false (by simp) fun h => absurd h.2.1 (Nat.not_lt.mpr hfull)
  rename_i hroom
  split
  · rename_i hempty
    exact iff_of_false (by simp) fun h => absurd (hempty.symm.trans h.1.1) (by simp)
  rename_i hnamed
  split
  · rename_i hlong
    exact iff_of_false (by simp) fun h => absurd h.1.2.1 (Nat.not_le.mpr hlong)
  rename_i hshort
  split
  · rename_i hknown
    exact iff_of_false (by simp) fun h => absurd (hknown.symm.trans h.2.2) (by simp)
  rename_i hnew
  split
  · rename_i hother
    refine iff_of_false (by simp) fun h => ?_
    rw [Bool.and_eq_true, decide_eq_true_iff, decide_eq_true_iff] at hother
    exact h.1.2.2.1.elim hother.1 hother.2
  rename_i hlimit
  split
  · rename_i hnothing
    refine iff_of_false (by simp) fun h => ?_
    rw [h.1.2.2.2.1, h.1.2.2.2.2] at hnothing
    cases hnothing
  rename_i hpositive
  refine iff_of_true rfl ⟨⟨?_, Nat.not_lt.mp hshort, ?_, ?_, ?_⟩, Nat.not_le.mp hroom, ?_⟩
  · exact Bool.eq_false_of_not_eq_true hnamed
  · by_contra htype
    exact hlimit (by simpa [not_or] using htype)
  · by_contra hprice
    exact hpositive (by simp [hprice])
  · by_contra hquantity
    exact hpositive (by simp [hquantity])
  · exact Bool.eq_false_of_not_eq_true hnew

/-- The request is let in, if nothing else is wrong with it, exactly when the venue that the
run starts from would let it in. -/
def Op.AdmittedAs (start : PaperExecution) (op : Op) (v : PaperExecution) : Prop :=
  match op with
  | .submit request => WellFormed request → (v.Admits request ↔ start.Admits request)
  | _ => True

instance (start : PaperExecution) (op : Op) (v : PaperExecution) :
    Decidable (op.AdmittedAs start v) :=
  match op with
  | .submit _ => inferInstanceAs (Decidable (_ → _))
  | .start | .stop | .setConnection _ | .setAuthenticated _ | .inject _ | .cancel _ | .cancelAll _
  | .replace _ | .queryOpenOrders _ | .queryOrder _ _ | .attachBook _ _ | .onMarketUpdate _ _
  | .poll | .advance _ | .setWall _ => .isTrue trivial

/-- A venue that has been polled and one that has not, which still has the orders that it
started with. -/
structure Beside (start v w : PaperExecution) : Prop where
  config : w.config = v.config
  clock : w.clock = v.clock
  started : w.started = v.started
  connection : w.connection = v.connection
  authenticated : w.authenticated = v.authenticated
  same : w.config = start.config ∧ w.orders = start.orders ∧ w.byClientId = start.byClientId

namespace Beside

variable {start : PaperExecution}

theorem refl (v : PaperExecution) : Beside v v v := ⟨rfl, rfl, rfl, rfl, rfl, rfl, rfl, rfl⟩

theorem poll (h : Beside start v w) (hstarted : v.started = true) :
    Beside start (step .poll v) w := by
  have hsetting := v.poll_setting hstarted
  exact
    { config := h.config.trans (congrArg Setting.config hsetting).symm
      clock := h.clock.trans (congrArg Setting.clock hsetting).symm
      started := h.started.trans (congrArg Setting.started hsetting).symm
      connection := h.connection.trans (congrArg Setting.connection hsetting).symm
      authenticated := h.authenticated.trans (congrArg Setting.authenticated hsetting).symm
      same := h.same }

theorem entry (h : Beside start v w) {op : Op} (htimed : op.Timed) (hpoll : op.isPoll = false)
    (hquiet : v.faults = {}) (hquiet' : w.faults = {}) :
    Beside start (step op v) (step op w) := by
  obtain ⟨wall, metrics, hstep⟩ := step_entry htimed hpoll hquiet
  obtain ⟨wall', metrics', hstep'⟩ := step_entry htimed hpoll hquiet'
  rw [hstep, hstep']
  exact
    { config := h.config
      clock := congrArg (· + _) h.clock
      started := h.started
      connection := h.connection
      authenticated := h.authenticated
      same := h.same }

theorem requireConnected (h : Beside start v w) : w.requireConnected = v.requireConnected := by
  unfold PaperExecution.requireConnected
  rw [h.started, h.connection, h.authenticated]

/-- A call is taken by both or by neither. -/
theorem answered (h : Beside start v w) {op : Op} (hadmitted : op.AdmittedAs start v) :
    answered op w = some .ok ↔ answered op v = some .ok := by
  have hconnected := h.requireConnected
  cases op with
  | submit request =>
      show some (w.submit request).1 = some .ok ↔ some (v.submit request).1 = some .ok
      rw [Option.some_inj, Option.some_inj]
      by_cases hok : v.requireConnected = .ok
      · have hadmits : w.Admits request ↔ start.Admits request := by
          obtain ⟨hconfig, horders, hids⟩ := h.same
          unfold Admits findOrder
          rw [hconfig, horders, hids]
        rw [submit_ok_iff hok, submit_ok_iff (hconnected.trans hok), hadmits]
        exact and_congr_right fun hformed => (hadmitted hformed).symm
      · have hrefused : ∀ u : PaperExecution, u.requireConnected ≠ .ok →
            (u.submit request).1 ≠ .ok := by
          intro u hu
          have herror : u.requireConnected.isError = true := by
            cases hstatus : u.requireConnected with
            | ok => exact absurd hstatus hu
            | error _ _ => rfl
          unfold submit
          rwa [if_pos herror]
        exact iff_of_false (hrefused w (hconnected ▸ hok)) (hrefused v hok)
  | cancel request =>
      show some (w.cancel request).1 = some .ok ↔ some (v.cancel request).1 = some .ok
      unfold cancel
      rw [h.started, h.connection]
      repeat' split
      all_goals rfl
  | replace request =>
      show some (w.replace request).1 = some .ok ↔ some (v.replace request).1 = some .ok
      unfold replace
      rw [h.config, hconnected]
      repeat' split
      all_goals rfl
  | _ => exact Iff.rfl

theorem flights (h : Beside start v w) {op : Op} (hquiet : v.faults = {}) (hquiet' : w.faults = {})
    (hadmitted : op.AdmittedAs start v) :
    (entered op w).map PendingRequest.flight = (entered op v).map PendingRequest.flight := by
  have hdue : w.requestDueNs = v.requestDueNs := by
    unfold requestDueNs
    rw [h.clock, h.config, hquiet, hquiet']
  by_cases hok : PaperExecution.answered op v = some .ok
  · have hok' := (h.answered hadmitted).mpr hok
    cases hasks : op.asks v.config with
    | none =>
        have hasks' : op.asks w.config = none := by rw [h.config, hasks]
        rw [entered, entered, hasks, hasks']
    | some asked =>
        have hasks' : op.asks w.config = some (asked.1, asked.2) := by rw [h.config, hasks]
        rw [entered_of_ok hasks hok, entered_of_ok hasks' hok', List.map_singleton,
          List.map_singleton, PendingRequest.flight, PendingRequest.flight, hdue]
  · rw [entered_of_refused hok, entered_of_refused (mt (h.answered hadmitted).mp hok)]

end Beside

/-- The calls of a run without its polls. -/
def withoutPolls (ops : List Op) : List Op := ops.filter fun op => !op.isPoll

/-- Calls that are let in the same with and without polls put the same on their way. -/
theorem flights_of_admitted {start : PaperExecution} {past' : Nanos} {ops : List Op}
    (h : Ready past v) (h' : Ready past' w) (htimed : ∀ op ∈ ops, op.Timed)
    (hfits : Machine.Along step Op.Fits ops v)
    (hfits' : Machine.Along step Op.Fits (withoutPolls ops) w) (hbeside : Beside start v w)
    (hadmitted : Machine.Along step (Op.AdmittedAs start) ops v) :
    (Machine.outputs step entered (withoutPolls ops) w).flatten.map PendingRequest.flight =
        (Machine.outputs step entered ops v).flatten.map PendingRequest.flight ∧
      (Machine.run step (withoutPolls ops) w).clock = (Machine.run step ops v).clock := by
  induction ops generalizing past past' v w with
  | nil => exact ⟨rfl, hbeside.clock⟩
  | cons op ops ih =>
      rw [List.forall_mem_cons] at htimed
      cases hpoll : op.isPoll with
      | true =>
          obtain rfl := Op.isPoll_iff.mp hpoll
          exact ih (h.poll hfits.1) h' htimed.2 hfits.2 hfits' (hbeside.poll h.started) hadmitted.2
      | false =>
          have hkept : withoutPolls (op :: ops) = op :: withoutPolls ops :=
            List.filter_cons_of_pos (by rw [hpoll, Bool.not_false])
          rw [hkept] at hfits' ⊢
          obtain ⟨hflights, hend⟩ := ih (h.entry htimed.1 hpoll hfits.1)
            (h'.entry htimed.1 hpoll hfits'.1) htimed.2 hfits.2 hfits'.2
            (hbeside.entry htimed.1 hpoll h.quiet h'.quiet) hadmitted.2
          refine ⟨?_, hend⟩
          rw [Machine.outputs, Machine.outputs, List.flatten_cons, List.flatten_cons,
            List.map_append, List.map_append, hflights,
            hbeside.flights h.quiet h'.quiet hadmitted.1]

end PaperExecution

end MmEngine.Exchange.Paper
