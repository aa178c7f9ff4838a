/-
# Deferred News

A New that finds its slot held by a pending cancel waits in the deferral table
until the order it waits on is resolved. It must not become an order before the
order it waits on has ended.

That is not what the code does. A release follows every handler that means to
end an order, whether or not the transition was legal, and every resolution, whatever
state it resolves to. This module says which steps keep it so.
-/

import MmEngine.Oms.Run

namespace MmEngine.Oms

open MmEngine.Exchange MmEngine.Quote MmEngine.Risk OmsState OrderManager

variable {σ : Type}

namespace Observation

def isRelease : Observation → Bool
  | .released _ _ _ _ => true
  | _ => false

/-- If a release created an order, the order it waited on had ended. -/
def withinBoundary : Observation → Bool
  | .released _ _ waitState created => !created || waitState.any OrderState.isTerminal
  | _ => true

end Observation

/-- Every New that a release turned into an order had waited until the end of the
order it waited on. -/
def BoundaryKept (trace : List Observation) : Prop :=
  ∀ observation ∈ trace, observation.withinBoundary = true

instance (trace : List Observation) : Decidable (BoundaryKept trace) :=
  inferInstanceAs (Decidable (∀ observation ∈ trace, observation.withinBoundary = true))

/-- True of a fill that completes the order: its trade is new, it can be booked,
and nothing is open afterwards. -/
def OrderRecord.completedBy (order : OrderRecord) (fill : FillEvent) : Bool :=
  (order.seenTrades.insert fill.tradeId).any fun seen =>
    match (order.withTrades seen).bookFill fill with
    | .ok booked => booked.remaining.isZero
    | .error _ => false

/-- The events that release what waits on an order they reach. -/
def OrderRecord.releasedBy (order : OrderRecord) : ExecutionEvent → Bool
  | .orderReject _ => true
  | .fill fill => order.completedBy fill
  | .orderCancel cancel => cancel.cancelStatus = .accepted || cancel.cancelStatus = .tooLate
  | .requestFailure failure => failure.error.outcome = .notSent
  | .none | .orderAck _ | .orderReplace _ | .other _ => false

/-- An event edit that releases is one of the events that do. -/
theorem OmsState.EventEdit.releasedBy {s base : OmsState} {order edited : OrderRecord}
    {event : ExecutionEvent} {target : OrderState} {answers : Bool}
    (h : EventEdit s order event edited target answers true base) :
    order.releasedBy event = true := by
  cases h with
  | reject => rfl
  | fillComplete _ hinsert hbook hremaining =>
      simp [OrderRecord.releasedBy, OrderRecord.completedBy, hinsert, hbook, hremaining]
  | cancelAccepted hstatus => simp [OrderRecord.releasedBy, hstatus]
  | cancelTooLate hstatus => simp [OrderRecord.releasedBy, hstatus]
  | failureNotSent houtcome => simp [OrderRecord.releasedBy, houtcome]

theorem OmsState.NewOutcome.no_release {s after : OmsState} {action : OrderAction}
    {observed : List Observation} (h : NewOutcome s action after observed) :
    ∀ observation ∈ observed, observation.isRelease = false := by
  cases h with
  | refused | burned | deferred => simp
  | created _ _ _ _ hrecord => cases hrecord <;> simp [Observation.isRelease]

/-- Only a release is observed as one. -/
theorem PrimaryOutcome.no_release {s after : OmsState} {op : Op σ}
    {resolved : Option LogicalOrderId} {observed : List Observation}
    (h : PrimaryOutcome s op after resolved observed) :
    ∀ observation ∈ observed, observation.isRelease = false := by
  cases h with
  | submit h =>
      cases h with
      | refused | burned => simp
      | new _ _ houtcome => exact houtcome.no_release
      | edited _ _ _ hedit => cases hedit <;> simp [Observation.isRelease]
  | @apply _ _ answered => cases answered <;> simp [Observation.isRelease]
  | onTimer | reconcile | resolve | attachExecution | advance | venue | restartRefused
  | restarted => simp

/-- A New takes a free entry, so a New that waits goes on waiting. -/
theorem OmsState.NewOutcome.deferred_eq {s after : OmsState} {action : OrderAction}
    {observed : List Observation} (h : NewOutcome s action after observed) {entry : Nat}
    {waiting : DeferredNew} (hwaiting : s.deferred[entry]? = some (some waiting)) :
    after.deferred[entry]? = some (some waiting) := by
  cases h with
  | refused | burned => exact hwaiting
  | @deferred _ free _ _ _ hfree =>
      have hne : free ≠ entry := by
        rintro rfl
        rw [hfree] at hwaiting
        cases hwaiting
      rwa [OmsState.defer, List.getElem?_set_ne hne]
  | created _ _ _ _ hrecord => rcases hrecord.base_eq with rfl | rfl <;> exact hwaiting

/-- Up to the release, only a restart clears the table. -/
theorem PrimaryOutcome.deferred_eq {s after : OmsState} {op : Op σ}
    {resolved : Option LogicalOrderId} {observed : List Observation}
    (h : PrimaryOutcome s op after resolved observed) (hop : ∀ config, op ≠ .restart config)
    {entry : Nat} {waiting : DeferredNew} (hwaiting : s.deferred[entry]? = some (some waiting)) :
    after.deferred[entry]? = some (some waiting) := by
  cases h.waiting with
  | kept hsame => rwa [hsame]
  | new _ _ houtcome => exact houtcome.deferred_eq hwaiting
  | restarted => exact absurd rfl (hop _)

/-! ## The cancel-then-new boundary -/

/-- The transition a releasing event attempts is legal, and so ends the order. -/
def OrderRecord.concludedBy (order : OrderRecord) : ExecutionEvent → Bool
  | .orderReject _ => isLegalTransition order.state .rejected
  | .fill _ => isLegalTransition order.state .filled
  | .orderCancel cancel =>
      match cancel.cancelStatus with
      | .accepted => isLegalTransition order.state .cancelled
      | .tooLate => isLegalTransition order.state .filled
      | .rejected | .orderNotFound | .unknown => true
  | .requestFailure failure =>
      failure.error.outcome ≠ .notSent || isLegalTransition order.state .rejected
  | .none | .orderAck _ | .orderReplace _ | .other _ => true

namespace OmsState

/-- A New waits on the order. -/
def waitedOn (s : OmsState) (id : LogicalOrderId) : Bool :=
  s.deferred.any fun entry => entry.any fun waiting => waiting.waitingOn = id

/-- Every New that waits on the order finds the order at `i` first in its slot. -/
def firstInSlot (s : OmsState) (i : Nat) (id : LogicalOrderId) : Bool :=
  s.deferred.all fun entry => entry.all fun waiting =>
    waiting.waitingOn ≠ id ||
      (s.findSlotOrder waiting.action.identity.name waiting.action.symbol
        waiting.action.slot).any fun found => found.1 = i

end OmsState

/-- The steps that keep the boundary. An order a New waits on is ended by what
releases the New, or it holds its slot against the New: still waiting for a
cancel or, after a resolution, with a request outstanding. -/
def keepsBoundary (s : OmsState) : Op σ → Bool
  | .apply event =>
      (validateExecutionEvent event).isError ||
        (s.findSubject event).all fun found =>
          found.2.isTerminal || !s.waitedOn found.2.logicalId || found.2.concludedBy event ||
            found.2.state = .pendingCancel && s.firstInSlot found.1 found.2.logicalId
  | .resolve id target =>
      (s.findById id).all fun found =>
        !isLegalTransition found.2.state target || !s.waitedOn found.2.logicalId ||
          target.isTerminal ||
            (target = .pendingCancel ||
              target.consumesExposure && found.2.hasPendingRequest) &&
                s.firstInSlot found.1 found.2.logicalId
  | _ => true

/-- Every New that waits on the order would be turned away by its slot. -/
def TurnsAway (s : OmsState) (id : LogicalOrderId) : Prop :=
  ∀ (entry : Nat) (waiting : DeferredNew), s.deferred[entry]? = some (some waiting) →
    waiting.waitingOn = id → ¬ s.SlotPassable waiting.action

/-- The first occupant of a slot stays first when it is rewritten and goes on
consuming exposure. -/
theorem findSlotOrder_store {s base : OmsState} {i : Nat} {order record : OrderRecord}
    {owner : StrategyName} {symbol : Symbol} {slot : QuoteSlot}
    (hbase : base.orders = s.orders)
    (hfound : s.findSlotOrder owner symbol slot = some (i, order)) (hsame : order.SameOrder record)
    (hconsumes : record.consumesExposure = true) :
    (base.store i record).findSlotOrder owner symbol slot = some (i, record) := by
  obtain ⟨horder, hoccupies, hbefore⟩ := findSlotOrder_eq_some_iff.mp hfound
  have hstore : (base.store i record).orders = s.orders.set i record := by
    rw [OmsState.store, hbase]
  rw [findSlotOrder_eq_some_iff, hstore]
  refine ⟨List.getElem?_set_self (List.getElem?_eq_some_iff.mp horder).1, ?_, ?_⟩
  · rw [hsame.occupies_eq, hconsumes]
    simp only [OrderRecord.occupies, Bool.and_eq_true] at hoccupies
    simp [hoccupies.1]
  · intro j other hj hother
    rw [List.getElem?_set_ne (Nat.ne_of_gt hj)] at hother
    exact hbefore j other hj hother

/-- An order that keeps its slot, waiting for a cancel or with a request
outstanding, turns away what waits on it. -/
theorem turnsAway_store {s base : OmsState} {i : Nat} {order record : OrderRecord}
    (hbase : base.orders = s.orders) (hdeferred : base.deferred = s.deferred)
    (horder : s.orders[i]? = some order) (hsame : order.SameOrder record)
    (hfirst : s.firstInSlot i order.logicalId = true) (hconsumes : record.consumesExposure = true)
    (hheld : record.state = .pendingCancel ∨ record.pendingRequest ≠ 0) :
    TurnsAway (base.store i record) order.logicalId := by
  intro entry waiting hentry hon hpassable
  have hmem : some waiting ∈ s.deferred := by
    rw [← hdeferred]
    exact List.mem_of_getElem? hentry
  have hslot := List.all_eq_true.mp hfirst _ hmem
  simp only [Option.all_some, hon, ne_eq, not_true_eq_false, decide_false, Bool.false_or,
    Option.any_eq_true, decide_eq_true_eq] at hslot
  obtain ⟨⟨j, occupant⟩, hfound, rfl⟩ := hslot
  have hoccupant := (findSlotOrder_eq_some_iff.mp hfound).1
  rw [horder] at hoccupant
  cases hoccupant
  obtain ⟨hcancel, hrequest⟩ := hpassable j record
    (findSlotOrder_store hbase hfound hsame hconsumes)
  rcases hheld with hstate | hpending
  · exact hcancel hstate
  · exact hpending hrequest

/-- A New adds at most itself to the table. -/
theorem OmsState.NewOutcome.deferred_cases {s after : OmsState} {action : OrderAction}
    {observed : List Observation} (h : NewOutcome s action after observed) {entry : Nat}
    {waiting : DeferredNew} (hentry : after.deferred[entry]? = some (some waiting)) :
    s.deferred[entry]? = some (some waiting) ∨ waiting.action = action := by
  cases h with
  | refused | burned => exact .inl hentry
  | deferred =>
      simp only [OmsState.defer, List.getElem?_set] at hentry
      split at hentry
      · split at hentry
        · cases hentry
          exact .inr rfl
        · cases hentry
      · exact .inl hentry
  | created _ _ _ _ hrecord => rcases hrecord.base_eq with rfl | rfl <;> exact .inl hentry

/-- A New that its slot turns away adds no record. -/
theorem OmsState.NewOutcome.orders_eq {s after : OmsState} {action : OrderAction}
    {observed : List Observation} (h : NewOutcome s action after observed)
    (hnot : ¬ s.SlotPassable action) : after.orders = s.orders := by
  cases h with
  | refused | burned | deferred => rfl
  | created _ hpassable => exact absurd hpassable hnot

/-- What waits after an entry is vacated waited before. -/
theorem OmsState.deferred_of_vacate {s : OmsState} {entry other : Nat} {waiting : DeferredNew}
    (h : (s.vacate entry).deferred[other]? = some (some waiting)) :
    s.deferred[other]? = some (some waiting) := by
  simp only [OmsState.vacate, List.getElem?_set] at h
  split at h
  · split at h <;> cases h
  · exact h

theorem boundaryKept_append {trace observed : List Observation} (htrace : BoundaryKept trace)
    (hobserved : ∀ observation ∈ observed, observation.isRelease = false) :
    BoundaryKept (trace ++ observed) := by
  intro observation hmem
  rcases List.mem_append.mp hmem with hold | hnew
  · exact htrace observation hold
  · have hnone := hobserved observation hnew
    cases observation with
    | released => cases hnone
    | sent | answered => rfl

theorem boundaryKept_concat {trace : List Observation} {last : Observation}
    (htrace : BoundaryKept trace) (hlast : last.withinBoundary = true) :
    BoundaryKept (trace ++ [last]) := by
  intro observation hmem
  rcases List.mem_append.mp hmem with hold | hnew
  · exact htrace observation hold
  · rw [List.mem_singleton.mp hnew]
    exact hlast

/-- During the release of what waits on an order that has ended. -/
structure ReleasingEnded (i : Nat) (record : OrderRecord) (w : World σ) : Prop where
  numbered : w.oms.toOmsState.Numbered
  found : w.oms.orders[i]? = some record
  kept : BoundaryKept w.trace

theorem ReleasingEnded.releaseEntry {i : Nat} {record : OrderRecord} {w : World σ}
    (h : ReleasingEnded i record w) (hended : record.isTerminal = true)
    (port : IExchangeExecution σ) (entry : Nat) :
    ReleasingEnded i record (releaseEntry port (i + 1) w entry) := by
  rcases releaseEntry_outcome port (i + 1) w entry with
    hsame | ⟨waiting, observed, _, _, hnew, htrace⟩
  · rw [hsame]
    exact h
  · have hvacated : (w.oms.toOmsState.vacate entry).Numbered :=
      ⟨h.numbered.next, h.numbered.logicalId, h.numbered.lookup⟩
    have hfound : w.oms.findById (i + 1) = some (i, record) :=
      h.numbered.findById_iff.mpr ⟨rfl, h.found⟩
    refine ⟨hnew.numbered hvacated, ?_, ?_⟩
    · obtain ⟨_, hrecord, rfl⟩ := (hnew.evolves (Q := fun _ => True) trivial).old i record h.found
      exact hrecord
    · rw [htrace]
      apply boundaryKept_concat (boundaryKept_append h.kept hnew.no_release)
      have hstate : record.state.isTerminal = true := hended
      simp [Observation.withinBoundary, hfound, hstate]

/-- During the release of what waits on an order that holds its slot. -/
structure ReleasingHeld (id : LogicalOrderId) (orders : List OrderRecord) (w : World σ) :
    Prop where
  orders_eq : w.oms.orders = orders
  turnsAway : TurnsAway w.oms.toOmsState id
  kept : BoundaryKept w.trace

theorem ReleasingHeld.releaseEntry {id : LogicalOrderId} {orders : List OrderRecord} {w : World σ}
    (h : ReleasingHeld id orders w) (port : IExchangeExecution σ) (entry : Nat) :
    ReleasingHeld id orders (releaseEntry port id w entry) := by
  rcases releaseEntry_outcome port id w entry with
    hsame | ⟨waiting, observed, hentry, hon, hnew, htrace⟩
  · rw [hsame]
    exact h
  · have hnot : ¬ (w.oms.toOmsState.vacate entry).SlotPassable waiting.action :=
      h.turnsAway entry waiting hentry hon
    have hkept : (Oms.releaseEntry port id w entry).oms.orders = w.oms.orders :=
      hnew.orders_eq hnot
    refine ⟨hkept.trans h.orders_eq, ?_, ?_⟩
    · -- Passing a slot is a matter of the records alone, and those are the same.
      have hslot : ∀ action : OrderAction,
          (Oms.releaseEntry port id w entry).oms.toOmsState.SlotPassable action →
            w.oms.toOmsState.SlotPassable action := by
        intro action hpassable
        simpa only [SlotPassable, findSlotOrder, entryAt, hkept] using hpassable
      intro other later hlater hlaterOn hpassable
      rcases hnew.deferred_cases hlater with hold | haction
      · exact h.turnsAway other later (deferred_of_vacate hold) hlaterOn (hslot _ hpassable)
      · rw [haction] at hpassable
        exact h.turnsAway entry waiting hentry hon (hslot _ hpassable)
    · rw [htrace]
      apply boundaryKept_concat (boundaryKept_append h.kept hnew.no_release)
      simp [Observation.withinBoundary, hkept]

/-- An event that releases either ends its order or leaves the state alone. -/
theorem OmsState.EventEdit.ends_or_stays {s base : OmsState} {order edited : OrderRecord}
    {event : ExecutionEvent} {target : OrderState} {answers : Bool}
    (h : EventEdit s order event edited target answers true base) (now : Nanos) :
    (order.concludedBy event = true → (edited.transition target now).isTerminal = true) ∧
      (order.concludedBy event = false → (edited.transition target now).state = order.state) := by
  have hstate : (edited.transition target now).state = landing order.state target := by
    rw [OrderRecord.transition_state, h.sameOrder.2]
  have hlegal : order.concludedBy event = isLegalTransition order.state target := by
    cases h with
    | reject | fillComplete => rfl
    | cancelAccepted hstatus | cancelTooLate hstatus =>
        simp only [OrderRecord.concludedBy, hstatus]
    | failureNotSent houtcome => simp [OrderRecord.concludedBy, houtcome]
  have hterminal : target.isTerminal = true := by cases h <;> rfl
  rw [hlegal]
  constructor
  · intro htrue
    rw [OrderRecord.isTerminal, hstate, landing, if_pos htrue]
    exact hterminal
  · intro hfalse
    rw [hstate, landing, if_neg (by simp [hfalse])]

theorem turnsAway_of_not_waitedOn {s after : OmsState} {id : LogicalOrderId}
    (hdeferred : after.deferred = s.deferred) (hnone : s.waitedOn id = false) :
    TurnsAway after id := by
  intro entry waiting hentry hon
  have hmem : some waiting ∈ s.deferred := by
    rw [← hdeferred]
    exact List.mem_of_getElem? hentry
  have hwaited : s.waitedOn id = true :=
    List.any_eq_true.mpr ⟨_, hmem, by simp [hon]⟩
  rw [hnone] at hwaited
  cases hwaited

theorem concluded_state (order : OrderRecord) (target : OrderState) (now : Nanos) :
    (concluded order target now).state = target := by
  unfold concluded
  split <;> rfl

/-- What a step that keeps the boundary has made of the order when the release
starts: it has ended, or it holds its slot. -/
theorem PrimaryOutcome.ended_or_turnsAway {s after : OmsState} {op : Op σ} {id : LogicalOrderId}
    {observed : List Observation} (h : PrimaryOutcome s op after (some id) observed)
    (hs : s.Numbered) (hkeeps : keepsBoundary s op = true) :
    (∃ (i : Nat) (record : OrderRecord),
        id = i + 1 ∧ after.orders[i]? = some record ∧ record.isTerminal = true) ∨
      TurnsAway after id := by
  cases h.releaseCause with
  | @event event i order edited target _ base hvalid hfound hterminal hedit =>
      have horder := findSubject_getElem hfound
      have hsame := hedit.sameOrder.1.transition target base.clock
      obtain ⟨hends, hstays⟩ := hedit.ends_or_stays base.clock
      obtain ⟨_, _, rfl⟩ := hedit.base_eq
      simp only [keepsBoundary, hvalid, hfound, hterminal, Option.all_some, Bool.false_or,
        Bool.or_eq_true, Bool.not_eq_true', Bool.and_eq_true, decide_eq_true_eq] at hkeeps
      by_cases hconcluded : order.concludedBy event = true
      · refine .inl ⟨i, _, hs.logicalId i order horder, ?_, hends hconcluded⟩
        exact List.getElem?_set_self (List.getElem?_eq_some_iff.mp horder).1
      · right
        rcases hkeeps with (hnone | hlegal) | ⟨hstate, hfirst⟩
        · exact turnsAway_of_not_waitedOn rfl hnone
        · exact absurd hlegal hconcluded
        · have hheld := (hstays (Bool.eq_false_iff.mpr hconcluded)).trans hstate
          refine turnsAway_store rfl rfl horder hsame hfirst ?_ (.inl hheld)
          rw [OrderRecord.consumesExposure, hheld]
          rfl
  | @resolution _ target i order hfound hlegal =>
      have horder := (findById_eq_some_iff.mp hfound).2
      have hset := List.getElem?_set_self (a := concluded order target s.clock)
        (List.getElem?_eq_some_iff.mp horder).1
      simp only [keepsBoundary, hfound, hlegal, Option.all_some, Bool.not_true, Bool.false_or,
        Bool.or_eq_true, Bool.not_eq_true', Bool.and_eq_true, decide_eq_true_eq] at hkeeps
      rcases hkeeps with (hnone | hterminal) | ⟨hheld, hfirst⟩
      · exact .inr (turnsAway_of_not_waitedOn rfl hnone)
      · refine .inl ⟨i, _, hs.logicalId i order horder, hset, ?_⟩
        rw [OrderRecord.isTerminal, concluded_state]
        exact hterminal
      · refine .inr (turnsAway_store rfl rfl horder (concluded_sameOrder _ _ _) hfirst ?_ ?_)
        · rw [OrderRecord.consumesExposure, concluded_state]
          rcases hheld with rfl | ⟨hconsumes, _⟩
          · rfl
          · exact hconsumes
        · rcases hheld with rfl | ⟨hconsumes, hrequest⟩
          · exact .inl (concluded_state _ _ _)
          · have hlive := OrderState.not_isTerminal_of_consumesExposure hconsumes
            have hpending : order.pendingRequest ≠ 0 := by
              simpa [OrderRecord.hasPendingRequest] using hrequest
            exact .inr (by simpa [concluded, hlive] using hpending)

/-- The records are numbered and the boundary has been kept. -/
structure BoundaryTracked (w : World σ) : Prop where
  numbered : w.oms.toOmsState.Numbered
  kept : BoundaryKept w.trace

theorem BoundaryTracked.step {w : World σ} (hw : BoundaryTracked w) (port : IExchangeExecution σ)
    {op : Op σ} (hkeeps : keepsBoundary w.oms.toOmsState op = true) :
    BoundaryTracked (step port op w) := by
  obtain ⟨observed, htrace, houtcome⟩ := primary_outcome port op w hw.numbered
  have hnumbered := houtcome.numbered hw.numbered
  have hkept : BoundaryKept (primary port op w).1.trace := by
    rw [htrace]
    exact boundaryKept_append hw.kept houtcome.no_release
  refine ⟨step_numbered port op w hw.numbered, ?_⟩
  unfold Oms.step
  cases hresolved : (primary port op w).2 with
  | none => exact hkept
  | some id =>
      rw [hresolved] at houtcome
      rcases houtcome.ended_or_turnsAway hw.numbered hkeeps with
        ⟨i, record, rfl, hrecord, hended⟩ | hturns
      · have hinit : ReleasingEnded i record (primary port op w).1 := ⟨hnumbered, hrecord, hkept⟩
        exact (releaseDeferred_invariant port
          (fun _ entry h => h.releaseEntry hended port entry) hinit).kept
      · have hinit : ReleasingHeld id (primary port op w).1.oms.orders (primary port op w).1 :=
          ⟨rfl, hturns, hkept⟩
        exact (releaseDeferred_invariant port
          (fun _ entry h => h.releaseEntry port entry) hinit).kept

/-- In every run whose steps keep the boundary, a deferred New becomes an order
only once the order it waited on has ended. -/
theorem boundary_kept_along (port : IExchangeExecution σ) (config : OmsConfig) (clock : Nanos)
    (venue : σ) (ops : List (Op σ))
    (hkeeps : Machine.Along (step port) (fun op w => keepsBoundary w.oms.toOmsState op = true) ops
      (World.init config clock venue)) :
    BoundaryKept (Machine.run (step port) ops (World.init config clock venue)).trace := by
  have hinit : BoundaryTracked (World.init config clock venue) :=
    ⟨numbered_init config clock, fun _ hmem => by cases hmem⟩
  have htracked : BoundaryTracked
      (Machine.run (step port) ops (World.init config clock venue)) :=
    Machine.invariant_run (fun _ _ hw hop => hw.step port hop) hinit hkeeps
  exact htracked.kept

/-- A rejection that meets the pending cancel sends the New back to the table. It
waits through a partial fill until the cancel is accepted. -/
theorem boundary_kept_along_replacement :
    BoundaryKept (Sample.after [.attachExecution, Sample.submitNew 10, Sample.ack '1' 'x',
      Sample.submitCancel, Sample.submitNew 10, Sample.reject '1', Sample.fill '1' 'a' 5,
      Sample.cancelAnswer '1' .accepted, Sample.reject '1']).trace :=
  boundary_kept_along Sample.acceptAll {} 1 () _ (by decide +kernel)

/-- The cancel times out and the order is resolved to be working, or a rejection
reaches the order after a partial fill has taken it out of its pending cancel.
The order works on in both runs; the New that waited on it is created. -/
theorem release_without_end_creates_new :
    ¬ BoundaryKept (Sample.after [.attachExecution, Sample.submitNew 10, Sample.ack '1' 'x',
        Sample.submitCancel, Sample.submitNew 10, .advance 6000000000, .onTimer,
        .resolve 1 .working]).trace ∧
      ¬ BoundaryKept (Sample.after [.attachExecution, Sample.submitNew 10, Sample.ack '1' 'x',
        Sample.submitCancel, Sample.submitNew 10, Sample.fill '1' 'a' 5,
        Sample.reject '1']).trace := by
  decide +kernel

end MmEngine.Oms
