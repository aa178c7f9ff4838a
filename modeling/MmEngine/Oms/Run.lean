/-
# Runs of the order manager

The order manager as a labelled machine over a `World`. A label is one call of
its interface, or something that happens around it: time passes, the venue moves
on its own, the process restarts. Every operation is a primary phase, which
touches records that exist, followed by the release of whatever was deferred on
the order it resolved, which only appends.

The section on evolution states this once for all records. An invariant of
single records is then a case analysis over `Edited` and over the forms of a new
record, and never mentions a handler.
-/

import MmEngine.Oms.RecoveryEffects
import MmEngine.Lib.Machine

namespace MmEngine.Oms

open MmEngine.Exchange MmEngine.Quote MmEngine.Risk OmsState OrderManager

variable {σ : Type}

/-- One step of a run. -/
inductive Op (σ : Type)
  | submit (approved : ApprovedAction)
  | apply (event : ExecutionEvent)
  | onTimer
  | reconcile (snapshot : VenueSnapshot)
  | resolve (id : LogicalOrderId) (target : OrderState)
  | attachExecution
  /-- The steady clock advances. -/
  | advance (elapsed : Nat)
  /-- The venue changes on its own. -/
  | venue (change : σ → σ)
  | restart (config : OmsConfig)

/-- The world before anything has happened. -/
def World.init (config : OmsConfig) (clock : Nanos) (venue : σ) : World σ where
  oms := OrderManager.init config clock
  venue := venue

def attachExecution (s : OmsState) : OmsState := { s with attached := true }

def advanceClock (elapsed : Nat) (s : OmsState) : OmsState := { s with clock := s.clock + elapsed }

/-- A restart that is refused leaves what was persisted, to be tried again. -/
def restartWith (config : OmsConfig) (m : OrderManager) : OrderManager :=
  if (m.restart config).1.isError then m else (m.restart config).2

/-- An operation up to the release of deferrals, and the order it resolved. -/
def primary (port : IExchangeExecution σ) : Op σ → World σ → World σ × Option LogicalOrderId
  | .submit approved, w => ((submit port approved w).2, none)
  | .apply event, w => (w.adopt (w.oms.dispatch event), (w.oms.dispatch event).resolved)
  | .onTimer, w => (w.withOms OrderManager.onTimer, none)
  | .reconcile snapshot, w => (w.withOms fun m => (m.reconcile snapshot).2, none)
  | .resolve id target, w =>
      (w.adopt (w.oms.resolve id target).2, (w.oms.resolve id target).2.resolved)
  | .attachExecution, w => (w.withOms fun m => m.onState attachExecution, none)
  | .advance elapsed, w => (w.withOms fun m => m.onState (advanceClock elapsed), none)
  | .venue change, w => ({ w with venue := change w.venue }, none)
  | .restart config, w => (w.withOms (restartWith config), none)

/-- One operation of the order manager. -/
def step (port : IExchangeExecution σ) (op : Op σ) (w : World σ) : World σ :=
  (primary port op w).1.release port (primary port op w).2

/-- The world a run of operations reaches. -/
def World.reached (port : IExchangeExecution σ) (config : OmsConfig) (clock : Nanos) (venue : σ)
    (ops : List (Op σ)) : World σ :=
  Machine.run (step port) ops (World.init config clock venue)

theorem step_apply (port : IExchangeExecution σ) (event : ExecutionEvent) (w : World σ) :
    step port (.apply event) w = apply port event w := rfl

/-- Draining the queue is a run of events. -/
theorem processEvents_eq_run (port : IExchangeExecution σ) (w : World σ) :
    (processEvents port w).2 =
      Machine.run (step port) (w.oms.queue.map .apply)
          (w.withOms fun m => { m with queue := [] }) := by
  simp only [processEvents, Machine.run, List.foldl_map]
  rfl

section Release

variable (port : IExchangeExecution σ)

/-- An entry that does not wait on the resolved order stays; any other becomes a
New in the state without it. -/
theorem releaseEntry_outcome (resolved : LogicalOrderId) (w : World σ) (entry : Nat) :
    releaseEntry port resolved w entry = w ∨
      ∃ waiting observed, w.oms.deferred[entry]? = some (some waiting) ∧
        waiting.waitingOn = resolved ∧
        NewOutcome (w.oms.toOmsState.vacate entry) waiting.action
          (releaseEntry port resolved w entry).oms.toOmsState observed ∧
        (releaseEntry port resolved w entry).trace = w.trace ++ observed ++
          [.released entry resolved
            ((w.oms.findById resolved).map fun found => found.2.state)
            (decide (w.oms.orders.length <
              (releaseEntry port resolved w entry).oms.orders.length))] := by
  rw [releaseEntry]
  split
  · rename_i waiting hentry
    split
    · rename_i hwaiting
      obtain ⟨observed, htrace, houtcome⟩ := handleNew_outcome port waiting.action
        (w.withOms fun m => m.onState fun s => s.vacate entry)
      refine .inr ⟨waiting, observed, hentry, hwaiting, houtcome, ?_⟩
      simp only [World.observe, htrace]
      rfl
    · exact .inl rfl
  · exact .inl rfl

/-- What every released entry preserves, a release preserves. -/
theorem releaseDeferred_invariant {I : World σ → Prop} {resolved : LogicalOrderId}
    (hentry : ∀ w entry, I w → I (releaseEntry port resolved w entry)) {w : World σ} (hw : I w) :
    I (releaseDeferred port resolved w) := by
  rw [releaseDeferred]
  split
  · exact hw
  · exact Table.foldl_invariant hentry _ hw

theorem release_invariant {I : World σ → Prop} {resolved : Option LogicalOrderId}
    (hentry : ∀ id, resolved = some id → ∀ w entry, I w → I (releaseEntry port id w entry))
    {w : World σ} (hw : I w) : I (w.release port resolved) := by
  cases resolved with
  | none => exact hw
  | some id => exact releaseDeferred_invariant port (hentry id rfl) hw

/-- What emptying an entry and a New keep of the state, a release keeps. -/
theorem release_keeps {I : OmsState → Prop} (resolved : Option LogicalOrderId)
    (hvacate : ∀ s entry, I s → I (s.vacate entry))
    (hnew : ∀ s action after observed, I s → NewOutcome s action after observed → I after)
    {w : World σ} (hw : I w.oms.toOmsState) : I (w.release port resolved).oms.toOmsState := by
  refine release_invariant (I := fun w : World σ => I w.oms.toOmsState) port ?_ hw
  intro id _ w' entry hw'
  rcases releaseEntry_outcome port id w' entry with hsame | ⟨_, _, _, _, houtcome, _⟩
  · rw [hsame]
    exact hw'
  · exact hnew _ _ _ _ (hvacate _ entry hw') houtcome

end Release

/-- Everything the primary phase of an operation can do: the state it leaves, the
order it resolved, and what it observed. -/
inductive PrimaryOutcome (s : OmsState) :
    Op σ → OmsState → Option LogicalOrderId → List Observation → Prop
  | submit {approved : ApprovedAction} {after : OmsState} {observed : List Observation}
      (h : SubmitOutcome s approved after observed) :
      PrimaryOutcome s (.submit approved) after none observed
  | apply {event : ExecutionEvent} {after : OmsState} {answered resolved : Option LogicalOrderId}
      (h : EventOutcome s event after answered resolved) :
      PrimaryOutcome s (.apply event) after resolved (answered.map .answered).toList
  | onTimer :
      PrimaryOutcome s .onTimer
        (s.withOrders (s.orders.map (OrderRecord.swept s.config s.clock))) none []
  | reconcile {snapshot : VenueSnapshot} {orders : List OrderRecord}
      (h : Table.Evolves
        (fun i before after => before = after ∨
          snapshot.isComplete = true ∧ Omitted s snapshot i before after)
        (fun _ => False) s.orders orders) :
      PrimaryOutcome s (.reconcile snapshot) (s.withOrders orders) none []
  | resolve {id : LogicalOrderId} {target : OrderState} {after : OmsState}
      {resolved : Option LogicalOrderId} (h : ResolveOutcome s id target after resolved) :
      PrimaryOutcome s (.resolve id target) after resolved []
  | attachExecution : PrimaryOutcome s .attachExecution (attachExecution s) none []
  | advance {elapsed : Nat} :
      PrimaryOutcome s (.advance elapsed) (advanceClock elapsed s) none []
  | venue {change : σ → σ} : PrimaryOutcome s (.venue change) s none []
  | restartRefused {config : OmsConfig} : PrimaryOutcome s (.restart config) s none []
  | restarted {config : OmsConfig} (hroom : s.orders.length ≤ config.maxOrders) :
      PrimaryOutcome s (.restart config) (restarted s config) none []

theorem primary_outcome (port : IExchangeExecution σ) (op : Op σ) (w : World σ)
    (hnumbered : w.oms.toOmsState.Numbered) :
    ∃ observed, (primary port op w).1.trace = w.trace ++ observed ∧
      PrimaryOutcome w.oms.toOmsState op (primary port op w).1.oms.toOmsState
        (primary port op w).2 observed := by
  cases op with
  | submit approved =>
      obtain ⟨observed, htrace, houtcome⟩ := submit_outcome port approved w
      exact ⟨observed, htrace, .submit houtcome⟩
  | apply event => exact ⟨_, rfl, .apply (dispatch_outcome w.oms event)⟩
  | onTimer =>
      refine ⟨[], by simp [primary, World.withOms], ?_⟩
      simp only [primary, World.withOms, onTimer_toOmsState]
      exact .onTimer
  | reconcile snapshot =>
      obtain ⟨orders, hstate, hevolves⟩ := reconcile_evolves w.oms hnumbered snapshot
      refine ⟨[], by simp [primary, World.withOms], ?_⟩
      simp only [primary, World.withOms, hstate]
      exact .reconcile hevolves
  | resolve id target =>
      obtain ⟨houtcome, hanswered⟩ := resolve_outcome w.oms id target
      exact ⟨[], by simp [primary, World.adopt, hanswered], .resolve houtcome⟩
  | attachExecution => exact ⟨[], by simp [primary, World.withOms], .attachExecution⟩
  | advance elapsed => exact ⟨[], by simp [primary, World.withOms], .advance⟩
  | venue change => exact ⟨[], by simp [primary], .venue⟩
  | restart config =>
      refine ⟨[], by simp [primary, World.withOms], ?_⟩
      simp only [primary, World.withOms, restartWith]
      rcases restart_outcome w.oms config with ⟨hrefused, _⟩ | ⟨hok, hroom, hstate⟩
      · rw [if_pos hrefused]
        exact .restartRefused
      · rw [if_neg (by simp [hok, Status.isError]), hstate]
        exact .restarted hroom

/-! ## Numbering -/

theorem numbered_init (config : OmsConfig) (clock : Nanos) :
    (OrderManager.init config clock).toOmsState.Numbered where
  next := rfl
  logicalId i order horder := by simp [OrderManager.init] at horder
  lookup id i := by simp [OrderManager.init]

/-- Rewriting records in place keeps the numbering. -/
theorem OmsState.Numbered.rewrite {s : OmsState} (hs : s.Numbered) (s' : OmsState)
    (hnext : s'.nextLogicalId = s.nextLogicalId) (hindex : s'.byLogicalId = s.byLogicalId)
    (hlength : s'.orders.length = s.orders.length)
    (hrewrite : ∀ (i : Nat) (a b : OrderRecord), s.orders[i]? = some a → s'.orders[i]? = some b →
      b.logicalId = a.logicalId) : s'.Numbered where
  next := by rw [hnext, hlength, hs.next]
  logicalId i b hb := by
    have hlt : i < s.orders.length := hlength ▸ (List.getElem?_eq_some_iff.mp hb).1
    obtain ⟨a, ha⟩ : ∃ a, s.orders[i]? = some a := ⟨_, List.getElem?_eq_getElem hlt⟩
    rw [hrewrite i a b ha hb, hs.logicalId i a ha]
  lookup id i := by rw [hindex, hlength, hs.lookup]

theorem OmsState.Numbered.store {s base : OmsState} (hs : s.Numbered) {i : Nat}
    {order record : OrderRecord} (horder : s.orders[i]? = some order)
    (hsame : order.SameOrder record) (hnext : base.nextLogicalId = s.nextLogicalId)
    (hindex : base.byLogicalId = s.byLogicalId) (horders : base.orders = s.orders) :
    (base.store i record).Numbered := by
  refine hs.rewrite (base.store i record) hnext hindex ?_ ?_
  · simp [OmsState.store, horders]
  · intro j a b ha hb
    simp only [OmsState.store, horders] at hb
    by_cases hij : i = j
    · subst hij
      rw [horder] at ha
      cases ha
      rw [List.getElem?_set_self (List.getElem?_eq_some_iff.mp horder).1] at hb
      cases hb
      exact hsame.logicalId
    · rw [List.getElem?_set_ne hij, ha] at hb
      cases hb
      rfl

theorem OmsState.Numbered.withOrders {s : OmsState} (hs : s.Numbered) {orders : List OrderRecord}
    (h : Table.Evolves (fun _ before after => before.SameOrder after) (fun _ => False) s.orders
      orders) : (s.withOrders orders).Numbered := by
  refine hs.rewrite (s.withOrders orders) rfl rfl ?_ ?_
  · exact h.length_eq
  · intro i a b ha hb
    obtain ⟨b', hb', hsame⟩ := h.old i a ha
    have heq : b' = b := Option.some.inj (hb'.symm.trans hb)
    exact heq ▸ hsame.logicalId

theorem OmsState.NewRecord.sameOrder {s base : OmsState} {created record : OrderRecord}
    {observed : List Observation} (h : NewRecord s created record base observed) :
    created.SameOrder record := by
  have hsubmitted : created.SameOrder (created.submitted (s.nextRequestId + 1) s.clock) :=
    ⟨rfl, rfl, rfl, rfl, rfl⟩
  cases h with
  | unattached => rfl
  | accepted => exact hsubmitted.transition _ _
  | rejected => exact (hsubmitted.transition _ _).settled.transition _ _

/-- A new record is added to a state that differs in counters only. -/
theorem OmsState.NewRecord.base_eq {s base : OmsState} {created record : OrderRecord}
    {observed : List Observation} (h : NewRecord s created record base observed) :
    base = s ∨ base = s.nextRequest := by
  cases h with
  | unattached => exact .inl rfl
  | accepted => exact .inr rfl
  | rejected => exact .inr rfl

theorem OmsState.Numbered.addOrder {s : OmsState} (hs : s.Numbered) {record : OrderRecord}
    (hid : record.logicalId = s.nextLogicalId + 1) : (s.addOrder record).Numbered := by
  have hnumber : record.logicalId = s.orders.length + 1 := by rw [hid, hs.next]
  have hfresh : s.byLogicalId.lookup record.logicalId = none := by
    cases hlookup : s.byLogicalId.lookup record.logicalId with
    | none => rfl
    | some i =>
        obtain ⟨hold, hlt⟩ := (hs.lookup _ _).mp hlookup
        have hi : s.orders.length = i := Nat.succ_injective (hnumber.symm.trans hold)
        omega
  have hindex : (s.addOrder record).byLogicalId =
      s.byLogicalId.insert record.logicalId s.orders.length := by
    simp [OmsState.addOrder, IdMap.emplace, hfresh]
  refine ⟨by simp [OmsState.addOrder, hs.next], ?_, ?_⟩
  · intro i order horder
    by_cases hi : i < s.orders.length
    · simp only [OmsState.addOrder, List.getElem?_append_left hi] at horder
      exact hs.logicalId i order horder
    · simp only [OmsState.addOrder, List.getElem?_append_right (Nat.le_of_not_lt hi)] at horder
      have hlast : i - s.orders.length = 0 := by
        have := (List.getElem?_eq_some_iff.mp horder).1
        simpa using this
      rw [hlast] at horder
      cases horder
      have hi : i = s.orders.length := by omega
      rw [hnumber, hi]
  · intro id i
    have hlength : (s.addOrder record).orders.length = s.orders.length + 1 := by
      simp [OmsState.addOrder]
    rw [hindex, hlength]
    by_cases heq : id = record.logicalId
    · subst heq
      rw [AList.lookup_insert, hnumber, Option.some.injEq, Nat.add_right_cancel_iff]
      constructor
      · rintro rfl
        exact ⟨rfl, Nat.lt_succ_self _⟩
      · exact fun h => h.1
    · rw [AList.lookup_insert_ne heq, hs.lookup]
      constructor
      · exact fun h => ⟨h.1, Nat.lt_succ_of_lt h.2⟩
      · rintro ⟨rfl, hlt⟩
        have hi : i ≠ s.orders.length := by
          rintro rfl
          exact heq hnumber.symm
        exact ⟨rfl, by omega⟩

theorem OmsState.NewOutcome.numbered {s after : OmsState} {action : OrderAction}
    {observed : List Observation} (h : NewOutcome s action after observed) (hs : s.Numbered) :
    after.Numbered := by
  cases h with
  | refused => exact hs
  | burned => exact ⟨hs.next, hs.logicalId, hs.lookup⟩
  | deferred => exact ⟨hs.next, hs.logicalId, hs.lookup⟩
  | created _ _ _ _ hrecord =>
      have hburned : s.burnClientId.Numbered := ⟨hs.next, hs.logicalId, hs.lookup⟩
      have hid := hrecord.sameOrder.logicalId
      rcases hrecord.base_eq with rfl | rfl
      · exact hburned.addOrder hid
      · have hrequested : s.burnClientId.nextRequest.Numbered :=
          ⟨hs.next, hs.logicalId, hs.lookup⟩
        exact hrequested.addOrder hid

theorem OmsState.RequestEdit.base_eq {s base : OmsState} {action : OrderAction}
    {order record : OrderRecord} {observed : List Observation}
    (h : RequestEdit s action order record base observed) :
    base = s ∨ base = s.nextRequest ∨ base = s.burnClientId.nextRequest := by
  cases h with
  | coalesced => exact .inl rfl
  | cancelSent | cancelReturned => exact .inr (.inl rfl)
  | replaceSent | replaceReturned => exact .inr (.inr rfl)

theorem OmsState.RequestEdit.type {s base : OmsState} {action : OrderAction}
    {order record : OrderRecord} {observed : List Observation}
    (h : RequestEdit s action order record base observed) :
    action.type = .cancel ∨ action.type = .replace := by
  cases h with
  | cancelSent htype | cancelReturned htype => exact .inl htype
  | coalesced htype | replaceSent htype | replaceReturned htype => exact .inr htype

theorem concluded_sameOrder (order : OrderRecord) (target : OrderState) (now : Nanos) :
    order.SameOrder (concluded order target now) := by
  rw [concluded]
  split <;> exact ⟨rfl, rfl, rfl, rfl, rfl⟩

theorem recovered_sameOrder (order : OrderRecord) : order.SameOrder (recovered order) := by
  rw [recovered]
  split <;> exact ⟨rfl, rfl, rfl, rfl, rfl⟩

theorem swept_sameOrder (config : OmsConfig) (now : Nanos) (order : OrderRecord) :
    order.SameOrder (order.swept config now) := by
  rw [OrderRecord.swept]
  split
  · exact (OrderRecord.SameOrder.refl order).settled.transition _ _
  · rfl

theorem omitted_sameOrder {s : OmsState} {snapshot : VenueSnapshot} {i : Nat}
    {before after : OrderRecord} (h : Omitted s snapshot i before after) :
    before.SameOrder after := by
  rcases h with rfl | ⟨_, _, rfl⟩
  · rfl
  · exact (OrderRecord.SameOrder.refl before).transition _ _

theorem OmsState.Numbered.restarted {s : OmsState} (hs : s.Numbered) (config : OmsConfig) :
    (restarted s config).Numbered := by
  have hlength : (OrderManager.restarted s config).orders.length = s.orders.length := by simp
  refine ⟨by rw [hlength]; exact hs.next, ?_, ?_⟩
  · intro i record hrecord
    rw [restarted_orders, List.getElem?_map] at hrecord
    obtain ⟨order, horder, rfl⟩ := Option.map_eq_some_iff.mp hrecord
    rw [(recovered_sameOrder order).logicalId, hs.logicalId i order horder]
  · intro id i
    rw [hlength]
    constructor
    · intro hlookup
      obtain ⟨hlt, hkey⟩ := Index.key_of_lookup_build hlookup
      obtain ⟨order, horder, hid⟩ := Option.bind_eq_some_iff.mp hkey
      have hnumber := hs.logicalId i order horder
      exact ⟨(Option.some.inj hid).symm.trans hnumber, hlt⟩
    · rintro ⟨rfl, hlt⟩
      obtain ⟨order, horder⟩ : ∃ order, s.orders[i]? = some order :=
        ⟨_, List.getElem?_eq_getElem hlt⟩
      apply Index.lookup_build hlt
      · rw [horder, Option.bind_some, logicalKey, hs.logicalId i order horder]
      · intro j hj
        obtain ⟨other, hother, hid⟩ := Option.bind_eq_some_iff.mp hj
        have hnumber := hs.logicalId j other hother
        exact Nat.succ_injective (hnumber.symm.trans (Option.some.inj hid))

theorem PrimaryOutcome.numbered {s after : OmsState} {op : Op σ}
    {resolved : Option LogicalOrderId} {observed : List Observation}
    (h : PrimaryOutcome s op after resolved observed) (hs : s.Numbered) : after.Numbered := by
  cases h with
  | submit h =>
      cases h with
      | refused => exact hs
      | burned => exact ⟨hs.next, hs.logicalId, hs.lookup⟩
      | new _ _ houtcome => exact houtcome.numbered hs
      | edited _ hfound _ hedit =>
          have horder := findTarget_getElem hfound
          rcases hedit.base_eq with rfl | rfl | rfl
          all_goals exact hs.store horder hedit.sameOrder rfl rfl rfl
  | apply h =>
      cases h with
      | discarded => exact hs
      | edited _ hfound _ hedit =>
          obtain ⟨_, _, rfl⟩ := hedit.base_eq
          exact hs.store (findSubject_getElem hfound) (hedit.sameOrder.1.transition _ _) rfl rfl rfl
  | onTimer => exact hs.withOrders (.map fun _ order _ => swept_sameOrder _ _ order)
  | reconcile h =>
      apply hs.withOrders
      refine h.mono ?_ (fun _ hfalse => hfalse)
      rintro _ before after _ (rfl | ⟨_, homitted⟩)
      · rfl
      · exact omitted_sameOrder homitted
  | resolve h =>
      cases h with
      | refused => exact hs
      | concluded hfound _ =>
          exact hs.store (findById_eq_some_iff.mp hfound).2 (concluded_sameOrder _ _ _) rfl rfl rfl
  | attachExecution => exact ⟨hs.next, hs.logicalId, hs.lookup⟩
  | advance => exact ⟨hs.next, hs.logicalId, hs.lookup⟩
  | venue => exact hs
  | restartRefused => exact hs
  | restarted => exact hs.restarted _

theorem step_numbered (port : IExchangeExecution σ) (op : Op σ) (w : World σ)
    (hw : w.oms.toOmsState.Numbered) : (step port op w).oms.toOmsState.Numbered := by
  obtain ⟨_, _, houtcome⟩ := primary_outcome port op w hw
  apply release_keeps port _ _ _ (houtcome.numbered hw)
  · exact fun _ _ hs => ⟨hs.next, hs.logicalId, hs.lookup⟩
  · exact fun _ _ _ _ hs hnew => hnew.numbered hs

/-- The records are numbered in every state of every run. -/
theorem run_numbered (port : IExchangeExecution σ) (config : OmsConfig) (clock : Nanos) (venue : σ)
    (ops : List (Op σ)) :
    (Machine.run (step port) ops (World.init config clock venue)).oms.toOmsState.Numbered :=
  Machine.invariant_run_always (I := fun w : World σ => w.oms.toOmsState.Numbered)
    (step_numbered port) ops (numbered_init config clock)

/-- Every deferred New satisfies `Q`. -/
def Held (Q : OrderAction → Prop) (s : OmsState) : Prop :=
  ∀ (entry : Nat) (waiting : DeferredNew), s.deferred[entry]? = some (some waiting) →
    Q waiting.action

/-- Every approved New the operation submits satisfies `Q`. -/
def Admits (Q : OrderAction → Prop) (op : Op σ) : Prop :=
  match op with
  | .submit approved =>
      approved.valid = true → approved.action.type = .new → Q approved.action
  | _ => True

theorem admits_true (op : Op σ) : Admits (fun _ => True) op := by
  cases op <;> simp [Admits]

instance (Q : OrderAction → Prop) [DecidablePred Q] : ∀ op : Op σ, Decidable (Admits Q op)
  | .submit approved =>
      inferInstanceAs (Decidable
        (approved.valid = true → approved.action.type = .new → Q approved.action))
  | .apply _ | .onTimer | .reconcile _ | .resolve _ _ | .attachExecution | .advance _ | .venue _
  | .restart _ => .isTrue trivial

theorem held_init (Q : OrderAction → Prop) (config : OmsConfig) (clock : Nanos) :
    Held Q (OrderManager.init config clock).toOmsState := by
  intro entry waiting hentry
  simp only [OrderManager.init, List.getElem?_replicate] at hentry
  split at hentry <;> cases hentry

theorem Held.vacate {Q : OrderAction → Prop} {s : OmsState} (hs : Held Q s) (entry : Nat) :
    Held Q (s.vacate entry) := by
  intro j waiting hj
  simp only [OmsState.vacate, List.getElem?_set] at hj
  split at hj
  · split at hj <;> cases hj
  · exact hs j waiting hj

/-- What a step does to the New orders that wait, up to the release. -/
inductive WaitingOutcome (s : OmsState) : Op σ → OmsState → Prop
  | kept {op : Op σ} {after : OmsState} (h : after.deferred = s.deferred) :
      WaitingOutcome s op after
  | new {approved : ApprovedAction} {after : OmsState} {observed : List Observation}
      (hvalid : approved.valid = true) (htype : approved.action.type = .new)
      (houtcome : NewOutcome s approved.action after observed) :
      WaitingOutcome s (.submit approved) after
  | restarted {config : OmsConfig} : WaitingOutcome s (.restart config) (restarted s config)

/-- Only a New and a restart reach the table of those that wait. -/
theorem PrimaryOutcome.waiting {s after : OmsState} {op : Op σ}
    {resolved : Option LogicalOrderId} {observed : List Observation}
    (h : PrimaryOutcome s op after resolved observed) : WaitingOutcome s op after := by
  cases h with
  | submit h =>
      cases h with
      | refused | burned => exact .kept rfl
      | new hvalid htype houtcome => exact .new hvalid htype houtcome
      | edited _ _ _ hedit => rcases hedit.base_eq with rfl | rfl | rfl <;> exact .kept rfl
  | apply h =>
      cases h with
      | discarded => exact .kept rfl
      | edited _ _ _ hedit =>
          obtain ⟨_, _, rfl⟩ := hedit.base_eq
          exact .kept rfl
  | resolve h => cases h <;> exact .kept rfl
  | onTimer | reconcile | attachExecution | advance | venue | restartRefused => exact .kept rfl
  | restarted => exact .restarted

theorem OmsState.NewOutcome.held {Q : OrderAction → Prop} {s after : OmsState}
    {action : OrderAction} {observed : List Observation} (h : NewOutcome s action after observed)
    (hs : Held Q s) (haction : Q action) : Held Q after := by
  cases h with
  | refused => exact hs
  | burned => exact hs
  | deferred =>
      intro j waiting hj
      simp only [OmsState.defer, List.getElem?_set] at hj
      split at hj
      · split at hj
        · cases hj
          exact haction
        · cases hj
      · exact hs j waiting hj
  | created _ _ _ _ hrecord => rcases hrecord.base_eq with rfl | rfl <;> exact hs

theorem PrimaryOutcome.held {Q : OrderAction → Prop} {s after : OmsState} {op : Op σ}
    {resolved : Option LogicalOrderId} {observed : List Observation}
    (h : PrimaryOutcome s op after resolved observed) (hs : Held Q s) (hop : Admits Q op) :
    Held Q after := by
  cases h.waiting with
  | kept hsame =>
      intro entry waiting hentry
      rw [hsame] at hentry
      exact hs entry waiting hentry
  | new hvalid htype houtcome => exact houtcome.held hs (hop hvalid htype)
  | restarted => exact held_init Q _ s.clock

/-- A record as a New leaves it at time `now`, for an action that satisfies `Q`. -/
inductive Born (Q : OrderAction → Prop) (now : Nanos) (record : OrderRecord) : Prop
  | mk {s base : OmsState} {action : OrderAction} {clientId : ClientOrderId}
      {observed : List Observation} (hclock : s.clock = now) (haction : Q action)
      (hrecord : NewRecord s (s.newOrder action clientId) record base observed)

/-- What an operation may make of the record at an index, other than leave it. -/
inductive Edited (s : OmsState) (i : Nat) (order : OrderRecord) : Op σ → OrderRecord → Prop
  | request {approved : ApprovedAction} {record : OrderRecord} {base : OmsState}
      {observed : List Observation} (hvalid : approved.valid = true)
      (hfound : s.findTarget approved.action (approved.action.type = .cancel) = some (i, order))
      (hterminal : order.isTerminal = false)
      (hedit : RequestEdit s approved.action order record base observed) :
      Edited s i order (.submit approved) record
  | event {event : ExecutionEvent} {edited : OrderRecord} {target : OrderState}
      {answers resolves : Bool} {base : OmsState}
      (hvalid : (validateExecutionEvent event).isError = false)
      (hfound : s.findSubject event = some (i, order)) (hterminal : order.isTerminal = false)
      (hedit : EventEdit s order event edited target answers resolves base) :
      Edited s i order (.apply event) (edited.transition target s.clock)
  | timedOut (hexpired : order.expired s.config s.clock = true) :
      Edited s i order .onTimer (order.settled.transition .unknown s.clock)
  | omitted {snapshot : VenueSnapshot} (hcomplete : snapshot.isComplete = true)
      (hmissing : s.missingAt snapshot i order = true)
      (htime : order.acknowledgedNs ≤ s.snapshotTime snapshot) :
      Edited s i order (.reconcile snapshot) (order.transition .unknown s.clock)
  | resolved {id : LogicalOrderId} {target : OrderState}
      (hfound : s.findById id = some (i, order))
      (hlegal : isLegalTransition order.state target = true) :
      Edited s i order (.resolve id target) (concluded order target s.clock)
  | restarted {config : OmsConfig} : Edited s i order (.restart config) (recovered order)

theorem Edited.sameOrder {s : OmsState} {i : Nat} {order record : OrderRecord} {op : Op σ}
    (h : Edited s i order op record) : order.SameOrder record := by
  cases h with
  | request _ _ _ hedit => exact hedit.sameOrder
  | event _ _ _ hedit => exact hedit.sameOrder.1.transition _ _
  | timedOut => exact (OrderRecord.SameOrder.refl order).settled.transition _ _
  | omitted => exact (OrderRecord.SameOrder.refl order).transition _ _
  | resolved => exact concluded_sameOrder _ _ _
  | restarted => exact recovered_sameOrder _

theorem OmsState.NewOutcome.evolves {Q : OrderAction → Prop} {s after : OmsState}
    {action : OrderAction} {observed : List Observation} (h : NewOutcome s action after observed)
    (haction : Q action) :
    Table.Evolves (fun _ a b => a = b) (Born Q s.clock) s.orders after.orders := by
  cases h with
  | refused => exact .refl (fun _ _ => rfl) _
  | burned => exact .refl (fun _ _ => rfl) _
  | deferred => exact .refl (fun _ _ => rfl) _
  | @created _ record _ _ _ _ _ _ hrecord =>
      have hborn : Born Q s.clock record := .mk (s := s.burnClientId) rfl haction hrecord
      rcases hrecord.base_eq with rfl | rfl <;> exact .concat (fun _ _ => rfl) hborn

/-- The primary phase rewrites records by `Edited` and appends new ones. -/
theorem PrimaryOutcome.evolves {Q : OrderAction → Prop} {s after : OmsState} {op : Op σ}
    {resolved : Option LogicalOrderId} {observed : List Observation}
    (h : PrimaryOutcome s op after resolved observed) (hop : Admits Q op) :
    Table.Evolves (fun i a b => a = b ∨ Edited s i a op b) (Born Q s.clock) s.orders
      after.orders := by
  have hrefl : ∀ (i : Nat) (a : OrderRecord), a = a ∨ Edited s i a op a := fun _ _ => .inl rfl
  cases h with
  | submit h =>
      cases h with
      | refused => exact .refl hrefl _
      | burned => exact .refl hrefl _
      | new hvalid htype houtcome =>
          exact (houtcome.evolves (hop hvalid htype)).mono (fun _ _ _ _ h => .inl h) (fun _ h => h)
      | edited hvalid hfound hterminal hedit =>
          have hedited := Edited.request (σ := σ) hvalid hfound hterminal hedit
          have horder := findTarget_getElem hfound
          rcases hedit.base_eq with rfl | rfl | rfl
          all_goals exact .set hrefl horder (.inr hedited)
  | apply h =>
      cases h with
      | discarded => exact .refl hrefl _
      | edited hvalid hfound hterminal hedit =>
          have hedited := Edited.event (σ := σ) hvalid hfound hterminal hedit
          obtain ⟨_, _, rfl⟩ := hedit.base_eq
          exact .set hrefl (findSubject_getElem hfound) (.inr hedited)
  | onTimer =>
      apply Table.Evolves.map
      intro i order _
      rw [OrderRecord.swept]
      split
      · exact .inr (.timedOut ‹_›)
      · exact .inl rfl
  | reconcile h =>
      refine h.mono ?_ (fun _ hfalse => hfalse.elim)
      rintro i before after _ (rfl | ⟨hcomplete, rfl | ⟨hmissing, htime, rfl⟩⟩)
      · exact .inl rfl
      · exact .inl rfl
      · exact .inr (.omitted hcomplete hmissing htime)
  | resolve h =>
      cases h with
      | refused => exact .refl hrefl _
      | concluded hfound hlegal =>
          exact .set hrefl (findById_eq_some_iff.mp hfound).2 (.inr (.resolved hfound hlegal))
  | attachExecution | advance | venue | restartRefused => exact .refl hrefl _
  | restarted =>
      rw [restarted_orders]
      exact .map fun _ _ _ => .inr .restarted

/-- The two ways a step comes to release what waits on an order: an event that reaches
it, and an operator's resolution. -/
inductive ReleaseCause (s : OmsState) : Op σ → OmsState → LogicalOrderId → Prop
  | event {event : ExecutionEvent} {i : Nat} {order edited : OrderRecord} {target : OrderState}
      {answers : Bool} {base : OmsState} (hvalid : (validateExecutionEvent event).isError = false)
      (hfound : s.findSubject event = some (i, order)) (hterminal : order.isTerminal = false)
      (hedit : EventEdit s order event edited target answers true base) :
      ReleaseCause s (.apply event) (base.store i (edited.transition target base.clock))
        order.logicalId
  | resolution {named : LogicalOrderId} {target : OrderState} {i : Nat} {order : OrderRecord}
      (hfound : s.findById named = some (i, order))
      (hlegal : isLegalTransition order.state target = true) :
      ReleaseCause s (.resolve named target) (s.store i (concluded order target s.clock))
        order.logicalId

theorem PrimaryOutcome.releaseCause {s after : OmsState} {op : Op σ} {id : LogicalOrderId}
    {observed : List Observation} (h : PrimaryOutcome s op after (some id) observed) :
    ReleaseCause s op after id := by
  generalize hresolved : some id = resolved at h
  cases h with
  | apply h =>
      cases h with
      | discarded => cases hresolved
      | @edited _ _ _ _ _ resolves _ hvalid hfound hterminal hedit =>
          cases resolves with
          | false => cases hresolved
          | true =>
              cases hresolved
              exact .event hvalid hfound hterminal hedit
  | resolve h =>
      cases h with
      | refused => cases hresolved
      | concluded hfound hlegal =>
          cases hresolved
          exact .resolution hfound hlegal
  | submit | onTimer | reconcile | attachExecution | advance | venue | restartRefused
  | restarted => cases hresolved

/-- The clock moves only when time passes. -/
theorem PrimaryOutcome.clock_eq {s after : OmsState} {op : Op σ}
    {id : LogicalOrderId} {observed : List Observation}
    (h : PrimaryOutcome s op after (some id) observed) : after.clock = s.clock := by
  cases h.releaseCause with
  | event _ _ _ hedit =>
      obtain ⟨_, _, rfl⟩ := hedit.base_eq
      rfl
  | resolution => rfl

/-- What a release starts from, and what it has done so far. -/
structure Releasing (Q : OrderAction → Prop) (start : OmsState) (w : World σ) : Prop where
  clock : w.oms.clock = start.clock
  held : Held Q w.oms.toOmsState
  evolves : Table.Evolves (fun _ a b => a = b) (Born Q start.clock) start.orders w.oms.orders

theorem OmsState.NewOutcome.clock_eq {s after : OmsState} {action : OrderAction}
    {observed : List Observation} (h : NewOutcome s action after observed) :
    after.clock = s.clock := by
  cases h with
  | refused | burned | deferred => rfl
  | created _ _ _ _ hrecord => rcases hrecord.base_eq with rfl | rfl <;> rfl

theorem Releasing.releaseEntry {Q : OrderAction → Prop} {start : OmsState} {w : World σ}
    (port : IExchangeExecution σ) (id : LogicalOrderId) (entry : Nat)
    (h : Releasing Q start w) : Releasing Q start (releaseEntry port id w entry) := by
  rcases releaseEntry_outcome port id w entry with hsame | ⟨waiting, _, hentry, _, hnew, _⟩
  · rw [hsame]
    exact h
  · have haction : Q waiting.action := h.held entry waiting hentry
    refine ⟨hnew.clock_eq.trans h.clock, hnew.held (h.held.vacate entry) haction, ?_⟩
    have hlater := hnew.evolves haction
    have hclock : (w.oms.toOmsState.vacate entry).clock = start.clock := h.clock
    rw [hclock] at hlater
    exact h.evolves.append_only hlater

/-- Releasing only appends. -/
theorem release_evolves {Q : OrderAction → Prop} (port : IExchangeExecution σ) (w : World σ)
    (resolved : Option LogicalOrderId) (hheld : Held Q w.oms.toOmsState) :
    Releasing Q w.oms.toOmsState (w.release port resolved) := by
  have hinit : Releasing Q w.oms.toOmsState w := ⟨rfl, hheld, .refl (fun _ _ => rfl) _⟩
  exact release_invariant port (fun id _ _ entry h => h.releaseEntry port id entry) hinit

/-- A release leaves the records of the primary phase as they are. -/
theorem step_getElem (port : IExchangeExecution σ) (op : Op σ) (w : World σ) {i : Nat}
    {record : OrderRecord} (hrecord : (primary port op w).1.oms.orders[i]? = some record) :
    (step port op w).oms.orders[i]? = some record := by
  have hreleased := release_evolves (Q := fun _ => True) port (primary port op w).1
    (primary port op w).2 (fun _ _ _ => trivial)
  obtain ⟨_, hafter, rfl⟩ := hreleased.evolves.old i record hrecord
  exact hafter

theorem step_held {Q : OrderAction → Prop} (port : IExchangeExecution σ) (op : Op σ) (w : World σ)
    (hnumbered : w.oms.toOmsState.Numbered) (hheld : Held Q w.oms.toOmsState)
    (hop : Admits Q op) : Held Q (step port op w).oms.toOmsState := by
  obtain ⟨_, _, houtcome⟩ := primary_outcome port op w hnumbered
  exact (release_evolves port _ _ (houtcome.held hheld hop)).held

/-- A step rewrites records by `Edited` and appends records just born. -/
theorem step_evolves {Q : OrderAction → Prop} (port : IExchangeExecution σ) (op : Op σ)
    (w : World σ) (hnumbered : w.oms.toOmsState.Numbered) (hheld : Held Q w.oms.toOmsState)
    (hop : Admits Q op) :
    Table.Evolves (fun i a b => a = b ∨ Edited w.oms.toOmsState i a op b) (Born Q w.oms.clock)
      w.oms.orders (step port op w).oms.orders := by
  obtain ⟨_, _, houtcome⟩ := primary_outcome port op w hnumbered
  have hprimary := houtcome.evolves hop
  rw [step]
  cases hresolved : (primary port op w).2 with
  | none => exact hprimary
  | some id =>
      have hreleased := release_evolves port (primary port op w).1 (some id)
        (houtcome.held hheld hop)
      rw [hresolved] at houtcome
      have hlater := hreleased.evolves
      rw [houtcome.clock_eq] at hlater
      exact hprimary.append_only hlater

theorem PrimaryOutcome.clock_le {s after : OmsState} {op : Op σ}
    {resolved : Option LogicalOrderId} {observed : List Observation}
    (h : PrimaryOutcome s op after resolved observed) : s.clock ≤ after.clock := by
  cases h with
  | submit h =>
      cases h with
      | refused | burned => exact le_rfl
      | new _ _ houtcome => exact le_of_eq houtcome.clock_eq.symm
      | edited _ _ _ hedit => rcases hedit.base_eq with rfl | rfl | rfl <;> exact le_rfl
  | apply h =>
      cases h with
      | discarded => exact le_rfl
      | edited _ _ _ hedit =>
          obtain ⟨_, _, rfl⟩ := hedit.base_eq
          exact le_rfl
  | resolve h => cases h <;> exact le_rfl
  | advance => exact Int.le_add_of_nonneg_right (Int.natCast_nonneg _)
  | onTimer | reconcile | attachExecution | venue | restartRefused | restarted => exact le_rfl

/-- The steady clock never goes back. -/
theorem step_clock_le (port : IExchangeExecution σ) (op : Op σ) (w : World σ)
    (hnumbered : w.oms.toOmsState.Numbered) : w.oms.clock ≤ (step port op w).oms.clock := by
  obtain ⟨_, _, houtcome⟩ := primary_outcome port op w hnumbered
  have hreleased := release_evolves (Q := fun _ => True) port (primary port op w).1
    (primary port op w).2 (fun _ _ _ => trivial)
  exact houtcome.clock_le.trans (le_of_eq hreleased.clock.symm)

/-- The records are numbered and every deferred New satisfies `Q`. -/
structure Tracked (Q : OrderAction → Prop) (w : World σ) : Prop where
  numbered : w.oms.toOmsState.Numbered
  held : Held Q w.oms.toOmsState

theorem tracked_init (Q : OrderAction → Prop) (config : OmsConfig) (clock : Nanos) (venue : σ) :
    Tracked Q (World.init config clock venue) :=
  ⟨numbered_init config clock, held_init Q config clock⟩

theorem Tracked.step {Q : OrderAction → Prop} {w : World σ} (hw : Tracked Q w)
    (port : IExchangeExecution σ) {op : Op σ} (hop : Admits Q op) :
    Tracked Q (step port op w) :=
  ⟨step_numbered port op w hw.numbered, step_held port op w hw.numbered hw.held hop⟩

/-! ## Concrete inputs

A venue that takes every request, and the actions and events the witnesses are
run on. The client identities of a run under the default configuration are
`-0-1`, `-0-2` and so on. -/

namespace Sample

def acceptAll : IExchangeExecution Unit where
  submit _ venue := (.ok, venue)
  cancel _ venue := (.ok, venue)
  replace _ venue := (.ok, venue)

/-- A scalar of the given raw value. -/
def amount {tag : FixedTag} (raw : Nat) : Fixed tag := (Fixed.fromRaw? raw).getD .zero

def clientId (sequence : Char) : ClientOrderId := ⟨['-', '0', '-', sequence], by simp⟩

def exchangeId (name : Char) : ExchangeOrderId := ⟨[name], by simp⟩

def tradeId (name : Char) : TradeId := ⟨[name], by simp⟩

def action (type : OrderActionType) (quantity : Nat) : OrderAction :=
  { type := type
    price := amount 100
    quantity := amount quantity
    identity := { name := ⟨['m', 'm'], by decide⟩ } }

def submitNew (quantity : Nat) : Op Unit :=
  .submit { action := action .new quantity, valid := true }

/-- A cancel of the order that occupies the slot. -/
def submitCancel : Op Unit := .submit { action := action .cancel 0, valid := true }

/-- A replace of the order that occupies the slot. -/
def submitReplace (quantity : Nat) : Op Unit :=
  .submit { action := action .replace quantity, valid := true }

def noError : ExchangeError := ⟨.none, .acknowledged, .none⟩

def rejection : ExchangeError := ⟨.exchangeRejection, .rejected, .unknown⟩

def ackEvent (sequence : Char) (exchangeOrderId : ExchangeOrderId) (status : OrderStatus)
    (seq : Seq) : OrderAckEvent where
  clientOrderId := clientId sequence
  exchangeOrderId := exchangeOrderId
  symbol := .empty
  side := .buy
  price := amount 100
  originalQty := amount 10
  cumulativeQty := .zero
  status := status
  transactNs := 0
  seq := seq

def ack (sequence : Char) (name : Char) : Op Unit :=
  .apply (.orderAck (ackEvent sequence (exchangeId name) .new 1))

def fillEvent (sequence trade : Char) (quantity : Nat) (seq : Seq) : FillEvent where
  clientOrderId := clientId sequence
  exchangeOrderId := .empty
  tradeId := tradeId trade
  symbol := .empty
  side := .buy
  price := amount 100
  quantity := amount quantity
  cumulativeQty := amount quantity
  leavesQty := .zero
  fee := .zero
  liquidity := .maker
  orderStatus := .partiallyFilled
  transactNs := 0
  seq := seq

def fill (sequence trade : Char) (quantity : Nat) : Op Unit :=
  .apply (.fill (fillEvent sequence trade quantity 2))

def cancelEvent (sequence : Char) (status : CancelStatus) : OrderCancelEvent where
  clientOrderId := clientId sequence
  exchangeOrderId := .empty
  symbol := .empty
  cancelStatus := status
  orderStatus := .unknown
  cumulativeQty := .zero
  leavesQty := .zero
  error := noError
  transactNs := 0
  seq := 3

def cancelAnswer (sequence : Char) (status : CancelStatus) : Op Unit :=
  .apply (.orderCancel (cancelEvent sequence status))

def replaceAccepted (sequence replacement : Char) (exchangeOrderId : ExchangeOrderId) : Op Unit :=
  .apply (.orderReplace
    { originalClientOrderId := clientId sequence
      newClientOrderId := clientId replacement
      originalExchangeOrderId := .empty
      newExchangeOrderId := exchangeOrderId
      symbol := .empty
      accepted := true
      newStatus := .new
      newPrice := amount 100
      newQty := amount 10
      cumulativeQty := .zero
      error := noError
      transactNs := 0
      seq := 3 })

def reject (sequence : Char) : Op Unit :=
  .apply (.orderReject
    { clientOrderId := clientId sequence
      symbol := .empty
      error := rejection
      transactNs := 0
      seq := 3 })

/-- A run from an empty order manager under the default configuration. -/
def after (ops : List (Op Unit)) : World Unit :=
  Machine.run (step acceptAll) ops (World.init {} 1 ())

end Sample

end MmEngine.Oms
