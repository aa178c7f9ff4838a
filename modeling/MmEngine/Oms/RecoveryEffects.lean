/-
# What timeouts, reconciliation and restart do to the state

The remaining inversion lemmas. The sweep and the restart rewrite every record
by a function of that record alone; reconciliation rewrites the records a
complete listing omits, which is where the numbering of records matters: it
names an order by its logical identity and must come back to the same record.
-/

import MmEngine.Oms.Effects
import MmEngine.Lib.Index

namespace MmEngine.Oms

open MmEngine.Exchange MmEngine.Quote

namespace OmsState

/-- The state with another table of records. -/
def withOrders (s : OmsState) (orders : List OrderRecord) : OmsState := { s with orders := orders }

/-- Records are numbered by position: the logical identity of the record at
index `i` is `i + 1`, and the logical index holds exactly these pairs. -/
structure Numbered (s : OmsState) : Prop where
  next : s.nextLogicalId = s.orders.length
  logicalId : ∀ (i : Nat) (order : OrderRecord), s.orders[i]? = some order →
    order.logicalId = i + 1
  lookup : ∀ (id : LogicalOrderId) (i : Nat), s.byLogicalId.lookup id = some i ↔
    id = i + 1 ∧ i < s.orders.length

theorem Numbered.lookup_own {s : OmsState} (h : s.Numbered) {i : Nat} {order : OrderRecord}
    (horder : s.orders[i]? = some order) : s.byLogicalId.lookup order.logicalId = some i :=
  (h.lookup _ _).mpr ⟨h.logicalId i order horder, (List.getElem?_eq_some_iff.mp horder).1⟩

theorem Numbered.index_unique {s : OmsState} (h : s.Numbered) {i j : Nat} {a b : OrderRecord}
    (ha : s.orders[i]? = some a) (hb : s.orders[j]? = some b)
    (heq : a.logicalId = b.logicalId) : i = j := by
  rw [h.logicalId i a ha, h.logicalId j b hb] at heq
  exact Nat.succ_injective heq

theorem Numbered.findById_iff {s : OmsState} (h : s.Numbered) {id : LogicalOrderId} {i : Nat}
    {order : OrderRecord} :
    s.findById id = some (i, order) ↔ id = i + 1 ∧ s.orders[i]? = some order := by
  rw [findById_eq_some_iff, h.lookup]
  constructor
  · rintro ⟨⟨hid, _⟩, horder⟩
    exact ⟨hid, horder⟩
  · rintro ⟨hid, horder⟩
    exact ⟨⟨hid, (List.getElem?_eq_some_iff.mp horder).1⟩, horder⟩

end OmsState

/-- What the sweep makes of a record. -/
def OrderRecord.swept (config : OmsConfig) (now : Nanos) (order : OrderRecord) : OrderRecord :=
  if order.expired config now then order.settled.transition .unknown now else order

namespace OrderManager

open OmsState

theorem expireAt_toOmsState (m : OrderManager) (index : Nat) :
    (m.expireAt index).toOmsState =
      m.toOmsState.withOrders (m.orders.modify index (OrderRecord.swept m.config m.clock)) := by
  rw [expireAt]
  cases horder : m.orders[index]? with
  | none =>
      dsimp only
      rw [List.modify_eq_self (List.getElem?_eq_none_iff.mp horder)]
      rfl
  | some order =>
      obtain ⟨hlt, hget⟩ := List.getElem?_eq_some_iff.mp horder
      have hmodify : m.orders.modify index (OrderRecord.swept m.config m.clock) =
          m.orders.set index (order.swept m.config m.clock) := by
        rw [List.modify_eq_set_get _ hlt]
        simp [hget]
      dsimp only
      rw [hmodify]
      by_cases hexpired : order.expired m.config m.clock = true
      · rw [if_pos hexpired]
        simp [OmsState.store, OrderRecord.swept, hexpired, withOrders]
      · rw [if_neg hexpired]
        have hself : m.orders.set index order = m.orders := by
          rw [← hget, List.set_getElem_self]
        simp [OrderRecord.swept, hexpired, hself, withOrders]

/-- The sweep rewrites every record on its own. -/
theorem onTimer_toOmsState (m : OrderManager) :
    m.onTimer.toOmsState =
      m.toOmsState.withOrders (m.orders.map (OrderRecord.swept m.config m.clock)) := by
  have hframe : ∀ (m' : OrderManager) (i : Nat),
      m'.toOmsState = m.toOmsState.withOrders m'.orders →
      (m'.expireAt i).toOmsState = m.toOmsState.withOrders (m'.expireAt i).orders := by
    intro m' i hm'
    rw [expireAt_toOmsState, hm']
    rfl
  have horders := Table.foldl_modify (fun m' : OrderManager => m'.orders)
    (OrderRecord.swept m.config m.clock) expireAt hframe
    (fun m' i hm' => by rw [expireAt_toOmsState, hm']; rfl) (s := m) rfl
  have hstate := Table.foldl_invariant hframe (List.range m.orders.length) (s := m) rfl
  rw [onTimer]
  rw [hstate, horders]

theorem compareListed_toOmsState (listed : OrderStatusReport)
    (state : OrderManager × ReconciliationReport) :
    (compareListed listed state).1.toOmsState = state.1.toOmsState := by
  rw [compareListed]
  dsimp only
  repeat' split
  all_goals rfl

theorem compareAll_toOmsState (m : OrderManager) (snapshot : VenueSnapshot) :
    (m.compareAll snapshot).1.toOmsState = m.toOmsState := by
  have hbody : ∀ (state : OrderManager × ReconciliationReport) (listed : OrderStatusReport),
      state.1.toOmsState = m.toOmsState →
        (compareListed listed state).1.toOmsState = m.toOmsState := by
    intro state listed hstate
    rw [compareListed_toOmsState, hstate]
  exact Table.foldl_invariant hbody snapshot.orders rfl

theorem journalDiscrepancy_toOmsState (m : OrderManager) (d : Discrepancy) :
    (m.journalDiscrepancy d).toOmsState = m.toOmsState := by
  rw [journalDiscrepancy]
  repeat' split
  all_goals rfl

theorem journalDiscrepancies_toOmsState (l : List Discrepancy) (m : OrderManager) :
    (l.foldl journalDiscrepancy m).toOmsState = m.toOmsState := by
  have hbody : ∀ (m' : OrderManager) (d : Discrepancy), m'.toOmsState = m.toOmsState →
      (m'.journalDiscrepancy d).toOmsState = m.toOmsState := by
    intro m' d hm'
    rw [journalDiscrepancy_toOmsState, hm']
  exact Table.foldl_invariant hbody l rfl

/-- What a complete listing may do to the record at an index. -/
def Omitted (s : OmsState) (snapshot : VenueSnapshot) (i : Nat) (before after : OrderRecord) :
    Prop :=
  before = after ∨
    s.missingAt snapshot i before = true ∧ before.acknowledgedNs ≤ s.snapshotTime snapshot ∧
      after = before.transition .unknown s.clock

/-- The manager is in state `s` but for records a complete listing omits. -/
def OmittedOnly (s : OmsState) (snapshot : VenueSnapshot) (m : OrderManager) : Prop :=
  ∃ orders, m.toOmsState = s.withOrders orders ∧
    Table.Evolves (Omitted s snapshot) (fun _ => False) s.orders orders

theorem missing_iff {s : OmsState} {snapshot : VenueSnapshot} {order : OrderRecord} :
    order ∈ s.missing snapshot ↔
      ∃ i, s.orders[i]? = some order ∧ s.missingAt snapshot i order = true := by
  simp only [OmsState.missing, List.mem_map, List.mem_filter, Prod.exists,
    List.mem_zipIdx_iff_getElem?]
  constructor
  · rintro ⟨_, i, ⟨horder, hmissing⟩, rfl⟩
    exact ⟨i, horder, hmissing⟩
  · rintro ⟨i, horder, hmissing⟩
    exact ⟨order, i, ⟨horder, hmissing⟩, rfl⟩

/-- Marking an omitted order comes back to the record the listing omitted. -/
theorem markMissing_evolves {s : OmsState} (hnumbered : s.Numbered) {snapshot : VenueSnapshot}
    {m : OrderManager} {missing : OrderRecord} (hmissing : missing ∈ s.missing snapshot)
    (hm : OmittedOnly s snapshot m) :
    OmittedOnly s snapshot (markMissing (s.snapshotTime snapshot) m missing.logicalId) := by
  obtain ⟨orders, hstate, hevolves⟩ := hm
  obtain ⟨i, horder, hmissingAt⟩ := missing_iff.mp hmissing
  rw [markMissing]
  cases hfound : m.findById missing.logicalId with
  | none => exact ⟨orders, hstate, hevolves⟩
  | some found =>
      obtain ⟨j, current⟩ := found
      rw [hstate, findById_eq_some_iff] at hfound
      obtain ⟨hlookup, hcurrent⟩ := hfound
      have hij : j = i := by
        have hid := (hnumbered.lookup missing.logicalId j).mp hlookup
        have hnumber := hnumbered.logicalId i missing horder
        exact Nat.succ_injective (hid.1.symm.trans hnumber)
      subst hij
      dsimp only
      split
      · exact ⟨orders, hstate, hevolves⟩
      · rename_i htime
        have htime := Int.not_lt.mp htime
        refine ⟨orders.set j (current.transition .unknown s.clock), ?_, ?_⟩
        · simp [hstate, OmsState.store, withOrders]
        · apply hevolves.set_later (List.getElem?_eq_some_iff.mp horder).1
          intro before hbefore
          rw [horder] at hbefore
          cases hbefore
          rcases hevolves.cases_entry hcurrent with ⟨before, hbefore, hrewrite⟩ | ⟨_, hfalse⟩
          · rw [horder] at hbefore
            cases hbefore
            rcases hrewrite with rfl | ⟨_, hearlier, rfl⟩
            · exact .inr ⟨hmissingAt, htime, rfl⟩
            · exact .inr ⟨hmissingAt, hearlier,
                OrderRecord.transition_twice missing (by decide) s.clock⟩
          · exact hfalse.elim

theorem markMissing_all_evolves {s : OmsState} (hnumbered : s.Numbered) (snapshot : VenueSnapshot)
    {m : OrderManager} (hm : m.toOmsState = s) :
    OmittedOnly s snapshot (((s.missing snapshot).map OrderRecord.logicalId).foldl
      (markMissing (s.snapshotTime snapshot)) m) := by
  have hinit : OmittedOnly s snapshot m := ⟨s.orders, hm, .refl (fun _ _ => .inl rfl) _⟩
  have hbody : ∀ m', ∀ missing ∈ s.missing snapshot, OmittedOnly s snapshot m' →
      OmittedOnly s snapshot (markMissing (s.snapshotTime snapshot) m' missing.logicalId) :=
    fun _ _ hmissing => markMissing_evolves hnumbered hmissing
  rw [List.foldl_map]
  exact Table.foldl_invariant_mem (s.missing snapshot) hbody hinit

/-- Comparing a complete listing changes no order; the orders it misses are then marked. -/
theorem reconcile_marks (m : OrderManager) {snapshot : VenueSnapshot}
    (hcomplete : snapshot.isComplete = true) :
    ∃ compared : OrderManager, compared.toOmsState = m.toOmsState ∧
      (m.reconcile snapshot).2.toOmsState =
        (((m.toOmsState.missing snapshot).map OrderRecord.logicalId).foldl
          (markMissing (m.toOmsState.snapshotTime snapshot)) compared).toOmsState := by
  rw [reconcile, if_neg (by simp [hcomplete])]
  dsimp only
  generalize hcompared : compareAll _ snapshot = compared
  have hstate : compared.1.toOmsState = m.toOmsState := by
    rw [← hcompared, compareAll_toOmsState]
    rfl
  refine ⟨compared.1.count fun k => { k with missingOrders := k.missingOrders +
    (m.toOmsState.missing snapshot).length }, hstate, ?_⟩
  rw [journalDiscrepancies_toOmsState]
  simp only [count_toOmsState, hstate]

/-- Reconciliation rewrites only records a complete listing omits. -/
theorem reconcile_evolves (m : OrderManager) (hnumbered : m.toOmsState.Numbered)
    (snapshot : VenueSnapshot) :
    ∃ orders, (m.reconcile snapshot).2.toOmsState = m.toOmsState.withOrders orders ∧
      Table.Evolves
        (fun i before after => before = after ∨
          snapshot.isComplete = true ∧ Omitted m.toOmsState snapshot i before after)
        (fun _ => False) m.orders orders := by
  cases hcomplete : snapshot.isComplete with
  | false =>
      rw [reconcile, if_pos (by simp [hcomplete])]
      exact ⟨m.orders, rfl, .refl (fun _ _ => .inl rfl) _⟩
  | true =>
      obtain ⟨compared, hstate, hmarks⟩ := reconcile_marks m hcomplete
      obtain ⟨orders, horders, hevolves⟩ := markMissing_all_evolves hnumbered snapshot hstate
      exact ⟨orders, hmarks.trans horders,
        hevolves.mono (fun _ _ _ _ h => .inr ⟨rfl, h⟩) (fun _ h => h)⟩

/-! ## Resolution -/

/-- Everything a resolution can do, with the order whose deferrals it releases. -/
inductive ResolveOutcome (s : OmsState) (id : LogicalOrderId) (target : OrderState) :
    OmsState → Option LogicalOrderId → Prop
  | refused : ResolveOutcome s id target s none
  | concluded {i : Nat} {order : OrderRecord} (hfound : s.findById id = some (i, order))
      (hlegal : isLegalTransition order.state target = true) :
      ResolveOutcome s id target (s.store i (concluded order target s.clock))
        (some order.logicalId)

theorem resolve_outcome (m : OrderManager) (id : LogicalOrderId) (target : OrderState) :
    ResolveOutcome m.toOmsState id target (m.resolve id target).2.manager.toOmsState
        (m.resolve id target).2.resolved ∧
      (m.resolve id target).2.answered = none := by
  rw [resolve]
  cases hfound : m.findById id with
  | none => exact ⟨.refused, rfl⟩
  | some found =>
      obtain ⟨i, order⟩ := found
      dsimp only
      split
      · exact ⟨.refused, rfl⟩
      · rename_i hlegal
        exact ⟨.concluded hfound (by simpa using hlegal), rfl⟩

/-- The client identity a restored record is indexed under. -/
def clientKey (order : OrderRecord) : Option ClientOrderId :=
  if order.clientOrderId.isEmpty then none else some order.clientOrderId

/-- The venue identity a restored record is indexed under. -/
def exchangeKey (order : OrderRecord) : Option ExchangeOrderId :=
  if order.exchangeOrderId.isEmpty then none else some order.exchangeOrderId

def logicalKey (order : OrderRecord) : Option LogicalOrderId := some order.logicalId

/-- The state after the first `n` records have been rebuilt. -/
def rebuilt (s : OmsState) (orders : List OrderRecord) (n : Nat) : OmsState :=
  { s with
    orders := (orders.take n).map recovered ++ orders.drop n
    byLogicalId := Index.build logicalKey orders n
    byClientId := Index.build clientKey orders n
    byExchangeId := Index.build exchangeKey orders n }

theorem recovered_of_not_pending {order : OrderRecord} (h : order.state.hasPendingRequest = false) :
    recovered order = order := by
  simp [recovered, h]

theorem recoverAt_toOmsState {m : OrderManager} {index : Nat} {order : OrderRecord}
    (horder : m.orders[index]? = some order) :
    (m.recoverAt index).toOmsState =
      (bindRestored index order m.toOmsState).store index (recovered order) := by
  rw [recoverAt]
  rw [horder]
  dsimp only
  split
  · rfl
  · rename_i hpending
    rw [recovered_of_not_pending (by simpa using hpending)]
    obtain ⟨hlt, hget⟩ := List.getElem?_eq_some_iff.mp horder
    have hself : m.orders.set index order = m.orders := by
      rw [← hget, List.set_getElem_self]
    simp [OmsState.store, bindRestored, hself]

theorem rebuilt_succ {s : OmsState} {orders : List OrderRecord} {n : Nat} {order : OrderRecord}
    (horder : orders[n]? = some order) :
    (bindRestored n order (rebuilt s orders n)).store n (recovered order) =
      rebuilt s orders (n + 1) := by
  obtain ⟨hlt, hget⟩ := List.getElem?_eq_some_iff.mp horder
  have htable : ((orders.take n).map recovered ++ orders.drop n).set n (recovered order) =
      (orders.take (n + 1)).map recovered ++ orders.drop (n + 1) := by
    have hlength : ((orders.take n).map recovered).length = n := by
      rw [List.length_map, List.length_take]
      omega
    rw [List.set_append_right _ _ (by omega), hlength, Nat.sub_self,
      List.drop_eq_getElem_cons hlt, List.set_cons_zero, List.take_succ_eq_append_getElem hlt,
      List.map_append, List.append_assoc]
    simp [hget]
  simp only [rebuilt, OmsState.store, bindRestored]
  rw [Index.build_succ, Index.build_succ, Index.build_succ, horder]
  dsimp only [Option.bind_some]
  rw [htable]
  by_cases hclient : order.clientOrderId.isEmpty = true <;>
    by_cases hexchange : order.exchangeOrderId.isEmpty = true <;>
    simp [logicalKey, clientKey, exchangeKey, hclient, hexchange]

theorem recoverAt_loop {s : OmsState} {orders : List OrderRecord} {m : OrderManager}
    (hm : m.toOmsState = rebuilt s orders 0) {n : Nat} (hn : n ≤ orders.length) :
    ((List.range n).foldl recoverAt m).toOmsState = rebuilt s orders n := by
  induction n with
  | zero => exact hm
  | succ n ih =>
      have hstate := ih (Nat.le_of_succ_le hn)
      obtain ⟨order, horder⟩ : ∃ order, orders[n]? = some order :=
        ⟨_, List.getElem?_eq_getElem hn⟩
      have hcurrent : ((List.range n).foldl recoverAt m).orders[n]? = some order := by
        rw [hstate]
        have hlength : ((orders.take n).map recovered).length = n := by
          rw [List.length_map, List.length_take]
          omega
        simp only [rebuilt]
        rw [List.getElem?_append_right (by omega), hlength, Nat.sub_self, List.getElem?_drop,
          Nat.add_zero, horder]
      rw [List.range_succ, List.foldl_append, List.foldl_cons, List.foldl_nil,
        recoverAt_toOmsState hcurrent, hstate, rebuilt_succ horder]

/-- What a successful restart leaves of a state. -/
def restarted (s : OmsState) (config : OmsConfig) : OmsState :=
  rebuilt
    { (OrderManager.init config s.clock).toOmsState with
      nextLogicalId := s.nextLogicalId
      nextRequestId := s.nextRequestId
      idGenerator :=
        (OrderManager.init config s.clock).idGenerator.restore s.idGenerator.sequence }
    s.orders s.orders.length

@[simp]
theorem restarted_orders (s : OmsState) (config : OmsConfig) :
    (restarted s config).orders = s.orders.map recovered := by
  simp [restarted, rebuilt]

/-- A restart finds no room, or rebuilds every record and every index. -/
theorem restart_outcome (m : OrderManager) (config : OmsConfig) :
    (m.restart config).1.isError = true ∧ config.maxOrders < m.orders.length ∨
      (m.restart config).1 = .ok ∧ m.orders.length ≤ config.maxOrders ∧
        (m.restart config).2.toOmsState = restarted m.toOmsState config := by
  rw [restart, restore]
  rw [if_neg (by simp [OrderManager.init])]
  split
  · rename_i hfull
    exact .inl ⟨rfl, hfull⟩
  · rename_i hroom
    refine .inr ⟨rfl, Nat.le_of_not_lt hroom, ?_⟩
    exact recoverAt_loop (by simp [rebuilt, snapshotForRecovery, Index.build, OrderManager.init])
      (Nat.le_refl _)

end OrderManager

end MmEngine.Oms
