/-
# Stable storage

A handler keeps a reference into the table of records while it creates further
orders, so the table must never be reallocated and no record may move. The first
is the capacity, which is checked before a record is added and again when a
snapshot is restored; the second is that records are only appended. Both hold in
every state a run reaches, and in every state a release of deferred News passes
through on the way.
-/

import MmEngine.Oms.Run

namespace MmEngine.Oms

open MmEngine.Exchange MmEngine.Quote MmEngine.Risk OmsState OrderManager

variable {σ : Type}

/-- The records fit the reserved table, and the logical index leads from the
identity of every record, positive and its own, to its position. -/
structure StableStorage (s : OmsState) : Prop where
  bounded : s.orders.length ≤ s.config.maxOrders
  positive : ∀ order ∈ s.orders, 0 < order.logicalId
  distinct : (s.orders.map OrderRecord.logicalId).Nodup
  indexed : ∀ (id : LogicalOrderId) (i : Nat), s.byLogicalId.lookup id = some i ↔
    ∃ order, s.orders[i]? = some order ∧ order.logicalId = id

/-- Every record is still where it was, under the identity it had. -/
def KeepsRecords (s after : OmsState) : Prop :=
  ∀ (i : Nat) (order : OrderRecord), s.orders[i]? = some order →
    ∃ record, after.orders[i]? = some record ∧ record.logicalId = order.logicalId

theorem KeepsRecords.refl (s : OmsState) : KeepsRecords s s :=
  fun _ order horder => ⟨order, horder, rfl⟩

theorem KeepsRecords.trans {s middle after : OmsState} (hfirst : KeepsRecords s middle)
    (hsecond : KeepsRecords middle after) : KeepsRecords s after := by
  intro i order horder
  obtain ⟨record, hrecord, hid⟩ := hfirst i order horder
  obtain ⟨later, hlater, hsame⟩ := hsecond i record hrecord
  exact ⟨later, hlater, hsame.trans hid⟩

/-- Numbered records are positive, distinct and indexed. -/
theorem stableStorage {s : OmsState} (hnumbered : s.Numbered)
    (hbounded : s.orders.length ≤ s.config.maxOrders) : StableStorage s where
  bounded := hbounded
  positive order horder := by
    obtain ⟨i, hi⟩ := List.mem_iff_getElem?.mp horder
    rw [hnumbered.logicalId i order hi]
    exact Nat.succ_pos i
  distinct := by
    rw [List.nodup_iff_getElem?_ne_getElem?]
    intro i j hij hj heq
    simp only [List.length_map] at hj
    have hi : i < s.orders.length := Nat.lt_trans hij hj
    simp only [List.getElem?_map, List.getElem?_eq_getElem hi, List.getElem?_eq_getElem hj,
      Option.map_some, Option.some.injEq] at heq
    have hsame : i = j := hnumbered.index_unique (List.getElem?_eq_getElem hi)
      (List.getElem?_eq_getElem hj) heq
    omega
  indexed id i := by
    constructor
    · intro hlookup
      obtain ⟨hid, hlt⟩ := (hnumbered.lookup id i).mp hlookup
      have horder := List.getElem?_eq_getElem hlt
      exact ⟨_, horder, (hnumbered.logicalId i _ horder).trans hid.symm⟩
    · rintro ⟨order, horder, rfl⟩
      exact hnumbered.lookup_own horder

section Step

variable {s after : OmsState} {observed : List Observation}

theorem OmsState.NewOutcome.bounded {action : OrderAction}
    (h : NewOutcome s action after observed) (hs : s.orders.length ≤ s.config.maxOrders) :
    after.orders.length ≤ after.config.maxOrders := by
  cases h with
  | refused | burned | deferred => exact hs
  | created hroom _ _ _ hrecord =>
      rcases hrecord.base_eq with rfl | rfl
      all_goals
        simp only [OmsState.addOrder, List.length_append, List.length_singleton]
        exact hroom

/-- The capacity is checked before a record is added, and before a snapshot is
restored. -/
theorem PrimaryOutcome.bounded {op : Op σ} {resolved : Option LogicalOrderId}
    (h : PrimaryOutcome s op after resolved observed)
    (hs : s.orders.length ≤ s.config.maxOrders) :
    after.orders.length ≤ after.config.maxOrders := by
  cases h with
  | submit h =>
      cases h with
      | refused | burned => exact hs
      | new _ _ houtcome => exact houtcome.bounded hs
      | edited _ _ _ hedit =>
          rcases hedit.base_eq with rfl | rfl | rfl
          all_goals
            simp only [OmsState.store, List.length_set]
            exact hs
  | apply h =>
      cases h with
      | discarded => exact hs
      | edited _ _ _ hedit =>
          obtain ⟨_, _, rfl⟩ := hedit.base_eq
          simp only [OmsState.store, List.length_set]
          exact hs
  | onTimer =>
      simp only [OmsState.withOrders, List.length_map]
      exact hs
  | reconcile h =>
      simp only [OmsState.withOrders, h.length_eq]
      exact hs
  | resolve h =>
      cases h with
      | refused => exact hs
      | concluded =>
          simp only [OmsState.store, List.length_set]
          exact hs
  | attachExecution | advance | venue | restartRefused => exact hs
  | restarted hroom =>
      rw [restarted_orders, List.length_map]
      exact hroom

end Step

/-- What carries the storage along a run. -/
structure Stored (w : World σ) : Prop where
  numbered : w.oms.toOmsState.Numbered
  bounded : w.oms.orders.length ≤ w.oms.config.maxOrders

theorem Stored.init (config : OmsConfig) (clock : Nanos) (venue : σ) :
    Stored (World.init config clock venue) :=
  ⟨numbered_init config clock, Nat.zero_le _⟩

theorem Stored.primary {w : World σ} (hw : Stored w) (port : IExchangeExecution σ) (op : Op σ) :
    Stored (primary port op w).1 := by
  obtain ⟨_, _, houtcome⟩ := primary_outcome port op w hw.numbered
  exact ⟨houtcome.numbered hw.numbered, houtcome.bounded hw.bounded⟩

theorem Stored.releaseEntry {w : World σ} (hw : Stored w) (port : IExchangeExecution σ)
    (id : LogicalOrderId) (entry : Nat) : Stored (releaseEntry port id w entry) := by
  rcases releaseEntry_outcome port id w entry with hsame | ⟨_, _, _, _, hnew, _⟩
  · rw [hsame]
    exact hw
  · have hnumbered : (w.oms.toOmsState.vacate entry).Numbered :=
      ⟨hw.numbered.next, hw.numbered.logicalId, hw.numbered.lookup⟩
    exact ⟨hnew.numbered hnumbered, hnew.bounded hw.bounded⟩

theorem Stored.step {w : World σ} (hw : Stored w) (port : IExchangeExecution σ) (op : Op σ) :
    Stored (step port op w) :=
  release_invariant port (fun id _ _ entry hw' => hw'.releaseEntry port id entry)
    (hw.primary port op)

/-- A step leaves every record where it is, under its identity. -/
theorem step_keepsRecords (port : IExchangeExecution σ) (op : Op σ) {w : World σ}
    (hnumbered : w.oms.toOmsState.Numbered) :
    KeepsRecords w.oms.toOmsState (step port op w).oms.toOmsState := by
  have hheld : Held (fun _ => True) w.oms.toOmsState := fun _ _ _ => trivial
  have hevolves := step_evolves port op w hnumbered hheld (admits_true op)
  intro i order horder
  obtain ⟨record, hrecord, hrewrite⟩ := hevolves.old i order horder
  refine ⟨record, hrecord, ?_⟩
  rcases hrewrite with rfl | hedited
  · rfl
  · exact hedited.sameOrder.logicalId

theorem run_keepsRecords (port : IExchangeExecution σ) (ops : List (Op σ)) {w : World σ}
    (hnumbered : w.oms.toOmsState.Numbered) :
    KeepsRecords w.oms.toOmsState (Machine.run (step port) ops w).oms.toOmsState :=
  Machine.relation_run (R := fun w w' : World σ => KeepsRecords w.oms.toOmsState w'.oms.toOmsState)
    (fun _ => .refl _) (fun _ _ _ => .trans) (step_numbered port)
    (fun op _ => step_keepsRecords port op) ops hnumbered

/-- Part of a release only appends, within the capacity. -/
theorem releasing_part (port : IExchangeExecution σ) (id : LogicalOrderId) {w : World σ}
    (hw : Stored w) (entries : List Nat) :
    Stored (entries.foldl (releaseEntry port id) w) ∧
      ∀ (i : Nat) (order : OrderRecord), w.oms.orders[i]? = some order →
        (entries.foldl (releaseEntry port id) w).oms.orders[i]? = some order := by
  have hstored : Stored (entries.foldl (releaseEntry port id) w) :=
    Table.foldl_invariant (fun _ entry hw' => hw'.releaseEntry port id entry) entries hw
  have hreleasing : Releasing (fun _ => True) w.oms.toOmsState
      (entries.foldl (releaseEntry port id) w) := by
    apply Table.foldl_invariant (fun _ entry h => h.releaseEntry port id entry)
    exact ⟨rfl, fun _ _ _ => trivial, .refl (fun _ _ => rfl) _⟩
  refine ⟨hstored, ?_⟩
  intro i order horder
  obtain ⟨record, hrecord, rfl⟩ := hreleasing.evolves.old i order horder
  exact hrecord

/-- In every state of every run, restarts included, the records fit the table
they were reserved and are found by identities that are positive, distinct and
theirs for good. A handler that goes on to release deferred News finds its record
where it left it in every state the release passes through. -/
theorem storage_bounded_and_stable (port : IExchangeExecution σ) (config : OmsConfig)
    (clock : Nanos) (venue : σ) (ops : List (Op σ)) :
    let w := Machine.run (step port) ops (World.init config clock venue)
    StableStorage w.oms.toOmsState ∧
      (∀ later, KeepsRecords w.oms.toOmsState
        (Machine.run (step port) later w).oms.toOmsState) ∧
      ∀ (op : Op σ) (id : LogicalOrderId) (entries : List Nat),
        let handled := (primary port op w).1
        let creating := entries.foldl (releaseEntry port id) handled
        StableStorage creating.oms.toOmsState ∧
          ∀ (i : Nat) (order : OrderRecord), handled.oms.orders[i]? = some order →
            creating.oms.orders[i]? = some order := by
  intro w
  have hw : Stored w :=
    Machine.invariant_run_always (fun op _ hw => hw.step port op) ops
      (Stored.init config clock venue)
  refine ⟨stableStorage hw.numbered hw.bounded, ?_, ?_⟩
  · intro later
    exact run_keepsRecords port later hw.numbered
  · intro op id entries handled creating
    obtain ⟨hcreating, hkept⟩ := releasing_part port id (hw.primary port op) entries
    exact ⟨stableStorage hcreating.numbered hcreating.bounded, hkept⟩

end MmEngine.Oms
