/-
# What a reconciliation reports

A complete listing is compared with the records row by row, and then record by record.
Every row is accounted for, as agreed or as one discrepancy, and every live record that
no row lists is reported missing. Nothing is corrected on that evidence: a missing order
becomes unknown, unless it was acknowledged after the listing was learned of, and that
is all that changes.
-/

import MmEngine.Oms.Identity

namespace MmEngine.Oms

open MmEngine.Exchange MmEngine.Quote MmEngine.Risk OmsState OrderManager

variable {σ : Type}

namespace OmsState

/-- A row lists the order that has its client identity; if none has, the one that has
its venue identity. -/
def Lists (s : OmsState) (listed : OrderStatusReport) (order : OrderRecord) : Prop :=
  order.clientOrderId = listed.clientOrderId ∨
    (∀ other ∈ s.orders, other.clientOrderId ≠ listed.clientOrderId) ∧
      listed.exchangeOrderId.isEmpty = false ∧ order.exchangeOrderId = listed.exchangeOrderId

instance (s : OmsState) (listed : OrderStatusReport) (order : OrderRecord) :
    Decidable (s.Lists listed order) :=
  inferInstanceAs (Decidable (_ ∨ _))

/-- A row that lists no order. -/
def Unmatched (s : OmsState) (listed : OrderStatusReport) : Prop :=
  ∀ order ∈ s.orders, ¬s.Lists listed order

instance (s : OmsState) (listed : OrderStatusReport) : Decidable (s.Unmatched listed) :=
  inferInstanceAs (Decidable (∀ order ∈ s.orders, ¬s.Lists listed order))

/-- A live order, of the symbol that the listing is for, that no row lists. -/
def Omits (s : OmsState) (snapshot : VenueSnapshot) (order : OrderRecord) : Prop :=
  order.isLive = true ∧
    (snapshot.symbolFilter.isEmpty = true ∨ order.symbol = snapshot.symbolFilter) ∧
    ∀ listed ∈ snapshot.orders, ¬s.Lists listed order

instance (s : OmsState) (snapshot : VenueSnapshot) (order : OrderRecord) :
    Decidable (s.Omits snapshot order) :=
  inferInstanceAs (Decidable (_ ∧ _ ∧ _))

end OmsState

/-- Every row and every record is accounted for. -/
structure ReportsAll (s : OmsState) (snapshot : VenueSnapshot) (report : ReconciliationReport) :
    Prop where
  compared : report.ordersCompared = snapshot.orders.length
  accounted : report.ordersCompared = report.ordersAgreed +
    (report.discrepancies.filter fun d => d.kind ≠ .missingAtVenue).length
  orphans : (report.discrepancies.filter fun d => d.kind = .orphanAtVenue) =
    (snapshot.orders.filter fun listed => s.Unmatched listed).map s.orphan
  missing : (report.discrepancies.filter fun d => d.kind = .missingAtVenue) =
    (s.orders.filter fun order => s.Omits snapshot order).map missingDiscrepancy

/-- The record a complete listing leaves of an order. -/
def OmsState.reconciled (s : OmsState) (snapshot : VenueSnapshot) (order : OrderRecord) :
    OrderRecord :=
  if s.Omits snapshot order ∧ order.acknowledgedNs ≤ s.snapshotTime snapshot then
    { order with state := .unknown }
  else order

section Rows

variable {s : OmsState}

/-- With coherent indices the record a row is compared with is the one it lists. -/
theorem findListed_iff (h : IdentityCoherent s) {listed : OrderStatusReport} {i : Nat}
    {order : OrderRecord} :
    s.findListed listed = some (i, order) ↔ s.orders[i]? = some order ∧ s.Lists listed order := by
  have hclient : ∀ (j : Nat) (other : OrderRecord), s.orders[j]? = some other →
      s.findByClientId other.clientOrderId = some (j, other) :=
    fun j other hother => findByClientId_eq_some_iff.mpr ⟨(h.own j other hother).2.1, hother⟩
  have hunnamed (hnone : s.findByClientId listed.clientOrderId = none) :
      ∀ other ∈ s.orders, other.clientOrderId ≠ listed.clientOrderId := by
    intro other hmem hsame
    obtain ⟨j, hother⟩ := List.getElem?_of_mem hmem
    have hfound := hclient j other hother
    rw [hsame, hnone] at hfound
    cases hfound
  rw [findListed]
  constructor
  · intro hfound
    rcases Option.or_eq_some_iff.mp hfound with hbyClient | ⟨hnone, hbyExchange⟩
    · exact ⟨(findByClientId_eq_some_iff.mp hbyClient).2,
        .inl (h.findByClientId _ i order hbyClient)⟩
    · split at hbyExchange
      · cases hbyExchange
      · rename_i hnonempty
        exact ⟨(findByExchangeId_eq_some_iff.mp hbyExchange).2, .inr ⟨hunnamed hnone,
          Bool.not_eq_true _ ▸ hnonempty, h.findByExchangeId _ i order hbyExchange⟩⟩
  · rintro ⟨horder, hsame | ⟨hnone, hnonempty, hsame⟩⟩
    · rw [← hsame, hclient i order horder]
      rfl
    · have hmiss : s.findByClientId listed.clientOrderId = none := by
        rw [Option.eq_none_iff_forall_ne_some]
        rintro ⟨j, other⟩ hfound
        have hother := (findByClientId_eq_some_iff.mp hfound).2
        exact hnone other (List.mem_of_getElem? hother) (h.findByClientId _ j other hfound)
      have hindexed := (h.own i order horder).2.2 (hsame ▸ hnonempty)
      rw [hmiss, Option.none_or, if_neg (by simp [hnonempty]), ← hsame]
      exact findByExchangeId_eq_some_iff.mpr ⟨hindexed, horder⟩

theorem findListed_eq_none_iff (h : IdentityCoherent s) {listed : OrderStatusReport} :
    s.findListed listed = none ↔ s.Unmatched listed := by
  rw [Option.eq_none_iff_forall_ne_some]
  constructor
  · intro hnone order hmem hlists
    obtain ⟨i, horder⟩ := List.getElem?_of_mem hmem
    exact hnone (i, order) ((findListed_iff h).mpr ⟨horder, hlists⟩)
  · rintro hunmatched ⟨i, order⟩ hfound
    obtain ⟨horder, hlists⟩ := (findListed_iff h).mp hfound
    exact hunmatched order (List.mem_of_getElem? horder) hlists

theorem missingAt_iff (h : IdentityCoherent s) {snapshot : VenueSnapshot} {i : Nat}
    {order : OrderRecord} (horder : s.orders[i]? = some order) :
    s.missingAt snapshot i order = true ↔ s.Omits snapshot order := by
  have hmatched : i ∈ s.matched snapshot ↔
      ∃ listed ∈ snapshot.orders, s.Lists listed order := by
    rw [matched, List.mem_filterMap]
    constructor
    · rintro ⟨listed, hlisted, hindex⟩
      refine ⟨listed, hlisted, ?_⟩
      split at hindex
      · cases hindex
      · rename_i j other hfound
        obtain ⟨hother, hlists⟩ := (findListed_iff h).mp hfound
        rw [(h.own j other hother).1] at hindex
        cases hindex
        rw [horder] at hother
        cases hother
        exact hlists
    · rintro ⟨listed, hlisted, hlists⟩
      refine ⟨listed, hlisted, ?_⟩
      rw [(findListed_iff h).mpr ⟨horder, hlists⟩]
      exact (h.own i order horder).1
  rw [missingAt, Bool.and_eq_true, Bool.and_eq_true, decide_eq_true_eq, hmatched, Bool.or_eq_true,
    decide_eq_true_eq, Omits]
  push Not
  tauto

/-- The records a listing omits, in the order of the records. -/
theorem missing_eq_filter (h : IdentityCoherent s) (snapshot : VenueSnapshot) :
    s.missing snapshot = s.orders.filter fun order => s.Omits snapshot order := by
  have hsame : (s.orders.zipIdx.filter fun entry => s.missingAt snapshot entry.2 entry.1) =
      s.orders.zipIdx.filter fun entry => decide (s.Omits snapshot entry.1) := by
    apply List.filter_congr
    rintro ⟨order, i⟩ hentry
    have horder := List.mem_zipIdx_iff_getElem?.mp hentry
    rw [Bool.eq_iff_iff, decide_eq_true_eq]
    exact missingAt_iff h horder
  rw [missing, hsame]
  have hfirst := List.filter_map (f := Prod.fst) (p := fun order => decide (s.Omits snapshot order))
    (l := s.orders.zipIdx)
  rw [List.zipIdx_map_fst] at hfirst
  exact hfirst.symm

end Rows

/-! ## The report -/

/-- The disagreement a row is reported with, if there is one. -/
def rowDiscrepancy (s : OmsState) (listed : OrderStatusReport) : Option Discrepancy :=
  match s.findListed listed with
  | none => some (s.orphan listed)
  | some (_, order) =>
      (OmsState.mismatch order listed).map fun kind =>
        { kind := kind
          logicalId := order.logicalId
          clientOrderId := order.clientOrderId
          exchangeOrderId := order.exchangeOrderId
          symbol := order.symbol
          localState := order.state
          venueStatus := listed.status
          localCumulative := order.cumulativeQuantity
          venueCumulative := listed.cumulativeQty
          localPrice := order.price
          venuePrice := listed.price
          identityIsOurs := true }

theorem compareListed_report (m : OrderManager) (listed : OrderStatusReport)
    (report : ReconciliationReport) :
    (compareListed listed (m, report)).2 =
      { report with
        ordersCompared := report.ordersCompared + 1
        ordersAgreed :=
          report.ordersAgreed + if (rowDiscrepancy m.toOmsState listed).isNone then 1 else 0
        discrepancies :=
          report.discrepancies ++ (rowDiscrepancy m.toOmsState listed).toList } := by
  cases hfound : m.findListed listed with
  | none =>
      have hrow : rowDiscrepancy m.toOmsState listed = some (m.orphan listed) := by
        rw [rowDiscrepancy, hfound]
      simp [compareListed, hfound, hrow]
  | some found =>
      obtain ⟨i, order⟩ := found
      cases hmismatch : OmsState.mismatch order listed with
      | none =>
          have hrow : rowDiscrepancy m.toOmsState listed = none := by
            simp [rowDiscrepancy, hfound, hmismatch]
          simp [compareListed, hfound, hmismatch, hrow]
      | some kind => simp [compareListed, rowDiscrepancy, hfound, hmismatch]

/-- The rows are counted, agreed or reported, each of them once. -/
theorem compareRows_report {s : OmsState} (rows : List OrderStatusReport) {m : OrderManager}
    (hm : m.toOmsState = s) (report : ReconciliationReport) :
    (rows.foldl (fun state listed => compareListed listed state) (m, report)).2 =
      { report with
        ordersCompared := report.ordersCompared + rows.length
        ordersAgreed :=
          report.ordersAgreed + (rows.filter fun listed => (rowDiscrepancy s listed).isNone).length
        discrepancies := report.discrepancies ++ rows.filterMap (rowDiscrepancy s) } := by
  induction rows generalizing m report with
  | nil => simp
  | cons listed rows ih =>
      have hstate : (compareListed listed (m, report)).1.toOmsState = s := by
        rw [compareListed_toOmsState, hm]
      have hfirst := compareListed_report m listed report
      have hrest := ih hstate (compareListed listed (m, report)).2
      rw [hm] at hfirst
      rw [List.foldl_cons, ← Prod.eta (compareListed listed (m, report)), hrest, hfirst]
      cases hrow : rowDiscrepancy s listed with
      | none =>
          simp [hrow]
          omega
      | some d =>
          simp [hrow]
          omega

theorem compareAll_report (m : OrderManager) (snapshot : VenueSnapshot) :
    (m.compareAll snapshot).2 =
      { discrepancies := snapshot.orders.filterMap (rowDiscrepancy m.toOmsState)
        ordersCompared := snapshot.orders.length
        ordersAgreed :=
          (snapshot.orders.filter fun listed =>
            (rowDiscrepancy m.toOmsState listed).isNone).length
        performedNs := m.clock } := by
  rw [compareAll, compareRows_report (s := m.toOmsState) snapshot.orders rfl]
  simp

theorem reconcile_report (m : OrderManager) {snapshot : VenueSnapshot}
    (hcomplete : snapshot.isComplete = true) :
    (m.reconcile snapshot).1 =
      { discrepancies := snapshot.orders.filterMap (rowDiscrepancy m.toOmsState) ++
          (m.toOmsState.missing snapshot).map missingDiscrepancy
        ordersCompared := snapshot.orders.length
        ordersAgreed :=
          (snapshot.orders.filter fun listed =>
            (rowDiscrepancy m.toOmsState listed).isNone).length
        performedNs := m.clock } := by
  rw [reconcile, if_neg (by simp [hcomplete])]
  dsimp only
  rw [compareAll_report]
  rfl

theorem mismatch_kind {order : OrderRecord} {listed : OrderStatusReport} {kind : DiscrepancyKind}
    (h : OmsState.mismatch order listed = some kind) :
    kind ≠ .missingAtVenue ∧ kind ≠ .orphanAtVenue := by
  rw [OmsState.mismatch] at h
  split at h
  · cases h
    decide
  split at h
  · cases h
    decide
  split at h
  · cases h
    decide
  · cases h

theorem rowDiscrepancy_missing {s : OmsState} {listed : OrderStatusReport} {d : Discrepancy}
    (h : rowDiscrepancy s listed = some d) : d.kind ≠ .missingAtVenue := by
  rw [rowDiscrepancy] at h
  split at h
  · cases h
    exact fun hkind => by cases hkind
  · obtain ⟨kind, hkind, rfl⟩ := Option.map_eq_some_iff.mp h
    exact (mismatch_kind hkind).1

/-- The rows that list no order are the ones reported as orphans. -/
theorem filter_orphans {s : OmsState} (h : IdentityCoherent s) (rows : List OrderStatusReport) :
    ((rows.filterMap (rowDiscrepancy s)).filter fun d => d.kind = .orphanAtVenue) =
      (rows.filter fun listed => s.Unmatched listed).map s.orphan := by
  induction rows with
  | nil => rfl
  | cons listed rows ih =>
      rw [List.filterMap_cons, List.filter_cons]
      cases hfound : s.findListed listed with
      | none =>
          have hrow : rowDiscrepancy s listed = some (s.orphan listed) := by
            rw [rowDiscrepancy, hfound]
          have hunmatched := (findListed_eq_none_iff h).mp hfound
          rw [hrow, if_pos (decide_eq_true hunmatched)]
          dsimp only
          rw [List.filter_cons, if_pos (by rfl), ih, List.map_cons]
      | some found =>
          have hmatched : ¬s.Unmatched listed := by
            rw [← findListed_eq_none_iff h, hfound]
            exact Option.some_ne_none found
          have hrow : ∀ d, rowDiscrepancy s listed = some d → d.kind ≠ .orphanAtVenue := by
            intro d hd
            rw [rowDiscrepancy, hfound] at hd
            obtain ⟨kind, hkind, rfl⟩ := Option.map_eq_some_iff.mp hd
            exact (mismatch_kind hkind).2
          rw [if_neg (by simp [hmatched])]
          cases hd : rowDiscrepancy s listed with
          | none => exact ih
          | some d =>
              dsimp only
              rw [List.filter_cons, if_neg (by simp [hrow d hd]), ih]

theorem length_filterMap_rows (s : OmsState) (rows : List OrderStatusReport) :
    rows.length = (rows.filter fun listed => (rowDiscrepancy s listed).isNone).length +
      (rows.filterMap (rowDiscrepancy s)).length := by
  induction rows with
  | nil => rfl
  | cons listed rows ih =>
      cases hrow : rowDiscrepancy s listed with
      | none =>
          simp [hrow]
          omega
      | some d =>
          simp [hrow]
          omega

/-- A complete listing is reported on in full. -/
theorem reconcile_reportsAll {m : OrderManager} (h : IdentityCoherent m.toOmsState)
    {snapshot : VenueSnapshot} (hcomplete : snapshot.isComplete = true) :
    ReportsAll m.toOmsState snapshot (m.reconcile snapshot).1 := by
  have hrows : ∀ d ∈ snapshot.orders.filterMap (rowDiscrepancy m.toOmsState),
      d.kind ≠ .missingAtVenue := by
    intro d hd
    obtain ⟨listed, -, hrow⟩ := List.mem_filterMap.mp hd
    exact rowDiscrepancy_missing hrow
  have hmissing : ∀ d ∈ (m.toOmsState.missing snapshot).map missingDiscrepancy,
      d.kind = .missingAtVenue := by
    intro d hd
    obtain ⟨order, -, rfl⟩ := List.mem_map.mp hd
    rfl
  -- The discrepancies of the rows and of the records are told apart by their kind.
  have hrowsOnly (P : Discrepancy → Bool) (hP : ∀ d, d.kind = .missingAtVenue → ¬P d = true) :
      (snapshot.orders.filterMap (rowDiscrepancy m.toOmsState) ++
        (m.toOmsState.missing snapshot).map missingDiscrepancy).filter P =
      (snapshot.orders.filterMap (rowDiscrepancy m.toOmsState)).filter P := by
    have hnone : ((m.toOmsState.missing snapshot).map missingDiscrepancy).filter P = [] :=
      List.filter_eq_nil_iff.mpr fun d hd => hP d (hmissing d hd)
    rw [List.filter_append, hnone, List.append_nil]
  rw [reconcile_report m hcomplete]
  constructor
  · rfl
  · have hall : (snapshot.orders.filterMap (rowDiscrepancy m.toOmsState)).filter
        (fun d => d.kind ≠ .missingAtVenue) =
        snapshot.orders.filterMap (rowDiscrepancy m.toOmsState) :=
      List.filter_eq_self.mpr fun d hd => decide_eq_true (hrows d hd)
    dsimp only
    rw [hrowsOnly _ (fun d hd => by simp [hd]), hall]
    exact length_filterMap_rows m.toOmsState snapshot.orders
  · dsimp only
    rw [hrowsOnly _ (fun d hd => by simp [hd]), filter_orphans h]
  · have hnone : (snapshot.orders.filterMap (rowDiscrepancy m.toOmsState)).filter
        (fun d => d.kind = .missingAtVenue) = [] :=
      List.filter_eq_nil_iff.mpr fun d hd => by simp [hrows d hd]
    have hall : ((m.toOmsState.missing snapshot).map missingDiscrepancy).filter
        (fun d => d.kind = .missingAtVenue) =
        (m.toOmsState.missing snapshot).map missingDiscrepancy :=
      List.filter_eq_self.mpr fun d hd => decide_eq_true (hmissing d hd)
    dsimp only
    rw [List.filter_append, hnone, List.nil_append, hall, missing_eq_filter h]

/-- The record once the omitted orders of the list have been marked. -/
def marked (time now : Nanos) (ids : List LogicalOrderId) (order : OrderRecord) : OrderRecord :=
  if order.logicalId ∈ ids ∧ order.acknowledgedNs ≤ time then order.transition .unknown now
  else order

theorem marked_acknowledgedNs (time now : Nanos) (ids : List LogicalOrderId)
    (order : OrderRecord) : (marked time now ids order).acknowledgedNs = order.acknowledgedNs := by
  rw [marked]
  split
  · exact OrderRecord.transition_acknowledgedNs _ _ _
  · rfl

/-- Marking an order again is marking it. -/
theorem marked_again (time now : Nanos) (ids : List LogicalOrderId) (order : OrderRecord) :
    (marked time now ids order).transition .unknown now = order.transition .unknown now := by
  rw [marked]
  split
  · exact OrderRecord.transition_twice order rfl now
  · rfl

theorem marked_concat (time now : Nanos) (ids : List LogicalOrderId) (id : LogicalOrderId)
    (order : OrderRecord) :
    marked time now (ids ++ [id]) order =
      if order.logicalId = id ∧ order.acknowledgedNs ≤ time then order.transition .unknown now
      else marked time now ids order := by
  simp only [marked, List.mem_append, List.mem_singleton]
  by_cases htime : order.acknowledgedNs ≤ time
  · by_cases hid : order.logicalId = id
    · simp [hid, htime]
    · simp [hid]
  · simp [htime]

/-- One more of the omitted orders is marked. -/
theorem markMissing_marked {s : OmsState} (hnumbered : s.Numbered) {time : Nanos}
    {ids : List LogicalOrderId} {m : OrderManager}
    (hm : m.toOmsState = s.withOrders (s.orders.map (marked time s.clock ids)))
    (id : LogicalOrderId) :
    (markMissing time m id).toOmsState =
      s.withOrders (s.orders.map (marked time s.clock (ids ++ [id]))) := by
  -- Nothing is marked unless the order is there and was acknowledged in time.
  have hkept (hnot : ∀ order ∈ s.orders, ¬(order.logicalId = id ∧ order.acknowledgedNs ≤ time)) :
      m.toOmsState = s.withOrders (s.orders.map (marked time s.clock (ids ++ [id]))) := by
    rw [hm]
    congr 1
    apply List.map_congr_left
    intro order horder
    rw [marked_concat, if_neg (hnot order horder)]
  rw [markMissing]
  cases hfound : m.findById id with
  | none =>
      apply hkept
      rintro order hmem ⟨rfl, -⟩
      obtain ⟨j, horder⟩ := List.getElem?_of_mem hmem
      have hthere : m.findById order.logicalId = some (j, marked time s.clock ids order) := by
        rw [findById_eq_some_iff, hm]
        refine ⟨hnumbered.lookup_own horder, ?_⟩
        rw [withOrders, List.getElem?_map, horder]
        rfl
      rw [hfound] at hthere
      cases hthere
  | some found =>
      obtain ⟨j, current⟩ := found
      rw [findById_eq_some_iff, hm] at hfound
      obtain ⟨hlookup, hcurrent⟩ := hfound
      rw [withOrders, List.getElem?_map, Option.map_eq_some_iff] at hcurrent
      obtain ⟨order, horder, rfl⟩ := hcurrent
      have hid : order.logicalId = id := by
        rw [hnumbered.logicalId j order horder]
        exact ((hnumbered.lookup id j).mp hlookup).1.symm
      have hunique : ∀ (i : Nat) (other : OrderRecord), s.orders[i]? = some other →
          other.logicalId = id → i = j := fun i other hother hsame =>
        hnumbered.index_unique hother horder (hsame.trans hid.symm)
      dsimp only
      rw [marked_acknowledgedNs]
      split
      · rename_i hlate
        apply hkept
        rintro other hmem ⟨hsame, htime⟩
        obtain ⟨i, hother⟩ := List.getElem?_of_mem hmem
        obtain rfl := hunique i other hother hsame
        rw [horder] at hother
        cases hother
        exact absurd htime (not_le.mpr hlate)
      · rename_i htime
        rw [not_lt] at htime
        rw [move_toOmsState, count_toOmsState, hm]
        show OmsState.store _ j ((marked time s.clock ids order).transition .unknown s.clock) = _
        rw [marked_again]
        simp only [OmsState.store, withOrders]
        congr 1
        apply List.ext_getElem?
        intro i
        rw [List.getElem?_map, List.getElem?_set]
        by_cases hij : j = i
        · subst hij
          have hlt := (List.getElem?_eq_some_iff.mp horder).1
          rw [if_pos rfl, List.length_map, if_pos hlt, horder, Option.map_some, marked_concat,
            if_pos ⟨hid, htime⟩]
        · rw [if_neg hij, List.getElem?_map]
          cases hother : s.orders[i]? with
          | none => rfl
          | some other =>
              have hdifferent : ¬(other.logicalId = id ∧ other.acknowledgedNs ≤ time) :=
                fun h => hij (hunique i other hother h.1).symm
              rw [Option.map_some, Option.map_some, marked_concat, if_neg hdifferent]

theorem markMissing_all {s : OmsState} (hnumbered : s.Numbered) {time : Nanos}
    (later : List LogicalOrderId) {ids : List LogicalOrderId} {m : OrderManager}
    (hm : m.toOmsState = s.withOrders (s.orders.map (marked time s.clock ids))) :
    (later.foldl (markMissing time) m).toOmsState =
      s.withOrders (s.orders.map (marked time s.clock (ids ++ later))) := by
  induction later generalizing ids m with
  | nil =>
      rw [List.append_nil]
      exact hm
  | cons id later ih =>
      rw [List.foldl_cons, ih (markMissing_marked hnumbered hm id), List.append_assoc]
      rfl

/-- A live order may always become unknown. -/
theorem transition_unknown_of_isLive {order : OrderRecord} (hlive : order.isLive = true)
    (now : Nanos) : order.transition .unknown now = { order with state := .unknown } := by
  have hlegal : isLegalTransition order.state .unknown = true := by
    rw [OrderRecord.isLive] at hlive
    revert hlive
    cases order.state <;> decide
  simp [OrderRecord.transition, hlegal, OrderState.isTerminal]

theorem marked_missing {s : OmsState} (hnumbered : s.Numbered) (h : IdentityCoherent s)
    (snapshot : VenueSnapshot) {order : OrderRecord} (hmem : order ∈ s.orders) :
    marked (s.snapshotTime snapshot) s.clock ((s.missing snapshot).map OrderRecord.logicalId)
        order =
      s.reconciled snapshot order := by
  have homits : order.logicalId ∈ (s.missing snapshot).map OrderRecord.logicalId ↔
      s.Omits snapshot order := by
    rw [missing_eq_filter h, List.mem_map]
    constructor
    · rintro ⟨other, hother, hid⟩
      obtain ⟨hother, homits⟩ := List.mem_filter.mp hother
      obtain ⟨i, hi⟩ := List.getElem?_of_mem hother
      obtain ⟨j, hj⟩ := List.getElem?_of_mem hmem
      obtain rfl := hnumbered.index_unique hi hj hid
      rw [hi] at hj
      cases hj
      exact of_decide_eq_true homits
    · exact fun homits => ⟨order, List.mem_filter.mpr ⟨hmem, decide_eq_true homits⟩, rfl⟩
  rw [marked, reconciled]
  simp only [homits]
  split
  · rename_i hmissing
    exact transition_unknown_of_isLive hmissing.1.1 s.clock
  · rfl

/-- A complete listing makes the omitted orders unknown, and changes nothing else. -/
theorem reconcile_toOmsState {m : OrderManager} (hnumbered : m.toOmsState.Numbered)
    (h : IdentityCoherent m.toOmsState) {snapshot : VenueSnapshot}
    (hcomplete : snapshot.isComplete = true) :
    (m.reconcile snapshot).2.toOmsState =
      m.toOmsState.withOrders (m.orders.map (m.toOmsState.reconciled snapshot)) := by
  obtain ⟨compared, hstate, hmarks⟩ := reconcile_marks m hcomplete
  have hnone : compared.toOmsState = m.toOmsState.withOrders (m.toOmsState.orders.map
      (marked (m.toOmsState.snapshotTime snapshot) m.toOmsState.clock [])) := by
    have hsame : marked (m.toOmsState.snapshotTime snapshot) m.toOmsState.clock [] = id := by
      funext order
      simp [marked]
    rw [hstate, hsame, List.map_id]
    rfl
  have hmarked := markMissing_all hnumbered ((m.toOmsState.missing snapshot).map
    OrderRecord.logicalId) hnone
  refine hmarks.trans (hmarked.trans ?_)
  rw [List.nil_append, List.map_congr_left fun order horder =>
    marked_missing hnumbered h snapshot horder]

/-- In every reachable state with coherent identities, an incomplete listing reports
nothing and changes no order. A complete one is reported on in full; an order it omits
becomes unknown unless it was acknowledged after the listing was learned of, and nothing
else of any order changes. -/
theorem reconcile_reports_all (port : IExchangeExecution σ) (config : OmsConfig) (clock : Nanos)
    (venue : σ) (ops : List (Op σ)) (snapshot : VenueSnapshot)
    (hcoherent : IdentityCoherent (World.reached port config clock venue ops).oms.toOmsState) :
    (snapshot.isComplete = false →
      ((World.reached port config clock venue ops).oms.reconcile snapshot).1 =
          { performedNs := (World.reached port config clock venue ops).oms.clock } ∧
        ((World.reached port config clock venue ops).oms.reconcile snapshot).2.orders =
          (World.reached port config clock venue ops).oms.orders) ∧
    (snapshot.isComplete = true →
      ReportsAll (World.reached port config clock venue ops).oms.toOmsState snapshot
          ((World.reached port config clock venue ops).oms.reconcile snapshot).1 ∧
        ((World.reached port config clock venue ops).oms.reconcile snapshot).2.orders =
          (World.reached port config clock venue ops).oms.orders.map
            ((World.reached port config clock venue ops).oms.toOmsState.reconciled snapshot)) := by
  have hnumbered : (World.reached port config clock venue ops).oms.toOmsState.Numbered :=
    run_numbered port config clock venue ops
  constructor
  · intro hincomplete
    rw [reconcile, if_pos (by simp [hincomplete])]
    exact ⟨rfl, rfl⟩
  · intro hcomplete
    have hstate := reconcile_toOmsState hnumbered hcoherent hcomplete
    exact ⟨reconcile_reportsAll hcoherent hcomplete, congrArg OmsState.orders hstate⟩

namespace Sample

def acknowledgedOrder : List (Op Unit) := [.attachExecution, submitNew 10, ack '1' 'x']

/-- A complete listing of one order that is not ours. -/
def othersOnly : VenueSnapshot where
  orders :=
    [{ clientOrderId := clientId '9'
       exchangeOrderId := exchangeId 'z'
       symbol := .empty
       side := .buy
       price := amount 100
       originalQty := amount 5
       cumulativeQty := .zero
       status := .new
       transactNs := 0 }]
  isComplete := true
  receivedNs := 2

end Sample

theorem reconcile_reports_all_othersOnly :
    ReportsAll (World.reached Sample.acceptAll {} 1 () Sample.acknowledgedOrder).oms.toOmsState
        Sample.othersOnly
        ((World.reached Sample.acceptAll {} 1 () Sample.acknowledgedOrder).oms.reconcile
          Sample.othersOnly).1 ∧
      ((World.reached Sample.acceptAll {} 1 () Sample.acknowledgedOrder).oms.reconcile
          Sample.othersOnly).2.orders =
        (World.reached Sample.acceptAll {} 1 () Sample.acknowledgedOrder).oms.orders.map
          (OmsState.reconciled
            (World.reached Sample.acceptAll {} 1 () Sample.acknowledgedOrder).oms.toOmsState
            Sample.othersOnly) := by
  have hbinds : Machine.Along (step Sample.acceptAll)
      (fun op w => bindsExactly w.oms.toOmsState op = true) Sample.acknowledgedOrder
      (World.init {} 1 ()) := by decide +kernel
  have htracked := (IdentityTracked.init {} 1 ()).run Sample.acceptAll hbinds
  have hcoherent := identityCoherent htracked.numbered htracked.client htracked.exchange
  exact (reconcile_reports_all Sample.acceptAll {} 1 () Sample.acknowledgedOrder Sample.othersOnly
    hcoherent).2 rfl

end MmEngine.Oms
