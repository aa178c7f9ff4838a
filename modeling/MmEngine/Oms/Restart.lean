/-
# Restart recovery

A restart hands the records and four counters to a fresh order manager, which
rebuilds its three indices from the records and distrusts every request in flight.
When the old indices were exact the new ones find the same records, and no
identifier of the earlier life is produced again: the counters resume where they
stopped, and the text of a client identity gives its sequence number back whatever
session minted it.
-/

import MmEngine.Oms.Identity
import MmEngine.Oms.ClientNames
import MmEngine.Oms.Storage
import MmEngine.Oms.Journal

namespace MmEngine.Oms

open MmEngine.Exchange MmEngine.Quote MmEngine.Risk OmsState OrderManager

variable {σ : Type}

/-- The records of the earlier life under their three identities, those with a
request in flight distrusted. -/
structure Restored (before after : OmsState) : Prop where
  records : after.orders = before.orders.map recovered
  byLogicalId : ∀ id, after.findById id =
    (before.findById id).map fun found => (found.1, recovered found.2)
  byClientId : ∀ id, after.findByClientId id =
    (before.findByClientId id).map fun found => (found.1, recovered found.2)
  byExchangeId : ∀ id, after.findByExchangeId id =
    (before.findByExchangeId id).map fun found => (found.1, recovered found.2)

/-- Two lookups that find the records with a property, in the records and in the
recovered ones, find the same. -/
theorem find_recovered {orders : List OrderRecord} {P : OrderRecord → Prop}
    {before after : Option (Nat × OrderRecord)}
    (hbefore : ∀ i order, before = some (i, order) ↔ orders[i]? = some order ∧ P order)
    (hafter : ∀ i record, after = some (i, record) ↔
      (orders.map recovered)[i]? = some record ∧ P record)
    (hP : ∀ order, P (recovered order) ↔ P order) :
    after = before.map fun found => (found.1, recovered found.2) := by
  apply Option.ext
  rintro ⟨i, record⟩
  rw [hafter, List.getElem?_map]
  simp only [Option.map_eq_some_iff, Prod.mk.injEq]
  constructor
  · rintro ⟨⟨order, horder, rfl⟩, hrecord⟩
    exact ⟨(i, order), (hbefore i order).mpr ⟨horder, (hP order).mp hrecord⟩, rfl, rfl⟩
  · rintro ⟨⟨j, order⟩, hfound, rfl, rfl⟩
    obtain ⟨horder, hproperty⟩ := (hbefore j order).mp hfound
    exact ⟨⟨order, horder, rfl⟩, (hP order).mpr hproperty⟩

section Identities

variable (order : OrderRecord)

theorem recovered_logicalId : (recovered order).logicalId = order.logicalId :=
  (recovered_sameOrder order).logicalId

theorem recovered_clientOrderId : (recovered order).clientOrderId = order.clientOrderId := by
  unfold recovered
  split <;> rfl

theorem recovered_exchangeOrderId :
    (recovered order).exchangeOrderId = order.exchangeOrderId := by
  unfold recovered
  split <;> rfl

end Identities

theorem ExchangeIndexed.findByExchangeId_iff {s : OmsState} (h : ExchangeIndexed s)
    {id : ExchangeOrderId} {i : Nat} {order : OrderRecord} :
    s.findByExchangeId id = some (i, order) ↔
      s.orders[i]? = some order ∧ order.exchangeOrderId = id ∧ id.isEmpty = false := by
  rw [findByExchangeId_eq_some_iff, h.lookup_iff]
  constructor
  · rintro ⟨⟨found, hfound, hid⟩, horder⟩
    rw [horder] at hfound
    cases hfound
    exact ⟨horder, hid⟩
  · rintro ⟨horder, hid⟩
    exact ⟨⟨order, horder, hid⟩, horder⟩

theorem OmsState.Numbered.findById_own_iff {s : OmsState} (h : s.Numbered)
    {id : LogicalOrderId} {i : Nat} {order : OrderRecord} :
    s.findById id = some (i, order) ↔ s.orders[i]? = some order ∧ order.logicalId = id := by
  rw [h.findById_iff]
  constructor
  · rintro ⟨hid, horder⟩
    exact ⟨horder, (h.logicalId i order horder).trans hid.symm⟩
  · rintro ⟨horder, hid⟩
    exact ⟨hid.symm.trans (h.logicalId i order horder), horder⟩

/-- Exact indices are rebuilt as they were. -/
theorem restored_restarted {s : OmsState} (hnumbered : s.Numbered) (hclient : ClientIdentities s)
    (hexchange : ExchangeIndexed s) (config : OmsConfig) : Restored s (restarted s config) where
  records := restarted_orders s config
  byLogicalId id := by
    apply find_recovered (P := fun order => order.logicalId = id)
    · exact fun i order => hnumbered.findById_own_iff
    · intro i record
      rw [← restarted_orders s config]
      exact (hnumbered.restarted config).findById_own_iff
    · intro order
      rw [recovered_logicalId]
  byClientId id := by
    apply find_recovered (P := fun order => order.clientOrderId = id)
    · exact fun i order => hclient.findByClientId_iff
    · intro i record
      rw [← restarted_orders s config]
      exact (hclient.restarted config).findByClientId_iff
    · intro order
      rw [recovered_clientOrderId]
  byExchangeId id := by
    apply find_recovered (P := fun order => order.exchangeOrderId = id ∧ id.isEmpty = false)
    · exact fun i order => hexchange.findByExchangeId_iff
    · intro i record
      rw [← restarted_orders s config]
      exact (hexchange.restarted config).findByExchangeId_iff
    · intro order
      rw [recovered_exchangeOrderId]

/-- The identifiers that are drawn from a counter. -/
inductive IdKind
  | logical
  | request
  | journal
  /-- The sequence number in the text of a client order id. -/
  | client

/-- The counter an identifier is drawn from. Its next value is the next
identifier. -/
def OrderManager.drawn (kind : IdKind) (m : OrderManager) : Nat :=
  match kind with
  | .logical => m.nextLogicalId
  | .request => m.nextRequestId
  | .journal => m.journalSequence
  | .client => m.idGenerator.sequence

/-- The step produces the identifier. -/
def Produces (port : IExchangeExecution σ) (kind : IdKind) (n : Nat) : Op σ → World σ → Prop :=
  Machine.Draws (step port) (fun w => w.oms.drawn kind) n

/-- The step produces the client order id: its text is the prefix and session of
the generator with a sequence number the step draws. -/
def Mints (port : IExchangeExecution σ) (id : ClientOrderId) (op : Op σ) (w : World σ) : Prop :=
  ∃ n, Produces port .client n op w ∧ id.chars = w.oms.idGenerator.idText n

theorem Mints.produces {port : IExchangeExecution σ} {id : ClientOrderId} {op : Op σ}
    {w : World σ} (h : Mints port id op w) :
    Produces port .client (sequenceOf id.chars) op w := by
  obtain ⟨n, hdrawn, htext⟩ := h
  rw [htext, sequenceOf_idText]
  exact hdrawn

section Counters

variable {s after : OmsState} {observed : List Observation}

theorem OmsState.NewOutcome.nextRequestId_le {action : OrderAction}
    (h : NewOutcome s action after observed) : s.nextRequestId ≤ after.nextRequestId := by
  cases h with
  | refused | burned | deferred => exact le_refl _
  | created _ _ _ _ hrecord =>
      rcases hrecord.base_eq with rfl | rfl
      · exact le_refl _
      · exact Nat.le_succ _

/-- Request identifiers are taken and never given back. -/
theorem PrimaryOutcome.nextRequestId_le {op : Op σ} {resolved : Option LogicalOrderId}
    (h : PrimaryOutcome s op after resolved observed) :
    s.nextRequestId ≤ after.nextRequestId := by
  cases h with
  | submit h =>
      cases h with
      | refused | burned => exact le_refl _
      | new _ _ houtcome => exact houtcome.nextRequestId_le
      | edited _ _ _ hedit =>
          rcases hedit.base_eq with rfl | rfl | rfl
          · exact le_refl _
          · exact Nat.le_succ _
          · exact Nat.le_succ _
  | apply h =>
      cases h with
      | discarded => exact le_refl _
      | edited _ _ _ hedit =>
          obtain ⟨_, _, rfl⟩ := hedit.base_eq
          exact le_refl _
  | resolve h => cases h <;> exact le_refl _
  | onTimer | reconcile | attachExecution | advance | venue | restartRefused | restarted =>
      exact le_refl _

end Counters

theorem step_nextRequestId_le (port : IExchangeExecution σ) (op : Op σ) {w : World σ}
    (hnumbered : w.oms.toOmsState.Numbered) :
    w.oms.nextRequestId ≤ (step port op w).oms.nextRequestId := by
  obtain ⟨_, _, houtcome⟩ := primary_outcome port op w hnumbered
  apply release_keeps (I := fun s => w.oms.nextRequestId ≤ s.nextRequestId) port _ _ _
    houtcome.nextRequestId_le
  · exact fun _ _ hs => hs
  · exact fun _ _ _ _ hs hnew => hs.trans hnew.nextRequestId_le

theorem journalSequence_keepsBooks (n : Nat) :
    KeepsBooks fun m => n ≤ m.journalSequence where
  same h hsame := by rwa [hsame.sequence]
  quarantined _ h _ := h.trans (Nat.le_succ _)
  recorded h _ _ _ _ := h.trans (Nat.le_succ _)
  created h _ _ := h.trans (Nat.le_succ _)

/-- No counter goes back, in any step. -/
theorem step_drawn_le (port : IExchangeExecution σ) (kind : IdKind) (op : Op σ) {w : World σ}
    (hnumbered : w.oms.toOmsState.Numbered) :
    w.oms.drawn kind ≤ (step port op w).oms.drawn kind := by
  cases kind with
  | logical =>
      have hheld : Held (fun _ => True) w.oms.toOmsState := fun _ _ _ => trivial
      have hgrows := (step_evolves port op w hnumbered hheld (admits_true op)).length_le
      simp only [OrderManager.drawn]
      rw [hnumbered.next, (step_numbered port op w hnumbered).next]
      exact hgrows
  | request => exact step_nextRequestId_le port op hnumbered
  | journal => exact (journalSequence_keepsBooks w.oms.journalSequence).step port (le_refl _) op
  | client => exact (step_namesGrow port op hnumbered).sequence

theorem sometime_produces_iff (port : IExchangeExecution σ) (kind : IdKind) {ops : List (Op σ)}
    {w : World σ} (hnumbered : w.oms.toOmsState.Numbered) {n : Nat} :
    Machine.Sometime (step port) (Produces port kind n) ops w ↔
      w.oms.drawn kind < n ∧ n ≤ (Machine.run (step port) ops w).oms.drawn kind :=
  Machine.sometime_draws_iff (J := fun w : World σ => w.oms.toOmsState.Numbered)
    (fun op w => step_numbered port op w) (fun op _ hw => step_drawn_le port kind op hw) hnumbered

/-- What one part of a run produces, the next part does not. -/
theorem produced_apart (port : IExchangeExecution σ) (kind : IdKind) {prior later : List (Op σ)}
    {w : World σ} (hnumbered : w.oms.toOmsState.Numbered) {n n' : Nat}
    (hprior : Machine.Sometime (step port) (Produces port kind n) prior w)
    (hlater : Machine.Sometime (step port) (Produces port kind n') later
      (Machine.run (step port) prior w)) : n ≠ n' := by
  have hreached := ((sometime_produces_iff port kind hnumbered).mp hprior).2
  have hnumbered' : (Machine.run (step port) prior w).oms.toOmsState.Numbered :=
    Machine.invariant_run_always (I := fun w : World σ => w.oms.toOmsState.Numbered)
      (step_numbered port) prior hnumbered
  have hpast := ((sometime_produces_iff port kind hnumbered').mp hlater).1
  exact Nat.ne_of_lt (hreached.trans_lt hpast)

theorem journalSequences_keepsBooks :
    KeepsBooks fun m => ∀ record ∈ m.journal,
      0 < record.sequence ∧ record.sequence ≤ m.journalSequence := by
  have happended : ∀ {m : OrderManager} (record : OrderJournalRecord),
      (∀ record ∈ m.journal, 0 < record.sequence ∧ record.sequence ≤ m.journalSequence) →
        ∀ other ∈ (m.appendJournal record).journal,
          0 < other.sequence ∧ other.sequence ≤ (m.appendJournal record).journalSequence := by
    intro m record h other hother
    rcases List.mem_append.mp hother with hold | hnew
    · exact ⟨(h other hold).1, (h other hold).2.trans (Nat.le_succ _)⟩
    · rw [List.mem_singleton.mp hnew]
      exact ⟨Nat.succ_pos _, le_refl _⟩
  exact {
    same := fun h hsame => by rwa [hsame.journal, hsame.sequence]
    quarantined := fun record h _ => happended record h
    recorded := fun h _ _ _ _ => happended _ h
    created := fun h _ _ => happended _ h }

/-- The identifiers that the records and the journal carry were all produced by the run. -/
structure Carried (port : IExchangeExecution σ) (ops : List (Op σ)) (start : World σ)
    (m : OrderManager) : Prop where
  orders : ∀ order ∈ m.orders,
    Machine.Sometime (step port) (Produces port .logical order.logicalId) ops start ∧
      Machine.Sometime (step port) (Produces port .client (sequenceOf order.clientOrderId.chars))
        ops start
  journal : ∀ record ∈ m.journal,
    Machine.Sometime (step port) (Produces port .journal record.sequence) ops start

theorem carried_run (port : IExchangeExecution σ) (config : OmsConfig) (clock : Nanos)
    (venue : σ) (ops : List (Op σ)) :
    let start := World.init config clock venue
    Carried port ops start (Machine.run (step port) ops start).oms := by
  intro start
  let m := (Machine.run (step port) ops start).oms
  have hstart : start.oms.toOmsState.Numbered := numbered_init config clock
  have hm : ClientTracked (Machine.run (step port) ops start) :=
    run_clientTracked port config clock venue ops
  refine ⟨fun order hmem => ?_, fun record hrecord => ?_⟩
  · obtain ⟨i, horder⟩ := List.mem_iff_getElem?.mp hmem
    have hminted := hm.client.minted i order horder
    refine ⟨(sometime_produces_iff port .logical hstart).mpr ?_,
      (sometime_produces_iff port .client hstart).mpr ⟨?_, hminted.2⟩⟩
    · have hlt : i < m.orders.length := (List.getElem?_eq_some_iff.mp horder).1
      have hnext : m.nextLogicalId = m.orders.length := hm.numbered.next
      rw [hm.numbered.logicalId i order horder]
      exact ⟨Nat.succ_pos i, (Nat.succ_le_of_lt hlt).trans_eq hnext.symm⟩
    · -- No record of the first state names it, so it was minted since.
      rcases (run_namesGrow port ops hstart).names i order _ horder ⟨hminted.1, .inl rfl⟩ with
        ⟨_, hold, _⟩ | hlater
      · cases hold
      · exact hlater
  · refine (sometime_produces_iff port .journal hstart).mpr ?_
    exact journalSequences_keepsBooks.run port (w := start)
      (fun _ hnone => absurd hnone List.not_mem_nil) ops record hrecord

/-! ## The restart -/

/-- A snapshot that fits is restored, under any session and prefix. -/
theorem restart_restored {m : OrderManager} {config : OmsConfig} (hnumbered : m.toOmsState.Numbered)
    (hclient : ClientIdentities m.toOmsState) (hexchange : ExchangeIndexed m.toOmsState)
    (hroom : m.orders.length ≤ config.maxOrders) :
    (m.restart config).1 = .ok ∧ Restored m.toOmsState (m.restart config).2.toOmsState := by
  rcases restart_outcome m config with ⟨_, hfull⟩ | ⟨hok, _, hstate⟩
  · exact absurd hroom (Nat.not_le.mpr hfull)
  · rw [hstate]
    exact ⟨hok, restored_restarted hnumbered hclient hexchange config⟩

/-- In every state a run reaches the logical and the client index are exact. Where
the venue index is too, a restart into a table no smaller finds every record under
the identities it had, and no identifier that the run produced, as it did all those of
the records and the journal, is produced again, by the restart or by any run after it. -/
theorem restart_recovers (port : IExchangeExecution σ) (config restartConfig : OmsConfig)
    (clock : Nanos) (venue : σ) (prior : List (Op σ)) {w : World σ}
    (hw : w = Machine.run (step port) prior (World.init config clock venue))
    (hexchange : ExchangeIndexed w.oms.toOmsState)
    (hroom : w.oms.config.maxOrders ≤ restartConfig.maxOrders) :
    (w.oms.restart restartConfig).1 = .ok ∧
      Restored w.oms.toOmsState (w.oms.restart restartConfig).2.toOmsState ∧
      Carried port prior (World.init config clock venue) w.oms ∧
      ∀ later : List (Op σ),
        (∀ kind n n',
          Machine.Sometime (step port) (Produces port kind n) prior
            (World.init config clock venue) →
          Machine.Sometime (step port) (Produces port kind n') (.restart restartConfig :: later) w →
          n ≠ n') ∧
        ∀ id id',
          Machine.Sometime (step port) (Mints port id) prior (World.init config clock venue) →
          Machine.Sometime (step port) (Mints port id') (.restart restartConfig :: later) w →
          id ≠ id' := by
  subst hw
  have hstored := Machine.invariant_run_always (I := Stored (σ := σ))
    (fun op _ hw => hw.step port op) prior (Stored.init config clock venue)
  have hclient := (run_clientTracked port config clock venue prior).client
  obtain ⟨hok, hrestored⟩ := restart_restored hstored.numbered hclient hexchange
    (hstored.bounded.trans hroom)
  have hstart := numbered_init config clock
  refine ⟨hok, hrestored, carried_run port config clock venue prior,
    fun later => ⟨fun kind n n' hprior hlater => ?_, ?_⟩⟩
  · exact produced_apart port kind hstart hprior hlater
  · rintro id _ hprior hlater rfl
    have hfirst := hprior.mono fun _ _ hmints => hmints.produces
    have hsecond := hlater.mono fun _ _ hmints => hmints.produces
    exact produced_apart port .client hstart hfirst hsecond rfl

/-- One order acknowledged, one in flight, and a restart under another session. -/
theorem restart_recovers_in_flight :
    let w := Sample.after [.attachExecution, Sample.submitNew 10, Sample.ack '1' 'x',
      Sample.submitNew 10]
    (w.oms.restart { sessionId := 1 }).1 = .ok ∧
      Restored w.oms.toOmsState (w.oms.restart { sessionId := 1 }).2.toOmsState := by
  intro w
  have htracked : IdentityTracked w :=
    (IdentityTracked.init {} 1 ()).run Sample.acceptAll (by decide +kernel)
  have hrecovers := restart_recovers Sample.acceptAll {} { sessionId := 1 } 1 () _ (w := w) rfl
    htracked.exchange (by decide +kernel)
  exact ⟨hrecovers.1, hrecovers.2.1⟩

end MmEngine.Oms
