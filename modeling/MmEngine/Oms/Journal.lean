/-
# The journal tells every order's state

Every change of state is journalled with the state it left and the state it
entered. State is written in three places, `transition`, `resolve` and the rebuild
after a restart, and self-loops are journalled in others. The records of one
order, leaving out quarantined events, are a path of legal transitions from
`created` to the state the order is in, so replaying the journal gives the states
of all orders.
-/

import MmEngine.Oms.Books
import MmEngine.Lib.Trace

namespace MmEngine.Oms

open MmEngine.Exchange MmEngine.Quote MmEngine.Risk OmsState OrderManager

variable {σ : Type}

/-- The journalled moves of an order, oldest first. -/
def OrderManager.history (m : OrderManager) (id : LogicalOrderId) : List OrderJournalRecord :=
  m.journal.filter fun record => record.logicalId = id && record.type ≠ .eventQuarantined

/-- The moves lead from `created` to the state, each leaving the state the one
before it entered. -/
def TellsState (moves : List OrderJournalRecord) (state : OrderState) : Prop :=
  moves ≠ [] ∧
    Trace.Leads (fun source target => isLegalTransition source target = true)
      OrderJournalRecord.fromState OrderJournalRecord.toState .created moves state

/-- The journal is in the order of its sequence numbers and tells the state of
every order. -/
structure Journalled (m : OrderManager) : Prop where
  increasing : m.journal.Pairwise fun earlier later => earlier.sequence < later.sequence
  reached : ∀ record ∈ m.journal, record.sequence ≤ m.journalSequence
  known : ∀ record ∈ m.journal, record.type ≠ .eventQuarantined →
    record.logicalId ≤ m.orders.length
  next : m.nextLogicalId = m.orders.length
  numbered : ∀ (i : Nat) (order : OrderRecord), m.orders[i]? = some order →
    order.logicalId = i + 1
  told : ∀ (i : Nat) (order : OrderRecord), m.orders[i]? = some order →
    TellsState (m.history order.logicalId) order.state

section Append

variable {m : OrderManager} {record : OrderJournalRecord} {id : LogicalOrderId}

theorem history_appendJournal_of_ne
    (h : record.logicalId ≠ id ∨ record.type = .eventQuarantined) :
    (m.appendJournal record).history id = m.history id := by
  rcases h with hid | htype
  · simp [OrderManager.history, OrderManager.appendJournal, hid]
  · simp [OrderManager.history, OrderManager.appendJournal, htype]

theorem history_appendJournal_self (hid : record.logicalId = id)
    (htype : record.type ≠ .eventQuarantined) :
    (m.appendJournal record).history id =
      m.history id ++
        [{ record with sequence := m.journalSequence + 1, recordedNs := m.clock }] := by
  simp [OrderManager.history, OrderManager.appendJournal, hid, htype]

end Append

namespace Journalled

variable {m after : OrderManager}

/-- A record is appended past all sequence numbers in use. -/
theorem appended (h : Journalled m) (record : OrderJournalRecord) :
    ((m.appendJournal record).journal.Pairwise fun earlier later =>
        earlier.sequence < later.sequence) ∧
      ∀ other ∈ (m.appendJournal record).journal,
        other.sequence ≤ (m.appendJournal record).journalSequence := by
  constructor
  · refine List.pairwise_append.mpr ⟨h.increasing, List.pairwise_singleton _ _, ?_⟩
    intro earlier hearlier later hlater
    rw [List.mem_singleton] at hlater
    subst hlater
    exact Nat.lt_succ_of_le (h.reached earlier hearlier)
  · intro other hother
    rcases List.mem_append.mp hother with hold | hnew
    · exact (h.reached other hold).trans (Nat.le_succ _)
    · rw [List.mem_singleton] at hnew
      subst hnew
      exact le_refl _

theorem same (h : Journalled m) (hsame : SameBooks m after) : Journalled after := by
  have hlength : after.orders.length = m.orders.length := by
    simpa using congrArg List.length hsame.states
  have hhistory : ∀ id, after.history id = m.history id := by
    intro id
    rw [OrderManager.history, hsame.journal]
    rfl
  have hback : ∀ (i : Nat) (order : OrderRecord), after.orders[i]? = some order →
      ∃ old, m.orders[i]? = some old ∧ old.logicalId = order.logicalId ∧
        old.state = order.state := by
    intro i order horder
    have hentry := congrArg (fun l => l[i]?) hsame.states
    simp only [List.getElem?_map, horder, Option.map_some] at hentry
    obtain ⟨old, hold, hpair⟩ := Option.map_eq_some_iff.mp hentry.symm
    exact ⟨old, hold, congrArg Prod.fst hpair, congrArg Prod.snd hpair⟩
  constructor
  · rw [hsame.journal]
    exact h.increasing
  · rw [hsame.journal, hsame.sequence]
    exact h.reached
  · rw [hsame.journal, hlength]
    exact h.known
  · rw [hsame.next, hlength, h.next]
  · intro i order horder
    obtain ⟨old, hold, hid, _⟩ := hback i order horder
    rw [← hid, h.numbered i old hold]
  · intro i order horder
    obtain ⟨old, hold, hid, hstate⟩ := hback i order horder
    rw [hhistory, ← hid, ← hstate]
    exact h.told i old hold

/-- A quarantined event is journalled and moves nothing. -/
theorem quarantined (h : Journalled m) (record : OrderJournalRecord)
    (htype : record.type = .eventQuarantined) : Journalled (m.appendJournal record) where
  increasing := (h.appended record).1
  reached := (h.appended record).2
  known := by
    intro other hother hmove
    rcases List.mem_append.mp hother with hold | hnew
    · exact h.known other hold hmove
    · rw [List.mem_singleton] at hnew
      subst hnew
      exact absurd htype hmove
  next := h.next
  numbered := h.numbered
  told := by
    intro i order horder
    rw [history_appendJournal_of_ne (.inr htype)]
    exact h.told i order horder

/-- A record that tells of the move it is appended with. -/
theorem recorded (h : Journalled m) {i : Nat} {old order : OrderRecord} {event : OrderEventType}
    (hold : m.orders[i]? = some old) (hid : order.logicalId = old.logicalId)
    (hlegal : isLegalTransition old.state order.state = true)
    (hevent : event ≠ .eventQuarantined) :
    Journalled ((m.store i order).journalOrder event order old.state order.state) := by
  have hlt : i < m.orders.length := (List.getElem?_eq_some_iff.mp hold).1
  have hback : ∀ (j : Nat) (other : OrderRecord), (m.orders.set i order)[j]? = some other →
      (j = i ∧ other = order) ∨ (j ≠ i ∧ m.orders[j]? = some other) := by
    intro j other hother
    by_cases hij : i = j
    · subst hij
      rw [List.getElem?_set_self hlt] at hother
      exact .inl ⟨rfl, (Option.some.inj hother).symm⟩
    · rw [List.getElem?_set_ne hij] at hother
      exact .inr ⟨Ne.symm hij, hother⟩
  have hnumber : order.logicalId = i + 1 := hid.trans (h.numbered i old hold)
  constructor
  · exact (h.appended _).1
  · exact (h.appended _).2
  · intro other hother hmove
    have hlength : (m.orders.set i order).length = m.orders.length := List.length_set
    rw [show ((m.store i order).journalOrder event order old.state order.state).orders.length =
      m.orders.length from hlength]
    rcases List.mem_append.mp hother with hpast | hnew
    · exact h.known other hpast hmove
    · rw [List.mem_singleton] at hnew
      subst hnew
      exact hnumber.trans_le hlt
  · exact h.next.trans List.length_set.symm
  · intro j other hother
    rcases hback j other hother with ⟨rfl, rfl⟩ | ⟨_, hsame⟩
    · exact hnumber
    · exact h.numbered j other hsame
  · intro j other hother
    rcases hback j other hother with ⟨rfl, rfl⟩ | ⟨hne, hsame⟩
    · obtain ⟨_, hleads⟩ := h.told j old hold
      rw [OrderManager.journalOrder, history_appendJournal_self rfl hevent]
      refine ⟨by simp, Trace.leads_concat.mpr ⟨?_, hlegal, rfl⟩⟩
      rw [hid]
      exact hleads
    · have hother : other.logicalId = j + 1 := h.numbered j other hsame
      rw [OrderManager.journalOrder, history_appendJournal_of_ne]
      · exact h.told j other hsame
      · left
        intro heq
        have hij : i + 1 = j + 1 := hnumber.symm.trans (heq.trans hother)
        exact hne (Nat.succ_injective hij).symm

/-- A new order is journalled as it is added. -/
theorem created (h : Journalled m) {order : OrderRecord}
    (hid : order.logicalId = m.nextLogicalId + 1) (hstate : order.state = .created) :
    Journalled ((m.onState fun s => s.addOrder order).journalOrder .created order .created
      .created) := by
  have hnumber : order.logicalId = m.orders.length + 1 := by rw [hid, h.next]
  have hlength : (m.orders ++ [order]).length = m.orders.length + 1 := by simp
  have hback : ∀ (j : Nat) (other : OrderRecord), (m.orders ++ [order])[j]? = some other →
      (j = m.orders.length ∧ other = order) ∨ m.orders[j]? = some other := by
    intro j other hother
    rw [List.getElem?_append] at hother
    split at hother
    · exact .inr hother
    · rename_i hge
      obtain ⟨hlt, heq⟩ := List.getElem?_eq_some_iff.mp hother
      have hzero : j - m.orders.length = 0 := by simpa using hlt
      refine .inl ⟨by omega, ?_⟩
      simpa [hzero] using heq.symm
  constructor
  · exact (h.appended _).1
  · exact (h.appended _).2
  · intro other hother hmove
    rw [show ((m.onState fun s => s.addOrder order).journalOrder .created order .created
      .created).orders.length = m.orders.length + 1 from hlength]
    rcases List.mem_append.mp hother with hpast | hnew
    · exact (h.known other hpast hmove).trans (Nat.le_succ _)
    · rw [List.mem_singleton] at hnew
      subst hnew
      exact hnumber.le
  · exact (congrArg (· + 1) h.next).trans hlength.symm
  · intro j other hother
    rcases hback j other hother with ⟨rfl, rfl⟩ | hsame
    · exact hnumber
    · exact h.numbered j other hsame
  · intro j other hother
    rcases hback j other hother with ⟨rfl, rfl⟩ | hsame
    · -- No earlier record names the new order.
      have hfirst : m.history other.logicalId = [] := by
        rw [OrderManager.history, List.filter_eq_nil_iff]
        intro record hrecord hmove
        simp only [Bool.and_eq_true, decide_eq_true_eq] at hmove
        have hknown := h.known record hrecord hmove.2
        rw [hmove.1, hnumber] at hknown
        exact absurd hknown (Nat.not_succ_le_self _)
      have hsame : (m.onState fun s => s.addOrder other).history other.logicalId = [] := hfirst
      rw [OrderManager.journalOrder, history_appendJournal_self rfl (by simp), hsame]
      refine ⟨by simp, Trace.leads_concat.mpr ⟨rfl, rfl, hstate.symm⟩⟩
    · have hother : other.logicalId = j + 1 := h.numbered j other hsame
      have hlt : j < m.orders.length := (List.getElem?_eq_some_iff.mp hsame).1
      rw [OrderManager.journalOrder, history_appendJournal_of_ne]
      · exact h.told j other hsame
      · left
        intro heq
        have hij : m.orders.length + 1 = j + 1 := hnumber.symm.trans (heq.trans hother)
        exact absurd (Nat.succ_injective hij) (Nat.ne_of_gt hlt)

end Journalled

theorem journalled_keepsBooks : KeepsBooks Journalled where
  same := fun h hsame => h.same hsame
  quarantined := fun record h htype => h.quarantined record htype
  recorded := fun h hold hid hlegal hevent => h.recorded hold hid hlegal hevent
  created := fun h hid hstate => h.created hid hstate

theorem journalled_init (config : OmsConfig) (clock : Nanos) :
    Journalled (OrderManager.init config clock) where
  increasing := .nil
  reached := fun _ hrecord => absurd hrecord List.not_mem_nil
  known := fun _ hrecord => absurd hrecord List.not_mem_nil
  next := rfl
  numbered := fun i order horder => by simp [OrderManager.init] at horder
  told := fun i order horder => by simp [OrderManager.init] at horder

/-- Along every run, restarts included, the journal is strictly increasing in its
sequence numbers, and the journalled moves of every order lead from `created` to
the state it is in. -/
theorem journal_tells_states (port : IExchangeExecution σ) (config : OmsConfig) (clock : Nanos)
    (venue : σ) (ops : List (Op σ)) :
    let m := (Machine.run (step port) ops (World.init config clock venue)).oms
    (m.journal.Pairwise fun earlier later => earlier.sequence < later.sequence) ∧
      ∀ order ∈ m.orders, TellsState (m.history order.logicalId) order.state := by
  intro m
  have hm : Journalled m :=
    journalled_keepsBooks.run port (w := World.init config clock venue)
      (journalled_init config clock) ops
  refine ⟨hm.increasing, fun order hmem => ?_⟩
  obtain ⟨i, horder⟩ := List.mem_iff_getElem?.mp hmem
  exact hm.told i order horder

end MmEngine.Oms
