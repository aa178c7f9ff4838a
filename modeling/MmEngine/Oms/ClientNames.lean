/-
# Client identities over time

`ClientIdentities` speaks of one state. Across states a client identity stays
where it was minted: the record at an index names an identity it named before, or
one minted since, whose sequence number is past all earlier ones. So an identity
seen once never becomes another order's, over any run and across restarts.
-/

import MmEngine.Oms.ClientIdentity

namespace MmEngine.Oms

open MmEngine.Exchange MmEngine.Quote MmEngine.Risk OmsState OrderManager

variable {σ : Type}

/-- The order answers to the identity, or holds it for its replacement. -/
def OrderRecord.Names (order : OrderRecord) (id : ClientOrderId) : Prop :=
  id.isEmpty = false ∧ (order.clientOrderId = id ∨ order.pendingClientOrderId = id)

theorem OrderRecord.KeepsClient.names {a b : OrderRecord} (h : a.KeepsClient b)
    {id : ClientOrderId} (hid : b.Names id) : a.Names id := by
  obtain ⟨hnonempty, hclient | hpending⟩ := hid
  · exact ⟨hnonempty, .inl (h.client.symm.trans hclient)⟩
  · rcases h.pending with hsame | hempty
    · exact ⟨hnonempty, .inr (hsame.symm.trans hpending)⟩
    · rw [hpending, hnonempty] at hempty
      cases hempty

/-- From one state to a later one the names in use are the old ones, where they
were, and ones minted since. -/
structure NamesGrow (s after : OmsState) : Prop where
  sequence : s.idGenerator.sequence ≤ after.idGenerator.sequence
  names : ∀ (i : Nat) (record : OrderRecord) (id : ClientOrderId),
    after.orders[i]? = some record → record.Names id →
      (∃ order, s.orders[i]? = some order ∧ order.Names id) ∨
        s.idGenerator.sequence < sequenceOf id.chars

namespace NamesGrow

variable {s middle after base : OmsState}

theorem refl (s : OmsState) : NamesGrow s s :=
  ⟨le_refl _, fun _ record _ hrecord hid => .inl ⟨record, hrecord, hid⟩⟩

theorem trans (h : NamesGrow s middle) (h' : NamesGrow middle after) : NamesGrow s after where
  sequence := h.sequence.trans h'.sequence
  names i record id hrecord hid := by
    rcases h'.names i record id hrecord hid with ⟨order, horder, hnamed⟩ | hminted
    · exact h.names i order id horder hnamed
    · exact .inr (h.sequence.trans_lt hminted)

/-- Records that keep their identities. -/
theorem rewrite (hsequence : s.idGenerator.sequence ≤ after.idGenerator.sequence)
    (hevolves : Table.Evolves (fun _ a b => a.KeepsClient b) (fun _ => False) s.orders
      after.orders) : NamesGrow s after where
  sequence := hsequence
  names i record id hrecord hid := by
    rcases hevolves.cases_entry hrecord with ⟨order, horder, hkeeps⟩ | ⟨_, hfalse⟩
    · exact .inl ⟨order, horder, hkeeps.names hid⟩
    · exact hfalse.elim

/-- One record rewritten. -/
theorem store {i : Nat} {order record : OrderRecord} (horder : s.orders[i]? = some order)
    (hbase : base.orders = s.orders)
    (hsequence : s.idGenerator.sequence ≤ base.idGenerator.sequence)
    (hnames : ∀ id, record.Names id → order.Names id ∨
      s.idGenerator.sequence < sequenceOf id.chars) : NamesGrow s (base.store i record) where
  sequence := hsequence
  names j other id hother hid := by
    rw [OmsState.store, hbase] at hother
    by_cases hij : i = j
    · subst hij
      rw [List.getElem?_set_self (List.getElem?_eq_some_iff.mp horder).1] at hother
      cases hother
      rcases hnames id hid with hold | hminted
      · exact .inl ⟨order, horder, hold⟩
      · exact .inr hminted
    · rw [List.getElem?_set_ne hij] at hother
      exact .inl ⟨other, hother, hid⟩

end NamesGrow

section Step

variable {s after base : OmsState} {observed : List Observation}

theorem OmsState.NewOutcome.namesGrow {action : OrderAction}
    (h : NewOutcome s action after observed) : NamesGrow s after := by
  cases h with
  | refused => exact .refl s
  | burned => exact .rewrite (by simp [OmsState.burnClientId]) (.refl (fun _ a => .refl a) _)
  | deferred => exact .rewrite (le_refl _) (.refl (fun _ a => .refl a) _)
  | @created clientId record base _ _ _ hid _ hrecord =>
      obtain ⟨hnext, _⟩ := ClientOrderIdGenerator.next_eq_some hid
      have hkeeps := hrecord.keepsClient
      have hbase : base.orders = s.orders ∧
          base.idGenerator.sequence = s.idGenerator.sequence + 1 := by
        rcases hrecord.base_eq with rfl | rfl <;>
          exact ⟨rfl, ClientOrderIdGenerator.next_sequence _⟩
      refine ⟨by simp [OmsState.addOrder, hbase.2], fun i other id hother hnames => ?_⟩
      rw [OmsState.addOrder, hbase.1, List.getElem?_append] at hother
      split at hother
      · exact .inl ⟨other, hother, hnames⟩
      · -- The new record names the identity minted for it and no other.
        have hsame : other = record := by
          have hmem := List.mem_of_getElem? hother
          exact List.mem_singleton.mp hmem
        subst hsame
        obtain ⟨hnonempty, hclient | hpending⟩ := hkeeps.names hnames
        · have hid : clientId = id := hclient
          rw [← hid, hnext]
          exact .inr (Nat.lt_succ_self _)
        · rw [← hpending] at hnonempty
          cases hnonempty

theorem OmsState.RequestEdit.namesGrow {action : OrderAction} {i : Nat}
    {order record : OrderRecord} (h : RequestEdit s action order record base observed)
    (horder : s.orders[i]? = some order) : NamesGrow s (base.store i record) := by
  obtain ⟨hbase, _, hgrown, hkeeps | ⟨hsame, _, hnext, _⟩⟩ := h.client_cases
  · exact .store horder hbase hgrown fun _ hid => .inl (hkeeps.names hid)
  · refine .store horder hbase hgrown ?_
    rintro id ⟨hnonempty, hclient | hpending⟩
    · exact .inl ⟨hnonempty, .inl (hsame.symm.trans hclient)⟩
    · rw [← hpending, hnext]
      exact .inr (Nat.lt_succ_self _)

/-- An accepted replace moves the order to the identity it held. -/
theorem swapIdentity_names {order swapped : OrderRecord} {replace : OrderReplaceEvent}
    (h : s.swapIdentity order replace = (base, swapped)) {id : ClientOrderId}
    (hid : swapped.Names id) : order.Names id := by
  cases hindex : s.byLogicalId.lookup order.logicalId with
  | none =>
      rw [swapIdentity_unindexed hindex] at h
      cases h
      exact hid
  | some index =>
      rw [swapIdentity_eq hindex] at h
      cases h
      obtain ⟨hnonempty, hclient | hpending⟩ := hid
      · dsimp only at hclient
        split at hclient
        · exact ⟨hnonempty, .inl hclient⟩
        · exact ⟨hnonempty, .inr hclient⟩
      · exact ⟨hnonempty, .inr hpending⟩

theorem OmsState.EventEdit.names {order edited : OrderRecord} {event : ExecutionEvent}
    {target : OrderState} {answers resolves : Bool}
    (h : EventEdit s order event edited target answers resolves base) {id : ClientOrderId}
    (hid : edited.Names id) : order.Names id := by
  cases h with
  | ack _ _ hbind =>
      rcases bindExchangeId_eq_some hbind with
        ⟨_, rfl, rfl⟩ | ⟨_, rfl, _, ⟨_, rfl⟩ | ⟨_, _, rfl⟩⟩
      all_goals exact hid
  | replaceAccepted _ hswap =>
      obtain ⟨hnonempty, hclient | hpending⟩ := hid
      · exact swapIdentity_names hswap ⟨hnonempty, .inl hclient⟩
      · rw [← hpending] at hnonempty
        cases hnonempty
  | fillComplete _ _ hbook | fillPartial _ _ hbook =>
      rw [(bookFill_eq_ok hbook).2.2] at hid
      exact hid
  | replaceUnknown | replaceRefused =>
      obtain ⟨hnonempty, hclient | hpending⟩ := hid
      · exact ⟨hnonempty, .inl hclient⟩
      · rw [← hpending] at hnonempty
        cases hnonempty
  | reject | fillRefused | cancelAccepted | cancelRejected | cancelTooLate | cancelUnknown
  | failureNotSent | failureUnknown => exact hid

theorem PrimaryOutcome.namesGrow {op : Op σ} {resolved : Option LogicalOrderId}
    (h : PrimaryOutcome s op after resolved observed) : NamesGrow s after := by
  have hsame : ∀ order : OrderRecord, order.KeepsClient order := .refl
  cases h with
  | submit h =>
      cases h with
      | refused => exact .refl s
      | burned => exact .rewrite (by simp [OmsState.burnClientId]) (.refl (fun _ => hsame) _)
      | new _ _ houtcome => exact houtcome.namesGrow
      | edited _ hfound _ hedit => exact hedit.namesGrow (findTarget_getElem hfound)
  | apply h =>
      cases h with
      | discarded => exact .refl s
      | edited _ hfound _ hedit =>
          obtain ⟨_, _, rfl⟩ := hedit.base_eq
          refine .store (findSubject_getElem hfound) rfl (le_refl _) fun id hid => .inl ?_
          apply hedit.names
          obtain ⟨hnonempty, hclient | hpending⟩ := hid
          · exact ⟨hnonempty, .inl (by rwa [OrderRecord.transition_clientOrderId] at hclient)⟩
          · exact ⟨hnonempty,
              .inr (by rwa [OrderRecord.transition_pendingClientOrderId] at hpending)⟩
  | onTimer =>
      refine .rewrite (le_refl _) (.map fun _ order _ => ?_)
      unfold OrderRecord.swept
      split
      · exact (hsame order).settled.transition _ _
      · exact hsame order
  | reconcile h =>
      refine .rewrite (le_refl _) (h.mono ?_ fun _ hfalse => hfalse)
      rintro _ before record _ (rfl | ⟨_, rfl | ⟨_, _, rfl⟩⟩)
      · exact hsame _
      · exact hsame _
      · exact (hsame before).transition _ _
  | resolve h =>
      cases h with
      | refused => exact .refl s
      | concluded hfound =>
          refine .rewrite (le_refl _) (.set (fun _ => hsame) (findById_eq_some_iff.mp hfound).2 ?_)
          unfold concluded
          split <;> exact ⟨rfl, .inl rfl⟩
  | attachExecution | advance | venue | restartRefused =>
      exact .rewrite (le_refl _) (.refl (fun _ => hsame) _)
  | restarted =>
      refine .rewrite (le_refl _) ?_
      rw [restarted_orders]
      apply Table.Evolves.map
      intro _ order _
      unfold recovered
      split
      · exact ⟨rfl, .inl rfl⟩
      · exact hsame order

end Step

theorem step_namesGrow (port : IExchangeExecution σ) (op : Op σ) {w : World σ}
    (hnumbered : w.oms.toOmsState.Numbered) :
    NamesGrow w.oms.toOmsState (step port op w).oms.toOmsState := by
  obtain ⟨_, _, houtcome⟩ := primary_outcome port op w hnumbered
  apply release_keeps port _ _ _ houtcome.namesGrow
  · intro s entry hs
    exact hs.trans (.rewrite (le_refl _) (.refl (fun _ order => .refl order) _))
  · exact fun _ _ _ _ hs hnew => hs.trans hnew.namesGrow

/-- Names only grow, over any run. -/
theorem run_namesGrow (port : IExchangeExecution σ) (ops : List (Op σ)) {w : World σ}
    (hnumbered : w.oms.toOmsState.Numbered) :
    NamesGrow w.oms.toOmsState (Machine.run (step port) ops w).oms.toOmsState :=
  Machine.relation_run (R := fun w w' : World σ => NamesGrow w.oms.toOmsState w'.oms.toOmsState)
    (fun _ => .refl _) (fun _ _ _ => .trans) (step_numbered port)
    (fun op _ => step_namesGrow port op) ops hnumbered

/-- An identity an order answers to is never another order's afterwards. -/
theorem index_eq_of_clientOrderId (port : IExchangeExecution σ) (ops : List (Op σ)) {w : World σ}
    (hw : ClientTracked w) {i j : Nat} {order record : OrderRecord}
    (horder : w.oms.orders[i]? = some order)
    (hrecord : (Machine.run (step port) ops w).oms.orders[j]? = some record)
    (hid : record.clientOrderId = order.clientOrderId) : j = i := by
  have hminted := hw.client.minted i order horder
  have hnames : record.Names order.clientOrderId := ⟨hminted.1, .inl hid⟩
  rcases (run_namesGrow port ops hw.numbered).names j record _ hrecord hnames with
    ⟨old, hold, _, hclient | hpending⟩ | hlater
  · exact hw.client.unique hold horder hclient
  · have hheld : old.pendingClientOrderId.isEmpty = false := by
      rw [hpending]
      exact hminted.1
    exact absurd hpending.symm (hw.client.unshared j i old order hold horder hheld).1
  · exact absurd hminted.2 (Nat.not_le.mpr hlater)

end MmEngine.Oms
