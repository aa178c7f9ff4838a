/-
# Identities

An order is found by three identities: the logical one, which never changes, the
client identity, which an accepted replace exchanges for one the order manager
minted, and the venue identity, which an acknowledgement binds and a replace may
change. The indices should hold exactly these.

Client identities cannot collide. Venue identities come from outside: an
acknowledgement refuses one that another order carries, but a replace takes over
whatever it is given, and an acknowledgement that rebinds an order leaves its old
identity in the index.
-/

import MmEngine.Oms.ClientIdentity

namespace MmEngine.Oms

open MmEngine.Exchange MmEngine.Quote MmEngine.Risk OmsState OrderManager

variable {σ : Type}

/-- The indices map every record's own identities to the record, no two records
share one, and a lookup returns a record that carries the identity asked for. -/
structure IdentityCoherent (s : OmsState) : Prop where
  own : ∀ (i : Nat) (order : OrderRecord), s.orders[i]? = some order →
    s.byLogicalId.lookup order.logicalId = some i ∧
      s.byClientId.lookup order.clientOrderId = some i ∧
      (order.exchangeOrderId.isEmpty = false →
        s.byExchangeId.lookup order.exchangeOrderId = some i)
  clientUnique : ∀ (i j : Nat) (a b : OrderRecord), s.orders[i]? = some a →
    s.orders[j]? = some b → a.clientOrderId = b.clientOrderId → i = j
  exchangeUnique : ∀ (i j : Nat) (a b : OrderRecord), s.orders[i]? = some a →
    s.orders[j]? = some b → a.exchangeOrderId = b.exchangeOrderId →
      a.exchangeOrderId.isEmpty = false → i = j
  findById : ∀ (id : LogicalOrderId) (i : Nat) (order : OrderRecord),
    s.findById id = some (i, order) → order.logicalId = id
  findByClientId : ∀ (id : ClientOrderId) (i : Nat) (order : OrderRecord),
    s.findByClientId id = some (i, order) → order.clientOrderId = id
  findByExchangeId : ∀ (id : ExchangeOrderId) (i : Nat) (order : OrderRecord),
    s.findByExchangeId id = some (i, order) → order.exchangeOrderId = id

/-- The events that leave the venue index exact. A first acknowledgement names
the venue identity the order has, if it has one, and an accepted replace gives
the order an identity no other order is found by. -/
def OmsState.eventBinds (s : OmsState) (i : Nat) (order : OrderRecord) : ExecutionEvent → Bool
  | .orderAck ack =>
      !s.ackIsNews order ack || ack.exchangeOrderId.isEmpty || order.exchangeOrderId.isEmpty ||
        order.exchangeOrderId = ack.exchangeOrderId
  | .orderReplace replace =>
      !replace.accepted || replace.newExchangeOrderId.isEmpty ||
        (s.byExchangeId.lookup replace.newExchangeOrderId).all fun bound => bound = i
  | _ => true

/-- The steps that keep identities and indices together. -/
def bindsExactly (s : OmsState) : Op σ → Bool
  | .apply event =>
      (validateExecutionEvent event).isError ||
        (s.findSubject event).all fun found =>
          found.2.isTerminal || s.eventBinds found.1 found.2 event
  | _ => true

/-- The venue index is exact. -/
def ExchangeIndexed (s : OmsState) : Prop := Index.Indexes exchangeKey s.orders s.byExchangeId

theorem exchangeKey_eq_some_iff {order : OrderRecord} {id : ExchangeOrderId} :
    exchangeKey order = some id ↔ order.exchangeOrderId = id ∧ id.isEmpty = false :=
  InlineString.nonempty_eq_some_iff

theorem ExchangeIndexed.lookup_iff {s : OmsState} (h : ExchangeIndexed s) {id : ExchangeOrderId}
    {i : Nat} :
    s.byExchangeId.lookup id = some i ↔
      ∃ order, s.orders[i]? = some order ∧ order.exchangeOrderId = id ∧ id.isEmpty = false := by
  rw [h, Option.bind_eq_some_iff]
  simp only [exchangeKey_eq_some_iff]

/-- Exact indices and the numbering give coherence. -/
theorem identityCoherent {s : OmsState} (hs : s.Numbered) (hclient : ClientIdentities s)
    (hexchange : ExchangeIndexed s) : IdentityCoherent s where
  own i order horder :=
    ⟨hs.lookup_own horder, hclient.lookup_own horder,
      fun hid => hexchange.lookup_iff.mpr ⟨order, horder, rfl, hid⟩⟩
  clientUnique i j a b ha hb heq := hclient.unique ha hb heq
  exchangeUnique i j a b ha hb heq hid := by
    apply hexchange.unique (k := a.exchangeOrderId)
    · rw [ha, Option.bind_some, exchangeKey_eq_some_iff]
      exact ⟨rfl, hid⟩
    · rw [hb, Option.bind_some, exchangeKey_eq_some_iff]
      exact ⟨heq.symm, hid⟩
  findById id i order hfound := by
    obtain ⟨rfl, horder⟩ := hs.findById_iff.mp hfound
    exact hs.logicalId i order horder
  findByClientId id i order hfound := (hclient.findByClientId_iff.mp hfound).2
  findByExchangeId id i order hfound := by
    obtain ⟨hlookup, horder⟩ := findByExchangeId_eq_some_iff.mp hfound
    obtain ⟨found, hfound, hid, _⟩ := hexchange.lookup_iff.mp hlookup
    rw [horder] at hfound
    cases hfound
    exact hid

section Step

variable {s after base : OmsState} {observed : List Observation}

/-- Records edited in place under their venue identities. -/
theorem ExchangeIndexed.rewrite (hs : ExchangeIndexed s)
    (hexchange : after.byExchangeId = s.byExchangeId)
    (hevolves : Table.Evolves (fun _ a b => b.exchangeOrderId = a.exchangeOrderId)
      (fun _ => False) s.orders after.orders) : ExchangeIndexed after := by
  unfold ExchangeIndexed
  rw [hexchange]
  apply hs.congr
  apply hevolves.bind_eq
  intro _ a b hab
  rw [exchangeKey, exchangeKey, hab]

/-- One record edited in place under its venue identity. -/
theorem ExchangeIndexed.store (hs : ExchangeIndexed s) {i : Nat} {order record : OrderRecord}
    (horder : s.orders[i]? = some order) (hbase : base.orders = s.orders)
    (hexchange : base.byExchangeId = s.byExchangeId)
    (hsame : record.exchangeOrderId = order.exchangeOrderId) :
    ExchangeIndexed (base.store i record) := by
  refine hs.rewrite hexchange ?_
  rw [OmsState.store, hbase]
  refine .set (fun _ _ => ?_) horder ?_
  · rfl
  · exact hsame

/-- A New has no venue identity yet. -/
theorem OmsState.NewOutcome.exchangeIndexed {action : OrderAction}
    (h : NewOutcome s action after observed) (hs : ExchangeIndexed s) : ExchangeIndexed after := by
  cases h with
  | refused | burned | deferred => exact hs
  | @created _ record _ _ _ _ _ _ hrecord =>
      have hempty : record.exchangeOrderId = .empty := by
        cases hrecord with
        | unattached => rfl
        | accepted => exact OrderRecord.transition_exchangeOrderId _ _ _
        | rejected =>
            rw [OrderRecord.transition_exchangeOrderId]
            exact OrderRecord.transition_exchangeOrderId _ _ _
      have hnokey : exchangeKey record = none := by simp [exchangeKey, hempty]
      rcases hrecord.base_eq with rfl | rfl
      all_goals exact hs.concat_none hnokey

/-- A request keeps the venue identity of its order. -/
theorem OmsState.RequestEdit.exchangeIndexed {action : OrderAction} {i : Nat}
    {order record : OrderRecord} (h : RequestEdit s action order record base observed)
    (hs : ExchangeIndexed s) (horder : s.orders[i]? = some order) :
    ExchangeIndexed (base.store i record) := by
  cases h with
  | cancelSent | replaceSent =>
      exact hs.store horder rfl rfl (OrderRecord.transition_exchangeOrderId _ _ _)
  | coalesced => exact hs.store horder rfl rfl rfl
  | cancelReturned | replaceReturned =>
      refine hs.store horder rfl rfl ?_
      rw [OrderRecord.transition_exchangeOrderId]
      exact OrderRecord.transition_exchangeOrderId _ _ _

/-- A first acknowledgement binds the venue identity it names. -/
theorem exchangeIndexed_ack {i : Nat} {order bound : OrderRecord} {ack : OrderAckEvent}
    (hs : ExchangeIndexed s) (hnumbered : s.Numbered) (horder : s.orders[i]? = some order)
    (hbind : s.bindExchangeId order ack.exchangeOrderId = some (base, bound))
    (hclean : ack.exchangeOrderId.isEmpty = true ∨ order.exchangeOrderId.isEmpty = true ∨
      order.exchangeOrderId = ack.exchangeOrderId) (target : OrderState) (now now' : Nanos) :
    ExchangeIndexed (base.store i ((bound.acknowledged ack now).transition target now')) := by
  have hown := hnumbered.lookup_own horder
  rcases bindExchangeId_eq_some hbind with
    ⟨_, rfl, rfl⟩ | ⟨hnonempty, rfl, hfree, ⟨hnone, _⟩ | ⟨index, hindex, rfl⟩⟩
  · exact hs.store horder rfl rfl (OrderRecord.transition_exchangeOrderId _ _ _)
  · rw [hnone] at hown
    cases hown
  · -- The order is indexed where it is stored.
    have hi : index = i := Option.some.inj (hindex.symm.trans hown)
    subst hi
    refine Index.Indexes.bind hs horder ?_ ?_ ?_
    · rw [exchangeKey_eq_some_iff, OrderRecord.transition_exchangeOrderId]
      exact ⟨rfl, hnonempty⟩
    · rcases hclean with hempty | hunbound | hsame
      · rw [hnonempty] at hempty
        cases hempty
      · exact .inl (by simp [exchangeKey, hunbound])
      · exact .inr (exchangeKey_eq_some_iff.mpr ⟨hsame, hnonempty⟩)
    · intro j hlookup
      obtain ⟨other, hother, _⟩ := hs.lookup_iff.mp hlookup
      have hfound := findByExchangeId_eq_some_iff.mpr ⟨hlookup, hother⟩
      exact hnumbered.index_unique hother horder (hfree j other hfound)

/-- An accepted replace exchanges the venue identity of the order, if it names one. -/
theorem exchangeIndexed_replace {i : Nat} {order swapped : OrderRecord}
    {replace : OrderReplaceEvent} (hs : ExchangeIndexed s) (hnumbered : s.Numbered)
    (horder : s.orders[i]? = some order)
    (hswap : s.swapIdentity (order.stamped replace.transactNs) replace = (base, swapped))
    (hclean : replace.newExchangeOrderId.isEmpty = true ∨
      ∀ j, s.byExchangeId.lookup replace.newExchangeOrderId = some j → j = i)
    (target : OrderState) (now : Nanos) :
    ExchangeIndexed (base.store i (swapped.amended.transition target now)) := by
  have hown : s.byLogicalId.lookup order.logicalId = some i := hnumbered.lookup_own horder
  have hindex : s.byLogicalId.lookup (order.stamped replace.transactNs).logicalId = some i := hown
  rw [swapIdentity_eq hindex] at hswap
  cases hswap
  unfold ExchangeIndexed
  by_cases hnew : replace.newExchangeOrderId.isEmpty = true
  · simp only [withIndices, hnew, if_true]
    refine hs.set horder ?_
    rw [exchangeKey, OrderRecord.transition_exchangeOrderId]
    rfl
  · simp only [withIndices, hnew]
    refine Index.Indexes.rekey hs horder ?_ ?_ (hclean.resolve_left hnew)
    · -- An order without a venue identity erases the empty one, which nobody has.
      by_cases hold : order.exchangeOrderId.isEmpty = true
      · refine .inr ⟨by simp [exchangeKey, hold], ?_⟩
        cases hlookup : s.byExchangeId.lookup order.exchangeOrderId with
        | none => exact hlookup
        | some j =>
            obtain ⟨_, _, _, hnonempty⟩ := hs.lookup_iff.mp hlookup
            rw [hold] at hnonempty
            cases hnonempty
      · have hbound : order.exchangeOrderId.isEmpty = false := by simpa using hold
        exact .inl (exchangeKey_eq_some_iff.mpr ⟨rfl, hbound⟩)
    · rw [exchangeKey_eq_some_iff, OrderRecord.transition_exchangeOrderId]
      exact ⟨rfl, by simpa using hnew⟩

theorem OmsState.EventEdit.exchangeIndexed {i : Nat} {order edited : OrderRecord}
    {event : ExecutionEvent} {target : OrderState} {answers resolves : Bool}
    (h : EventEdit s order event edited target answers resolves base) (hs : ExchangeIndexed s)
    (hnumbered : s.Numbered) (horder : s.orders[i]? = some order)
    (hbinds : s.eventBinds i order event = true) :
    ExchangeIndexed (base.store i (edited.transition target base.clock)) := by
  -- Every event but the two that bind leaves the venue identity alone.
  have hkept : ∀ {record : OrderRecord}, record.exchangeOrderId = order.exchangeOrderId →
      ExchangeIndexed (s.store i (record.transition target s.clock)) := by
    intro record hkeeps
    refine hs.store horder rfl rfl ?_
    rw [OrderRecord.transition_exchangeOrderId, hkeeps]
  cases h with
  | @ack ack _ _ hnews hfirst hbind =>
      refine exchangeIndexed_ack hs hnumbered horder hbind ?_ _ _ _
      simpa [OmsState.eventBinds, ackIsNews_of_bind hnews hfirst hbind, or_assoc] using hbinds
  | @replaceAccepted replace _ _ haccepted hswap =>
      refine exchangeIndexed_replace hs hnumbered horder hswap ?_ _ _
      by_cases hnew : replace.newExchangeOrderId.isEmpty = true
      · exact .inl hnew
      · right
        intro j hlookup
        simpa [OmsState.eventBinds, haccepted, hnew, hlookup] using hbinds
  | fillComplete _ _ hbook | fillPartial _ _ hbook =>
      apply hkept
      rw [(bookFill_eq_ok hbook).2.2]
      rfl
  | reject | fillRefused | cancelAccepted | cancelRejected | cancelTooLate | cancelUnknown
  | replaceUnknown | replaceRefused | failureNotSent | failureUnknown => exact hkept rfl

/-- A restart rebuilds the index from the records. -/
theorem ExchangeIndexed.restarted (hs : ExchangeIndexed s) (config : OmsConfig) :
    ExchangeIndexed (restarted s config) := by
  have hrebuilt : ExchangeIndexed (s.withIndices s.byClientId
      (Index.build exchangeKey s.orders s.orders.length)) :=
    Index.indexes_build fun _ _ _ hi hj => Index.Indexes.unique hs hi hj
  refine hrebuilt.rewrite rfl ?_
  rw [restarted_orders]
  apply Table.Evolves.map
  intro _ order _
  unfold recovered
  split <;> rfl

theorem PrimaryOutcome.exchangeIndexed {op : Op σ} {resolved : Option LogicalOrderId}
    (h : PrimaryOutcome s op after resolved observed) (hs : ExchangeIndexed s)
    (hnumbered : s.Numbered) (hbinds : bindsExactly s op = true) : ExchangeIndexed after := by
  cases h with
  | submit h =>
      cases h with
      | refused | burned => exact hs
      | new _ _ houtcome => exact houtcome.exchangeIndexed hs
      | edited _ hfound _ hedit => exact hedit.exchangeIndexed hs (findTarget_getElem hfound)
  | apply h =>
      cases h with
      | discarded => exact hs
      | edited hvalid hfound hterminal hedit =>
          refine hedit.exchangeIndexed hs hnumbered (findSubject_getElem hfound) ?_
          simpa [bindsExactly, hvalid, hfound, hterminal] using hbinds
  | onTimer =>
      refine hs.rewrite rfl (.map fun _ order _ => ?_)
      unfold OrderRecord.swept
      split
      · exact OrderRecord.transition_exchangeOrderId _ _ _
      · rfl
  | reconcile h =>
      refine hs.rewrite rfl (h.mono ?_ fun _ hfalse => hfalse)
      rintro _ before record _ (rfl | ⟨_, rfl | ⟨_, _, rfl⟩⟩)
      · rfl
      · rfl
      · exact OrderRecord.transition_exchangeOrderId _ _ _
  | resolve h =>
      cases h with
      | refused => exact hs
      | concluded hfound =>
          refine hs.store (findById_eq_some_iff.mp hfound).2 rfl rfl ?_
          unfold concluded
          split <;> rfl
  | attachExecution | advance | venue | restartRefused => exact hs
  | restarted => exact hs.restarted _

end Step

/-! ## Whole runs -/

/-- The records are numbered and answer to their identities. -/
structure IdentityTracked (w : World σ) : Prop where
  numbered : w.oms.toOmsState.Numbered
  client : ClientIdentities w.oms.toOmsState
  exchange : ExchangeIndexed w.oms.toOmsState

theorem IdentityTracked.init (config : OmsConfig) (clock : Nanos) (venue : σ) :
    IdentityTracked (World.init config clock venue) where
  numbered := numbered_init config clock
  client := clientIdentities_init config clock
  exchange := fun id i => by simp [World.init, OrderManager.init]

theorem IdentityTracked.step {w : World σ} (hw : IdentityTracked w) (port : IExchangeExecution σ)
    {op : Op σ} (hbinds : bindsExactly w.oms.toOmsState op = true) :
    IdentityTracked (step port op w) := by
  obtain ⟨_, _, houtcome⟩ := primary_outcome port op w hw.numbered
  have hprimary : ExchangeIndexed (primary port op w).1.oms.toOmsState :=
    houtcome.exchangeIndexed hw.exchange hw.numbered hbinds
  refine ⟨step_numbered port op w hw.numbered, step_clientIdentities port op hw.numbered hw.client,
    ?_⟩
  apply release_keeps port _ _ _ hprimary
  · exact fun _ _ hs => hs
  · exact fun _ _ _ _ hs hnew => hnew.exchangeIndexed hs

theorem IdentityTracked.run {w : World σ} (hw : IdentityTracked w) (port : IExchangeExecution σ)
    {ops : List (Op σ)}
    (hbinds : Machine.Along (MmEngine.Oms.step port)
      (fun op w => bindsExactly w.oms.toOmsState op = true) ops w) :
    IdentityTracked (Machine.run (MmEngine.Oms.step port) ops w) :=
  Machine.invariant_run (fun _ _ hw hop => hw.step port hop) hw hbinds

/-- In every run, restarts included, whose events bind venue identities exactly,
the indices hold the identities of the records and nothing else. -/
theorem identity_coherent_along (port : IExchangeExecution σ) (config : OmsConfig) (clock : Nanos)
    (venue : σ) (ops : List (Op σ))
    (hbinds : Machine.Along (step port) (fun op w => bindsExactly w.oms.toOmsState op = true) ops
      (World.init config clock venue)) :
    IdentityCoherent
      (Machine.run (step port) ops (World.init config clock venue)).oms.toOmsState := by
  have htracked := (IdentityTracked.init config clock venue).run port hbinds
  exact identityCoherent htracked.numbered htracked.client htracked.exchange

/-- Two orders, one of which is replaced under a venue identity of its own. -/
theorem identity_coherent_along_replaced :
    IdentityCoherent (Sample.after [.attachExecution, Sample.submitNew 10, Sample.ack '1' 'x',
      Sample.submitReplace 20, Sample.replaceAccepted '1' '2' (Sample.exchangeId 'y'),
      Sample.submitNew 10, Sample.ack '3' 'x', .restart {}]).oms.toOmsState :=
  identity_coherent_along Sample.acceptAll {} 1 () _ (by decide +kernel)

/-- A replace of the second order is accepted under the venue identity of the
first. -/
def Sample.takeover : List (Op Unit) :=
  [.attachExecution, Sample.submitNew 10, Sample.ack '1' 'x', Sample.submitNew 10,
    Sample.ack '2' 'y', Sample.replaceAccepted '2' '2' (Sample.exchangeId 'x')]

/-- Both orders then carry the identity, which leads to the second alone. -/
theorem replace_takes_over_identity :
    ¬ IdentityCoherent (Sample.after Sample.takeover).oms.toOmsState := by
  intro hcoherent
  have hfirst : (Sample.after Sample.takeover).oms.orders[0]?.map OrderRecord.exchangeOrderId =
      some (Sample.exchangeId 'x') := by decide +kernel
  have hsecond : (Sample.after Sample.takeover).oms.orders[1]?.map OrderRecord.exchangeOrderId =
      some (Sample.exchangeId 'x') := by decide +kernel
  obtain ⟨a, ha, hax⟩ := Option.map_eq_some_iff.mp hfirst
  obtain ⟨b, hb, hbx⟩ := Option.map_eq_some_iff.mp hsecond
  have hsame : 0 = 1 := hcoherent.exchangeUnique 0 1 a b ha hb (hax.trans hbx.symm) (hax ▸ rfl)
  cases hsame

end MmEngine.Oms
