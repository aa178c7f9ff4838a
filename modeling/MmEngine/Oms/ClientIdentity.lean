/-
# Client identities

The order manager mints every client identity it uses. The sequence number of a
minted identity can be read back from its text, whatever prefix and session it
was made under, and it only grows, so no two orders ever answer to one client
identity, and an identity held for a replacement is held for one order alone.
Nothing a venue sends can change that.
-/

import MmEngine.Oms.Run

namespace MmEngine.Oms

open MmEngine.Exchange MmEngine.Quote MmEngine.Risk OmsState OrderManager

variable {σ : Type}

/-- The number written after the last dash. -/
def sequenceOf (text : List Char) : Nat :=
  Nat.ofDigits 36 ((text.reverse.takeWhile fun c => c ≠ '-').map fun c => kDigits.idxOf c)

theorem idxOf_kDigits : ∀ digit < 36, kDigits.idxOf (kDigits.getD digit '0') = digit := by
  decide

theorem kDigits_ne_dash : ∀ digit < 36, kDigits.getD digit '0' ≠ '-' := by
  decide

/-- The digits of a number, least significant first, are its text backwards. -/
theorem encodeBase36_reverse (value : Nat) :
    (∀ c ∈ (encodeBase36 value).reverse, c ≠ '-') ∧
      Nat.ofDigits 36 ((encodeBase36 value).reverse.map fun c => kDigits.idxOf c) = value := by
  rw [encodeBase36]
  split
  · rename_i hzero
    subst hzero
    rw [List.reverse_singleton]
    constructor
    · intro c hc
      rw [List.mem_singleton.mp hc]
      decide
    · rw [List.map_singleton, Nat.ofDigits_singleton]
      rfl
  · rw [List.reverse_reverse]
    have hdigit : ∀ digit ∈ Nat.digits 36 value, digit < 36 :=
      fun _ hmem => Nat.digits_lt_base (by decide) hmem
    constructor
    · intro c hc
      obtain ⟨digit, hmem, rfl⟩ := List.mem_map.mp hc
      exact kDigits_ne_dash digit (hdigit digit hmem)
    · have hback : (Nat.digits 36 value).map
          ((fun c => kDigits.idxOf c) ∘ fun digit => kDigits.getD digit '0') =
            Nat.digits 36 value := by
        refine (List.map_congr_left fun digit hmem => ?_).trans (List.map_id _)
        exact idxOf_kDigits digit (hdigit digit hmem)
      rw [List.map_map, hback, Nat.ofDigits_digits]

/-- The sequence number of a generated identity, under any prefix and session. -/
theorem sequenceOf_idText (generator : ClientOrderIdGenerator) (sequence : Nat) :
    sequenceOf (generator.idText sequence) = sequence := by
  obtain ⟨hdash, hvalue⟩ := encodeBase36_reverse sequence
  have hreverse : (generator.idText sequence).reverse =
      (encodeBase36 sequence).reverse ++
        '-' :: (generator.idPrefix.chars ++ '-' :: encodeBase36 generator.sessionId).reverse := by
    simp [ClientOrderIdGenerator.idText]
  rw [sequenceOf]
  rw [hreverse, List.takeWhile_append_of_pos (by simpa using hdash)]
  simpa using hvalue

/-- A minted identity carries the next sequence number, which is then used up. -/
theorem ClientOrderIdGenerator.next_eq_some {generator : ClientOrderIdGenerator}
    {id : ClientOrderId} (h : generator.next.1 = some id) :
    sequenceOf id.chars = generator.sequence + 1 ∧ id.isEmpty = false := by
  unfold ClientOrderIdGenerator.next at h
  dsimp only at h
  split at h
  · cases h
    refine ⟨sequenceOf_idText _ _, ?_⟩
    simp [InlineString.isEmpty, ClientOrderIdGenerator.idText]
  · cases h

@[simp]
theorem ClientOrderIdGenerator.next_sequence (generator : ClientOrderIdGenerator) :
    generator.next.2.sequence = generator.sequence + 1 := by
  unfold ClientOrderIdGenerator.next
  dsimp only
  split <;> rfl

/-- The client index is exact, every client identity in use or held for a
replacement has been minted, and one held for a replacement is held for that
order alone. -/
structure ClientIdentities (s : OmsState) : Prop where
  client : Index.Indexes clientKey s.orders s.byClientId
  minted : ∀ (i : Nat) (order : OrderRecord), s.orders[i]? = some order →
    order.clientOrderId.isEmpty = false ∧
      sequenceOf order.clientOrderId.chars ≤ s.idGenerator.sequence
  held : ∀ (i : Nat) (order : OrderRecord), s.orders[i]? = some order →
    order.pendingClientOrderId.isEmpty = false →
      sequenceOf order.pendingClientOrderId.chars ≤ s.idGenerator.sequence
  unshared : ∀ (i j : Nat) (a b : OrderRecord), s.orders[i]? = some a → s.orders[j]? = some b →
    a.pendingClientOrderId.isEmpty = false →
      b.clientOrderId ≠ a.pendingClientOrderId ∧
        (i ≠ j → b.pendingClientOrderId ≠ a.pendingClientOrderId)

theorem clientKey_eq_some_iff {order : OrderRecord} {id : ClientOrderId} :
    clientKey order = some id ↔ order.clientOrderId = id ∧ id.isEmpty = false :=
  InlineString.nonempty_eq_some_iff

namespace ClientIdentities

variable {s : OmsState}

theorem lookup_iff (h : ClientIdentities s) {id : ClientOrderId} {i : Nat} :
    s.byClientId.lookup id = some i ↔
      ∃ order, s.orders[i]? = some order ∧ order.clientOrderId = id ∧ id.isEmpty = false := by
  rw [h.client, Option.bind_eq_some_iff]
  simp only [clientKey_eq_some_iff]

theorem lookup_own (h : ClientIdentities s) {i : Nat} {order : OrderRecord}
    (horder : s.orders[i]? = some order) :
    s.byClientId.lookup order.clientOrderId = some i :=
  h.lookup_iff.mpr ⟨order, horder, rfl, (h.minted i order horder).1⟩

theorem unique (h : ClientIdentities s) {i j : Nat} {a b : OrderRecord}
    (ha : s.orders[i]? = some a) (hb : s.orders[j]? = some b)
    (heq : a.clientOrderId = b.clientOrderId) : i = j := by
  have hlookup := h.lookup_own ha
  rw [heq, h.lookup_own hb] at hlookup
  exact (Option.some.inj hlookup).symm

theorem findByClientId_iff (h : ClientIdentities s) {id : ClientOrderId} {i : Nat}
    {order : OrderRecord} :
    s.findByClientId id = some (i, order) ↔
      s.orders[i]? = some order ∧ order.clientOrderId = id := by
  rw [findByClientId_eq_some_iff]
  constructor
  · rintro ⟨hlookup, horder⟩
    obtain ⟨found, hfound, hid, _⟩ := h.lookup_iff.mp hlookup
    rw [horder] at hfound
    cases hfound
    exact ⟨horder, hid⟩
  · rintro ⟨horder, rfl⟩
    exact ⟨h.lookup_own horder, horder⟩

end ClientIdentities

/-- The edited record answers to the same client identity, and holds at most the
replacement identity it held. -/
structure OrderRecord.KeepsClient (a b : OrderRecord) : Prop where
  client : b.clientOrderId = a.clientOrderId
  pending : b.pendingClientOrderId = a.pendingClientOrderId ∨
    b.pendingClientOrderId.isEmpty = true

namespace OrderRecord.KeepsClient

theorem refl (order : OrderRecord) : KeepsClient order order := ⟨rfl, .inl rfl⟩

theorem transition {a b : OrderRecord} (h : KeepsClient a b) (target : OrderState)
    (now : Nanos) : KeepsClient a (b.transition target now) where
  client := by rw [transition_clientOrderId, h.client]
  pending := by
    rw [transition_pendingClientOrderId]
    exact h.pending

theorem settled {a b : OrderRecord} (h : KeepsClient a b) : KeepsClient a b.settled :=
  ⟨h.client, h.pending⟩

theorem clientKey_eq {a b : OrderRecord} (h : KeepsClient a b) : clientKey b = clientKey a := by
  rw [clientKey, clientKey, h.client]

theorem pending_eq {a b : OrderRecord} (h : KeepsClient a b)
    (hheld : b.pendingClientOrderId.isEmpty = false) :
    b.pendingClientOrderId = a.pendingClientOrderId := by
  rcases h.pending with heq | hempty
  · exact heq
  · rw [hheld] at hempty
    cases hempty

end OrderRecord.KeepsClient

namespace ClientIdentities

variable {s after base : OmsState}

/-- Records edited in place under their client identities. -/
theorem rewrite (h : ClientIdentities s) (hclient : after.byClientId = s.byClientId)
    (hsequence : s.idGenerator.sequence ≤ after.idGenerator.sequence)
    (hevolves : Table.Evolves (fun _ a b => a.KeepsClient b) (fun _ => False) s.orders
      after.orders) : ClientIdentities after := by
  have hback : ∀ (i : Nat) (b : OrderRecord), after.orders[i]? = some b →
      ∃ a, s.orders[i]? = some a ∧ a.KeepsClient b := by
    intro i b hb
    rcases hevolves.cases_entry hb with ⟨a, ha, hab⟩ | ⟨_, hfalse⟩
    · exact ⟨a, ha, hab⟩
    · exact hfalse.elim
  refine ⟨?_, ?_, ?_, ?_⟩
  · rw [hclient]
    exact h.client.congr (hevolves.bind_eq fun _ _ _ hab => hab.clientKey_eq)
  · intro i b hb
    obtain ⟨a, ha, hab⟩ := hback i b hb
    rw [hab.client]
    exact ⟨(h.minted i a ha).1, (h.minted i a ha).2.trans hsequence⟩
  · intro i b hb hheld
    obtain ⟨a, ha, hab⟩ := hback i b hb
    have hsame := hab.pending_eq hheld
    rw [hsame] at hheld ⊢
    exact (h.held i a ha hheld).trans hsequence
  · intro i j b d hb hd hheld
    obtain ⟨a, ha, hab⟩ := hback i b hb
    obtain ⟨c, hc, hcd⟩ := hback j d hd
    have hsame := hab.pending_eq hheld
    rw [hsame] at hheld ⊢
    obtain ⟨hcurrent, hother⟩ := h.unshared i j a c ha hc hheld
    refine ⟨by rwa [hcd.client], fun hij heq => ?_⟩
    rcases hcd.pending with hsame | hempty
    · exact hother hij (hsame ▸ heq)
    · rw [heq, hheld] at hempty
      cases hempty

/-- An identity may be minted and not used. -/
theorem burnClientId (h : ClientIdentities s) : ClientIdentities s.burnClientId := by
  refine h.rewrite rfl ?_ (.refl (fun _ order => .refl order) _)
  simp [OmsState.burnClientId]

/-- One record rewritten, with what its new identities have to satisfy. -/
theorem store (h : ClientIdentities s) {i : Nat} {order record : OrderRecord}
    (horder : s.orders[i]? = some order) (hbase : base.orders = s.orders)
    (hsequence : s.idGenerator.sequence ≤ base.idGenerator.sequence)
    (hclient : Index.Indexes clientKey (s.orders.set i record) base.byClientId)
    (hminted : record.clientOrderId.isEmpty = false ∧
      sequenceOf record.clientOrderId.chars ≤ base.idGenerator.sequence)
    (hheld : record.pendingClientOrderId.isEmpty = false →
      sequenceOf record.pendingClientOrderId.chars ≤ base.idGenerator.sequence)
    (hcurrent : ∀ (j : Nat) (other : OrderRecord), i ≠ j → s.orders[j]? = some other →
      other.pendingClientOrderId.isEmpty = false →
        record.clientOrderId ≠ other.pendingClientOrderId)
    (hunshared : record.pendingClientOrderId.isEmpty = false →
      record.clientOrderId ≠ record.pendingClientOrderId ∧
        ∀ (j : Nat) (other : OrderRecord), i ≠ j → s.orders[j]? = some other →
          other.clientOrderId ≠ record.pendingClientOrderId ∧
            other.pendingClientOrderId ≠ record.pendingClientOrderId) :
    ClientIdentities (base.store i record) := by
  have horders : (base.store i record).orders = s.orders.set i record := by
    rw [OmsState.store, hbase]
  have hlt : i < s.orders.length := (List.getElem?_eq_some_iff.mp horder).1
  -- Every record of the new table is the rewritten one or an old one elsewhere.
  have hcases : ∀ (j : Nat) (b : OrderRecord), (base.store i record).orders[j]? = some b →
      (j = i ∧ b = record) ∨ i ≠ j ∧ s.orders[j]? = some b := by
    intro j b hb
    rw [horders] at hb
    by_cases hij : i = j
    · subst hij
      rw [List.getElem?_set_self hlt] at hb
      cases hb
      exact .inl ⟨rfl, rfl⟩
    · rw [List.getElem?_set_ne hij] at hb
      exact .inr ⟨hij, hb⟩
  refine ⟨horders ▸ hclient, ?_, ?_, ?_⟩
  · intro j b hb
    rcases hcases j b hb with ⟨_, rfl⟩ | ⟨_, hold⟩
    · exact hminted
    · exact ⟨(h.minted j b hold).1, (h.minted j b hold).2.trans hsequence⟩
  · intro j b hb hpending
    rcases hcases j b hb with ⟨_, rfl⟩ | ⟨_, hold⟩
    · exact hheld hpending
    · exact (h.held j b hold hpending).trans hsequence
  · intro j k a b ha hb hpending
    rcases hcases j a ha with ⟨rfl, rfl⟩ | ⟨hij, haOld⟩
    · rcases hcases k b hb with ⟨rfl, rfl⟩ | ⟨hjk, hbOld⟩
      · exact ⟨(hunshared hpending).1, fun hne => absurd rfl hne⟩
      · have hother := (hunshared hpending).2 k b hjk hbOld
        exact ⟨hother.1, fun _ => hother.2⟩
    · rcases hcases k b hb with ⟨rfl, rfl⟩ | ⟨_, hbOld⟩
      · refine ⟨hcurrent j a hij haOld hpending, fun _ heq => ?_⟩
        rw [← heq] at hpending
        exact ((hunshared hpending).2 j a hij haOld).2 heq.symm
      · exact h.unshared j k a b haOld hbOld hpending

end ClientIdentities

/-! ## One step -/

section Step

variable {s after base : OmsState} {observed : List Observation}

theorem OmsState.NewRecord.keepsClient {created record : OrderRecord}
    (h : NewRecord s created record base observed) : created.KeepsClient record := by
  have hsubmitted : created.KeepsClient (created.submitted (s.nextRequestId + 1) s.clock) :=
    ⟨rfl, .inl rfl⟩
  cases h with
  | unattached => exact .refl _
  | accepted => exact hsubmitted.transition _ _
  | rejected => exact (hsubmitted.transition _ _).settled.transition _ _

/-- A New is indexed under an identity that has never been used. -/
theorem OmsState.NewOutcome.clientIdentities {action : OrderAction}
    (h : NewOutcome s action after observed) (hs : ClientIdentities s) :
    ClientIdentities after := by
  cases h with
  | refused | deferred => exact ⟨hs.client, hs.minted, hs.held, hs.unshared⟩
  | burned => exact hs.burnClientId
  | @created clientId record base _ _ _ hid hfresh hrecord =>
      have hkeeps := hrecord.keepsClient
      obtain ⟨hnext, hnonempty⟩ := ClientOrderIdGenerator.next_eq_some hid
      have hclientId : record.clientOrderId = clientId := hkeeps.client
      subst hclientId
      have hpending : record.pendingClientOrderId.isEmpty = true := by
        rcases hkeeps.pending with heq | hempty
        · rw [heq]
          rfl
        · exact hempty
      have hkey : clientKey record = some record.clientOrderId :=
        clientKey_eq_some_iff.mpr ⟨rfl, hnonempty⟩
      have hbase : base.orders = s.orders ∧ base.byClientId = s.byClientId ∧
          base.idGenerator.sequence = s.idGenerator.sequence + 1 := by
        rcases hrecord.base_eq with rfl | rfl <;>
          exact ⟨rfl, rfl, ClientOrderIdGenerator.next_sequence _⟩
      obtain ⟨horders, hclients, hsequence⟩ := hbase
      have hindex : (base.addOrder record).byClientId =
          s.byClientId.insert record.clientOrderId s.orders.length := by
        simp [OmsState.addOrder, IdMap.emplace, hclients, hfresh, horders]
      have htable : (base.addOrder record).orders = s.orders ++ [record] := by
        simp [OmsState.addOrder, horders]
      have hgrown : s.idGenerator.sequence ≤ (base.addOrder record).idGenerator.sequence := by
        simp [OmsState.addOrder, hsequence]
      have hcases : ∀ (j : Nat) (b : OrderRecord), (base.addOrder record).orders[j]? = some b →
          b = record ∨ s.orders[j]? = some b := by
        intro j b hb
        rw [htable] at hb
        by_cases hj : j < s.orders.length
        · rw [List.getElem?_append_left hj] at hb
          exact .inr hb
        · rw [List.getElem?_append_right (Nat.le_of_not_lt hj)] at hb
          exact .inl (by simpa using List.mem_of_getElem? hb)
      refine ⟨?_, ?_, ?_, ?_⟩
      · rw [htable, hindex]
        exact hs.client.concat hkey hfresh
      · intro j b hb
        rcases hcases j b hb with rfl | hold
        · refine ⟨hnonempty, ?_⟩
          rw [hnext]
          exact le_of_eq hsequence.symm
        · exact ⟨(hs.minted j b hold).1, (hs.minted j b hold).2.trans hgrown⟩
      · intro j b hb hheld
        rcases hcases j b hb with rfl | hold
        · rw [hpending] at hheld
          cases hheld
        · exact (hs.held j b hold hheld).trans hgrown
      · intro j k a b ha hb hheld
        rcases hcases j a ha with rfl | haOld
        · rw [hpending] at hheld
          cases hheld
        · rcases hcases k b hb with rfl | hbOld
          · -- The new identity has a sequence number nobody can hold yet.
            refine ⟨fun heq => ?_, fun _ heq => ?_⟩
            · have hle := hs.held j a haOld hheld
              rw [← heq, hnext] at hle
              omega
            · rw [heq, hheld] at hpending
              cases hpending
          · exact hs.unshared j k a b haOld hbOld hheld

/-- A request leaves the order the identities it has, or gives it one minted for
its replacement. -/
theorem OmsState.RequestEdit.client_cases {action : OrderAction} {order record : OrderRecord}
    (h : RequestEdit s action order record base observed) :
    base.orders = s.orders ∧ base.byClientId = s.byClientId ∧
      s.idGenerator.sequence ≤ base.idGenerator.sequence ∧
      (order.KeepsClient record ∨
        record.clientOrderId = order.clientOrderId ∧
          record.pendingClientOrderId.isEmpty = false ∧
          sequenceOf record.pendingClientOrderId.chars = s.idGenerator.sequence + 1 ∧
          base.idGenerator.sequence = s.idGenerator.sequence + 1) := by
  have hrequested : order.KeepsClient (order.requested (s.nextRequestId + 1) s.clock) :=
    ⟨rfl, .inl rfl⟩
  have hburned : s.burnClientId.nextRequest.idGenerator.sequence = s.idGenerator.sequence + 1 :=
    ClientOrderIdGenerator.next_sequence _
  have hgrown := (Nat.le_succ _).trans_eq hburned.symm
  cases h with
  | cancelSent => exact ⟨rfl, rfl, le_refl _, .inl (hrequested.transition _ _)⟩
  | cancelReturned =>
      exact ⟨rfl, rfl, le_refl _, .inl ((hrequested.transition _ _).settled.transition _ _)⟩
  | coalesced => exact ⟨rfl, rfl, le_refl _, .inl ⟨rfl, .inl rfl⟩⟩
  | replaceSent _ _ _ _ hid =>
      obtain ⟨hnext, hnonempty⟩ := ClientOrderIdGenerator.next_eq_some hid
      refine ⟨rfl, rfl, hgrown, .inr ?_⟩
      rw [OrderRecord.transition_clientOrderId, OrderRecord.transition_pendingClientOrderId]
      exact ⟨rfl, hnonempty, hnext, hburned⟩
  | @replaceReturned replacementId =>
      have hdropped : order.KeepsClient
          ((order.replacing action replacementId (s.nextRequestId + 1) s.clock).transition
            .pendingReplace s.clock).replaceDropped :=
        ⟨OrderRecord.transition_clientOrderId _ _ _, .inr rfl⟩
      exact ⟨rfl, rfl, hgrown, .inl (hdropped.transition _ _)⟩

/-- A request keeps the identities of its order; a replace holds a fresh one. -/
theorem OmsState.RequestEdit.clientIdentities {action : OrderAction} {i : Nat}
    {order record : OrderRecord} (h : RequestEdit s action order record base observed)
    (hs : ClientIdentities s) (horder : s.orders[i]? = some order) :
    ClientIdentities (base.store i record) := by
  obtain ⟨hbase, hindex, hgrown, hkeeps | ⟨hsame, hnonempty, hnext, hsequence⟩⟩ := h.client_cases
  · refine hs.rewrite hindex hgrown ?_
    rw [OmsState.store, hbase]
    exact .set (fun _ a => .refl a) horder hkeeps
  · -- The minted identity is past every identity in use.
    have hminted := hs.minted i order horder
    have hold : ∀ id : ClientOrderId, sequenceOf id.chars ≤ s.idGenerator.sequence →
        id ≠ record.pendingClientOrderId := by
      rintro id hle rfl
      omega
    refine hs.store horder hbase hgrown ?_ ?_ ?_ ?_ ?_
    · rw [hindex]
      apply hs.client.set horder
      rw [clientKey, clientKey, hsame]
    · rw [hsame]
      exact ⟨hminted.1, hminted.2.trans hgrown⟩
    · intro _
      exact le_of_eq (hnext.trans hsequence.symm)
    · intro j other _ hother hheld
      rw [hsame]
      exact (hs.unshared j i other order hother horder hheld).1
    · intro _
      rw [hsame]
      refine ⟨hold _ hminted.2, fun j other _ hother => ⟨hold _ (hs.minted j other hother).2, ?_⟩⟩
      by_cases hheld : other.pendingClientOrderId.isEmpty = true
      · intro heq
        rw [heq, hnonempty] at hheld
        cases hheld
      · exact hold _ (hs.held j other hother (by simpa using hheld))

/-- An accepted replace moves the order to the identity held for it, if one is. -/
theorem clientIdentities_replace {i : Nat} {order swapped : OrderRecord}
    {replace : OrderReplaceEvent} (hs : ClientIdentities s) (hnumbered : s.Numbered)
    (horder : s.orders[i]? = some order)
    (hswap : s.swapIdentity (order.stamped replace.transactNs) replace = (base, swapped))
    (target : OrderState) (now : Nanos) :
    ClientIdentities (base.store i (swapped.amended.transition target now)) := by
  have hown : s.byLogicalId.lookup order.logicalId = some i := hnumbered.lookup_own horder
  have hindex : s.byLogicalId.lookup (order.stamped replace.transactNs).logicalId = some i := hown
  have hminted := hs.minted i order horder
  rw [swapIdentity_eq hindex] at hswap
  cases hswap
  refine hs.store horder rfl (le_refl _) ?_ ?_ ?_ ?_ ?_
  · -- The client identity moves only when one is held for the replacement.
    by_cases hheld : order.pendingClientOrderId.isEmpty = true
    · simp only [withIndices, OrderRecord.stamped, hheld, if_true]
      refine hs.client.set horder ?_
      rw [clientKey, OrderRecord.transition_clientOrderId]
      rfl
    · simp only [withIndices, OrderRecord.stamped, hheld]
      refine hs.client.rekey horder (.inl ?_) ?_ ?_
      · exact clientKey_eq_some_iff.mpr ⟨rfl, hminted.1⟩
      · rw [clientKey_eq_some_iff, OrderRecord.transition_clientOrderId]
        exact ⟨rfl, by simpa using hheld⟩
      · intro j hlookup
        obtain ⟨other, hother, hid, _⟩ := hs.lookup_iff.mp hlookup
        have hunused := hs.unshared i j order other horder hother (by simpa using hheld)
        exact absurd hid hunused.1
  · rw [OrderRecord.transition_clientOrderId]
    by_cases hheld : order.pendingClientOrderId.isEmpty = true
    · simpa [OrderRecord.amended, OrderRecord.stamped, withIndices, hheld] using hminted
    · have hpending : order.pendingClientOrderId.isEmpty = false := by simpa using hheld
      simpa [OrderRecord.amended, OrderRecord.stamped, withIndices, hpending] using
        hs.held i order horder hpending
  · rw [OrderRecord.transition_pendingClientOrderId]
    intro hfalse
    cases hfalse
  · intro j other hij hother hpending
    rw [OrderRecord.transition_clientOrderId]
    have hunused := hs.unshared j i other order hother horder hpending
    by_cases hheld : order.pendingClientOrderId.isEmpty = true
    · simpa [OrderRecord.amended, OrderRecord.stamped, hheld] using hunused.1
    · simpa [OrderRecord.amended, OrderRecord.stamped, hheld] using hunused.2 (Ne.symm hij)
  · rw [OrderRecord.transition_pendingClientOrderId]
    intro hfalse
    cases hfalse

theorem OmsState.EventEdit.clientIdentities {i : Nat} {order edited : OrderRecord}
    {event : ExecutionEvent} {target : OrderState} {answers resolves : Bool}
    (h : EventEdit s order event edited target answers resolves base) (hs : ClientIdentities s)
    (hnumbered : s.Numbered) (horder : s.orders[i]? = some order) :
    ClientIdentities (base.store i (edited.transition target base.clock)) := by
  -- Only an accepted replace changes a client identity.
  have hkept : ∀ {record : OrderRecord}, order.KeepsClient record →
      ClientIdentities (s.store i (record.transition target s.clock)) := by
    intro record hkeeps
    exact hs.rewrite rfl (le_refl _)
      (.set (fun _ a => .refl a) horder (hkeeps.transition _ _))
  cases h with
  | ack _ _ hbind =>
      rcases bindExchangeId_eq_some hbind with
        ⟨_, rfl, rfl⟩ | ⟨_, rfl, _, ⟨_, rfl⟩ | ⟨_, _, rfl⟩⟩
      all_goals
        refine ClientIdentities.rewrite hs ?_ ?_ (.set (fun _ a => .refl a) horder ?_)
        · rfl
        · exact le_refl _
        · apply OrderRecord.KeepsClient.transition
          exact ⟨rfl, .inl rfl⟩
  | replaceAccepted _ hswap => exact clientIdentities_replace hs hnumbered horder hswap _ _
  | fillComplete _ _ hbook | fillPartial _ _ hbook =>
      apply hkept
      rw [(bookFill_eq_ok hbook).2.2]
      exact ⟨rfl, .inl rfl⟩
  | replaceUnknown | replaceRefused => exact hkept ⟨rfl, .inr rfl⟩
  | reject | fillRefused | cancelAccepted | cancelRejected | cancelTooLate | cancelUnknown
  | failureNotSent | failureUnknown => exact hkept ⟨rfl, .inl rfl⟩

/-- A restart rebuilds the index from the records. -/
theorem ClientIdentities.restarted (hs : ClientIdentities s) (config : OmsConfig) :
    ClientIdentities (restarted s config) := by
  have hrebuilt : ClientIdentities (s.withIndices
      (Index.build clientKey s.orders s.orders.length)
      (Index.build exchangeKey s.orders s.orders.length)) :=
    { client := Index.indexes_build fun _ _ _ hi hj => hs.client.unique hi hj
      minted := hs.minted
      held := hs.held
      unshared := hs.unshared }
  refine hrebuilt.rewrite rfl (le_refl _) ?_
  rw [restarted_orders]
  apply Table.Evolves.map
  intro _ order _
  rw [recovered]
  split
  · exact ⟨rfl, .inl rfl⟩
  · exact .refl order

theorem PrimaryOutcome.clientIdentities {op : Op σ} {resolved : Option LogicalOrderId}
    (h : PrimaryOutcome s op after resolved observed) (hs : ClientIdentities s)
    (hnumbered : s.Numbered) : ClientIdentities after := by
  cases h with
  | submit h =>
      cases h with
      | refused => exact hs
      | burned => exact hs.burnClientId
      | new _ _ houtcome => exact houtcome.clientIdentities hs
      | edited _ hfound _ hedit => exact hedit.clientIdentities hs (findTarget_getElem hfound)
  | apply h =>
      cases h with
      | discarded => exact hs
      | edited _ hfound _ hedit =>
          exact hedit.clientIdentities hs hnumbered (findSubject_getElem hfound)
  | onTimer =>
      refine hs.rewrite rfl (le_refl _) (.map fun _ order _ => ?_)
      rw [OrderRecord.swept]
      split
      · exact (OrderRecord.KeepsClient.refl order).settled.transition _ _
      · exact .refl order
  | reconcile h =>
      refine hs.rewrite rfl (le_refl _) (h.mono ?_ fun _ hfalse => hfalse)
      rintro _ before record _ (rfl | ⟨_, rfl | ⟨_, _, rfl⟩⟩)
      · exact .refl _
      · exact .refl _
      · exact (OrderRecord.KeepsClient.refl before).transition _ _
  | resolve h =>
      cases h with
      | refused => exact hs
      | concluded hfound =>
          refine hs.rewrite rfl (le_refl _)
            (.set (fun _ a => .refl a) (findById_eq_some_iff.mp hfound).2 ?_)
          rw [concluded]
          split <;> exact ⟨rfl, .inl rfl⟩
  | attachExecution | advance | venue | restartRefused =>
      exact ⟨hs.client, hs.minted, hs.held, hs.unshared⟩
  | restarted => exact hs.restarted _

end Step

theorem clientIdentities_init (config : OmsConfig) (clock : Nanos) :
    ClientIdentities (OrderManager.init config clock).toOmsState where
  client := fun id i => by simp [OrderManager.init]
  minted := fun i order horder => by simp [OrderManager.init] at horder
  held := fun i order horder => by simp [OrderManager.init] at horder
  unshared := fun i j a b ha => by simp [OrderManager.init] at ha

theorem release_clientIdentities (port : IExchangeExecution σ) {w : World σ}
    (hw : ClientIdentities w.oms.toOmsState) (resolved : Option LogicalOrderId) :
    ClientIdentities (w.release port resolved).oms.toOmsState := by
  apply release_keeps port resolved _ _ hw
  · exact fun _ _ hs => ⟨hs.client, hs.minted, hs.held, hs.unshared⟩
  · exact fun _ _ _ _ hs hnew => hnew.clientIdentities hs

theorem step_clientIdentities (port : IExchangeExecution σ) (op : Op σ) {w : World σ}
    (hnumbered : w.oms.toOmsState.Numbered) (hw : ClientIdentities w.oms.toOmsState) :
    ClientIdentities (step port op w).oms.toOmsState := by
  obtain ⟨_, _, houtcome⟩ := primary_outcome port op w hnumbered
  exact release_clientIdentities port (houtcome.clientIdentities hw hnumbered) _

/-- The records are numbered and answer to their client identities. -/
structure ClientTracked (w : World σ) : Prop where
  numbered : w.oms.toOmsState.Numbered
  client : ClientIdentities w.oms.toOmsState

theorem ClientTracked.init (config : OmsConfig) (clock : Nanos) (venue : σ) :
    ClientTracked (World.init config clock venue) :=
  ⟨numbered_init config clock, clientIdentities_init config clock⟩

theorem ClientTracked.step {w : World σ} (hw : ClientTracked w) (port : IExchangeExecution σ)
    (op : Op σ) : ClientTracked (step port op w) :=
  ⟨step_numbered port op w hw.numbered, step_clientIdentities port op hw.numbered hw.client⟩

theorem ClientTracked.run {w : World σ} (hw : ClientTracked w) (port : IExchangeExecution σ)
    (ops : List (Op σ)) : ClientTracked (Machine.run (MmEngine.Oms.step port) ops w) :=
  Machine.invariant_run_always (I := ClientTracked) (fun op _ hw => hw.step port op) ops hw

theorem run_clientTracked (port : IExchangeExecution σ) (config : OmsConfig) (clock : Nanos)
    (venue : σ) (ops : List (Op σ)) :
    ClientTracked (Machine.run (step port) ops (World.init config clock venue)) :=
  (ClientTracked.init config clock venue).run port ops

end MmEngine.Oms
