/-
# One order per slot

Two orders of one strategy, symbol and slot should never consume exposure at the
same time. The order manager looks for an occupant before it creates an order,
but turns the New away only when that occupant waits for a cancel or has a
request outstanding. An occupant that simply rests is ignored, and the slot ends
up with two orders.

The condition of this module asks three things of a step: a New that reaches the
slot finds it free or is turned away, the News a step releases do so as well, and
an order that comes to consume exposure late, out of `created` or `orphaned`, has
the slot for itself. Every run of such steps keeps the slots exclusive.
-/

import MmEngine.Oms.Deferral

namespace MmEngine.Oms

open MmEngine.Exchange MmEngine.Quote MmEngine.Risk OmsState OrderManager

variable {σ : Type}

/-- The two orders belong to one slot of one strategy on one symbol. -/
def OrderRecord.sameSlot (a b : OrderRecord) : Bool :=
  a.ownership.strategy = b.ownership.strategy && a.symbol = b.symbol &&
    a.ownership.slot = b.ownership.slot

/-- No two orders of one slot consume exposure. -/
def SlotExclusive (orders : List OrderRecord) : Prop :=
  orders.Pairwise fun a b =>
    ¬ (a.sameSlot b = true ∧ a.consumesExposure = true ∧ b.consumesExposure = true)

instance (orders : List OrderRecord) : Decidable (SlotExclusive orders) :=
  inferInstanceAs (Decidable (List.Pairwise _ _))

namespace OmsState

/-- A New finds the slot free, or is turned away by its first occupant. -/
def slotSettled (s : OmsState) (action : OrderAction) : Bool :=
  (s.findSlotOrder action.identity.name action.symbol action.slot).all fun found =>
    found.2.state = .pendingCancel || found.2.hasPendingRequest

/-- The News that wait on the order at `i` find nobody but that order in their
slots, or are turned away; and that order gives way to them or turns them away. -/
def newsSettled (s : OmsState) (i : Nat) (id : LogicalOrderId) (givesWay : Bool) : Bool :=
  s.deferred.all fun entry => entry.all fun waiting =>
    waiting.waitingOn ≠ id ||
      givesWay &&
        (s.findSlotOrder waiting.action.identity.name waiting.action.symbol
          waiting.action.slot).all fun found =>
            found.1 = i || found.2.state = .pendingCancel || found.2.hasPendingRequest

end OmsState

/-- An order in this state, with no request outstanding, does not ignore a New:
it is out of the slot, or it waits for a cancel. -/
def OrderState.givesWay (state : OrderState) : Bool :=
  !state.consumesExposure || state = .pendingCancel

/-- The order gives way after an event that releases what waits on it. -/
def OrderRecord.givesWayTo (order : OrderRecord) : ExecutionEvent → Bool
  | .orderReject _ | .requestFailure _ => (landing order.state .rejected).givesWay
  | .orderCancel cancel =>
      if cancel.cancelStatus = .accepted then (landing order.state .cancelled).givesWay
      else (landing order.state .filled).givesWay
  | _ => (landing order.state .filled).givesWay

theorem OrderRecord.givesWayTo_cancel (order : OrderRecord) (cancel : OrderCancelEvent) :
    order.givesWayTo (.orderCancel cancel) =
      if cancel.cancelStatus = .accepted then (landing order.state .cancelled).givesWay
      else (landing order.state .filled).givesWay := rfl

/-- The events that leave the fate of an order open. -/
def doubts : ExecutionEvent → Bool
  | .orderCancel cancel => cancel.cancelStatus = .orderNotFound || cancel.cancelStatus = .unknown
  | .orderReplace replace => !replace.accepted && replace.error.outcome = .unknown
  | .requestFailure failure => failure.error.outcome ≠ .notSent
  | _ => false

/-- The order at `i` starts to consume exposure by the operation. -/
def enters (s : OmsState) (op : Op σ) (i : Nat) (order : OrderRecord) : Bool :=
  match op with
  | .apply event =>
      order.state = .orphaned && doubts event && (s.findSubject event).any fun found => found.1 = i
  | .onTimer => order.state = .orphaned && order.expired s.config s.clock
  | .resolve id target =>
      !order.consumesExposure && target.consumesExposure &&
        (s.findById id).any fun found => found.1 = i
  | _ => false

/-- An approved New that gets as far as the slot is settled there. -/
def newSettled (s : OmsState) : Op σ → Bool
  | .submit approved =>
      !approved.valid || approved.action.type ≠ .new || !s.attached ||
        decide (s.config.maxOrders ≤ s.orders.length) || s.slotSettled approved.action
  | _ => true

/-- The News an operation releases are settled in their slots. -/
def releaseSettled (s : OmsState) : Op σ → Bool
  | .apply event =>
      (validateExecutionEvent event).isError ||
        (s.findSubject event).all fun found =>
          found.2.isTerminal || !found.2.releasedBy event ||
            s.newsSettled found.1 found.2.logicalId (found.2.givesWayTo event)
  | .resolve id target =>
      (s.findById id).all fun found =>
        !isLegalTransition found.2.state target ||
          s.newsSettled found.1 found.2.logicalId (target.givesWay || found.2.hasPendingRequest)
  | _ => true

/-- An order that starts to consume exposure has the slot for itself. -/
def entersAlone (s : OmsState) (op : Op σ) : Bool :=
  s.orders.zipIdx.all fun entry =>
    !enters s op entry.2 entry.1 ||
      s.orders.zipIdx.all fun other =>
        other.2 = entry.2 || !other.1.sameSlot entry.1 ||
          !(other.1.consumesExposure || enters s op other.2 other.1)

/-- The steps that keep the slots exclusive. -/
def keepsSlots (s : OmsState) (op : Op σ) : Bool :=
  newSettled s op && releaseSettled s op && entersAlone s op

theorem OrderRecord.sameSlot_symm {a b : OrderRecord} (h : a.sameSlot b = true) :
    b.sameSlot a = true := by
  simp only [sameSlot, Bool.and_eq_true, decide_eq_true_eq] at h ⊢
  exact ⟨⟨h.1.1.symm, h.1.2.symm⟩, h.2.symm⟩

theorem OrderRecord.SameOrder.sameSlot {a b c d : OrderRecord} (hab : a.SameOrder b)
    (hcd : c.SameOrder d) : b.sameSlot d = a.sameSlot c := by
  simp only [OrderRecord.sameSlot, hab.strategy, hab.symbol, hab.slot, hcd.strategy, hcd.symbol,
    hcd.slot]

/-- The exclusion read at two positions. -/
theorem slotExclusive_iff {orders : List OrderRecord} :
    SlotExclusive orders ↔
      ∀ (i j : Nat) (a b : OrderRecord), i ≠ j → orders[i]? = some a → orders[j]? = some b →
        a.sameSlot b = true → a.consumesExposure = true → b.consumesExposure = false := by
  rw [SlotExclusive, List.pairwise_iff_getElem]
  constructor
  · intro h i j a b hij ha hb hslot haExposed
    obtain ⟨hi, rfl⟩ := List.getElem?_eq_some_iff.mp ha
    obtain ⟨hj, rfl⟩ := List.getElem?_eq_some_iff.mp hb
    rw [Bool.eq_false_iff]
    intro hbExposed
    rcases Nat.lt_or_gt_of_ne hij with hlt | hgt
    · exact h i j hi hj hlt ⟨hslot, haExposed, hbExposed⟩
    · exact h j i hj hi hgt ⟨OrderRecord.sameSlot_symm hslot, hbExposed, haExposed⟩
  · rintro h i j hi hj hlt ⟨hslot, haExposed, hbExposed⟩
    have hfalse := h i j _ _ (Nat.ne_of_lt hlt) (List.getElem?_eq_getElem hi)
      (List.getElem?_eq_getElem hj) hslot haExposed
    rw [hbExposed] at hfalse
    cases hfalse

/-- Rewriting in place keeps the slots exclusive when every order that starts to
consume exposure has its slot for itself. -/
theorem SlotExclusive.rewrite {orders after : List OrderRecord} (h : SlotExclusive orders)
    (Enters : Nat → OrderRecord → Prop)
    (hevolves : Table.Evolves (fun i a b => a.SameOrder b ∧
      (b.consumesExposure = true → a.consumesExposure = true ∨ Enters i a)) (fun _ => False)
      orders after)
    (halone : ∀ (i j : Nat) (a b : OrderRecord), i ≠ j → orders[i]? = some a →
      orders[j]? = some b → a.sameSlot b = true → Enters i a →
      b.consumesExposure = false ∧ ¬ Enters j b) : SlotExclusive after := by
  rw [slotExclusive_iff] at h ⊢
  intro i j b d hij hb hd hslot hbExposed
  rcases hevolves.cases_entry hb with ⟨a, ha, hab, haEnters⟩ | ⟨_, hfalse⟩
  · rcases hevolves.cases_entry hd with ⟨c, hc, hcd, hcEnters⟩ | ⟨_, hfalse⟩
    · rw [hab.sameSlot hcd] at hslot
      rw [Bool.eq_false_iff]
      intro hdExposed
      rcases haEnters hbExposed with haExposed | hentersA
      · have hcIdle := h i j a c hij ha hc hslot haExposed
        rcases hcEnters hdExposed with hcExposed | hentersC
        · rw [hcIdle] at hcExposed
          cases hcExposed
        · have hback := halone j i c a hij.symm hc ha (OrderRecord.sameSlot_symm hslot) hentersC
          rw [hback.1] at haExposed
          cases haExposed
      · obtain ⟨hcIdle, hcNot⟩ := halone i j a c hij ha hc hslot hentersA
        rcases hcEnters hdExposed with hcExposed | hentersC
        · rw [hcIdle] at hcExposed
          cases hcExposed
        · exact hcNot hentersC
    · exact hfalse.elim
  · exact hfalse.elim

/-- Appending an order keeps the slots exclusive when no order of its slot
consumes exposure, or it does not itself. -/
theorem SlotExclusive.concat {orders : List OrderRecord} (h : SlotExclusive orders)
    {record : OrderRecord}
    (hfree : record.consumesExposure = true →
      ∀ order ∈ orders, order.sameSlot record = true → order.consumesExposure = false) :
    SlotExclusive (orders ++ [record]) := by
  apply List.pairwise_append.mpr
  refine ⟨h, List.pairwise_singleton _ _, ?_⟩
  intro order horder last hlast
  rw [List.mem_singleton.mp hlast]
  rintro ⟨hslot, hexposed, hrecord⟩
  rw [hfree hrecord order horder hslot] at hexposed
  cases hexposed

/-! ## Which edits enter -/

theorem consumesExposure_of_landing :
    ∀ {source target : OrderState}, target ≠ .pendingNew → target ≠ .unknown →
      (landing source target).consumesExposure = true → source.consumesExposure = true := by
  decide

theorem consumesExposure_of_landing_unknown :
    ∀ {source : OrderState}, (landing source .unknown).consumesExposure = true →
      source.consumesExposure = true ∨ source = .orphaned := by
  decide

theorem ackTarget_ne (status : OrderStatus) :
    OrderRecord.ackTarget status ≠ .pendingNew ∧ OrderRecord.ackTarget status ≠ .unknown := by
  cases status <;> decide

theorem restingState_ne (order : OrderRecord) :
    order.restingState ≠ .pendingNew ∧ order.restingState ≠ .unknown := by
  unfold OrderRecord.restingState
  split <;> decide

theorem OmsState.RequestEdit.consumesExposure {s base : OmsState} {action : OrderAction}
    {order record : OrderRecord} {observed : List Observation}
    (h : RequestEdit s action order record base observed)
    (hexposed : record.consumesExposure = true) : order.consumesExposure = true := by
  have hpending : ∀ {target : OrderState}, target = .pendingCancel ∨ target = .pendingReplace →
      (landing order.state target).consumesExposure = true → order.consumesExposure = true := by
    rintro target (rfl | rfl) hland <;>
      exact consumesExposure_of_landing (by decide) (by decide) hland
  have hreturned : ∀ {target : OrderState}, target = .pendingCancel ∨ target = .pendingReplace →
      (landing (landing order.state target) .working).consumesExposure = true →
        order.consumesExposure = true := by
    intro target htarget hland
    exact hpending htarget (consumesExposure_of_landing (by decide) (by decide) hland)
  unfold OrderRecord.consumesExposure at hexposed
  cases h with
  | cancelSent =>
      rw [OrderRecord.transition_state] at hexposed
      exact hpending (.inl rfl) hexposed
  | cancelReturned =>
      rw [OrderRecord.transition_state, OrderRecord.settled, OrderRecord.transition_state]
        at hexposed
      exact hreturned (.inl rfl) hexposed
  | coalesced => exact hexposed
  | replaceSent =>
      rw [OrderRecord.transition_state] at hexposed
      exact hpending (.inr rfl) hexposed
  | replaceReturned =>
      rw [OrderRecord.transition_state, OrderRecord.replaceDropped, OrderRecord.settled,
        OrderRecord.transition_state] at hexposed
      exact hreturned (.inr rfl) hexposed

/-- An event brings an order to consume exposure only by leaving the fate of an
orphan open. -/
theorem OmsState.EventEdit.consumesExposure {s base : OmsState} {order edited : OrderRecord}
    {event : ExecutionEvent} {target : OrderState} {answers resolves : Bool}
    (h : EventEdit s order event edited target answers resolves base) {now : Nanos}
    (hexposed : (edited.transition target now).consumesExposure = true) :
    order.consumesExposure = true ∨ order.state = .orphaned ∧ doubts event = true := by
  rw [OrderRecord.consumesExposure, OrderRecord.transition_state, h.sameOrder.2] at hexposed
  have hkept : target ≠ .pendingNew → target ≠ .unknown → order.consumesExposure = true :=
    fun hnew hunknown => consumesExposure_of_landing hnew hunknown hexposed
  cases h with
  | ack => exact .inl (hkept (ackTarget_ne _).1 (ackTarget_ne _).2)
  | fillRefused =>
      rw [landing, ite_self] at hexposed
      exact .inl hexposed
  | reject | fillComplete | fillPartial | cancelAccepted | cancelTooLate | failureNotSent =>
      exact .inl (hkept (by decide) (by decide))
  | cancelRejected | replaceAccepted | replaceRefused =>
      exact .inl (hkept (restingState_ne _).1 (restingState_ne _).2)
  | cancelUnknown hstatus =>
      apply (consumesExposure_of_landing_unknown hexposed).imp id
      intro horphaned
      exact ⟨horphaned, by simpa [doubts] using hstatus⟩
  | replaceUnknown haccepted houtcome =>
      apply (consumesExposure_of_landing_unknown hexposed).imp id
      intro horphaned
      exact ⟨horphaned, by simp [doubts, haccepted, houtcome]⟩
  | failureUnknown houtcome =>
      apply (consumesExposure_of_landing_unknown hexposed).imp id
      intro horphaned
      exact ⟨horphaned, by simp [doubts, houtcome]⟩

theorem Edited.consumesExposure_or_enters {s : OmsState} {i : Nat} {order record : OrderRecord}
    {op : Op σ} (h : Edited s i order op record) (hexposed : record.consumesExposure = true) :
    order.consumesExposure = true ∨ enters s op i order = true := by
  cases h with
  | request _ _ _ hedit => exact .inl (hedit.consumesExposure hexposed)
  | event _ hfound _ hedit =>
      apply (hedit.consumesExposure hexposed).imp id
      rintro ⟨horphaned, hdoubts⟩
      simp [enters, horphaned, hdoubts, hfound]
  | timedOut hexpired =>
      rw [OrderRecord.consumesExposure, OrderRecord.transition_state] at hexposed
      apply (consumesExposure_of_landing_unknown hexposed).imp id
      intro horphaned
      have hstate : order.state = .orphaned := horphaned
      simp [enters, hstate, hexpired]
  | omitted _ hmissing =>
      left
      simp only [OmsState.missingAt, Bool.and_eq_true] at hmissing
      exact OrderState.consumesExposure_of_isLive hmissing.1.2
  | resolved hfound =>
      by_cases hbefore : order.consumesExposure = true
      · exact .inl hbefore
      · right
        rw [OrderRecord.consumesExposure, concluded_state] at hexposed
        simp [enters, hbefore, hexposed, hfound]
  | restarted =>
      left
      unfold recovered at hexposed
      split at hexposed
      · rename_i hpending
        exact OrderState.consumesExposure_of_hasPendingRequest hpending
      · exact hexposed

/-- Up to the release, a step that keeps the slots and creates no order. -/
theorem SlotExclusive.edited {s after : OmsState} {op : Op σ} (h : SlotExclusive s.orders)
    (hevolves : Table.Evolves (fun i a b => a = b ∨ Edited s i a op b) (fun _ => False) s.orders
      after.orders) (halone : entersAlone s op = true) : SlotExclusive after.orders := by
  apply h.rewrite (fun i order => enters s op i order = true)
  · refine hevolves.mono ?_ (fun _ hfalse => hfalse)
    rintro i a b _ (rfl | hedited)
    · exact ⟨.refl _, .inl⟩
    · exact ⟨hedited.sameOrder, hedited.consumesExposure_or_enters⟩
  · intro i j a b hij ha hb hslot henters
    have hentry := List.all_eq_true.mp halone (a, i) (List.mem_zipIdx_iff_getElem?.mpr ha)
    simp only [henters, Bool.not_true, Bool.false_or] at hentry
    have hother := List.all_eq_true.mp hentry (b, j) (List.mem_zipIdx_iff_getElem?.mpr hb)
    simpa [hij.symm, OrderRecord.sameSlot_symm hslot] using hother

theorem slotSettled_iff {s : OmsState} {action : OrderAction} :
    s.slotSettled action = true ↔
      ∀ k occupant, s.findSlotOrder action.identity.name action.symbol action.slot =
        some (k, occupant) → occupant.state = .pendingCancel ∨ occupant.pendingRequest ≠ 0 := by
  unfold OmsState.slotSettled
  cases hfound : s.findSlotOrder action.identity.name action.symbol action.slot with
  | none => simp
  | some found =>
      obtain ⟨k, occupant⟩ := found
      simp only [Option.all_some, OrderRecord.hasPendingRequest, Bool.or_eq_true,
        decide_eq_true_eq, Option.some.injEq, Prod.mk.injEq]
      constructor
      · rintro hsettled _ _ ⟨rfl, rfl⟩
        exact hsettled
      · exact fun h => h k occupant ⟨rfl, rfl⟩

/-- A slot that is settled for a New and lets it pass is free. -/
theorem findSlotOrder_eq_none {s : OmsState} {action : OrderAction}
    (hsettled : s.slotSettled action = true) (hpassable : s.SlotPassable action) :
    s.findSlotOrder action.identity.name action.symbol action.slot = none := by
  cases hfound : s.findSlotOrder action.identity.name action.symbol action.slot with
  | none => rfl
  | some found =>
      obtain ⟨hcancel, hrequest⟩ := hpassable found.1 found.2 hfound
      rcases slotSettled_iff.mp hsettled found.1 found.2 hfound with hstate | hpending
      · exact absurd hstate hcancel
      · exact absurd hrequest hpending

/-- A new order consumes exposure only with its request outstanding. -/
theorem OmsState.NewRecord.pending_of_consumesExposure {s base : OmsState}
    {created record : OrderRecord} {observed : List Observation}
    (h : NewRecord s created record base observed) (hcreated : created.state = .created)
    (hexposed : record.consumesExposure = true) :
    s.attached = true ∧ record.pendingRequest ≠ 0 := by
  rw [OrderRecord.consumesExposure] at hexposed
  cases h with
  | unattached =>
      rw [hcreated] at hexposed
      cases hexposed
  | accepted hattached =>
      refine ⟨hattached, ?_⟩
      rw [OrderRecord.transition_pendingRequest, if_neg (by simp [OrderState.isTerminal])]
      exact Nat.succ_ne_zero _
  | rejected =>
      have hstate : (created.submitted (s.nextRequestId + 1) s.clock).state = .created := hcreated
      rw [OrderRecord.transition_state, OrderRecord.settled, OrderRecord.transition_state, hstate]
        at hexposed
      cases hexposed

theorem OmsState.NewOutcome.slotExclusive {s after : OmsState} {action : OrderAction}
    {observed : List Observation} (h : NewOutcome s action after observed)
    (hexclusive : SlotExclusive s.orders) (hname : action.identity.name.isEmpty = false)
    (hsettled : s.attached = true → s.orders.length < s.config.maxOrders →
      s.slotSettled action = true) : SlotExclusive after.orders := by
  cases h with
  | refused | burned | deferred => exact hexclusive
  | @created _ record _ _ hroom hpassable _ _ hrecord =>
      have hsame := hrecord.sameOrder
      have hconcat : SlotExclusive (s.orders ++ [record]) := by
        apply hexclusive.concat
        intro hexposed order horder hslot
        have hfree := findSlotOrder_eq_none
          (hsettled (hrecord.pending_of_consumesExposure rfl hexposed).1 hroom) hpassable
        have hnot := findSlotOrder_eq_none_iff.mp hfree order horder
        simp only [OrderRecord.sameSlot, hsame.strategy, hsame.symbol, hsame.slot,
          OmsState.newOrder, Bool.and_eq_true, decide_eq_true_eq] at hslot
        obtain ⟨⟨hstrategy, hsymbol⟩, hwhich⟩ := hslot
        simpa [OrderRecord.occupies, OrderOwnership.matches, hstrategy, hsymbol, hwhich, hname]
          using hnot
      rcases hrecord.base_eq with rfl | rfl <;> exact hconcat

/-- The slot another New looks at stays settled: an order created in between has
its request outstanding. -/
theorem OmsState.NewOutcome.slotSettled {s after : OmsState} {action other : OrderAction}
    {observed : List Observation} (h : NewOutcome s action after observed)
    (hsettled : s.slotSettled other = true) : after.slotSettled other = true := by
  cases h with
  | refused | burned | deferred => exact hsettled
  | @created _ record base _ _ _ _ _ hrecord =>
      rw [slotSettled_iff] at hsettled ⊢
      have horders : (base.addOrder record).orders = s.orders ++ [record] := by
        rcases hrecord.base_eq with rfl | rfl <;> rfl
      intro k occupant hfound
      rw [findSlotOrder_eq_some_iff, horders] at hfound
      obtain ⟨hoccupant, hoccupies, hbefore⟩ := hfound
      by_cases hk : k < s.orders.length
      · rw [List.getElem?_append_left hk] at hoccupant
        refine hsettled k occupant (findSlotOrder_eq_some_iff.mpr ⟨hoccupant, hoccupies, ?_⟩)
        intro j earlier hj hearlier
        apply hbefore j earlier hj
        rw [List.getElem?_append_left (Nat.lt_trans hj hk), hearlier]
      · rw [List.getElem?_append_right (Nat.le_of_not_lt hk)] at hoccupant
        have hlast : occupant = record := by
          simpa using List.mem_of_getElem? hoccupant
        subst hlast
        simp only [OrderRecord.occupies, Bool.and_eq_true] at hoccupies
        exact .inr (hrecord.pending_of_consumesExposure rfl hoccupies.2).2

/-- Every action belongs to a strategy. -/
def NamedStrategy (action : OrderAction) : Prop := action.identity.name.isEmpty = false

instance (action : OrderAction) : Decidable (NamedStrategy action) :=
  inferInstanceAs (Decidable (_ = _))

theorem consumesExposure_of_occupies {order : OrderRecord} {owner : StrategyName}
    {symbol : Symbol} {slot : QuoteSlot} (h : order.occupies owner symbol slot = true) :
    order.consumesExposure = true := by
  simp only [OrderRecord.occupies, Bool.and_eq_true] at h
  exact h.2

theorem sameSlot_of_occupies {a b : OrderRecord} {owner : StrategyName} {symbol : Symbol}
    {slot : QuoteSlot} (ha : a.occupies owner symbol slot = true)
    (hb : b.occupies owner symbol slot = true) : a.sameSlot b = true := by
  simp only [OrderRecord.occupies, OrderOwnership.matches, Bool.and_eq_true,
    decide_eq_true_eq] at ha hb
  simp [OrderRecord.sameSlot, ha, hb]

/-- After an event that releases, an order that gives way and still consumes
exposure waits for a cancel. -/
theorem OmsState.EventEdit.givesWay {s base : OmsState} {order edited : OrderRecord}
    {event : ExecutionEvent} {target : OrderState} {answers : Bool}
    (h : EventEdit s order event edited target answers true base) {now : Nanos}
    (hgives : order.givesWayTo event = true)
    (hexposed : (edited.transition target now).consumesExposure = true) :
    (edited.transition target now).state = .pendingCancel := by
  have hstate : (edited.transition target now).state = landing order.state target := by
    rw [OrderRecord.transition_state, h.sameOrder.2]
  have hway : (landing order.state target).givesWay = true := by
    cases h with
    | reject | fillComplete | failureNotSent => exact hgives
    | cancelAccepted hstatus | cancelTooLate hstatus =>
        simpa [OrderRecord.givesWayTo_cancel, hstatus] using hgives
  rw [OrderRecord.consumesExposure, hstate] at hexposed
  rw [hstate]
  simpa [OrderState.givesWay, hexposed] using hway

/-- During the release of what waits on an order: the slots are exclusive and
settled for everything still to be released. -/
structure ReleasingSettled (id : LogicalOrderId) (w : World σ) : Prop where
  exclusive : SlotExclusive w.oms.orders
  held : Held NamedStrategy w.oms.toOmsState
  settled : ∀ (entry : Nat) (waiting : DeferredNew),
    w.oms.deferred[entry]? = some (some waiting) → waiting.waitingOn = id →
      w.oms.toOmsState.slotSettled waiting.action = true

theorem ReleasingSettled.releaseEntry {id : LogicalOrderId} {w : World σ}
    (h : ReleasingSettled id w) (port : IExchangeExecution σ) (entry : Nat) :
    ReleasingSettled id (releaseEntry port id w entry) := by
  rcases releaseEntry_outcome port id w entry with
    hsame | ⟨waiting, observed, hentry, hon, hnew, _⟩
  · rw [hsame]
    exact h
  · have hname : NamedStrategy waiting.action := h.held entry waiting hentry
    have hfirst : (w.oms.toOmsState.vacate entry).slotSettled waiting.action = true :=
      h.settled entry waiting hentry hon
    refine ⟨hnew.slotExclusive h.exclusive hname (fun _ _ => hfirst),
      hnew.held (h.held.vacate entry) hname, ?_⟩
    intro other later hlater hlaterOn
    apply hnew.slotSettled
    rcases hnew.deferred_cases hlater with hold | haction
    · exact h.settled other later (deferred_of_vacate hold) hlaterOn
    · rw [haction]
      exact hfirst

/-- What a step that settles its releases leaves in the slots of the News that
wait on the order it rewrote. -/
theorem slotSettled_store {s base : OmsState} {i : Nat} {order record : OrderRecord}
    {givesWay : Bool} (hexclusive : SlotExclusive s.orders) (hbase : base.orders = s.orders)
    (hdeferred : base.deferred = s.deferred) (horder : s.orders[i]? = some order)
    (hnews : s.newsSettled i order.logicalId givesWay = true)
    (hgives : givesWay = true → record.consumesExposure = true →
      record.state = .pendingCancel ∨ record.pendingRequest ≠ 0) :
    ∀ (entry : Nat) (waiting : DeferredNew),
      (base.store i record).deferred[entry]? = some (some waiting) →
        waiting.waitingOn = order.logicalId →
          (base.store i record).slotSettled waiting.action = true := by
  intro entry waiting hentry hon
  have hmem : some waiting ∈ s.deferred := by
    rw [← hdeferred]
    exact List.mem_of_getElem? hentry
  have hsettled := List.all_eq_true.mp hnews _ hmem
  simp only [Option.all_some, hon, ne_eq, not_true_eq_false, decide_false, Bool.false_or,
    Bool.and_eq_true] at hsettled
  obtain ⟨hway, hfirst⟩ := hsettled
  have hstore : (base.store i record).orders = s.orders.set i record := by
    rw [OmsState.store, hbase]
  rw [slotSettled_iff]
  intro k occupant hfound
  rw [findSlotOrder_eq_some_iff, hstore] at hfound
  obtain ⟨hoccupant, hoccupies, hbefore⟩ := hfound
  by_cases hki : i = k
  · subst hki
    rw [List.getElem?_set_self (List.getElem?_eq_some_iff.mp horder).1] at hoccupant
    cases hoccupant
    simp only [OrderRecord.occupies, Bool.and_eq_true] at hoccupies
    exact hgives hway hoccupies.2
  · rw [List.getElem?_set_ne hki] at hoccupant
    -- The slot had a first occupant before; it is this one, since slots are exclusive.
    cases hslot : s.findSlotOrder waiting.action.identity.name waiting.action.symbol
        waiting.action.slot with
    | none =>
        have hnot := findSlotOrder_eq_none_iff.mp hslot occupant (List.mem_of_getElem? hoccupant)
        rw [hnot] at hoccupies
        cases hoccupies
    | some first =>
        obtain ⟨j, earlier⟩ := first
        obtain ⟨hearlier, hearlierOccupies, _⟩ := findSlotOrder_eq_some_iff.mp hslot
        have hjk : j = k := by
          by_contra hne
          have hidle := slotExclusive_iff.mp hexclusive j k earlier occupant hne hearlier hoccupant
            (sameSlot_of_occupies hearlierOccupies hoccupies)
            (consumesExposure_of_occupies hearlierOccupies)
          rw [consumesExposure_of_occupies hoccupies] at hidle
          cases hidle
        subst hjk
        rw [hoccupant] at hearlier
        cases hearlier
        simpa [hslot, Ne.symm hki, OrderRecord.hasPendingRequest] using hfirst

/-- The News a step releases find their slots settled. -/
theorem PrimaryOutcome.releasing {s after : OmsState} {op : Op σ} {id : LogicalOrderId}
    {observed : List Observation} (h : PrimaryOutcome s op after (some id) observed)
    (hexclusive : SlotExclusive s.orders) (hsettled : releaseSettled s op = true) :
    ∀ (entry : Nat) (waiting : DeferredNew),
      after.deferred[entry]? = some (some waiting) → waiting.waitingOn = id →
        after.slotSettled waiting.action = true := by
  cases h.releaseCause with
  | event hvalid hfound hterminal hedit =>
      obtain ⟨_, _, hbase⟩ := hedit.base_eq
      simp only [releaseSettled, hvalid, hfound, hterminal, hedit.releasedBy, Option.all_some,
        Bool.not_true, Bool.false_or] at hsettled
      refine slotSettled_store hexclusive (by rw [hbase]; rfl) (by rw [hbase]; rfl)
        (findSubject_getElem hfound) hsettled ?_
      intro hgives hexposed
      exact .inl (hedit.givesWay hgives hexposed)
  | resolution hfound hlegal =>
      simp only [releaseSettled, hfound, hlegal, Option.all_some, Bool.not_true,
        Bool.false_or] at hsettled
      refine slotSettled_store hexclusive rfl rfl (findById_eq_some_iff.mp hfound).2 hsettled ?_
      intro hgives hexposed
      rw [OrderRecord.consumesExposure, concluded_state] at hexposed
      have hlive := OrderState.not_isTerminal_of_consumesExposure hexposed
      simp only [OrderState.givesWay, hexposed, Bool.not_true, Bool.false_or, Bool.or_eq_true,
        decide_eq_true_eq, OrderRecord.hasPendingRequest] at hgives
      rw [concluded_state]
      exact hgives.imp id (fun hpending => by simpa [concluded, hlive] using hpending)

/-- Up to the release, a step that keeps the slots. -/
theorem PrimaryOutcome.slotExclusive {s after : OmsState} {op : Op σ}
    {resolved : Option LogicalOrderId} {observed : List Observation}
    (h : PrimaryOutcome s op after resolved observed) (hexclusive : SlotExclusive s.orders)
    (hop : Admits NamedStrategy op) (hnew : newSettled s op = true)
    (halone : entersAlone s op = true) : SlotExclusive after.orders := by
  -- An operation that admits no New appends no record.
  have hedits : Admits (fun _ => False) op → SlotExclusive after.orders := by
    intro hnone
    refine hexclusive.edited ((h.evolves hnone).mono (fun _ _ _ _ hrewrite => hrewrite) ?_) halone
    rintro _ ⟨_, hfalse, _⟩
    exact hfalse
  cases h with
  | submit h =>
      cases h with
      | refused | burned => exact hexclusive
      | new hvalid htype houtcome =>
          refine houtcome.slotExclusive hexclusive (hop hvalid htype) ?_
          intro hattached hroom
          simpa [newSettled, hvalid, htype, hattached, Nat.not_le.mpr hroom] using hnew
      | edited _ _ _ hedit =>
          apply hedits
          intro _ htype
          rcases hedit.type with hcancel | hreplace
          · rw [hcancel] at htype
            cases htype
          · rw [hreplace] at htype
            cases htype
  | apply | onTimer | reconcile | resolve | attachExecution | advance | venue | restartRefused
  | restarted => exact hedits trivial

/-- What carries the exclusion along a run. -/
structure SlotInvariant (w : World σ) : Prop where
  tracked : Tracked NamedStrategy w
  exclusive : SlotExclusive w.oms.orders

theorem SlotInvariant.step {w : World σ} (hw : SlotInvariant w) (port : IExchangeExecution σ)
    {op : Op σ} (hop : Admits NamedStrategy op)
    (hkeeps : keepsSlots w.oms.toOmsState op = true) : SlotInvariant (step port op w) := by
  simp only [keepsSlots, Bool.and_eq_true] at hkeeps
  obtain ⟨⟨hnew, hsettled⟩, halone⟩ := hkeeps
  refine ⟨hw.tracked.step port hop, ?_⟩
  obtain ⟨_, _, houtcome⟩ := primary_outcome port op w hw.tracked.numbered
  have hprimary := houtcome.slotExclusive hw.exclusive hop hnew halone
  have hheld := houtcome.held hw.tracked.held hop
  unfold Oms.step
  cases hresolved : (primary port op w).2 with
  | none => exact hprimary
  | some id =>
      rw [hresolved] at houtcome
      have hinit : ReleasingSettled id (primary port op w).1 :=
        ⟨hprimary, hheld, houtcome.releasing hw.exclusive hsettled⟩
      exact (releaseDeferred_invariant port (fun _ entry h => h.releaseEntry port entry)
        hinit).exclusive

/-- In every run of named strategies whose steps keep the slots, no two orders of
one slot consume exposure in any state. -/
theorem slot_exclusive_along (port : IExchangeExecution σ) (config : OmsConfig) (clock : Nanos)
    (venue : σ) (ops : List (Op σ)) (hnamed : ∀ op ∈ ops, Admits NamedStrategy op)
    (hkeeps : Machine.Along (step port) (fun op w => keepsSlots w.oms.toOmsState op = true) ops
      (World.init config clock venue)) :
    SlotExclusive (Machine.run (step port) ops (World.init config clock venue)).oms.orders := by
  have hinit : SlotInvariant (World.init config clock venue) :=
    ⟨tracked_init _ config clock venue, List.Pairwise.nil⟩
  have hinvariant : SlotInvariant (Machine.run (step port) ops (World.init config clock venue)) :=
    Machine.invariant_run (fun _ _ hw hop => hw.step port hop.1 hop.2) hinit
      ((Machine.along_label_iff.mpr hnamed).and hkeeps)
  exact hinvariant.exclusive

/-- A replacement that waits for its cancel, and a New turned away by the request
outstanding for it. -/
theorem slot_exclusive_along_replacement :
    let ops : List (Op Unit) := [.attachExecution, Sample.submitNew 10, Sample.ack '1' 'x',
      Sample.submitCancel, Sample.submitNew 10, Sample.fill '1' 'a' 5,
      Sample.cancelAnswer '1' .accepted, Sample.submitNew 10]
    SlotExclusive (Sample.after ops).oms.orders := by
  intro ops
  rw [Sample.after]
  exact slot_exclusive_along Sample.acceptAll {} 1 () ops (by decide +kernel) (by decide +kernel)

/-- A second New meets an order that rests on the slot. -/
theorem resting_order_shares_slot :
    let ops : List (Op Unit) := [.attachExecution, Sample.submitNew 10, Sample.ack '1' 'x',
      Sample.submitNew 10]
    (∀ op ∈ ops, Admits NamedStrategy op) ∧
      ¬ SlotExclusive (Sample.after ops).oms.orders := by
  decide +kernel

end MmEngine.Oms
