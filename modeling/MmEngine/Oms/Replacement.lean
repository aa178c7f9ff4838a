/-
# What an accepted replace leaves

A Replace that finds its order waiting for an earlier one is not sent: it only
overwrites the target the order will take on the acknowledgement. So the
acknowledgement lands on the newest intent and not on the parameters the venue
confirmed, by the policy the source states for coalescing.

The target of an order is written in two places, when a replace request is handed
to the adapter and when a Replace is coalesced. A run lemma follows it through any
operations between a request and its answer; the answer copies it into the order.
-/

import MmEngine.Oms.ClientNames

namespace MmEngine.Oms

open MmEngine.Exchange MmEngine.Quote MmEngine.Risk OmsState OrderManager

variable {σ : Type}

namespace OrderRecord

/-- The price and quantity the order takes when its replace is accepted. -/
def target (order : OrderRecord) : Px × Qty := (order.pendingPrice, order.pendingQuantity)

/-- The price and quantity of the order. -/
def terms (order : OrderRecord) : Px × Qty := (order.price, order.originalQuantity)

@[simp]
theorem transition_target (order : OrderRecord) (state : OrderState) (now : Nanos) :
    (order.transition state now).target = order.target := by
  rw [transition_eq]
  rfl

@[simp]
theorem transition_terms (order : OrderRecord) (state : OrderState) (now : Nanos) :
    (order.transition state now).terms = order.terms := by
  rw [transition_eq]
  rfl

end OrderRecord

/-- The request an approved Replace hands to the adapter: the order it finds, under
the next client identity, at the price and quantity of the action. -/
def OmsState.replaceRequest? (s : OmsState) (action : OrderAction) : Option ReplaceRequest := do
  let (_, order) ← s.findTarget action false
  let replacementId ← s.idGenerator.next.1
  pure (order.replaceRequest replacementId action.price action.quantity s.clock)

/-- The event confirms the request, with exactly its parameters. -/
structure Confirms (request : ReplaceRequest) (replace : OrderReplaceEvent) : Prop where
  valid : (validateExecutionEvent (.orderReplace replace)).isError = false
  accepted : replace.accepted = true
  original : replace.originalClientOrderId = request.originalClientOrderId
  replacement : replace.newClientOrderId = request.newClientOrderId
  price : replace.newPrice = request.newPrice
  quantity : replace.newQty = request.newQuantity

/-- The target a Replace leaves when it is coalesced into the request outstanding
for the order. -/
def coalescedTarget (port : IExchangeExecution σ) (id : LogicalOrderId) (op : Op σ)
    (w : World σ) : Option (Px × Qty) :=
  match op with
  | .submit approved =>
      let result := (submit port approved w).1
      if approved.action.type = .replace ∧ result.coalesced = true ∧ result.logicalId = id then
        some (approved.action.price, approved.action.quantity)
      else none
  | _ => none

/-- The newest target coalesced along a run, or the given one. -/
def newestTarget (port : IExchangeExecution σ) (id : LogicalOrderId) :
    List (Op σ) → World σ → Px × Qty → Px × Qty
  | [], _, confirmed => confirmed
  | op :: ops, w, confirmed =>
      newestTarget port id ops (step port op w) ((coalescedTarget port id op w).getD confirmed)

/-- True of a step that hands a replace request for the order to the adapter. -/
def handsReplace (port : IExchangeExecution σ) (id : LogicalOrderId) (op : Op σ)
    (w : World σ) : Bool :=
  ((step port op w).trace.drop w.trace.length).any fun observation =>
    observation = .sent id .replace true || observation = .sent id .replace false

section Report

variable (port : IExchangeExecution σ) {w : World σ} {approved : ApprovedAction}

/-- A Replace that finds its order waiting for an earlier one only moves the
target. -/
theorem submit_of_coalesced {k : Nat} {order : OrderRecord} (hvalid : approved.valid = true)
    (htype : approved.action.type = .replace)
    (hfound : w.oms.findTarget approved.action false = some (k, order))
    (howned : ownershipViolated approved.action order = false)
    (hlive : order.isTerminal = false)
    (hcurrent : order.ownership.generation ≤ approved.action.generation)
    (hstate : order.state = .pendingReplace) :
    (submit port approved w).1.coalesced = true ∧
      (submit port approved w).1.logicalId = order.logicalId ∧
      (submit port approved w).2.oms.orders =
        w.oms.orders.set k (order.amending approved.action.price approved.action.quantity
          approved.action.generation) := by
  have hfresh : ¬ approved.action.generation < order.ownership.generation :=
    Nat.not_lt.mpr hcurrent
  simp [submit, hvalid, htype, handleReplace, hfound, howned, hlive, hfresh, hstate,
    World.refuse, World.withOms, OmsState.store]

/-- A Replace reports that it was coalesced only when it was. -/
theorem coalesced_cases (htype : approved.action.type = .replace)
    (hcoalesced : (submit port approved w).1.coalesced = true) :
    approved.valid = true ∧ ∃ k order,
      w.oms.findTarget approved.action false = some (k, order) ∧
      ownershipViolated approved.action order = false ∧ order.isTerminal = false ∧
      order.ownership.generation ≤ approved.action.generation ∧
      order.state = .pendingReplace := by
  rw [submit] at hcoalesced
  split at hcoalesced
  · cases hcoalesced
  rename_i hvalid
  refine ⟨by simpa using hvalid, ?_⟩
  simp only [htype, handleReplace] at hcoalesced
  split at hcoalesced
  · cases hcoalesced
  rename_i k order hfound
  refine ⟨k, order, hfound, ?_⟩
  split at hcoalesced
  · cases hcoalesced
  rename_i howned
  split at hcoalesced
  · cases hcoalesced
  rename_i hlive
  split at hcoalesced
  · cases hcoalesced
  rename_i hcurrent
  split at hcoalesced
  · rename_i hstate
    exact ⟨by simpa using howned, by simpa using hlive, Nat.le_of_not_lt hcurrent, hstate⟩
  split at hcoalesced
  · cases hcoalesced
  split at hcoalesced
  · cases hcoalesced
  split at hcoalesced
  · cases hcoalesced
  · rw [sendReplace] at hcoalesced
    dsimp only at hcoalesced
    split at hcoalesced <;> cases hcoalesced

/-- A Replace is reported as accepted only when the adapter took its request. -/
theorem accepted_cases (htype : approved.action.type = .replace)
    (haccepted : (submit port approved w).1.accepted = true) :
    ∃ k order replacementId,
      w.oms.findTarget approved.action false = some (k, order) ∧
      w.oms.idGenerator.next.1 = some replacementId ∧
      (submit port approved w).1.logicalId = order.logicalId ∧
      (submit port approved w).2.oms.orders =
        w.oms.orders.set k ((order.replacing approved.action replacementId
          (w.oms.nextRequestId + 1) w.oms.clock).transition .pendingReplace w.oms.clock) := by
  rw [submit] at haccepted ⊢
  split at haccepted
  · cases haccepted
  rename_i hvalid
  rw [if_neg hvalid]
  simp only [htype, handleReplace] at haccepted ⊢
  split at haccepted
  · cases haccepted
  rename_i k order hfound
  split at haccepted
  · cases haccepted
  rename_i howned
  split at haccepted
  · cases haccepted
  rename_i hlive
  split at haccepted
  · cases haccepted
  rename_i hcurrent
  split at haccepted
  · cases haccepted
  rename_i hstate
  split at haccepted
  · cases haccepted
  rename_i hpending
  split at haccepted
  · cases haccepted
  rename_i hattached
  split at haccepted
  · cases haccepted
  rename_i replacementId hid
  refine ⟨k, order, replacementId, hfound, hid, ?_⟩
  simp only [howned, hlive, hcurrent, hstate, hpending, hattached, if_false]
  rw [sendReplace] at haccepted ⊢
  dsimp only at haccepted ⊢
  split at haccepted
  · cases haccepted
  · rename_i hsent
    rw [if_neg hsent]
    refine ⟨rfl, ?_⟩
    simp [World.observe, World.withOms, OmsState.store, OmsState.nextRequest,
      OmsState.burnClientId]

end Report

/-! ## What moves the target -/

theorem bookFill_target {order booked : OrderRecord} {fill : FillEvent}
    (h : order.bookFill fill = .ok booked) : booked.target = order.target := by
  rw [(bookFill_eq_ok h).2.2]
  rfl

theorem swapIdentity_target {s base : OmsState} {order swapped : OrderRecord}
    {replace : OrderReplaceEvent} (h : s.swapIdentity order replace = (base, swapped)) :
    swapped.target = order.target := by
  rw [swapIdentity_record h]
  rfl

/-- No event moves the target. -/
theorem OmsState.EventEdit.target_eq {s base : OmsState} {order edited : OrderRecord}
    {event : ExecutionEvent} {state : OrderState} {answers resolves : Bool}
    (h : EventEdit s order event edited state answers resolves base) :
    edited.target = order.target := by
  cases h with
  | ack _ _ hbind =>
      rcases bindExchangeId_eq_some hbind with
        ⟨_, rfl, rfl⟩ | ⟨_, rfl, _, ⟨_, rfl⟩ | ⟨_, _, rfl⟩⟩
      all_goals rfl
  | fillComplete _ _ hbook | fillPartial _ _ hbook =>
      rw [bookFill_target hbook]
      rfl
  | @replaceAccepted _ swapped _ _ hswap =>
      have hsame : swapped.target = (order.stamped _).target := swapIdentity_target hswap
      exact hsame
  | reject | fillRefused | cancelAccepted | cancelRejected | cancelTooLate | cancelUnknown
  | replaceUnknown | replaceRefused | failureNotSent | failureUnknown => rfl

/-- Outside a submission nothing moves the target. -/
theorem Edited.target_eq {s : OmsState} {i : Nat} {order record : OrderRecord} {op : Op σ}
    (h : Edited s i order op record) (hop : ∀ approved, op ≠ .submit approved) :
    record.target = order.target := by
  cases h with
  | request => exact absurd rfl (hop _)
  | event _ _ _ hedit => rw [OrderRecord.transition_target, hedit.target_eq]
  | timedOut => exact OrderRecord.transition_target _ _ _
  | omitted => exact OrderRecord.transition_target _ _ _
  | resolved =>
      rw [concluded]
      split <;> rfl
  | restarted =>
      rw [recovered]
      split <;> rfl

/-- A cancel, or a replace the order was not free for, moves no target unless the
replace is coalesced; any other replace is handed to the adapter. -/
theorem OmsState.RequestEdit.target_cases {s base : OmsState} {action : OrderAction}
    {order record : OrderRecord} {observed : List Observation}
    (h : RequestEdit s action order record base observed) :
    record.target = order.target ∨
      (action.type = .replace ∧ order.state = .pendingReplace ∧
        ownershipViolated action order = false ∧
        order.ownership.generation ≤ action.generation) ∨
      ∃ accepted, observed = [.sent order.logicalId .replace accepted] := by
  cases h with
  | cancelSent => exact .inl (OrderRecord.transition_target _ _ _)
  | cancelReturned =>
      refine .inl ((OrderRecord.transition_target _ _ _).trans ?_)
      exact OrderRecord.transition_target _ _ _
  | coalesced htype hstate howned hcurrent => exact .inr (.inl ⟨htype, hstate, howned, hcurrent⟩)
  | replaceSent => exact .inr (.inr ⟨true, rfl⟩)
  | replaceReturned => exact .inr (.inr ⟨false, rfl⟩)

/-- What a submission does to the target of one order. -/
theorem OmsState.SubmitOutcome.target_cases {s after : OmsState} {approved : ApprovedAction}
    {observed : List Observation} (h : SubmitOutcome s approved after observed) {i : Nat}
    {order : OrderRecord} (horder : s.orders[i]? = some order) :
    ∃ record, after.orders[i]? = some record ∧
      (record.target = order.target ∨
        (approved.valid = true ∧ approved.action.type = .replace ∧
          s.findTarget approved.action false = some (i, order) ∧ order.isTerminal = false ∧
          order.state = .pendingReplace ∧ ownershipViolated approved.action order = false ∧
          order.ownership.generation ≤ approved.action.generation) ∨
        ∃ accepted, .sent order.logicalId .replace accepted ∈ observed) := by
  cases h with
  | refused => exact ⟨order, horder, .inl rfl⟩
  | burned => exact ⟨order, horder, .inl rfl⟩
  | new _ _ houtcome =>
      obtain ⟨record, hrecord, rfl⟩ :=
        (houtcome.evolves (Q := fun _ => True) trivial).old i order horder
      exact ⟨order, hrecord, .inl rfl⟩
  | @edited k found record base _ hvalid hfound hterminal hedit =>
      have hk := findTarget_getElem hfound
      have horders : (base.store k record).orders = s.orders.set k record := by
        rcases hedit.base_eq with rfl | rfl | rfl <;> rfl
      rw [horders]
      by_cases hsame : k = i
      · subst hsame
        rw [horder] at hk
        cases hk
        rw [List.getElem?_set_self (List.getElem?_eq_some_iff.mp horder).1]
        refine ⟨record, rfl, ?_⟩
        rcases hedit.target_cases with hkept | ⟨htype, hstate, howned, hcurrent⟩ | ⟨accepted, rfl⟩
        · exact .inl hkept
        · have hreplace : s.findTarget approved.action false = some (k, order) := by
            simpa [htype] using hfound
          exact .inr (.inl ⟨hvalid, htype, hreplace, hterminal, hstate, howned, hcurrent⟩)
        · exact .inr (.inr ⟨accepted, List.mem_singleton_self _⟩)
      · rw [List.getElem?_set_ne hsame]
        exact ⟨order, horder, .inl rfl⟩

/-- A submission moves the target of an order only by coalescing, unless it hands
a replace request to the adapter. -/
theorem submit_target (port : IExchangeExecution σ) (approved : ApprovedAction) {w : World σ}
    (hnumbered : w.oms.toOmsState.Numbered) {i : Nat} {order : OrderRecord}
    (horder : w.oms.orders[i]? = some order)
    (hhands : handsReplace port order.logicalId (.submit approved) w = false) :
    ∃ record, (submit port approved w).2.oms.orders[i]? = some record ∧
      record.target =
        (coalescedTarget port order.logicalId (.submit approved) w).getD order.target := by
  by_cases hcoalesced : approved.action.type = .replace ∧
      (submit port approved w).1.coalesced = true ∧
      (submit port approved w).1.logicalId = order.logicalId
  · obtain ⟨htype, hflag, hid⟩ := hcoalesced
    obtain ⟨hvalid, k, found, hfound, howned, hlive, hcurrent, hstate⟩ :=
      coalesced_cases port htype hflag
    obtain ⟨_, hreported, horders⟩ :=
      submit_of_coalesced port hvalid htype hfound howned hlive hcurrent hstate
    have hk := findTarget_getElem hfound
    have hsame : k = i := hnumbered.index_unique hk horder (hreported.symm.trans hid)
    subst hsame
    rw [horders, List.getElem?_set_self (List.getElem?_eq_some_iff.mp horder).1]
    refine ⟨_, rfl, ?_⟩
    simp [coalescedTarget, htype, hflag, hid, OrderRecord.target, OrderRecord.amending]
  · have hnone : coalescedTarget port order.logicalId (.submit approved) w = none :=
      if_neg hcoalesced
    rw [hnone, Option.getD_none]
    obtain ⟨observed, htrace, houtcome⟩ := submit_outcome port approved w
    have hunsent : ∀ accepted, Observation.sent order.logicalId .replace accepted ∉ observed := by
      intro accepted hmem
      have hdrop : (step port (.submit approved) w).trace.drop w.trace.length = observed := by
        rw [show (step port (.submit approved) w).trace = w.trace ++ observed from htrace,
          List.drop_left]
      rw [handsReplace, hdrop, List.any_eq_false] at hhands
      apply hhands _ hmem
      cases accepted <;> simp
    obtain ⟨record, hrecord, hsame | ⟨hvalid, htype, hfound, hlive, hstate, howned, hcurrent⟩ |
      ⟨accepted, hsent⟩⟩ := houtcome.target_cases horder
    · exact ⟨record, hrecord, hsame⟩
    · obtain ⟨hflag, hid, _⟩ :=
        submit_of_coalesced port hvalid htype hfound howned hlive hcurrent hstate
      exact absurd ⟨htype, hflag, hid⟩ hcoalesced
    · exact absurd hsent (hunsent accepted)

/-- One step moves the target of an order to what it coalesces, and not otherwise,
unless it hands a replace request for the order to the adapter. -/
theorem step_target (port : IExchangeExecution σ) (op : Op σ) {w : World σ}
    (hnumbered : w.oms.toOmsState.Numbered) {i : Nat} {order : OrderRecord}
    (horder : w.oms.orders[i]? = some order)
    (hhands : handsReplace port order.logicalId op w = false) :
    ∃ record, (step port op w).oms.orders[i]? = some record ∧
      record.logicalId = order.logicalId ∧
      record.target = (coalescedTarget port order.logicalId op w).getD order.target := by
  suffices hmoved : ∃ record, (step port op w).oms.orders[i]? = some record ∧
      record.target = (coalescedTarget port order.logicalId op w).getD order.target by
    obtain ⟨record, hrecord, htarget⟩ := hmoved
    refine ⟨record, hrecord, ?_, htarget⟩
    rw [hnumbered.logicalId i order horder,
      (step_numbered port op w hnumbered).logicalId i record hrecord]
  cases hop : op with
  | submit approved =>
      subst hop
      exact submit_target port approved hnumbered horder hhands
  | apply | onTimer | reconcile | resolve | attachExecution | advance | venue | restart =>
      obtain ⟨_, _, houtcome⟩ := primary_outcome port op w hnumbered
      obtain ⟨record, hrecord, hedited⟩ :=
        (houtcome.evolves (admits_true op)).old i order horder
      rw [← hop]
      refine ⟨record, step_getElem port op w hrecord, ?_⟩
      rw [show coalescedTarget port order.logicalId op w = none by rw [hop]; rfl]
      rcases hedited with rfl | hedited
      · rfl
      · apply hedited.target_eq
        intro approved hsubmit
        rw [hop] at hsubmit
        cases hsubmit

/-- Over a run in which no other replace request for the order is handed to the
adapter, its target is the newest one coalesced. -/
theorem run_target (port : IExchangeExecution σ) (ops : List (Op σ)) {w : World σ}
    (hnumbered : w.oms.toOmsState.Numbered) {i : Nat} {order : OrderRecord}
    (horder : w.oms.orders[i]? = some order)
    (hruns : Machine.Along (step port) (fun op w => handsReplace port order.logicalId op w = false)
      ops w) :
    ∃ record, (Machine.run (step port) ops w).oms.orders[i]? = some record ∧
      record.target = newestTarget port order.logicalId ops w order.target := by
  induction ops generalizing w order with
  | nil => exact ⟨order, horder, rfl⟩
  | cons op ops ih =>
      obtain ⟨record, hrecord, hid, htarget⟩ := step_target port op hnumbered horder hruns.1
      have hrest := hruns.2
      rw [← hid] at hrest
      obtain ⟨last, hlast, hnewest⟩ := ih (step_numbered port op w hnumbered) hrecord hrest
      refine ⟨last, hlast, ?_⟩
      rw [hnewest, htarget, hid]
      rfl

/-- An accepted replace gives the order its target. -/
theorem step_replaceAccepted (port : IExchangeExecution σ) {w : World σ}
    {replace : OrderReplaceEvent} {i : Nat} {order : OrderRecord}
    (hvalid : (validateExecutionEvent (.orderReplace replace)).isError = false)
    (haccepted : replace.accepted = true)
    (hfound : w.oms.findByClientId replace.originalClientOrderId = some (i, order))
    (hlive : order.isTerminal = false) :
    ∃ record, (step port (.apply (.orderReplace replace)) w).oms.orders[i]? = some record ∧
      record.terms = order.target := by
  obtain ⟨base, swapped, hswap⟩ : ∃ base swapped,
      w.oms.toOmsState.swapIdentity (order.stamped replace.transactNs) replace = (base, swapped) :=
    ⟨_, _, rfl⟩
  have horder := (findByClientId_eq_some_iff.mp hfound).2
  have hedit : EventEdit w.oms.toOmsState order (.orderReplace replace) swapped.amended
      swapped.restingState true false base := .replaceAccepted haccepted hswap
  obtain ⟨_, _, rfl⟩ := hedit.base_eq
  refine ⟨swapped.amended.transition swapped.restingState w.oms.clock, step_getElem port _ w ?_, ?_⟩
  · have hstored : (primary port (.apply (.orderReplace replace)) w).1.oms.orders =
        w.oms.orders.set i (swapped.amended.transition swapped.restingState w.oms.clock) := by
      simp [primary, World.adopt, dispatch, hvalid, applyReplace, hfound, hlive, hswap, haccepted,
        OmsState.store, OmsState.withIndices]
    rw [hstored]
    exact List.getElem?_set_self (List.getElem?_eq_some_iff.mp horder).1
  · have htarget : swapped.target = (order.stamped replace.transactNs).target :=
      swapIdentity_target hswap
    rw [OrderRecord.transition_terms]
    exact htarget

/-- A replace request taken by the adapter, what happens until its answer, and the
answer: the adapter confirms exactly what it was asked for, and no other replace
request for the order was handed to it since. -/
structure ReplaceAnswered (port : IExchangeExecution σ) (w : World σ) (approved : ApprovedAction)
    (request : ReplaceRequest) (between : List (Op σ)) (replace : OrderReplaceEvent) : Prop where
  type : approved.action.type = .replace
  taken : (submit port approved w).1.accepted = true
  requested : w.oms.toOmsState.replaceRequest? approved.action = some request
  confirms : Confirms request replace
  alone : Machine.Along (step port)
    (fun op w' => handsReplace port (submit port approved w).1.logicalId op w' = false) between
    (step port (.submit approved) w)

/-- In every run, the accepted answer to a replace request that is applied leaves
the order at the price and quantity of the newest Replace coalesced into the
request, and at those the venue confirmed when there is none. -/
theorem accepted_replace_lands_on_newest (port : IExchangeExecution σ) (config : OmsConfig)
    (clock : Nanos) (venue : σ) (prior between : List (Op σ)) (approved : ApprovedAction)
    (request : ReplaceRequest) (replace : OrderReplaceEvent) :
    let w := Machine.run (step port) prior (World.init config clock venue)
    let id := (submit port approved w).1.logicalId
    let sent := step port (.submit approved) w
    let answered := Machine.run (step port) between sent
    ∀ (i : Nat) (order : OrderRecord), ReplaceAnswered port w approved request between replace →
      answered.oms.findByClientId replace.originalClientOrderId = some (i, order) →
      order.isTerminal = false →
        ∃ record, (step port (.apply (.orderReplace replace)) answered).oms.orders[i]? =
            some record ∧ record.logicalId = id ∧
          (record.price, record.originalQuantity) =
            newestTarget port id between sent (replace.newPrice, replace.newQty) := by
  intro w id sent answered i order hanswered hfound hlive
  have hw : ClientTracked w := run_clientTracked port config clock venue prior
  have hsent : ClientTracked sent := hw.step port (.submit approved)
  obtain ⟨k, target, replacementId, htarget, hid, hreported, horders⟩ :=
    accepted_cases port hanswered.type hanswered.taken
  have hk := findTarget_getElem htarget
  -- The order of the request waits at its index with the terms of the action.
  have hpending : sent.oms.orders[k]? =
      some ((target.replacing approved.action replacementId (w.oms.nextRequestId + 1)
        w.oms.clock).transition .pendingReplace w.oms.clock) := by
    have hset : sent.oms.orders = _ := horders
    rw [hset, List.getElem?_set_self (List.getElem?_eq_some_iff.mp hk).1]
  have hwaiting := (hsent.numbered.logicalId k _ hpending).trans
    (hw.numbered.logicalId k target hk).symm
  have halone := hanswered.alone
  rw [hreported, ← hwaiting] at halone
  obtain ⟨last, hlast, hnewest⟩ := run_target port between hsent.numbered hpending halone
  have hrequest : target.replaceRequest replacementId approved.action.price
      approved.action.quantity w.oms.clock = request := by
    have hrequested := hanswered.requested
    simpa [OmsState.replaceRequest?, htarget, hid] using hrequested
  subst hrequest
  -- The event names the identity the order had when the request was made.
  have htracked : ClientTracked answered := hsent.run port between
  obtain ⟨horder, hnamed⟩ := htracked.client.findByClientId_iff.mp hfound
  have hsame : i = k := by
    refine index_eq_of_clientOrderId port between hsent hpending horder ?_
    rw [OrderRecord.transition_clientOrderId, hnamed, hanswered.confirms.original]
    rfl
  subst hsame
  rw [hlast] at horder
  cases horder
  obtain ⟨record, hrecord, hterms⟩ := step_replaceAccepted port hanswered.confirms.valid
    hanswered.confirms.accepted hfound hlive
  refine ⟨record, hrecord, ?_, ?_⟩
  · have hid' : id = target.logicalId := hreported
    rw [hid', hw.numbered.logicalId i target hk]
    exact (htracked.step port _).numbered.logicalId i record hrecord
  · have hconfirmed : (replace.newPrice, replace.newQty) =
        (approved.action.price, approved.action.quantity) :=
      Prod.ext hanswered.confirms.price hanswered.confirms.quantity
    have hid' : id = target.logicalId := hreported
    rw [hconfirmed, hid', ← hwaiting]
    refine (hterms.trans hnewest).trans ?_
    rw [OrderRecord.transition_target]
    rfl

namespace Sample

/-- An acknowledged order of quantity ten. -/
def resting : World Unit := after [.attachExecution, submitNew 10, ack '1' 'x']

/-- A Replace to quantity twelve, sent; one to fifteen is coalesced into it. -/
def replaceTwelve : ApprovedAction := { action := action .replace 12, valid := true }

def requestTwelve : ReplaceRequest where
  originalClientOrderId := clientId '1'
  originalExchangeOrderId := exchangeId 'x'
  newClientOrderId := clientId '2'
  symbol := .empty
  newPrice := amount 100
  newQuantity := amount 12
  createdNs := 1

def confirmTwelve : OrderReplaceEvent where
  originalClientOrderId := clientId '1'
  newClientOrderId := clientId '2'
  originalExchangeOrderId := exchangeId 'x'
  newExchangeOrderId := exchangeId 'y'
  symbol := .empty
  accepted := true
  newStatus := .new
  newPrice := amount 100
  newQty := amount 12
  cumulativeQty := .zero
  error := noError
  transactNs := 0
  seq := 3

theorem resting_replaceAnswered :
    ReplaceAnswered acceptAll resting replaceTwelve requestTwelve [submitReplace 15]
      confirmTwelve where
  type := rfl
  taken := by decide +kernel
  requested := by decide +kernel
  confirms := ⟨by decide +kernel, rfl, rfl, rfl, rfl, rfl⟩
  alone := by decide +kernel

/-- The order when the answer arrives. -/
def replaced : World Unit :=
  after [.attachExecution, submitNew 10, ack '1' 'x', .submit replaceTwelve, submitReplace 15]

theorem replaced_orders : 0 < replaced.oms.orders.length := by decide +kernel

end Sample

/-- The acknowledgement of twelve leaves the order at fifteen. -/
theorem accepted_replace_lands_on_coalesced :
    ∃ record, (step Sample.acceptAll (.apply (.orderReplace Sample.confirmTwelve))
        Sample.replaced).oms.orders[0]? = some record ∧
      record.logicalId = 1 ∧
      (record.price, record.originalQuantity) = (Sample.amount 100, Sample.amount 15) := by
  have hanswered := Sample.resting_replaceAnswered
  have hfound : Sample.replaced.oms.findByClientId Sample.confirmTwelve.originalClientOrderId =
      some (0, Sample.replaced.oms.orders.get ⟨0, Sample.replaced_orders⟩) :=
    findByClientId_eq_some_iff.mpr
      ⟨by decide +kernel, List.getElem?_eq_getElem Sample.replaced_orders⟩
  obtain ⟨record, hrecord, hid, hterms⟩ := accepted_replace_lands_on_newest Sample.acceptAll {} 1 ()
    [.attachExecution, Sample.submitNew 10, Sample.ack '1' 'x'] [Sample.submitReplace 15]
    Sample.replaceTwelve Sample.requestTwelve Sample.confirmTwelve 0 _ hanswered hfound
    (by decide +kernel)
  refine ⟨record, hrecord, hid.trans (by decide +kernel), hterms.trans (by decide +kernel)⟩

/-- The venue confirmed twelve, the order says fifteen. -/
theorem coalesced_replace_diverges_from_venue :
    ReplaceAnswered Sample.acceptAll Sample.resting Sample.replaceTwelve Sample.requestTwelve
        [Sample.submitReplace 15] Sample.confirmTwelve ∧
      ¬ ((Machine.run (step Sample.acceptAll) [.submit Sample.replaceTwelve,
          Sample.submitReplace 15, .apply (.orderReplace Sample.confirmTwelve)]
          Sample.resting).oms.orders[0]?.map OrderRecord.terms =
        some (Sample.confirmTwelve.newPrice, Sample.confirmTwelve.newQty)) :=
  ⟨Sample.resting_replaceAnswered, by decide +kernel⟩

end MmEngine.Oms
