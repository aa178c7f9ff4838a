/-
# What the order manager asks of the adapter

The order manager touches the venue in one way: it hands requests to the adapter. Along
one operation these are the requests of the action submitted and of the deferred News that
the operation releases, so whatever every request keeps of the venue the operation keeps,
and every request stands for an action that was submitted.
-/

import MmEngine.Oms.Run
import Mathlib.Logic.Relation

namespace MmEngine.Oms

open MmEngine.Exchange MmEngine.Quote MmEngine.Risk OmsState OrderManager

variable {σ : Type}

/-- A request as the adapter is handed it. -/
inductive AdapterCall
  | submit (request : OrderRequest)
  | cancel (request : CancelRequest)
  | replace (request : ReplaceRequest)
  deriving DecidableEq

/-- The call of the adapter that hands it the request. -/
def AdapterCall.make (port : IExchangeExecution σ) (call : AdapterCall) (venue : σ) :
    Status × σ :=
  match call with
  | .submit request => port.submit request venue
  | .cancel request => port.cancel request venue
  | .replace request => port.replace request venue

/-- The venue was handed requests that `P` allows, one after the other, and nothing else
happened to it. -/
def Handed (port : IExchangeExecution σ) (P : AdapterCall → Prop) : σ → σ → Prop :=
  Relation.ReflTransGen fun venue after => ∃ call, P call ∧ after = (call.make port venue).2

theorem Handed.one {port : IExchangeExecution σ} {P : AdapterCall → Prop} (call : AdapterCall)
    (h : P call) (venue : σ) : Handed port P venue (call.make port venue).2 :=
  .single ⟨call, h, rfl⟩

/-- What every allowed request keeps of the venue, all of them keep. -/
theorem Handed.invariant {port : IExchangeExecution σ} {P : AdapterCall → Prop} {I : σ → Prop}
    (hcall : ∀ call venue, P call → I venue → I (call.make port venue).2) {venue after : σ}
    (h : Handed port P venue after) (hinit : I venue) : I after := by
  induction h with
  | refl => exact hinit
  | tail _ hlast ih =>
      obtain ⟨call, hallowed, rfl⟩ := hlast
      exact hcall call _ hallowed ih

/-- The request stands for an action that `Q` allows: a New with its symbol, side, price
and quantity, a replace with its price and quantity, or a cancel. -/
inductive Backed (Q : OrderAction → Prop) : AdapterCall → Prop
  | submit {request : OrderRequest} {action : OrderAction} (h : Q action)
      (type : action.type = .new) (symbol : request.symbol = action.symbol)
      (side : request.side = action.side) (price : request.price = action.price)
      (quantity : request.quantity = action.quantity) : Backed Q (.submit request)
  | cancel {request : CancelRequest} {action : OrderAction} (h : Q action)
      (type : action.type = .cancel) : Backed Q (.cancel request)
  | replace {request : ReplaceRequest} {action : OrderAction} (h : Q action)
      (type : action.type = .replace) (price : request.newPrice = action.price)
      (quantity : request.newQuantity = action.quantity) : Backed Q (.replace request)

section Action

variable (port : IExchangeExecution σ) {Q : OrderAction → Prop} {action : OrderAction}

theorem sendNew_handed {P : AdapterCall → Prop} (index : Nat) (created : OrderRecord) (w : World σ)
    (h : P (.submit (created.orderRequest w.oms.clock))) :
    Handed port P w.venue (sendNew port index created w).2.venue := by
  have hsent : Handed port P w.venue (port.submit (created.orderRequest w.oms.clock) w.venue).2 :=
    Handed.one (.submit (created.orderRequest w.oms.clock)) h w.venue
  rw [sendNew]
  split
  · exact .refl
  · dsimp only
    split
    · exact hsent
    · exact hsent

theorem sendCancel_handed {P : AdapterCall → Prop} (index : Nat) (order : OrderRecord) (w : World σ)
    (h : P (.cancel (order.cancelRequest w.oms.clock))) :
    Handed port P w.venue (sendCancel port index order w).2.venue := by
  have hsent : Handed port P w.venue (port.cancel (order.cancelRequest w.oms.clock) w.venue).2 :=
    Handed.one (.cancel (order.cancelRequest w.oms.clock)) h w.venue
  rw [sendCancel]
  dsimp only
  split
  · exact hsent
  · exact hsent

theorem sendReplace_handed {P : AdapterCall → Prop} (index : Nat) (order : OrderRecord)
    (replacementId : ClientOrderId) (w : World σ)
    (h : P (.replace (order.replaceRequest replacementId action.price action.quantity
      w.oms.clock))) :
    Handed port P w.venue (sendReplace port action index order replacementId w).2.venue := by
  have hsent : Handed port P w.venue (port.replace (order.replaceRequest replacementId
      action.price action.quantity w.oms.clock) w.venue).2 :=
    Handed.one (.replace (order.replaceRequest replacementId action.price action.quantity
      w.oms.clock)) h w.venue
  rw [sendReplace]
  dsimp only
  split
  · exact hsent
  · exact hsent

theorem newOrder_backed (h : Q action) (htype : action.type = .new) (s : OmsState)
    (clientId : ClientOrderId) (now : Nanos) :
    Backed Q (.submit ((s.newOrder action clientId).orderRequest now)) :=
  .submit h htype rfl rfl rfl rfl

theorem createOrder_handed (h : Q action) (htype : action.type = .new) (w : World σ) :
    Handed port (Backed Q) w.venue (createOrder port action w).2.venue := by
  rw [createOrder]
  cases w.oms.idGenerator.next.1 with
  | none => exact .refl
  | some clientId =>
      dsimp only
      split
      · exact .refl
      · let created := w.withOms fun m =>
          (((m.onState OmsState.burnClientId).onState fun s =>
            s.addOrder (w.oms.toOmsState.newOrder action clientId)).count
              fun k => { k with ordersCreated := k.ordersCreated + 1 }).journalOrder
                .created (w.oms.toOmsState.newOrder action clientId) .created .created
        exact sendNew_handed port w.oms.orders.length
          (w.oms.toOmsState.newOrder action clientId) created
          (newOrder_backed h htype w.oms.toOmsState clientId created.oms.clock)

theorem deferNew_venue (occupant : OrderRecord) (w : World σ) :
    (deferNew action occupant w).2.venue = w.venue := by
  rw [deferNew]
  split
  · rfl
  · rfl

/-- A New hands over one order of its own, or nothing. -/
theorem handleNew_handed (h : Q action) (htype : action.type = .new) (w : World σ) :
    Handed port (Backed Q) w.venue (handleNew port action w).2.venue := by
  rw [handleNew]
  split
  · exact .refl
  · split
    · exact createOrder_handed port h htype w
    · split
      · rw [deferNew_venue]
        exact .refl
      split
      · exact .refl
      · exact createOrder_handed port h htype w

theorem handleCancel_handed (h : Q action) (htype : action.type = .cancel) (w : World σ) :
    Handed port (Backed Q) w.venue (handleCancel port action w).2.venue := by
  rw [handleCancel]
  split
  · exact .refl
  split
  · exact .refl
  split
  · exact .refl
  split
  · exact .refl
  split
  · exact .refl
  · exact sendCancel_handed port _ _ _ (Backed.cancel h htype)

theorem handleReplace_handed (h : Q action) (htype : action.type = .replace) (w : World σ) :
    Handed port (Backed Q) w.venue (handleReplace port action w).2.venue := by
  rw [handleReplace]
  split
  · exact .refl
  split
  · exact .refl
  split
  · exact .refl
  split
  · exact .refl
  split
  · exact .refl
  split
  · exact .refl
  split
  · exact .refl
  split
  · exact .refl
  · exact sendReplace_handed port _ _ _ (w.withOms fun m => m.onState burnClientId)
      (Backed.replace h htype rfl rfl)

end Action

/-- Every valid action that the operation submits satisfies `Q`. -/
def Submits (Q : OrderAction → Prop) (op : Op σ) : Prop :=
  ∀ approved, op = .submit approved → approved.valid = true → Q approved.action

/-- The deferred News satisfy `Q`, and are News. -/
abbrev HeldNews (Q : OrderAction → Prop) (s : OmsState) : Prop :=
  Held (fun action => Q action ∧ action.type = .new) s

theorem Submits.admits {Q : OrderAction → Prop} {op : Op σ} (h : Submits Q op) :
    Admits (fun action => Q action ∧ action.type = .new) op := by
  cases op with
  | submit approved => exact fun hvalid htype => ⟨h approved rfl hvalid, htype⟩
  | _ => trivial

/-- The venue moves by itself. -/
def Op.movesVenue : Op σ → Bool
  | .venue _ => true
  | _ => false

theorem submit_handed (port : IExchangeExecution σ) {Q : OrderAction → Prop}
    {approved : ApprovedAction} (h : approved.valid = true → Q approved.action) (w : World σ) :
    Handed port (Backed Q) w.venue (submit port approved w).2.venue := by
  rw [submit]
  split
  · exact .refl
  · rename_i hvalid
    have hallowed := h (by simpa using hvalid)
    cases htype : approved.action.type with
    | new => exact handleNew_handed port hallowed htype w
    | cancel => exact handleCancel_handed port hallowed htype w
    | replace => exact handleReplace_handed port hallowed htype w
    | noop => exact .refl

theorem primary_handed (port : IExchangeExecution σ) {Q : OrderAction → Prop} {op : Op σ}
    (hstill : op.movesVenue = false) (h : Submits Q op) (w : World σ) :
    Handed port (Backed Q) w.venue (primary port op w).1.venue := by
  cases op with
  | submit approved => exact submit_handed port (h approved rfl) w
  | venue change => cases hstill
  | _ => exact .refl

/-- An operation hands the adapter requests for the action it submits and for deferred
News, and does nothing else to the venue. -/
theorem step_handed (port : IExchangeExecution σ) {Q : OrderAction → Prop} {op : Op σ}
    (hstill : op.movesVenue = false) (h : Submits Q op) {w : World σ}
    (hnumbered : w.oms.toOmsState.Numbered) (hheld : HeldNews Q w.oms.toOmsState) :
    Handed port (Backed Q) w.venue (step port op w).venue := by
  obtain ⟨_, _, houtcome⟩ := primary_outcome port op w hnumbered
  have hstart : Handed port (Backed Q) w.venue (primary port op w).1.venue ∧
      Releasing (fun action => Q action ∧ action.type = .new)
        (primary port op w).1.oms.toOmsState (primary port op w).1 :=
    ⟨primary_handed port hstill h w, rfl, houtcome.held hheld h.admits, .refl (fun _ _ => rfl) _⟩
  refine (release_invariant (I := fun after : World σ =>
    Handed port (Backed Q) w.venue after.venue ∧
      Releasing (fun action => Q action ∧ action.type = .new)
        (primary port op w).1.oms.toOmsState after) port ?_ hstart).1
  rintro id - after entry ⟨hhanded, hreleasing⟩
  refine ⟨?_, hreleasing.releaseEntry port id entry⟩
  rw [releaseEntry]
  split
  · rename_i waiting hentry
    split
    · obtain ⟨hallowed, htype⟩ := hreleasing.held entry waiting hentry
      dsimp only
      exact hhanded.trans (handleNew_handed port hallowed htype
        (after.withOms fun m => m.onState fun s => s.vacate entry))
    · exact hhanded
  · exact hhanded

/-- Whatever the operation, the deferred News stay News that were submitted. -/
theorem step_heldNews (port : IExchangeExecution σ) {Q : OrderAction → Prop} {op : Op σ}
    (h : Submits Q op) {w : World σ} (hnumbered : w.oms.toOmsState.Numbered)
    (hheld : HeldNews Q w.oms.toOmsState) : HeldNews Q (step port op w).oms.toOmsState :=
  step_held port op w hnumbered hheld h.admits

end MmEngine.Oms
