/-
# How many orders are asked for

A New that is let through asks the venue for one order, at once or when the order it waits
on is gone. Whatever else the order manager does asks for none. So what the venue has been
asked for and what is deferred never grow together by more than the News submitted.
-/

import MmEngine.Oms.AdapterCalls
import MmEngine.Oms.Queue

namespace MmEngine.Oms

open MmEngine.Exchange MmEngine.Quote MmEngine.Risk OmsState OrderManager

variable {σ : Type}

/-- A count of the orders an adapter has been asked for, which only a submit raises. -/
structure CountsSubmits (port : IExchangeExecution σ) (asked : σ → Nat) : Prop where
  submit : ∀ request venue, asked (port.submit request venue).2 ≤ asked venue + 1
  cancel : ∀ request venue, asked (port.cancel request venue).2 ≤ asked venue
  replace : ∀ request venue, asked (port.replace request venue).2 ≤ asked venue

/-- How many News are deferred. -/
def OmsState.deferredNews (s : OmsState) : Nat := s.deferred.countP Option.isSome

/-- The orders asked for and the News that will ask for one. -/
def World.outstanding (asked : σ → Nat) (w : World σ) : Nat :=
  asked w.venue + w.oms.toOmsState.deferredNews

/-- The approval is a New that the order manager looks at. -/
def asksNew (approved : ApprovedAction) : Bool :=
  approved.valid && approved.action.type = .new

/-- How many News an operation submits. -/
def Op.news : Op σ → Nat
  | .submit approved => if asksNew approved then 1 else 0
  | _ => 0

theorem OmsState.deferredNews_vacate {s : OmsState} {entry : Nat} {waiting : DeferredNew}
    (hentry : s.deferred[entry]? = some (some waiting)) :
    (s.vacate entry).deferredNews + 1 = s.deferredNews := by
  obtain ⟨hlt, hget⟩ := List.getElem?_eq_some_iff.mp hentry
  have hcount : 0 < s.deferred.countP Option.isSome :=
    List.countP_pos_iff.mpr ⟨some waiting, List.mem_of_getElem? hentry, rfl⟩
  simp only [deferredNews, OmsState.vacate]
  rw [List.countP_set hlt, hget]
  simp
  omega

theorem OmsState.deferredNews_defer {s : OmsState} {entry : Nat} (action : OrderAction)
    (waitingOn : LogicalOrderId) (hentry : s.deferred[entry]? = some none) :
    (s.defer entry action waitingOn).deferredNews = s.deferredNews + 1 := by
  obtain ⟨hlt, hget⟩ := List.getElem?_eq_some_iff.mp hentry
  simp only [deferredNews, OmsState.defer]
  rw [List.countP_set hlt, hget]
  simp

/-- Up to the release only a New fills an entry of the table, and only a restart empties
any. -/
theorem PrimaryOutcome.deferredNews_le {s after : OmsState} {op : Op σ}
    {resolved : Option LogicalOrderId} {observed : List Observation}
    (h : PrimaryOutcome s op after resolved observed) (hnews : op.news = 0) :
    after.deferredNews ≤ s.deferredNews := by
  cases h with
  | submit h =>
      cases h with
      | refused | burned => exact le_rfl
      | new hvalid htype houtcome => simp [Op.news, asksNew, hvalid, htype] at hnews
      | edited _ _ _ hedit => rcases hedit.base_eq with rfl | rfl | rfl <;> exact le_rfl
  | apply h =>
      cases h with
      | discarded => exact le_rfl
      | edited _ _ _ hedit =>
          obtain ⟨_, _, rfl⟩ := hedit.base_eq
          exact le_rfl
  | resolve h => cases h <;> exact le_rfl
  | onTimer | reconcile | attachExecution | advance | venue | restartRefused => exact le_rfl
  | restarted =>
      have hempty : ∀ count : Nat, (List.replicate count (none : Option DeferredNew)).countP
          Option.isSome = 0 := by
        intro count
        simp [List.countP_replicate]
      exact (hempty _).trans_le (Nat.zero_le _)

theorem transition_deferred (m : OrderManager) (order : OrderRecord) (target : OrderState)
    (event : OrderEventType) (detail : OrderJournalRecord) :
    (m.transition order target event detail).1.toOmsState.deferred = m.deferred := by
  rw [OrderManager.transition_toOmsState]

section News

variable {port : IExchangeExecution σ} {asked : σ → Nat} (h : CountsSubmits port asked)
  (action : OrderAction) (w : World σ)

include h in
theorem sendNew_outstanding_le (index : Nat) (created : OrderRecord) :
    (sendNew port index created w).2.outstanding asked ≤ w.outstanding asked + 1 := by
  have hsubmit := h.submit (created.orderRequest w.oms.clock) w.venue
  have hdeferred : ∀ m : OrderManager, m.toOmsState.deferred = w.oms.deferred →
      asked (port.submit (created.orderRequest w.oms.clock) w.venue).2 +
        m.toOmsState.deferredNews ≤ w.outstanding asked + 1 := by
    intro m hm
    rw [World.outstanding, deferredNews, deferredNews, hm]
    omega
  rw [sendNew]
  split
  · exact Nat.le_add_right _ _
  · dsimp only
    split
    · exact hdeferred _ ((transition_deferred ..).trans (transition_deferred ..))
    · exact hdeferred _ (transition_deferred ..)

include h in
theorem createOrder_outstanding_le :
    (createOrder port action w).2.outstanding asked ≤ w.outstanding asked + 1 := by
  rw [createOrder]
  cases w.oms.idGenerator.next.1 with
  | none => exact Nat.le_add_right _ _
  | some clientId =>
      dsimp only
      split
      · exact Nat.le_add_right _ _
      · exact sendNew_outstanding_le h _ _ _

/-- A New that is deferred takes a free entry. -/
theorem deferNew_outstanding_le (occupant : OrderRecord) :
    (deferNew action occupant w).2.outstanding asked ≤ w.outstanding asked + 1 := by
  rw [deferNew]
  split
  · rename_i entry hfind
    have hfree : w.oms.deferred[entry]? = some none := by
      obtain ⟨hlt, hnone, -⟩ := List.findIdx?_eq_some_iff_getElem.mp hfind
      rw [List.getElem?_eq_getElem hlt]
      simpa using hnone
    have hdeferred := deferredNews_defer action occupant.logicalId hfree
    show asked w.venue + (w.oms.toOmsState.defer entry action occupant.logicalId).deferredNews ≤ _
    rw [hdeferred]
    exact le_rfl
  · exact Nat.le_add_right _ _

include h in
/-- A New asks for one order, now or later. -/
theorem handleNew_outstanding_le :
    (handleNew port action w).2.outstanding asked ≤ w.outstanding asked + 1 := by
  rw [handleNew]
  split
  · exact Nat.le_add_right _ _
  split
  · exact createOrder_outstanding_le h action w
  split
  · exact deferNew_outstanding_le action w _
  split
  · exact Nat.le_add_right _ _
  · exact createOrder_outstanding_le h action w

include h in
/-- A New that is released has left its entry. -/
theorem releaseEntry_outstanding_le (resolved : LogicalOrderId) (entry : Nat) :
    (releaseEntry port resolved w entry).outstanding asked ≤ w.outstanding asked := by
  rw [releaseEntry]
  split
  · rename_i waiting hentry
    split
    · have hnew := handleNew_outstanding_le h waiting.action
        (w.withOms fun m => m.onState fun s => s.vacate entry)
      have hvacated : (w.withOms fun m => m.onState fun s => s.vacate entry).outstanding asked + 1 =
          w.outstanding asked := by
        show asked w.venue + (w.oms.toOmsState.vacate entry).deferredNews + 1 = _
        rw [add_assoc, deferredNews_vacate hentry]
        rfl
      exact hnew.trans hvacated.le
    · exact le_rfl
  · exact le_rfl

end News

section Operation

variable {port : IExchangeExecution σ} {asked : σ → Nat} (h : CountsSubmits port asked)

include h in
/-- An operation that submits no New asks for no order before it releases any. -/
theorem primary_asked_le {op : Op σ} (hstill : op.movesVenue = false) (hnews : op.news = 0)
    (w : World σ) : asked (primary port op w).1.venue ≤ asked w.venue := by
  have hsubmits : Submits (fun action => action.type ≠ .new) op := by
    rintro approved rfl hvalid htype
    simp [Op.news, asksNew, hvalid, htype] at hnews
  refine (primary_handed port hstill hsubmits w).invariant
    (I := fun venue => asked venue ≤ asked w.venue) ?_ le_rfl
  intro call venue hbacked hvenue
  cases hbacked with
  | submit hother htype => exact absurd htype hother
  | cancel => exact (h.cancel _ venue).trans hvenue
  | replace => exact (h.replace _ venue).trans hvenue

include h in
/-- What is outstanding grows by the News that are submitted. -/
theorem step_outstanding_le {op : Op σ} (hstill : op.movesVenue = false) {w : World σ}
    (hnumbered : w.oms.toOmsState.Numbered) :
    (step port op w).outstanding asked ≤ w.outstanding asked + op.news := by
  have hprimary : (primary port op w).1.outstanding asked ≤ w.outstanding asked + op.news := by
    by_cases hnews : op.news = 0
    · obtain ⟨_, _, houtcome⟩ := primary_outcome port op w hnumbered
      rw [hnews, add_zero]
      exact Nat.add_le_add (primary_asked_le h hstill hnews w) (houtcome.deferredNews_le hnews)
    · cases op with
      | submit approved =>
          have hnew : asksNew approved = true := by
            by_contra hother
            simp [Op.news, hother] at hnews
          have hfields : approved.valid = true ∧ approved.action.type = .new := by
            simpa [asksNew] using hnew
          have hone : (Op.submit approved : Op σ).news = 1 := if_pos hnew
          show (submit port approved w).2.outstanding asked ≤ _
          rw [hone, submit, if_neg (by simp [hfields.1]), hfields.2]
          exact handleNew_outstanding_le h approved.action w
      | _ => exact absurd rfl hnews
  exact (release_invariant (I := fun after : World σ => after.outstanding asked ≤
    (primary port op w).1.outstanding asked) port
    (fun id _ after entry hafter => (releaseEntry_outstanding_le h after id entry).trans hafter)
    le_rfl).trans hprimary

end Operation

end MmEngine.Oms
