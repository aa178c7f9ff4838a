/-
# One deferred New per slot

While the cancel of a slot's order is pending, a New for the slot waits in the
deferral table, and the table is to hold one New for each slot of a strategy on a
symbol. Nothing looks for an entry that is there already: every New that arrives
in that window is given an entry of its own, and each is released when the cancel
is answered.

A release never adds to the count of a slot, because it frees the entry before
the New may be deferred again. So the table keeps one entry per slot exactly as
long as no New is submitted for a slot whose New is already waiting.
-/

import MmEngine.Oms.Deferral

namespace MmEngine.Oms

open MmEngine.Exchange MmEngine.Quote MmEngine.Risk OmsState OrderManager

variable {σ : Type}

/-- The slot an action is for: whose, on which symbol, which of the two. -/
def slotKey (action : OrderAction) : StrategyName × Symbol × QuoteSlot :=
  (action.identity.name, action.symbol, action.slot)

/-- No two entries of the deferral table are for one slot. -/
def OneDeferredPerSlot (s : OmsState) : Prop :=
  ∀ (entry other : Nat) (a b : DeferredNew), s.deferred[entry]? = some (some a) →
    s.deferred[other]? = some (some b) → slotKey a.action = slotKey b.action → entry = other

/-- True when a New would be deferred: there is room for its order, the cancel of
the slot's order is pending, and an entry is free. -/
def OmsState.defersNew (s : OmsState) (action : OrderAction) : Bool :=
  decide (s.orders.length < s.config.maxOrders) &&
    (s.findSlotOrder action.identity.name action.symbol action.slot).any
      (fun found => found.2.state = .pendingCancel) &&
    s.deferred.any Option.isNone

/-- True when a New for the slot of the action is waiting. -/
def OmsState.holdsNewFor (s : OmsState) (action : OrderAction) : Bool :=
  s.deferred.any fun entry => entry.any fun waiting => slotKey waiting.action = slotKey action

/-- True of a step that defers no New for a slot whose New is already waiting. -/
def defersOnce (s : OmsState) : Op σ → Bool
  | .submit approved =>
      !(approved.valid && approved.action.type = .new && s.defersNew approved.action &&
        s.holdsNewFor approved.action)
  | _ => true

theorem OmsState.holdsNewFor_iff {s : OmsState} {action : OrderAction} :
    s.holdsNewFor action = true ↔
      ∃ (entry : Nat) (waiting : DeferredNew), s.deferred[entry]? = some (some waiting) ∧
        slotKey waiting.action = slotKey action := by
  simp only [OmsState.holdsNewFor, List.any_eq_true, Option.any_eq_true, decide_eq_true_eq]
  constructor
  · rintro ⟨_, hmem, waiting, rfl, hslot⟩
    obtain ⟨entry, hentry⟩ := List.mem_iff_getElem?.mp hmem
    exact ⟨entry, waiting, hentry, hslot⟩
  · rintro ⟨entry, waiting, hentry, hslot⟩
    exact ⟨some waiting, List.mem_of_getElem? hentry, waiting, rfl, hslot⟩

/-- A New that was deferred is one that would be. -/
theorem OmsState.defersNew_of_deferred {s : OmsState} {action : OrderAction} {k entry : Nat}
    {occupant : OrderRecord}
    (hslot : s.findSlotOrder action.identity.name action.symbol action.slot = some (k, occupant))
    (hstate : occupant.state = .pendingCancel) (hfree : s.deferred[entry]? = some none)
    (hroom : s.orders.length < s.config.maxOrders) : s.defersNew action = true := by
  have hany : s.deferred.any Option.isNone = true :=
    List.any_eq_true.mpr ⟨none, List.mem_of_getElem? hfree, rfl⟩
  simp [OmsState.defersNew, hroom, hslot, hstate, hany]

section Step

variable {s after : OmsState} {observed : List Observation}

/-- What every entry of a table was before keeps the table's slots apart. -/
theorem OneDeferredPerSlot.mono (hs : OneDeferredPerSlot s)
    (hback : ∀ (entry : Nat) (waiting : DeferredNew),
      after.deferred[entry]? = some (some waiting) → s.deferred[entry]? = some (some waiting)) :
    OneDeferredPerSlot after := by
  intro entry other a b ha hb hslot
  exact hs entry other a b (hback entry a ha) (hback other b hb) hslot

/-- A New keeps the slots apart unless it is deferred behind its like. -/
theorem OmsState.NewOutcome.oneDeferredPerSlot {action : OrderAction}
    (h : NewOutcome s action after observed) (hs : OneDeferredPerSlot s)
    (honce : s.defersNew action = true → s.holdsNewFor action = false) :
    OneDeferredPerSlot after := by
  cases h with
  | refused | burned => exact hs
  | created _ _ _ _ hrecord => rcases hrecord.base_eq with rfl | rfl <;> exact hs
  | @deferred _ free occupant hslot hstate hfree hroom =>
      have hdefers := defersNew_of_deferred hslot hstate hfree hroom
      have hnone : ∀ (entry : Nat) (waiting : DeferredNew),
          s.deferred[entry]? = some (some waiting) → slotKey waiting.action ≠ slotKey action := by
        intro entry waiting hentry hsame
        have hholds := holdsNewFor_iff.mpr ⟨entry, waiting, hentry, hsame⟩
        rw [honce hdefers] at hholds
        cases hholds
      -- An entry of the new table is the New itself, or an old entry elsewhere.
      have hcases : ∀ (entry : Nat) (waiting : DeferredNew),
          (s.defer free action occupant.logicalId).deferred[entry]? = some (some waiting) →
            (entry = free ∧ waiting.action = action) ∨
              s.deferred[entry]? = some (some waiting) := by
        intro entry waiting hentry
        simp only [OmsState.defer, List.getElem?_set] at hentry
        split at hentry
        · rename_i heq
          split at hentry
          · cases hentry
            exact .inl ⟨heq.symm, rfl⟩
          · cases hentry
        · exact .inr hentry
      intro entry other a b ha hb hsame
      rcases hcases entry a ha with ⟨rfl, haction⟩ | haOld
      · rcases hcases other b hb with ⟨rfl, _⟩ | hbOld
        · rfl
        · rw [haction] at hsame
          exact absurd hsame.symm (hnone other b hbOld)
      · rcases hcases other b hb with ⟨rfl, haction⟩ | hbOld
        · rw [haction] at hsame
          exact absurd hsame (hnone entry a haOld)
        · exact hs entry other a b haOld hbOld hsame

theorem PrimaryOutcome.oneDeferredPerSlot {op : Op σ} {resolved : Option LogicalOrderId}
    (h : PrimaryOutcome s op after resolved observed) (hs : OneDeferredPerSlot s)
    (honce : defersOnce s op = true) : OneDeferredPerSlot after := by
  cases h.waiting with
  | kept hsame =>
      intro entry other a b ha hb
      rw [hsame] at ha hb
      exact hs entry other a b ha hb
  | new hvalid htype houtcome =>
      apply houtcome.oneDeferredPerSlot hs
      intro hdefers
      simpa [defersOnce, hvalid, htype, hdefers] using honce
  | @restarted config =>
      intro entry _ a _ ha _ _
      exact (held_init (fun _ => False) config s.clock entry a ha).elim

end Step

/-- Releasing an entry frees its slot before the New may be deferred again. -/
theorem OneDeferredPerSlot.releaseEntry (port : IExchangeExecution σ) (id : LogicalOrderId)
    (entry : Nat) {w : World σ} (hw : OneDeferredPerSlot w.oms.toOmsState) :
    OneDeferredPerSlot (releaseEntry port id w entry).oms.toOmsState := by
  rcases releaseEntry_outcome port id w entry with hsame | ⟨waiting, _, hentry, _, hnew, _⟩
  · rw [hsame]
    exact hw
  · have hvacated : OneDeferredPerSlot (w.oms.toOmsState.vacate entry) :=
      hw.mono fun _ _ h => deferred_of_vacate h
    apply hnew.oneDeferredPerSlot hvacated
    intro _
    by_contra hholds
    obtain ⟨other, twin, htwin, hslot⟩ :=
      holdsNewFor_iff.mp ((Bool.not_eq_false _).mp hholds)
    have hother : other = entry := hw other entry twin waiting
        (deferred_of_vacate htwin) hentry hslot
    subst hother
    simp only [OmsState.vacate, List.getElem?_set] at htwin
    split at htwin
    · split at htwin <;> cases htwin
    · contradiction

theorem step_oneDeferredPerSlot (port : IExchangeExecution σ) (op : Op σ) {w : World σ}
    (hnumbered : w.oms.toOmsState.Numbered) (hw : OneDeferredPerSlot w.oms.toOmsState)
    (honce : defersOnce w.oms.toOmsState op = true) :
    OneDeferredPerSlot (step port op w).oms.toOmsState := by
  obtain ⟨_, _, houtcome⟩ := primary_outcome port op w hnumbered
  exact release_invariant (I := fun w : World σ => OneDeferredPerSlot w.oms.toOmsState) port
    (fun id _ _ entry hw' => hw'.releaseEntry port id entry)
    (houtcome.oneDeferredPerSlot hw honce)

/-- A New for a slot whose New is waiting gets an entry of its own. -/
theorem not_oneDeferredPerSlot_of_defers (port : IExchangeExecution σ) {approved : ApprovedAction}
    {w : World σ} (hvalid : approved.valid = true) (htype : approved.action.type = .new)
    (hdefers : w.oms.toOmsState.defersNew approved.action = true)
    (hholds : w.oms.toOmsState.holdsNewFor approved.action = true) :
    ¬ OneDeferredPerSlot (step port (.submit approved) w).oms.toOmsState := by
  simp only [OmsState.defersNew, Bool.and_eq_true, decide_eq_true_eq, Option.any_eq_true] at hdefers
  obtain ⟨⟨hroom, ⟨k, occupant⟩, hslot, hcancel⟩, hfree⟩ := hdefers
  obtain ⟨entry, waiting, hentry, hsame⟩ := holdsNewFor_iff.mp hholds
  cases hfirst : w.oms.deferred.findIdx? Option.isNone with
  | none =>
      have hfull := List.findIdx?_eq_none_iff.mp hfirst
      obtain ⟨free, hmem, hnone⟩ := List.any_eq_true.mp hfree
      rw [hfull free hmem] at hnone
      cases hnone
  | some free =>
      obtain ⟨hlt, hnone, _⟩ := List.findIdx?_eq_some_iff_getElem.mp hfirst
      have hstate : (step port (.submit approved) w).oms.deferred =
          w.oms.deferred.set free
            (some { action := approved.action, waitingOn := occupant.logicalId }) := by
        have hcapacity : ¬ w.oms.config.maxOrders ≤ w.oms.orders.length := Nat.not_le.mpr hroom
        have hcancel : occupant.state = .pendingCancel := hcancel
        simp [step, primary, World.release, submit, hvalid, htype, handleNew, hcapacity, hslot,
          hcancel, deferNew, hfirst, World.withOms, OmsState.defer]
      have hne : free ≠ entry := by
        rintro rfl
        rw [List.getElem?_eq_getElem hlt, Option.isNone_iff_eq_none.mp hnone] at hentry
        cases hentry
      intro hone
      apply hne
      apply hone free entry _ waiting
      · rw [hstate]
        exact List.getElem?_set_self hlt
      · rw [hstate, List.getElem?_set_ne hne]
        exact hentry
      · exact hsame.symm

theorem step_oneDeferredPerSlot_iff (port : IExchangeExecution σ) (op : Op σ) {w : World σ}
    (hnumbered : w.oms.toOmsState.Numbered) (hw : OneDeferredPerSlot w.oms.toOmsState) :
    OneDeferredPerSlot (step port op w).oms.toOmsState ↔
      defersOnce w.oms.toOmsState op = true := by
  constructor
  · intro hone
    by_contra htwice
    cases op with
    | submit approved =>
        simp only [defersOnce, Bool.not_eq_true, Bool.not_eq_false', Bool.and_eq_true,
          decide_eq_true_eq] at htwice
        obtain ⟨⟨⟨hvalid, htype⟩, hdefers⟩, hholds⟩ := htwice
        exact not_oneDeferredPerSlot_of_defers port hvalid htype hdefers hholds hone
    | apply | onTimer | reconcile | resolve | attachExecution | advance | venue | restart =>
        exact htwice rfl
  · exact step_oneDeferredPerSlot port op hnumbered hw

/-- The deferral table holds one New per slot in every state of a run exactly when
no step of the run defers a New for a slot whose New is already waiting. -/
theorem one_deferred_per_slot_along (port : IExchangeExecution σ) (config : OmsConfig)
    (clock : Nanos) (venue : σ) (ops : List (Op σ)) :
    (∀ n, OneDeferredPerSlot
        (Machine.run (step port) (ops.take n) (World.init config clock venue)).oms.toOmsState) ↔
      Machine.Along (step port) (fun op w => defersOnce w.oms.toOmsState op = true) ops
        (World.init config clock venue) := by
  apply Machine.forall_take_iff_along
    (I := fun w : World σ => OneDeferredPerSlot w.oms.toOmsState)
    (J := fun w : World σ => w.oms.toOmsState.Numbered)
  · exact fun op w => step_numbered port op w
  · exact fun op _ hnumbered hw => step_oneDeferredPerSlot_iff port op hnumbered hw
  · exact numbered_init config clock
  · intro entry _ a _ ha _ _
    exact (held_init (fun _ => False) config clock entry a ha).elim

/-- Two News arrive for a slot while the cancel of its order is pending. -/
theorem two_news_deferred_for_one_slot :
    ¬ OneDeferredPerSlot (Sample.after [.attachExecution, Sample.submitNew 10, Sample.ack '1' 'x',
      Sample.submitCancel, Sample.submitNew 10, Sample.submitNew 10]).oms.toOmsState := by
  have hwaiting : ∀ entry ∈ [0, 1], ((Sample.after [.attachExecution, Sample.submitNew 10,
      Sample.ack '1' 'x', Sample.submitCancel, Sample.submitNew 10,
      Sample.submitNew 10]).oms.deferred[entry]?.map
        (Option.map fun waiting => slotKey waiting.action)) =
          some (some (slotKey (Sample.action .new 10))) := by decide +kernel
  have hentry : ∀ entry ∈ [0, 1], ∃ waiting : DeferredNew, (Sample.after [.attachExecution,
      Sample.submitNew 10, Sample.ack '1' 'x', Sample.submitCancel, Sample.submitNew 10,
      Sample.submitNew 10]).oms.deferred[entry]? = some (some waiting) ∧
        slotKey waiting.action = slotKey (Sample.action .new 10) := by
    intro entry hmem
    obtain ⟨found, hfound, hmap⟩ := Option.map_eq_some_iff.mp (hwaiting entry hmem)
    obtain ⟨waiting, rfl, hslot⟩ := Option.map_eq_some_iff.mp hmap
    exact ⟨waiting, hfound, hslot⟩
  obtain ⟨a, ha, haSlot⟩ := hentry 0 (by simp)
  obtain ⟨b, hb, hbSlot⟩ := hentry 1 (by simp)
  intro hone
  have hfalse : 0 = 1 := hone 0 1 a b ha hb (haSlot.trans hbSlot.symm)
  cases hfalse

end MmEngine.Oms
