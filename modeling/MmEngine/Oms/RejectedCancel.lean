/-
# What a rejected cancel leaves waiting

A cancel that the venue rejects is to discard the News that wait on its order. The
rejection leaves the deferral table alone, so what becomes of them is up to the releases
that come later. Each hands a New back to the entry of the order manager, which may turn
it away, defer it once more behind another order, or make an order of it.

The News that waited are marked where they wait and followed through every release, also
to the entry they are deferred to again. None of them becomes an order exactly when the
guards of the entry turn away every marked New at the moment its release comes to it: a
full table, a slot whose order has a cancel or another request outstanding, or an identity
that cannot be minted.
-/

import MmEngine.Oms.DeferralScan

namespace MmEngine.Oms

open MmEngine.Exchange MmEngine.Quote MmEngine.Risk OmsState OrderManager

variable {σ : Type}

namespace OmsState

/-- The entries whose News wait on the order an event is about. -/
def waitingOnSubject (s : OmsState) (event : ExecutionEvent) : List Nat :=
  match s.findSubject event with
  | none => []
  | some (_, order) => (List.range s.deferred.length).filter (s.waitsOn order.logicalId)

/-- The action waits in the table for the order the event is about. -/
def WaitsOnSubject (s : OmsState) (event : ExecutionEvent) (action : OrderAction) : Prop :=
  ∃ (i entry : Nat) (order : OrderRecord) (waiting : DeferredNew),
    s.findSubject event = some (i, order) ∧ s.deferred[entry]? = some (some waiting) ∧
      waiting.waitingOn = order.logicalId ∧ waiting.action = action

/-- The New that waits in a table entry. -/
def waitingAt (s : OmsState) (entry : Nat) : Option DeferredNew := (s.deferred[entry]?).join

/-- The entries that hold a New afterwards and were free before. -/
def filledEntries (s after : OmsState) : List Nat :=
  (List.range after.deferred.length).filter fun entry =>
    (s.waitingAt entry).isNone && (after.waitingAt entry).isSome

/-- Capacity, slot and identity all let the New of the entry become an order. -/
def accepts (s : OmsState) (entry : Nat) : Bool :=
  (s.waitingAt entry).any fun waiting =>
    s.admits waiting.action && !s.mintsNone s.idGenerator

end OmsState

/-- A world with the table entries whose News are followed, and whether one of those News
has become an order. -/
structure Followed (σ : Type) where
  world : World σ
  marked : List Nat
  revived : Bool

namespace Followed

/-- The entries a release looks at. -/
def scanned (f : Followed σ) : List Nat :=
  if f.world.oms.deferredCount = 0 then [] else List.range f.world.oms.deferred.length

/-- The release of an entry with a marked New: the New is an order from here on, or it is
marked where it waits again, or it is gone. -/
def releaseMarked (f : Followed σ) (entry : Nat) (after : World σ) : Followed σ where
  world := after
  marked := f.marked.filter (· ≠ entry) ++
    (f.world.oms.toOmsState.vacate entry).filledEntries after.oms.toOmsState
  revived := f.revived || decide (f.world.oms.orders.length < after.oms.orders.length)

/-- True when a release for `id` hands over the marked New of the entry. -/
def handsOver (f : Followed σ) (id : LogicalOrderId) (entry : Nat) : Bool :=
  f.marked.contains entry && f.world.oms.toOmsState.waitsOn id entry

end Followed

/-- One entry of a release. -/
def followEntry (port : IExchangeExecution σ) (id : LogicalOrderId) (entry : Nat)
    (f : Followed σ) : Followed σ :=
  if f.handsOver id entry then f.releaseMarked entry (releaseEntry port id f.world entry)
  else { f with world := releaseEntry port id f.world entry }

/-- An operation up to its release. A restart empties the table; nothing else frees an
entry. -/
def followPrimary (port : IExchangeExecution σ) (op : Op σ) (f : Followed σ) : Followed σ :=
  { f with
    world := (primary port op f.world).1
    marked := f.marked.filter fun entry =>
      ((primary port op f.world).1.oms.toOmsState.waitingAt entry).isSome }

def followRelease (port : IExchangeExecution σ) (f : Followed σ) :
    Option LogicalOrderId → Followed σ
  | none => f
  | some id => Machine.run (followEntry port id) f.scanned f

/-- One operation of the order manager. -/
def followStep (port : IExchangeExecution σ) (op : Op σ) (f : Followed σ) : Followed σ :=
  followRelease port (followPrimary port op f) (primary port op f.world).2

/-- When the release comes to the entry, the guards turn away the marked New it hands
over, if it hands over one. -/
def turnsAwayMarked (id : LogicalOrderId) (entry : Nat) (f : Followed σ) : Bool :=
  !(f.handsOver id entry && f.world.oms.toOmsState.accepts entry)

/-- The release of an operation, if it makes one, turns away every marked New in the state
in which it comes to it. -/
def turnsAwayAllMarked (port : IExchangeExecution σ) (op : Op σ) (f : Followed σ) : Bool :=
  (primary port op f.world).2.all fun id =>
    decide (Machine.Along (followEntry port id)
      (fun entry f => turnsAwayMarked id entry f = true) (followPrimary port op f).scanned
      (followPrimary port op f))

section Projection

variable (port : IExchangeExecution σ)

@[simp]
theorem followEntry_world (id : LogicalOrderId) (entry : Nat) (f : Followed σ) :
    (followEntry port id entry f).world = releaseEntry port id f.world entry := by
  unfold followEntry
  split <;> rfl

/-- The world is followed, not changed. -/
theorem followStep_world (op : Op σ) (f : Followed σ) :
    (followStep port op f).world = step port op f.world := by
  rw [followStep, step]
  cases (primary port op f.world).2 with
  | none => rfl
  | some id =>
      have hrun (entries : List Nat) (f : Followed σ) :
          (Machine.run (followEntry port id) entries f).world =
            Machine.run (fun entry w => releaseEntry port id w entry) entries f.world :=
        Machine.run_map (followEntry_world port id) entries f
      rw [followRelease, World.release, releaseDeferred, hrun, Followed.scanned]
      change Machine.run _ (if (primary port op f.world).1.oms.deferredCount = 0 then [] else _)
        (primary port op f.world).1 = _
      split
      · rfl
      · rfl

end Projection

section Revived

variable (port : IExchangeExecution σ)

/-- A release makes an order of an entry exactly when the guards accept its New. -/
theorem releaseEntry_length_iff {id : LogicalOrderId} {w : World σ} {entry : Nat}
    (hwaits : w.oms.toOmsState.waitsOn id entry = true) :
    w.oms.orders.length < (releaseEntry port id w entry).oms.orders.length ↔
      w.oms.toOmsState.accepts entry = true := by
  obtain ⟨waiting, hentry, hon⟩ := waitsOn_iff.mp hwaits
  have hat : w.oms.toOmsState.waitingAt entry = some waiting := by
    rw [waitingAt, hentry]
    rfl
  rw [accepts, hat, Option.any_some, Bool.and_eq_true, Bool.not_eq_true']
  cases hadmits : w.oms.toOmsState.admits waiting.action with
  | false =>
      rw [(releaseEntry_of_not_admits port hentry hon hadmits).1]
      simp
  | true =>
      cases hmints : w.oms.toOmsState.mintsNone w.oms.idGenerator with
      | true =>
          have hburned := congrArg (fun s => s.orders.length)
            (releaseEntry_of_mintsNone port hentry hon hadmits hmints)
          have hsame : (releaseEntry port id w entry).oms.orders.length =
              w.oms.orders.length := hburned
          simp [hsame]
      | false =>
          have hlonger := releaseEntry_of_mints port hentry hon hadmits hmints
          simp [hlonger]

theorem followEntry_revived {id : LogicalOrderId} {entry : Nat} {f : Followed σ} :
    (followEntry port id entry f).revived = false ↔
      f.revived = false ∧ turnsAwayMarked id entry f = true := by
  rw [followEntry, turnsAwayMarked]
  cases hhands : f.handsOver id entry with
  | false => simp
  | true =>
      have hwaits := (Bool.and_eq_true_iff.mp hhands).2
      have hiff := releaseEntry_length_iff port hwaits
      simp only [if_true, Followed.releaseMarked, Bool.or_eq_false_iff, decide_eq_false_iff_not,
        hiff, Bool.true_and, Bool.not_eq_true, Bool.not_eq_true']

theorem followStep_revived {op : Op σ} {f : Followed σ} :
    (followStep port op f).revived = false ↔
      f.revived = false ∧ turnsAwayAllMarked port op f = true := by
  rw [followStep, turnsAwayAllMarked]
  cases (primary port op f.world).2 with
  | none => simp [followRelease, followPrimary]
  | some id =>
      rw [Option.all_some, decide_eq_true_iff]
      exact Machine.run_iff_along (I := fun f : Followed σ => f.revived = false)
        (fun entry f => followEntry_revived port) _ _

end Revived

/-- Every marked entry holds one of the given News. -/
def Followed.Marks (P : OrderAction → Prop) (f : Followed σ) : Prop :=
  ∀ entry ∈ f.marked, ∃ waiting, f.world.oms.deferred[entry]? = some (some waiting) ∧
    P waiting.action

section Marks

variable {P : OrderAction → Prop} {f : Followed σ}

theorem waitingAt_isSome_iff {s : OmsState} {entry : Nat} :
    (s.waitingAt entry).isSome = true ↔ ∃ waiting, s.deferred[entry]? = some (some waiting) := by
  simp [waitingAt, Option.isSome_iff_exists, Option.join_eq_some_iff]

/-- Up to the release, an entry that goes on holding a New holds the same one. -/
theorem PrimaryOutcome.waiting_eq {s after : OmsState} {op : Op σ}
    {resolved : Option LogicalOrderId} {observed : List Observation}
    (h : PrimaryOutcome s op after resolved observed) {entry : Nat} {waiting now : DeferredNew}
    (hwaiting : s.deferred[entry]? = some (some waiting))
    (hnow : after.deferred[entry]? = some (some now)) : now = waiting := by
  have hkept : after.deferred[entry]? = some (some waiting) → now = waiting := by
    intro hsame
    rw [hsame] at hnow
    cases hnow
    rfl
  cases h.waiting with
  | kept hsame => exact hkept (hsame ▸ hwaiting)
  | new _ _ houtcome => exact hkept (houtcome.deferred_eq hwaiting)
  | @restarted config => exact (held_init (fun _ => False) config s.clock entry now hnow).elim

/-- A release hands over one New. A marked entry other than its own keeps what it holds,
and an entry filled by it holds the New that was handed over. -/
theorem Followed.Marks.of_released (h : f.Marks P) (port : IExchangeExecution σ)
    {id : LogicalOrderId} {entry : Nat} {released : DeferredNew} {observed : List Observation}
    (hentry : f.world.oms.deferred[entry]? = some (some released))
    (hon : released.waitingOn = id)
    (hnew : NewOutcome (f.world.oms.toOmsState.vacate entry) released.action
      (releaseEntry port id f.world entry).oms.toOmsState observed) :
    (Oms.followEntry port id entry f).Marks P := by
  have hothers : ∀ other ∈ f.marked, other ≠ entry → ∃ waiting,
      (releaseEntry port id f.world entry).oms.deferred[other]? = some (some waiting) ∧
        P waiting.action := by
    intro other hmem hne
    obtain ⟨waiting, hheld, hP⟩ := h other hmem
    have hvacated : (f.world.oms.toOmsState.vacate entry).deferred[other]? =
        some (some waiting) := by
      rw [OmsState.vacate, List.getElem?_set_ne hne.symm]
      exact hheld
    exact ⟨waiting, hnew.deferred_eq hvacated, hP⟩
  have hwaits : f.world.oms.toOmsState.waitsOn id entry = true :=
    waitsOn_iff.mpr ⟨released, hentry, hon⟩
  rw [Oms.followEntry]
  by_cases hmarked : entry ∈ f.marked
  · rw [if_pos (by simp [Followed.handsOver, hmarked, hwaits])]
    obtain ⟨waiting, hheld, hP⟩ := h entry hmarked
    obtain rfl : released = waiting := by simpa [hentry] using hheld
    intro other hmem
    rcases List.mem_append.mp hmem with hold | hfilled
    · obtain ⟨hmem, hne⟩ := List.mem_filter.mp hold
      exact hothers other hmem (by simpa using hne)
    · obtain ⟨-, hfree⟩ := List.mem_filter.mp hfilled
      obtain ⟨hbefore, hafter⟩ := Bool.and_eq_true_iff.mp hfree
      obtain ⟨now, hnow⟩ := waitingAt_isSome_iff.mp hafter
      refine ⟨now, hnow, ?_⟩
      rcases hnew.deferred_cases hnow with hold | haction
      · have hsome := waitingAt_isSome_iff.mpr ⟨now, hold⟩
        simp [Option.isNone_iff_eq_none.mp hbefore] at hsome
      · rwa [haction]
  · rw [if_neg (by simp [Followed.handsOver, hmarked])]
    intro other hmem
    exact hothers other hmem fun heq => hmarked (heq ▸ hmem)

theorem Followed.Marks.followEntry (h : f.Marks P) (port : IExchangeExecution σ)
    (id : LogicalOrderId) (entry : Nat) : (followEntry port id entry f).Marks P := by
  cases hwaits : f.world.oms.toOmsState.waitsOn id entry with
  | false =>
      rw [Oms.followEntry, if_neg (by simp [Followed.handsOver, hwaits]),
        releaseEntry_of_waitsOn_eq_false port hwaits]
      exact h
  | true =>
      obtain ⟨released, hentry, hon⟩ := waitsOn_iff.mp hwaits
      obtain ⟨observed, -, hnew⟩ := handleNew_outcome port released.action
        (f.world.withOms fun m => m.onState fun s => s.vacate entry)
      rw [← releaseEntry_of_waiting port hentry hon] at hnew
      exact h.of_released port hentry hon hnew

theorem Followed.Marks.followPrimary (h : f.Marks P) (hnumbered : f.world.oms.toOmsState.Numbered)
    (port : IExchangeExecution σ) (op : Op σ) : (followPrimary port op f).Marks P := by
  obtain ⟨observed, -, houtcome⟩ := primary_outcome port op f.world hnumbered
  intro entry hmem
  obtain ⟨hmarked, hheld⟩ := List.mem_filter.mp hmem
  obtain ⟨waiting, hwaiting, hP⟩ := h entry hmarked
  obtain ⟨now, hnow⟩ := waitingAt_isSome_iff.mp hheld
  exact ⟨now, hnow, houtcome.waiting_eq hwaiting hnow ▸ hP⟩

theorem Followed.Marks.followStep (h : f.Marks P) (hnumbered : f.world.oms.toOmsState.Numbered)
    (port : IExchangeExecution σ) (op : Op σ) : (followStep port op f).Marks P := by
  have hprimary := h.followPrimary hnumbered port op
  rw [Oms.followStep]
  cases (primary port op f.world).2 with
  | none => exact hprimary
  | some id =>
      exact Machine.invariant_run_always (fun entry _ h => h.followEntry port id entry) _ hprimary

/-- The News that are followed are the ones that waited at the start. -/
theorem marks_run (port : IExchangeExecution σ) (ops : List (Op σ)) (h : f.Marks P)
    (hnumbered : f.world.oms.toOmsState.Numbered) :
    (Machine.run (followStep port) ops f).Marks P := by
  have hrun := Machine.invariant_run_always
    (I := fun f : Followed σ => f.world.oms.toOmsState.Numbered ∧ f.Marks P)
    (fun op f hf => ⟨followStep_world port op f ▸ step_numbered port op f.world hf.1,
      hf.2.followStep hf.1 port op⟩) ops ⟨hnumbered, h⟩
  exact hrun.2

end Marks

/-- The News that wait on an order when its cancel is rejected, followed from there. -/
def Followed.fromRejection (port : IExchangeExecution σ) (cancel : OrderCancelEvent)
    (w : World σ) : Followed σ where
  world := step port (.apply (.orderCancel cancel)) w
  marked := w.oms.toOmsState.waitingOnSubject (.orderCancel cancel)
  revived := false

section Rejection

variable {cancel : OrderCancelEvent}

/-- A rejection releases nothing. -/
theorem PrimaryOutcome.resolved_rejection {s after : OmsState}
    {resolved : Option LogicalOrderId} {observed : List Observation}
    (h : PrimaryOutcome s (.apply (.orderCancel cancel) : Op σ) after resolved observed)
    (hstatus : cancel.cancelStatus = .rejected) : resolved = none := by
  cases resolved with
  | none => rfl
  | some id =>
      cases h.releaseCause with
      | event _ _ _ hedit =>
          cases hedit with
          | cancelAccepted haccepted => simp [hstatus] at haccepted
          | cancelTooLate hlate => simp [hstatus] at hlate

theorem marks_fromRejection (port : IExchangeExecution σ)
    (hstatus : cancel.cancelStatus = .rejected) {w : World σ}
    (hnumbered : w.oms.toOmsState.Numbered) :
    (Followed.fromRejection port cancel w).Marks
      (w.oms.toOmsState.WaitsOnSubject (.orderCancel cancel)) := by
  intro entry hmem
  simp only [Followed.fromRejection, waitingOnSubject] at hmem
  split at hmem
  · cases hmem
  rename_i i order hfound
  obtain ⟨waiting, hwaiting, hon⟩ := waitsOn_iff.mp (List.mem_filter.mp hmem).2
  refine ⟨waiting, ?_, i, entry, order, waiting, hfound, hwaiting, hon, rfl⟩
  obtain ⟨_, -, houtcome⟩ := primary_outcome port (.apply (.orderCancel cancel)) w hnumbered
  show (step port (.apply (.orderCancel cancel)) w).oms.deferred[entry]? = _
  rw [step, houtcome.resolved_rejection hstatus]
  exact houtcome.deferred_eq (fun _ => by simp) hwaiting

end Rejection

/-- A New that waits on an order whose cancel is rejected is not created by any later run
exactly when the guards turn it away whenever a release comes to where it waits. The News
are followed through the very run of the order manager, and where one is marked there is
one that waited on the order when its cancel was rejected. -/
theorem rejected_cancel_discards_iff (port : IExchangeExecution σ) (config : OmsConfig)
    (clock : Nanos) (venue : σ) (earlier later : List (Op σ)) (cancel : OrderCancelEvent)
    (hstatus : cancel.cancelStatus = .rejected) :
    let before := World.reached port config clock venue earlier
    let followed := Machine.run (followStep port) later (.fromRejection port cancel before)
    followed.world = World.reached port config clock venue
        (earlier ++ .apply (.orderCancel cancel) :: later) ∧
      followed.Marks (before.oms.toOmsState.WaitsOnSubject (.orderCancel cancel)) ∧
      (followed.revived = false ↔
        Machine.Along (followStep port) (fun op f => turnsAwayAllMarked port op f = true) later
          (.fromRejection port cancel before)) := by
  intro before followed
  have hnumbered : before.oms.toOmsState.Numbered := run_numbered port config clock venue earlier
  refine ⟨?_, ?_, ?_⟩
  · rw [World.reached, Machine.run_append, Machine.run_cons]
    exact Machine.run_map (followStep_world port) later _
  · exact marks_run port later (marks_fromRejection port hstatus hnumbered)
      (step_numbered port _ before hnumbered)
  · rw [Machine.run_iff_along (I := fun f : Followed σ => f.revived = false)
      (fun op f => followStep_revived port) later _]
    exact and_iff_right rfl

namespace Sample

/-- A New waits on the slot's order, whose cancel is then rejected. -/
def deferredNew : List (Op Unit) :=
  [.attachExecution, submitNew 10, ack '1' 'x', submitCancel, submitNew 10]

/-- A New for the other slot. -/
def submitAsk : Op Unit := .submit { action := { action .new 10 with slot := .ask }, valid := true }

/-- The venue accepts a second cancel after an order in the other slot has taken the last
place of the table. -/
def filledUp : List (Op Unit) := [submitAsk, submitCancel, cancelAnswer '1' .accepted]

end Sample

/-- With room for two orders, the New is released and turned away for want of a place. -/
theorem rejected_cancel_discards_iff_filledUp :
    let before := World.reached Sample.acceptAll { maxOrders := 2 } 1 () Sample.deferredNew
    let rejection := Sample.cancelEvent '1' .rejected
    let followed := Machine.run (followStep Sample.acceptAll) Sample.filledUp
      (.fromRejection Sample.acceptAll rejection before)
    (Followed.fromRejection Sample.acceptAll rejection before).marked = [0] ∧
      followed.marked = [] ∧ followed.revived = false := by
  intro before rejection followed
  have hdiscards := rejected_cancel_discards_iff Sample.acceptAll { maxOrders := 2 } 1 ()
    Sample.deferredNew Sample.filledUp rejection rfl
  exact ⟨by decide +kernel, by decide +kernel, hdiscards.2.2.mpr (by decide +kernel)⟩

/-- With room for more, the accepted second cancel creates the New that the rejection of
the first should have discarded. -/
theorem rejected_cancel_leaves_deferred_new :
    let before := Sample.after Sample.deferredNew
    let rejection := Sample.cancelEvent '1' .rejected
    let followed := Machine.run (followStep Sample.acceptAll)
      [Sample.submitCancel, Sample.cancelAnswer '1' .accepted]
      (.fromRejection Sample.acceptAll rejection before)
    (before.oms.findSubject (.orderCancel rejection)).map
        (fun found => (found.2.logicalId, found.2.state)) = some (1, .pendingCancel) ∧
      (before.oms.toOmsState.waitingAt 0).map DeferredNew.waitingOn = some 1 ∧
      (Followed.fromRejection Sample.acceptAll rejection before).marked = [0] ∧
      followed.revived = true ∧ .released 0 1 (some .cancelled) true ∈ followed.world.trace := by
  decide +kernel

end MmEngine.Oms
