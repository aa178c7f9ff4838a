/-
# The scan of the deferral table

A release walks the deferral table while the New it hands over may be put back into it,
and it is skipped when the counter beside the table reads zero. Neither loses or repeats
anything. The counter is the number of occupied entries wherever a release can start and
at every entry of the walk. A New that is deferred again takes the first free entry, and
the entry being released is free, so what lies ahead of the walk is as it was at the start.
-/

import MmEngine.Oms.Deferral
import MmEngine.Oms.Release

namespace MmEngine.Oms

open MmEngine.Exchange MmEngine.Quote MmEngine.Risk OmsState OrderManager

variable {σ : Type}

/-- The counter is the number of occupied entries of the table. -/
def OmsState.Counted (s : OmsState) : Prop := s.deferredCount = s.deferred.countP Option.isSome

/-- True of an entry that holds a New waiting on the order `id`. -/
def OmsState.waitsOn (s : OmsState) (id : LogicalOrderId) (entry : Nat) : Bool :=
  (s.deferred[entry]?).join.any fun waiting => waiting.waitingOn = id

/-- The table entry a release observed, and the order it was released for. -/
def Observation.releasedEntry : Observation → Option (Nat × LogicalOrderId)
  | .released entry waitingOn _ _ => some (entry, waitingOn)
  | _ => none

/-- The loop of a release without the counter in front of it. The end of the table is
looked at again before every entry; the loop runs from entry `k` over the entries listed. -/
inductive Scan (port : IExchangeExecution σ) (id : LogicalOrderId) :
    Nat → World σ → List Nat → World σ → Prop
  | ended {k : Nat} {w : World σ} (hend : w.oms.deferred.length ≤ k) : Scan port id k w [] w
  | visited {k : Nat} {w after : World σ} {later : List Nat} (hmore : k < w.oms.deferred.length)
      (hrest : Scan port id (k + 1) (releaseEntry port id w k) later after) :
      Scan port id k w (k :: later) after

/-- What a walk from `start` has done when it comes to entry `k`: the table has its size and
its count, the entries from `k` on are untouched, and of those before it the ones that
waited on the order have been released, each once and in order. -/
structure ScannedTo (start : World σ) (id : LogicalOrderId) (k : Nat) (w : World σ) : Prop where
  length : w.oms.deferred.length = start.oms.deferred.length
  counted : w.oms.toOmsState.Counted
  ahead : w.oms.deferred.drop k = start.oms.deferred.drop k
  released : w.trace.filterMap Observation.releasedEntry =
    start.trace.filterMap Observation.releasedEntry ++
      ((List.range k).filter (start.oms.toOmsState.waitsOn id)).map fun entry => (entry, id)

/-- A release from `w` is a run of the loop over all entries, and the only one. -/
structure ScansOnce (port : IExchangeExecution σ) (id : LogicalOrderId) (w : World σ) :
    Prop where
  loop : ∀ visited after, Scan port id 0 w visited after ↔
    visited = List.range w.oms.deferred.length ∧ after = releaseDeferred port id w
  prior : ∀ k ≤ w.oms.deferred.length,
    ScannedTo w id k ((List.range k).foldl (releaseEntry port id) w)

theorem OmsState.waitsOn_iff {s : OmsState} {id : LogicalOrderId} {entry : Nat} :
    s.waitsOn id entry = true ↔
      ∃ waiting, s.deferred[entry]? = some (some waiting) ∧ waiting.waitingOn = id := by
  simp [waitsOn, Option.any_eq_true, Option.join_eq_some_iff]

section Counter

variable {s after : OmsState} {action : OrderAction} {observed : List Observation}

theorem counted_init (config : OmsConfig) (clock : Nanos) :
    (OrderManager.init config clock).toOmsState.Counted := by
  simp [Counted, OrderManager.init, List.countP_replicate]

theorem OmsState.Counted.vacate (hs : s.Counted) {entry : Nat} {waiting : DeferredNew}
    (hentry : s.deferred[entry]? = some (some waiting)) : (s.vacate entry).Counted := by
  obtain ⟨hlt, hget⟩ := List.getElem?_eq_some_iff.mp hentry
  simp only [Counted, OmsState.vacate] at hs ⊢
  rw [List.countP_set hlt, hget, hs]
  simp

theorem OmsState.Counted.defer (hs : s.Counted) {entry : Nat} (action : OrderAction)
    (waitingOn : LogicalOrderId) (hentry : s.deferred[entry]? = some none) :
    (s.defer entry action waitingOn).Counted := by
  obtain ⟨hlt, hget⟩ := List.getElem?_eq_some_iff.mp hentry
  simp only [Counted, OmsState.defer] at hs ⊢
  rw [List.countP_set hlt, hget, hs]
  simp

theorem OmsState.NewOutcome.counted (h : NewOutcome s action after observed) (hs : s.Counted) :
    after.Counted := by
  cases h with
  | refused | burned => exact hs
  | deferred _ _ hfree => exact hs.defer _ _ hfree
  | created _ _ _ _ hrecord => rcases hrecord.base_eq with rfl | rfl <;> exact hs

theorem OmsState.NewOutcome.deferred_length (h : NewOutcome s action after observed) :
    after.deferred.length = s.deferred.length := by
  cases h with
  | refused | burned => rfl
  | deferred => simp [OmsState.defer]
  | created _ _ _ _ hrecord => rcases hrecord.base_eq with rfl | rfl <;> rfl

/-- Up to the release an operation touches the table by a New or by starting over. -/
theorem PrimaryOutcome.counted {op : Op σ} {resolved : Option LogicalOrderId}
    (h : PrimaryOutcome s op after resolved observed) (hs : s.Counted) : after.Counted := by
  cases h with
  | submit h =>
      cases h with
      | refused | burned => exact hs
      | new _ _ houtcome => exact houtcome.counted hs
      | edited _ _ _ hedit => rcases hedit.base_eq with rfl | rfl | rfl <;> exact hs
  | apply h =>
      cases h with
      | discarded => exact hs
      | edited _ _ _ hedit =>
          obtain ⟨_, _, rfl⟩ := hedit.base_eq
          exact hs
  | resolve h => cases h <;> exact hs
  | onTimer | reconcile | attachExecution | advance | venue | restartRefused => exact hs
  | restarted => exact counted_init _ s.clock

end Counter

section Entry

variable (port : IExchangeExecution σ) {id : LogicalOrderId} {w : World σ} {k : Nat}

/-- A New that is let through is not deferred again. -/
theorem handleNew_deferred_of_admits {action : OrderAction}
    (h : w.oms.toOmsState.admits action = true) :
    (handleNew port action w).2.oms.deferred = w.oms.deferred := by
  obtain ⟨_, -, houtcome⟩ := handleNew_outcome port action w
  generalize (handleNew port action w).2.oms.toOmsState = after at houtcome ⊢
  cases houtcome with
  | refused | burned => rfl
  | deferred hslot hstate => simp [admits, hslot, hstate] at h
  | created _ _ _ _ hrecord => rcases hrecord.base_eq with rfl | rfl <;> rfl

theorem releaseEntry_of_waitsOn_eq_false (h : w.oms.toOmsState.waitsOn id k = false) :
    releaseEntry port id w k = w := by
  refine releaseEntry_of_not_waiting port fun waiting hentry hon => ?_
  rw [waitsOn_iff.mpr ⟨waiting, hentry, hon⟩] at h
  cases h

/-- Releasing an entry leaves the entries behind it. -/
theorem releaseEntry_ahead :
    (releaseEntry port id w k).oms.deferred.drop (k + 1) = w.oms.deferred.drop (k + 1) := by
  cases hwaits : w.oms.toOmsState.waitsOn id k with
  | false => rw [releaseEntry_of_waitsOn_eq_false port hwaits]
  | true =>
      obtain ⟨waiting, hentry, hon⟩ := waitsOn_iff.mp hwaits
      cases hadmits : w.oms.toOmsState.admits waiting.action with
      | false => exact (releaseEntry_of_not_admits port hentry hon hadmits).2.2.2.2
      | true =>
          rw [releaseEntry_of_waiting port hentry hon,
            handleNew_deferred_of_admits port
              (w := w.withOms fun m => m.onState fun s => s.vacate k) hadmits]
          exact List.drop_set_of_lt (Nat.lt_succ_self k)

theorem releaseEntry_deferred_length :
    (releaseEntry port id w k).oms.deferred.length = w.oms.deferred.length := by
  rcases releaseEntry_outcome port id w k with hsame | ⟨_, _, _, _, houtcome, _⟩
  · rw [hsame]
  · rw [houtcome.deferred_length]
    simp [OmsState.vacate]

theorem releaseEntry_counted (hw : w.oms.toOmsState.Counted) :
    (releaseEntry port id w k).oms.toOmsState.Counted := by
  rcases releaseEntry_outcome port id w k with hsame | ⟨_, _, hentry, _, houtcome, _⟩
  · rwa [hsame]
  · exact houtcome.counted (hw.vacate hentry)

/-- Only a release is observed as one of an entry. -/
theorem releasedEntry_of_no_release {observed : List Observation}
    (h : ∀ observation ∈ observed, observation.isRelease = false) :
    observed.filterMap Observation.releasedEntry = [] := by
  rw [List.filterMap_eq_nil_iff]
  intro observation hmem
  have hquiet := h observation hmem
  cases observation with
  | released => cases hquiet
  | sent | answered => rfl

/-- An entry is released when it waits on the order, and then once. -/
theorem releaseEntry_released :
    (releaseEntry port id w k).trace.filterMap Observation.releasedEntry =
      w.trace.filterMap Observation.releasedEntry ++
        if w.oms.toOmsState.waitsOn id k = true then [(k, id)] else [] := by
  cases hwaits : w.oms.toOmsState.waitsOn id k with
  | false =>
      rw [releaseEntry_of_waitsOn_eq_false port hwaits, if_neg Bool.false_ne_true, List.append_nil]
  | true =>
      obtain ⟨waiting, hentry, hon⟩ := waitsOn_iff.mp hwaits
      obtain ⟨observed, htrace, houtcome⟩ := handleNew_outcome port waiting.action
        (w.withOms fun m => m.onState fun s => s.vacate k)
      rw [if_pos rfl, releaseEntry, hentry]
      dsimp only
      rw [if_pos hon, World.observe, htrace]
      simp only [List.filterMap_append, releasedEntry_of_no_release houtcome.no_release,
        List.append_nil]
      rfl

end Entry

section Walk

variable (port : IExchangeExecution σ) {id : LogicalOrderId} {start w : World σ} {k : Nat}

theorem ScannedTo.refl (hstart : start.oms.toOmsState.Counted) : ScannedTo start id 0 start :=
  ⟨rfl, hstart, rfl, by simp⟩

/-- One more entry: it is as it was at the start, so it is released if it waited then. -/
theorem ScannedTo.step (h : ScannedTo start id k w) :
    ScannedTo start id (k + 1) (releaseEntry port id w k) where
  length := (releaseEntry_deferred_length port).trans h.length
  counted := releaseEntry_counted port h.counted
  ahead := by
    rw [releaseEntry_ahead, ← List.drop_drop, h.ahead, List.drop_drop]
  released := by
    have hentry : w.oms.deferred[k]? = start.oms.deferred[k]? := by
      rw [← List.head?_drop, h.ahead, List.head?_drop]
    have hwaits : w.oms.toOmsState.waitsOn id k = start.oms.toOmsState.waitsOn id k := by
      rw [waitsOn, waitsOn, hentry]
    rw [releaseEntry_released, h.released, hwaits, List.range_succ, List.filter_append,
      List.map_append, List.append_assoc]
    cases hstart : start.oms.toOmsState.waitsOn id k <;> simp [hstart]

theorem scannedTo_foldl (hstart : start.oms.toOmsState.Counted) :
    ∀ k, ScannedTo start id k ((List.range k).foldl (releaseEntry port id) start)
  | 0 => .refl hstart
  | k + 1 => by
      rw [List.range_succ, List.foldl_concat]
      exact (scannedTo_foldl hstart k).step port

/-- The loop ends after the entries left, in the world releasing them one by one leads to. -/
theorem scan_iff {visited : List Nat} {after : World σ} :
    Scan port id k w visited after ↔
      visited = List.range' k (w.oms.deferred.length - k) ∧
        after = visited.foldl (releaseEntry port id) w := by
  constructor
  · intro h
    induction h with
    | ended hend => simp [Nat.sub_eq_zero_of_le hend]
    | @visited k w _ _ hmore _ ih =>
        rw [releaseEntry_deferred_length] at ih
        obtain ⟨hlater, hafter⟩ := ih
        have hleft : w.oms.deferred.length - k = w.oms.deferred.length - (k + 1) + 1 := by omega
        rw [hleft, List.range'_succ, ← hlater]
        exact ⟨rfl, hafter⟩
  · rintro ⟨rfl, rfl⟩
    induction hleft : w.oms.deferred.length - k generalizing k w with
    | zero => exact .ended (by omega)
    | succ left ih =>
        rw [List.range'_succ]
        refine .visited (by omega) (ih ?_)
        rw [releaseEntry_deferred_length]
        omega

/-- A count of zero is an empty table, which a walk passes without a trace. -/
theorem releaseDeferred_eq_foldl (hw : w.oms.toOmsState.Counted) :
    releaseDeferred port id w =
      (List.range w.oms.deferred.length).foldl (releaseEntry port id) w := by
  rw [releaseDeferred]
  split
  · rename_i hzero
    have hempty : ∀ entry ∈ w.oms.deferred, entry.isSome = false := by
      rw [hw, List.countP_eq_zero] at hzero
      simpa using hzero
    symm
    apply List.foldl_fixed'
    intro k
    refine releaseEntry_of_not_waiting port fun waiting hentry => ?_
    cases hempty _ (List.mem_of_getElem? hentry)
  · rfl

theorem scansOnce_of_counted (hw : w.oms.toOmsState.Counted) : ScansOnce port id w where
  loop visited after := by
    rw [scan_iff, Nat.sub_zero, ← List.range_eq_range', releaseDeferred_eq_foldl port hw]
    constructor
    · rintro ⟨rfl, rfl⟩
      exact ⟨rfl, rfl⟩
    · rintro ⟨rfl, rfl⟩
      exact ⟨rfl, rfl⟩
  prior k _ := scannedTo_foldl port hw k

end Walk

theorem step_counted (port : IExchangeExecution σ) (op : Op σ) {w : World σ}
    (hnumbered : w.oms.toOmsState.Numbered) (hw : w.oms.toOmsState.Counted) :
    (step port op w).oms.toOmsState.Counted := by
  obtain ⟨_, _, houtcome⟩ := primary_outcome port op w hnumbered
  exact release_invariant (I := fun w : World σ => w.oms.toOmsState.Counted) port
    (fun _ _ _ _ hw => releaseEntry_counted port hw) (houtcome.counted hw)

theorem run_counted (port : IExchangeExecution σ) (config : OmsConfig) (clock : Nanos) (venue : σ)
    (ops : List (Op σ)) : (World.reached port config clock venue ops).oms.toOmsState.Counted := by
  have hrun := Machine.invariant_run_always
    (I := fun w : World σ => w.oms.toOmsState.Numbered ∧ w.oms.toOmsState.Counted)
    (fun op w hw => ⟨step_numbered port op w hw.1, step_counted port op hw.1 hw.2⟩) ops
    (s := World.init config clock venue) ⟨numbered_init config clock, counted_init config clock⟩
  exact hrun.2

/-- In every state of every run, and in the state in which an operation releases what waits
on an order, the counter is the number of occupied entries; and a release from there looks
at every entry once, releases those that waited when it began, each once, and ends. -/
theorem deferrals_counted_and_scanned_once (port : IExchangeExecution σ) (config : OmsConfig)
    (clock : Nanos) (venue : σ) (ops : List (Op σ)) :
    (World.reached port config clock venue ops).oms.toOmsState.Counted ∧
      ∀ op : Op σ,
        (primary port op (World.reached port config clock venue ops)).1.oms.toOmsState.Counted ∧
          ∀ id, ScansOnce port id
            (primary port op (World.reached port config clock venue ops)).1 := by
  have hcounted := run_counted port config clock venue ops
  have hnumbered := run_numbered port config clock venue ops
  refine ⟨hcounted, fun op => ?_⟩
  obtain ⟨_, _, houtcome⟩ := primary_outcome port op _ hnumbered
  have hprimary := houtcome.counted hcounted
  exact ⟨hprimary, fun id => scansOnce_of_counted port hprimary⟩

end MmEngine.Oms
