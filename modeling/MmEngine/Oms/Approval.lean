/-
# The single use of an approval

A risk approval is numbered, and a copy of it is to place one order at most. The
order manager does not look at the number: it refuses a replay only when the slot
happens to refuse any New, so a replay that comes when the order is working,
filled or cancelled creates a second record.

The records do not say which approval they come from. `Usage` is a history
variable that does: it follows each New from its submission, through the deferral
table if it waits there, to the record it becomes. As long as a New whose approval
is already used meets a refusal, no approval stands behind two records.
-/

import MmEngine.Oms.DeferralSlots

namespace MmEngine.Oms

open MmEngine.Exchange MmEngine.Quote MmEngine.Risk OmsState OrderManager

variable {σ : Type}

/-- True when the deferral entry holds nothing. -/
def OmsState.vacant (s : OmsState) (entry : Nat) : Bool := s.deferred[entry]?.any Option.isNone

/-- True when a New waits in the deferral entry. -/
def OmsState.waits (s : OmsState) (entry : Nat) : Bool := s.deferred[entry]?.any Option.isSome

/-- True when a New would become a record: there is room, the slot lets it pass,
and a client id nobody has can be minted. -/
def OmsState.createsNew (s : OmsState) (action : OrderAction) : Bool :=
  decide (s.orders.length < s.config.maxOrders) &&
    (s.findSlotOrder action.identity.name action.symbol action.slot).all
      (fun found => found.2.state ≠ .pendingCancel && found.2.pendingRequest = 0) &&
    s.idGenerator.next.1.any fun clientId => (s.byClientId.lookup clientId).isNone

/-- The approvals behind the News of a run. -/
structure Usage where
  /-- The approval of the New that last took a deferral entry. -/
  held : Nat → Nat := fun _ => 0
  /-- The approval each record was created under, in the order of the records. -/
  made : List Nat := []

namespace Usage

/-- A New is handled under an approval. It takes an entry, becomes a record, or
neither. -/
def follow (approval : Nat) (before after : OmsState) (u : Usage) : Usage where
  held entry := if before.vacant entry && after.waits entry then approval else u.held entry
  made := if before.orders.length < after.orders.length then u.made ++ [approval] else u.made

/-- True when a record was created under the approval, or a New submitted under it
waits. -/
def spent (u : Usage) (s : OmsState) (approval : Nat) : Bool :=
  decide (approval ∈ u.made) ||
    (List.range s.deferred.length).any fun entry => s.waits entry && u.held entry = approval

end Usage

/-- The release of one entry. The New in it keeps the approval it waited under. -/
def trackEntry (port : IExchangeExecution σ) (resolved : LogicalOrderId) (x : World σ × Usage)
    (entry : Nat) : World σ × Usage :=
  let after := releaseEntry port resolved x.1 entry
  (after, x.2.follow (x.2.held entry) (x.1.oms.toOmsState.vacate entry) after.oms.toOmsState)

/-- The release that ends an operation, with the approvals followed. -/
def trackRelease (port : IExchangeExecution σ) :
    Option LogicalOrderId → World σ × Usage → World σ × Usage
  | none, x => x
  | some id, x =>
      if x.1.oms.deferredCount = 0 then x
      else (List.range x.1.oms.deferred.length).foldl (trackEntry port id) x

/-- What the primary phase of an operation does under an approval: only a
submission has one. -/
def Usage.followOp (u : Usage) (op : Op σ) (before after : OmsState) : Usage :=
  match op with
  | .submit approved => u.follow approved.sequence before after
  | _ => u

/-- One operation of the order manager, with the approvals followed. -/
def trackedStep (port : IExchangeExecution σ) (op : Op σ) (x : World σ × Usage) :
    World σ × Usage :=
  let (after, resolved) := primary port op x.1
  trackRelease port resolved (after, x.2.followOp op x.1.oms.toOmsState after.oms.toOmsState)

/-- True of a step that submits no New under a used approval, unless the New is
refused. -/
def spendsOnce (x : World σ × Usage) : Op σ → Bool
  | .submit approved =>
      !(approved.valid && approved.action.type = .new &&
        x.2.spent x.1.oms.toOmsState approved.sequence &&
        (x.1.oms.toOmsState.defersNew approved.action ||
          x.1.oms.toOmsState.createsNew approved.action))
  | _ => true

theorem foldl_trackEntry_fst (port : IExchangeExecution σ) (id : LogicalOrderId)
    (entries : List Nat) (x : World σ × Usage) :
    (entries.foldl (trackEntry port id) x).1 = entries.foldl (releaseEntry port id) x.1 := by
  induction entries generalizing x with
  | nil => rfl
  | cons entry entries ih => exact ih (trackEntry port id x entry)

/-- Following the approvals changes nothing in what the order manager does. -/
theorem trackedStep_fst (port : IExchangeExecution σ) (op : Op σ) (x : World σ × Usage) :
    (trackedStep port op x).1 = step port op x.1 := by
  unfold trackedStep step World.release
  dsimp only
  cases (primary port op x.1).2 with
  | none => rfl
  | some id =>
      unfold trackRelease releaseDeferred
      dsimp only
      split
      · rfl
      · exact foldl_trackEntry_fst port id _ _

theorem run_trackedStep_fst (port : IExchangeExecution σ) (ops : List (Op σ))
    (x : World σ × Usage) :
    (Machine.run (trackedStep port) ops x).1 = Machine.run (step port) ops x.1 :=
  Machine.run_map (trackedStep_fst port) ops x

theorem trackedStep_numbered (port : IExchangeExecution σ) (op : Op σ) {x : World σ × Usage}
    (hx : x.1.oms.toOmsState.Numbered) :
    (trackedStep port op x).1.oms.toOmsState.Numbered := by
  rw [trackedStep_fst]
  exact step_numbered port op x.1 hx

/-- What the primary phase leaves and every released entry keeps, a step keeps. -/
theorem trackedStep_invariant {I : World σ × Usage → Prop} (port : IExchangeExecution σ)
    (op : Op σ) (x : World σ × Usage)
    (hprimary : I ((primary port op x.1).1, x.2.followOp op x.1.oms.toOmsState
      (primary port op x.1).1.oms.toOmsState))
    (hentry : ∀ id y entry, I y → I (trackEntry port id y entry)) :
    I (trackedStep port op x) := by
  unfold trackedStep
  dsimp only
  cases (primary port op x.1).2 with
  | none => exact hprimary
  | some id =>
      unfold trackRelease
      dsimp only
      split
      · exact hprimary
      · exact Table.foldl_invariant (hentry id) _ hprimary

section Follow

variable {s after : OmsState} {u : Usage} {approval : Nat}

theorem OmsState.waits_eq_false_of_vacant {entry : Nat} (h : s.vacant entry = true) :
    s.waits entry = false := by
  obtain ⟨held, hentry, hnone⟩ := (Option.any_eq_true _ _).mp h
  simp [OmsState.waits, hentry, Option.isNone_iff_eq_none.mp hnone]

theorem OmsState.waits_init (config : OmsConfig) (clock : Nanos) (entry : Nat) :
    (OrderManager.init config clock).toOmsState.waits entry = false := by
  by_contra hwaits
  obtain ⟨held, hentry, hsome⟩ :=
    (Option.any_eq_true _ _).mp ((Bool.not_eq_false _).mp hwaits)
  obtain ⟨waiting, rfl⟩ := Option.isSome_iff_exists.mp hsome
  exact held_init (fun _ => False) config clock entry waiting hentry

/-- A deferral table that did not change has no entry taken. -/
theorem OmsState.taken_eq_false (hdeferred : after.deferred = s.deferred) (entry : Nat) :
    (s.vacant entry && after.waits entry) = false := by
  have hwaits : after.waits entry = s.waits entry := by simp only [OmsState.waits, hdeferred]
  cases hvacant : s.vacant entry with
  | false => rfl
  | true => rw [hwaits, waits_eq_false_of_vacant hvacant, Bool.and_false]

/-- A New that took no entry and became no record leaves the approvals alone. -/
theorem Usage.follow_eq_self (hdeferred : after.deferred = s.deferred)
    (horders : after.orders.length = s.orders.length) : u.follow approval s after = u := by
  simp [Usage.follow, taken_eq_false hdeferred, horders]

theorem Usage.follow_created (hdeferred : after.deferred = s.deferred)
    (horders : s.orders.length < after.orders.length) :
    u.follow approval s after = { u with made := u.made ++ [approval] } := by
  simp [Usage.follow, taken_eq_false hdeferred, horders]

theorem Usage.spent_eq_false_iff :
    u.spent s approval = false ↔
      approval ∉ u.made ∧ ∀ entry, s.waits entry = true → u.held entry ≠ approval := by
  have hlt : ∀ entry, s.waits entry = true → entry < s.deferred.length := by
    intro entry hwaits
    obtain ⟨held, hentry, _⟩ := (Option.any_eq_true _ _).mp hwaits
    exact (List.getElem?_eq_some_iff.mp hentry).1
  simp only [Usage.spent, Bool.or_eq_false_iff, decide_eq_false_iff_not, List.any_eq_false,
    List.mem_range, Bool.and_eq_true, decide_eq_true_eq, not_and]
  constructor
  · rintro ⟨hmade, hheld⟩
    exact ⟨hmade, fun entry hwaits => hheld entry (hlt entry hwaits) hwaits⟩
  · rintro ⟨hmade, hheld⟩
    exact ⟨hmade, fun entry _ hwaits => hheld entry hwaits⟩

/-- The entries in which a New waits after one more was deferred. -/
theorem OmsState.waits_defer {entry other : Nat} {action : OrderAction} {id : LogicalOrderId}
    (hfree : s.deferred[entry]? = some none) :
    (s.defer entry action id).waits other = true ↔ other = entry ∨ s.waits other = true := by
  obtain ⟨hlt, _⟩ := List.getElem?_eq_some_iff.mp hfree
  by_cases hsame : other = entry
  · subst hsame
    simp [OmsState.waits, OmsState.defer, List.getElem?_set_self hlt]
  · simp [OmsState.waits, OmsState.defer, List.getElem?_set_ne (Ne.symm hsame), hsame]

theorem OmsState.waits_vacate {entry other : Nat} :
    (s.vacate entry).waits other = true ↔ other ≠ entry ∧ s.waits other = true := by
  by_cases hsame : other = entry
  · subst hsame
    simp only [OmsState.waits, OmsState.vacate, List.getElem?_set_self']
    cases s.deferred[other]? <;> simp
  · simp [OmsState.waits, OmsState.vacate, List.getElem?_set_ne (Ne.symm hsame), hsame]

/-- Vacating an entry and taking it back under its own approval is nothing. -/
theorem Usage.follow_vacated {entry : Nat} :
    u.follow (u.held entry) (s.vacate entry) s = u := by
  have hmade : ¬ (s.vacate entry).orders.length < s.orders.length := lt_irrefl _
  simp only [Usage.follow, if_neg hmade]
  congr 1
  funext other
  split
  · rename_i htaken
    by_cases hsame : other = entry
    · rw [hsame]
    · have hvacant : (s.vacate entry).vacant other = s.vacant other := by
        simp [OmsState.vacant, OmsState.vacate, List.getElem?_set_ne (Ne.symm hsame)]
      rw [hvacant, taken_eq_false rfl] at htaken
      cases htaken
  · rfl

theorem Usage.follow_deferred {entry : Nat} {action : OrderAction} {id : LogicalOrderId}
    (hfree : s.deferred[entry]? = some none) :
    u.follow approval s (s.defer entry action id) =
      { u with held := Function.update u.held entry approval } := by
  have hheld : ∀ other, (s.vacant other && (s.defer entry action id).waits other) = true ↔
      other = entry := by
    intro other
    rw [Bool.and_eq_true, waits_defer hfree]
    constructor
    · rintro ⟨hvacant, hsame | hwaits⟩
      · exact hsame
      · rw [waits_eq_false_of_vacant hvacant] at hwaits
        cases hwaits
    · rintro rfl
      exact ⟨by simp [OmsState.vacant, hfree], .inl rfl⟩
  have hmade : ¬ s.orders.length < (s.defer entry action id).orders.length := lt_irrefl _
  simp only [Usage.follow, hheld, if_neg hmade, Usage.mk.injEq, and_true]
  funext other
  rw [Function.update_apply]

end Follow

/-! ## No approval is used twice -/

/-- No approval stands behind two records, two waiting News, or one of each. -/
structure SingleUse (s : OmsState) (u : Usage) : Prop where
  made : u.made.Nodup
  held : ∀ entry other, s.waits entry = true → s.waits other = true →
    u.held entry = u.held other → entry = other
  apart : ∀ entry, s.waits entry = true → u.held entry ∉ u.made

section Step

variable {s after : OmsState} {u : Usage} {approval : Nat} {observed : List Observation}

/-- Fewer waiting News leave the approvals used once. -/
theorem SingleUse.mono (hs : SingleUse s u)
    (hwaits : ∀ entry, after.waits entry = true → s.waits entry = true) : SingleUse after u where
  made := hs.made
  held entry other h h' := hs.held entry other (hwaits entry h) (hwaits other h')
  apart entry h := hs.apart entry (hwaits entry h)

theorem SingleUse.create (hs : SingleUse s u) (hspent : u.spent s approval = false)
    (hdeferred : after.deferred = s.deferred) :
    SingleUse after { u with made := u.made ++ [approval] } := by
  obtain ⟨hmade, hheld⟩ := Usage.spent_eq_false_iff.mp hspent
  have hwaits : ∀ entry, after.waits entry = s.waits entry := by
    simp only [OmsState.waits, hdeferred, implies_true]
  refine ⟨?_, ?_, ?_⟩
  · exact (List.nodup_append_comm.mp (List.nodup_cons.mpr ⟨hmade, hs.made⟩ :
      ([approval] ++ u.made).Nodup))
  · intro entry other h h'
    rw [hwaits] at h h'
    exact hs.held entry other h h'
  · intro entry h hmem
    rw [hwaits] at h
    rcases List.mem_append.mp hmem with hold | hnew
    · exact hs.apart entry h hold
    · exact hheld entry h (List.mem_singleton.mp hnew)

theorem SingleUse.defer (hs : SingleUse s u) (hspent : u.spent s approval = false) {entry : Nat}
    {action : OrderAction} {id : LogicalOrderId} (hfree : s.deferred[entry]? = some none) :
    SingleUse (s.defer entry action id)
      { u with held := Function.update u.held entry approval } := by
  obtain ⟨hmade, hheld⟩ := Usage.spent_eq_false_iff.mp hspent
  have hother : ∀ other, s.waits other = true → other ≠ entry := by
    rintro other hwaits rfl
    have hvacant : s.vacant other = true := by simp [OmsState.vacant, hfree]
    rw [waits_eq_false_of_vacant hvacant] at hwaits
    cases hwaits
  refine ⟨hs.made, ?_, ?_⟩
  · intro first second hfirst hsecond hsame
    dsimp only at hsame
    rcases (waits_defer hfree).mp hfirst with rfl | hfirstOld
    · rcases (waits_defer hfree).mp hsecond with rfl | hsecondOld
      · rfl
      · rw [Function.update_self, Function.update_of_ne (hother _ hsecondOld)] at hsame
        exact absurd hsame.symm (hheld second hsecondOld)
    · rcases (waits_defer hfree).mp hsecond with rfl | hsecondOld
      · rw [Function.update_self, Function.update_of_ne (hother _ hfirstOld)] at hsame
        exact absurd hsame (hheld first hfirstOld)
      · rw [Function.update_of_ne (hother _ hfirstOld),
          Function.update_of_ne (hother _ hsecondOld)] at hsame
        exact hs.held first second hfirstOld hsecondOld hsame
  · intro other hwaits
    rcases (waits_defer hfree).mp hwaits with rfl | hwaits
    · simpa only [Function.update_self] using hmade
    · simpa only [Function.update_of_ne (hother _ hwaits)] using hs.apart other hwaits

/-- A New keeps the approvals used once, unless it is let through under one that
is used. -/
theorem OmsState.NewOutcome.singleUse {action : OrderAction}
    (h : NewOutcome s action after observed) (hs : SingleUse s u)
    (honce : (s.defersNew action || s.createsNew action) = true → u.spent s approval = false) :
    SingleUse after (u.follow approval s after) := by
  cases h with
  | refused =>
      rw [Usage.follow_eq_self rfl rfl]
      exact hs
  | burned =>
      rw [Usage.follow_eq_self (show s.burnClientId.deferred = s.deferred from rfl) rfl]
      exact hs.mono fun _ h => h
  | @deferred k entry occupant hslot hstate hfree hroom =>
      rw [Usage.follow_deferred hfree]
      apply hs.defer (honce ?_) hfree
      rw [defersNew_of_deferred hslot hstate hfree hroom, Bool.true_or]
  | @created _ record base _ hroom hpassable hid hfresh hrecord =>
      have hcreates : s.createsNew action = true := by
        simp only [OmsState.createsNew, Bool.and_eq_true, Option.all_eq_true, decide_eq_true_eq]
        refine ⟨⟨hroom, fun found hfound => hpassable found.1 found.2 hfound⟩, ?_⟩
        simp [hid, hfresh]
      have hspent := honce (by rw [hcreates, Bool.or_true])
      have hdeferred : (base.addOrder record).deferred = s.deferred := by
        rcases hrecord.base_eq with rfl | rfl <;> rfl
      have horders : s.orders.length < (base.addOrder record).orders.length := by
        rcases hrecord.base_eq with rfl | rfl <;>
          simp [OmsState.addOrder, OmsState.nextRequest, OmsState.burnClientId]
      rw [Usage.follow_created hdeferred horders]
      exact hs.create hspent hdeferred

theorem PrimaryOutcome.singleUse {op : Op σ} {resolved : Option LogicalOrderId}
    (h : PrimaryOutcome s op after resolved observed) (hs : SingleUse s u)
    (honce : ∀ approved, op = .submit approved → approved.valid = true →
      approved.action.type = .new →
        (s.defersNew approved.action || s.createsNew approved.action) = true →
          u.spent s approved.sequence = false) :
    SingleUse after (u.followOp op s after) := by
  cases h with
  | submit h =>
      cases h with
      | refused =>
          rw [Usage.followOp, Usage.follow_eq_self rfl rfl]
          exact hs
      | burned =>
          rw [Usage.followOp,
            Usage.follow_eq_self (show s.burnClientId.deferred = s.deferred from rfl) rfl]
          exact hs.mono fun _ h => h
      | new hvalid htype houtcome => exact houtcome.singleUse hs (honce _ rfl hvalid htype)
      | @edited i _ record base _ _ _ _ hedit =>
          have hdeferred : (base.store i record).deferred = s.deferred := by
            rcases hedit.base_eq with rfl | rfl | rfl <;> rfl
          have horders : (base.store i record).orders.length = s.orders.length := by
            rcases hedit.base_eq with rfl | rfl | rfl <;> exact List.length_set
          rw [Usage.followOp, Usage.follow_eq_self hdeferred horders]
          apply hs.mono
          intro entry hwaits
          rwa [OmsState.waits, hdeferred] at hwaits
  | apply h =>
      cases h with
      | discarded => exact hs
      | edited _ _ _ hedit =>
          obtain ⟨_, _, rfl⟩ := hedit.base_eq
          exact hs.mono fun _ h => h
  | resolve h => cases h <;> exact hs.mono fun _ h => h
  | onTimer | reconcile | attachExecution | advance | venue => exact hs.mono fun _ h => h
  | restartRefused => exact hs
  | @restarted config =>
      apply hs.mono
      intro entry hwaits
      have hnone : (OrderManager.init config s.clock).toOmsState.waits entry = true := hwaits
      rw [waits_init] at hnone
      cases hnone

end Step

/-- A release moves the approval of an entry to the record, or to the entry the
New waits in next. -/
theorem SingleUse.trackEntry (port : IExchangeExecution σ) (id : LogicalOrderId) (entry : Nat)
    {x : World σ × Usage} (hx : SingleUse x.1.oms.toOmsState x.2) :
    SingleUse (trackEntry port id x entry).1.oms.toOmsState (trackEntry port id x entry).2 := by
  unfold MmEngine.Oms.trackEntry
  dsimp only
  rcases releaseEntry_outcome port id x.1 entry with hsame | ⟨waiting, _, hentry, _, hnew, _⟩
  · rw [hsame, Usage.follow_vacated]
    exact hx
  · have hwaits : x.1.oms.toOmsState.waits entry = true := by simp [OmsState.waits, hentry]
    apply hnew.singleUse (hx.mono fun _ h => (waits_vacate.mp h).2)
    intro _
    apply Usage.spent_eq_false_iff.mpr
    refine ⟨hx.apart entry hwaits, fun other hother hheld => ?_⟩
    obtain ⟨hne, hotherWaits⟩ := waits_vacate.mp hother
    exact hne (hx.held other entry hotherWaits hwaits hheld)

theorem trackedStep_singleUse (port : IExchangeExecution σ) (op : Op σ) {x : World σ × Usage}
    (hnumbered : x.1.oms.toOmsState.Numbered) (hx : SingleUse x.1.oms.toOmsState x.2)
    (honce : spendsOnce x op = true) :
    SingleUse (trackedStep port op x).1.oms.toOmsState (trackedStep port op x).2 := by
  obtain ⟨_, _, houtcome⟩ := primary_outcome port op x.1 hnumbered
  apply trackedStep_invariant
    (I := fun y : World σ × Usage => SingleUse y.1.oms.toOmsState y.2) port op x
  · apply houtcome.singleUse hx
    rintro approved rfl hvalid htype hlet
    simpa [spendsOnce, hvalid, htype, hlet] using honce
  · exact fun id _ entry hy => hy.trackEntry port id entry

theorem Usage.follow_made_length {s after : OmsState} {u : Usage} {approval : Nat}
    (hu : u.made.length = s.orders.length)
    (hafter : after.orders.length = s.orders.length ∨
      after.orders.length = s.orders.length + 1) :
    (u.follow approval s after).made.length = after.orders.length := by
  simp only [Usage.follow]
  rcases hafter with hsame | hmore
  · rw [hsame, if_neg (lt_irrefl _), hu]
  · rw [hmore, if_pos (Nat.lt_succ_self _), List.length_append, hu]
    rfl

theorem OmsState.NewOutcome.orders_length {s after : OmsState} {action : OrderAction}
    {observed : List Observation} (h : NewOutcome s action after observed) :
    after.orders.length = s.orders.length ∨ after.orders.length = s.orders.length + 1 := by
  cases h with
  | refused | burned | deferred => exact .inl rfl
  | created _ _ _ _ hrecord =>
      rcases hrecord.base_eq with rfl | rfl <;> exact .inr List.length_append

/-- The primary phase adds one record at most, and none unless a New is submitted. -/
theorem PrimaryOutcome.made_length {s after : OmsState} {op : Op σ}
    {resolved : Option LogicalOrderId} {observed : List Observation}
    (h : PrimaryOutcome s op after resolved observed) {u : Usage}
    (hu : u.made.length = s.orders.length) :
    (u.followOp op s after).made.length = after.orders.length := by
  cases h with
  | submit h =>
      apply Usage.follow_made_length hu
      cases h with
      | refused | burned => exact .inl rfl
      | new _ _ houtcome => exact houtcome.orders_length
      | edited _ _ _ hedit =>
          rcases hedit.base_eq with rfl | rfl | rfl <;> exact .inl List.length_set
  | apply h =>
      cases h with
      | discarded => exact hu
      | edited _ _ _ hedit =>
          obtain ⟨_, _, rfl⟩ := hedit.base_eq
          exact hu.trans List.length_set.symm
  | resolve h =>
      cases h with
      | refused => exact hu
      | concluded => exact hu.trans List.length_set.symm
  | onTimer => exact hu.trans (List.length_map _).symm
  | reconcile h => exact hu.trans h.length_eq.symm
  | restarted =>
      rw [restarted_orders, List.length_map]
      exact hu
  | attachExecution | advance | venue | restartRefused => exact hu

theorem trackedStep_made_length (port : IExchangeExecution σ) (op : Op σ) {x : World σ × Usage}
    (hnumbered : x.1.oms.toOmsState.Numbered)
    (hx : x.2.made.length = x.1.oms.orders.length) :
    (trackedStep port op x).2.made.length = (trackedStep port op x).1.oms.orders.length := by
  obtain ⟨_, _, houtcome⟩ := primary_outcome port op x.1 hnumbered
  apply trackedStep_invariant
    (I := fun y : World σ × Usage => y.2.made.length = y.1.oms.orders.length) port op x
  · exact houtcome.made_length hx
  · intro id y entry hy
    apply Usage.follow_made_length hy
    rcases releaseEntry_outcome port id y.1 entry with hsame | ⟨_, _, _, _, hnew, _⟩
    · rw [hsame]
      exact .inl rfl
    · exact hnew.orders_length

/-- A fresh order manager, no approval used. -/
def trackedInit (config : OmsConfig) (clock : Nanos) (venue : σ) : World σ × Usage :=
  (World.init config clock venue, {})

/-- The approvals followed are those of the records, one each. -/
theorem run_made_length (port : IExchangeExecution σ) (config : OmsConfig) (clock : Nanos)
    (venue : σ) (ops : List (Op σ)) :
    (Machine.run (trackedStep port) ops (trackedInit config clock venue)).2.made.length =
      (Machine.run (step port) ops (World.init config clock venue)).oms.orders.length := by
  have hfinal := Machine.invariant_run_always
    (I := fun x : World σ × Usage =>
      x.1.oms.toOmsState.Numbered ∧ x.2.made.length = x.1.oms.orders.length)
    (fun op x hx => ⟨trackedStep_numbered port op hx.1, trackedStep_made_length port op hx.1 hx.2⟩)
    ops (s := trackedInit config clock venue) ⟨numbered_init config clock, rfl⟩
  rw [hfinal.2, run_trackedStep_fst]
  rfl

/-- In a run in which every New submitted under a used approval is refused, the records
come from an approval each, and no two of them from the same. -/
theorem approval_single_use_along (port : IExchangeExecution σ) (config : OmsConfig)
    (clock : Nanos) (venue : σ) (ops : List (Op σ))
    (hruns : Machine.Along (trackedStep port) (fun op x => spendsOnce x op = true) ops
      (trackedInit config clock venue)) (approval : Nat) :
    let made := (Machine.run (trackedStep port) ops (trackedInit config clock venue)).2.made
    made.length = (Machine.run (step port) ops (World.init config clock venue)).oms.orders.length ∧
      made.count approval ≤ 1 := by
  have hinit : SingleUse (World.init config clock venue).oms.toOmsState {} := by
    refine ⟨List.nodup_nil, ?_, fun _ _ => List.not_mem_nil⟩
    intro entry other hwaits
    have hnone : (OrderManager.init config clock).toOmsState.waits entry = true := hwaits
    rw [waits_init] at hnone
    cases hnone
  have hfinal := Machine.invariant_run
    (I := fun x : World σ × Usage =>
      x.1.oms.toOmsState.Numbered ∧ SingleUse x.1.oms.toOmsState x.2)
    (fun op x hx honce =>
      ⟨trackedStep_numbered port op hx.1, trackedStep_singleUse port op hx.1 hx.2 honce⟩)
    ⟨numbered_init config clock, hinit⟩ hruns
  exact ⟨run_made_length port config clock venue ops,
    List.nodup_iff_count_le_one.mp hfinal.2.made approval⟩

namespace Sample

/-- A New submitted under approval seven. -/
def submitApproved : Op Unit :=
  .submit { action := action .new 10, sequence := 7, valid := true }

end Sample

/-- A replay while the order is pending is refused. -/
theorem approval_single_use_along_pending :
    Machine.Along (trackedStep Sample.acceptAll) (fun op x => spendsOnce x op = true)
        [.attachExecution, Sample.submitApproved, Sample.submitApproved] (trackedInit {} 1 ()) ∧
      (Machine.run (trackedStep Sample.acceptAll)
        [.attachExecution, Sample.submitApproved, Sample.submitApproved]
        (trackedInit {} 1 ())).2.made.count 7 ≤ 1 := by
  have hruns : Machine.Along (trackedStep Sample.acceptAll) (fun op x => spendsOnce x op = true)
      [.attachExecution, Sample.submitApproved, Sample.submitApproved] (trackedInit {} 1 ()) := by
    decide +kernel
  exact ⟨hruns, (approval_single_use_along Sample.acceptAll {} 1 () _ hruns 7).2⟩

/-- A replay after the order was acknowledged places a second order. -/
theorem replayed_approval_places_second_order :
    ¬ ((Machine.run (trackedStep Sample.acceptAll)
      [.attachExecution, Sample.submitApproved, Sample.ack '1' 'x', Sample.submitApproved]
      (trackedInit {} 1 ())).2.made.count 7 ≤ 1) := by
  decide +kernel

end MmEngine.Oms
