/-
# The order of creation

Every record is stamped from a counter that is not among what survives a restart. In one
life of the process the stamps follow the logical identities; a manager that has
recovered records counts again from one, and the next order it creates shares its stamp
with a recovered one.
-/

import MmEngine.Oms.Release

namespace MmEngine.Oms

open MmEngine.Exchange MmEngine.Quote MmEngine.Risk OmsState OrderManager

variable {σ : Type}

/-- Creation sequences are distinct and increase with the logical identity. -/
structure CreationOrdered (s : OmsState) : Prop where
  distinct : ∀ (i j : Nat) (a b : OrderRecord), s.orders[i]? = some a → s.orders[j]? = some b →
    a.ownership.creationSequence = b.ownership.creationSequence → i = j
  increasing : ∀ (i j : Nat) (a b : OrderRecord), s.orders[i]? = some a →
    s.orders[j]? = some b → a.logicalId < b.logicalId →
    a.ownership.creationSequence < b.ownership.creationSequence

/-- The manager has counted every order it holds: none was recovered. -/
def OmsState.CountsAll (s : OmsState) : Prop := s.creationSequence = s.orders.length

instance (s : OmsState) : Decidable s.CountsAll := Nat.decEq _ _

/-- A New of the step becomes an order: the one that is submitted, or one that waits on
the order that the step resolves. -/
def createsOrder (port : IExchangeExecution σ) (op : Op σ) (w : World σ) : Bool :=
  match op with
  | .submit approved =>
      approved.valid && decide (approved.action.type = .new) &&
        w.oms.toOmsState.admits approved.action &&
        !w.oms.toOmsState.mintsNone w.oms.idGenerator
  | _ =>
      (primary port op w).2.any fun id => !(primary port op w).1.oms.toOmsState.releasesNone id

def OmsState.creationSequences (s : OmsState) : List Nat :=
  s.orders.map fun order => order.ownership.creationSequence

@[simp]
theorem OmsState.length_creationSequences (s : OmsState) :
    s.creationSequences.length = s.orders.length := List.length_map _

theorem creationOrdered_iff {s : OmsState} (hnumbered : s.Numbered) :
    CreationOrdered s ↔ s.creationSequences.Pairwise (· < ·) := by
  rw [creationSequences, List.pairwise_map, List.pairwise_iff_getElem]
  constructor
  · intro h i j hi hj hij
    apply h.increasing i j _ _ (List.getElem?_eq_getElem hi) (List.getElem?_eq_getElem hj)
    rw [hnumbered.logicalId i _ (List.getElem?_eq_getElem hi),
      hnumbered.logicalId j _ (List.getElem?_eq_getElem hj)]
    exact Nat.succ_lt_succ hij
  · intro h
    have hlt : ∀ (i j : Nat) (a b : OrderRecord), s.orders[i]? = some a →
        s.orders[j]? = some b → i < j →
        a.ownership.creationSequence < b.ownership.creationSequence := by
      intro i j a b ha hb hij
      obtain ⟨hi, rfl⟩ := List.getElem?_eq_some_iff.mp ha
      obtain ⟨hj, rfl⟩ := List.getElem?_eq_some_iff.mp hb
      exact h i j hi hj hij
    constructor
    · intro i j a b ha hb hsame
      rcases Nat.lt_trichotomy i j with hij | heq | hji
      · exact absurd hsame (hlt i j a b ha hb hij).ne
      · exact heq
      · exact absurd hsame (hlt j i b a hb ha hji).ne'
    · intro i j a b ha hb hids
      rw [hnumbered.logicalId i a ha, hnumbered.logicalId j b hb] at hids
      exact hlt i j a b ha hb (Nat.lt_of_succ_lt_succ hids)

/-- Strictly increasing positive numbers do not fall behind their positions. -/
theorem succ_le_of_pairwise_lt {l : List Nat} (hl : l.Pairwise (· < ·)) (hpos : ∀ n ∈ l, 0 < n)
    {i : Nat} (hi : i < l.length) : i + 1 ≤ l[i] := by
  induction i with
  | zero => exact hpos _ (List.getElem_mem hi)
  | succ i ih =>
      have hbefore := ih (Nat.lt_of_succ_lt hi)
      have hstep := List.pairwise_iff_getElem.mp hl i (i + 1) (Nat.lt_of_succ_lt hi) hi
        (Nat.lt_succ_self i)
      exact Nat.succ_le_of_lt (hbefore.trans_lt hstep)

theorem OrderRecord.transition_creationSequence (order : OrderRecord) (target : OrderState)
    (now : Nanos) :
    (order.transition target now).ownership.creationSequence =
      order.ownership.creationSequence := by
  rw [transition_ownership]

theorem OmsState.NewRecord.creationSequence_eq {s base : OmsState} {created record : OrderRecord}
    {observed : List Observation} (h : NewRecord s created record base observed) :
    record.ownership.creationSequence = created.ownership.creationSequence := by
  cases h with
  | unattached => rfl
  | accepted => exact OrderRecord.transition_creationSequence _ _ _
  | rejected =>
      rw [OrderRecord.transition_creationSequence]
      exact OrderRecord.transition_creationSequence _ _ _

/-- No edit of a record changes its stamp. -/
theorem Edited.creationSequence_eq {s : OmsState} {i : Nat} {order record : OrderRecord}
    {op : Op σ} (h : Edited s i order op record) :
    record.ownership.creationSequence = order.ownership.creationSequence := by
  cases h with
  | request _ _ _ hedit =>
      cases hedit with
      | cancelSent | replaceSent => exact OrderRecord.transition_creationSequence _ _ _
      | coalesced => rfl
      | cancelReturned | replaceReturned =>
          rw [OrderRecord.transition_creationSequence]
          exact OrderRecord.transition_creationSequence _ _ _
  | event _ _ _ hedit =>
      rw [OrderRecord.transition_creationSequence]
      cases hedit with
      | ack _ _ hbind =>
          rw [bindExchangeId_record hbind]
          rfl
      | fillComplete _ _ hbook | fillPartial _ _ hbook =>
          rw [(bookFill_eq_ok hbook).2.2]
          rfl
      | replaceAccepted _ hswap =>
          rw [swapIdentity_record hswap]
          rfl
      | _ => rfl
  | timedOut | omitted => exact OrderRecord.transition_creationSequence _ _ _
  | resolved =>
      rw [concluded]
      split <;> rfl
  | restarted =>
      rw [recovered]
      split <;> rfl

/-- The records keep their stamps, and each new one takes the next of the counter. -/
def OmsState.Stamps (before after : OmsState) : Prop :=
  ∃ k, after.creationSequence = before.creationSequence + k ∧
    after.creationSequences =
      before.creationSequences ++ List.range' (before.creationSequence + 1) k

namespace OmsState.Stamps

variable {s middle after : OmsState}

theorem of_same (hcounter : after.creationSequence = s.creationSequence)
    (hsequences : after.creationSequences = s.creationSequences) : s.Stamps after :=
  ⟨0, hcounter, hsequences.trans (List.append_nil _).symm⟩

theorem trans (h : s.Stamps middle) (hlater : middle.Stamps after) : s.Stamps after := by
  obtain ⟨k, hcounter, hsequences⟩ := h
  obtain ⟨k', hcounter', hsequences'⟩ := hlater
  refine ⟨k + k', by rw [hcounter', hcounter, Nat.add_assoc], ?_⟩
  rw [hsequences', hsequences, hcounter, List.append_assoc, Nat.add_right_comm,
    List.range'_append_1]

end OmsState.Stamps

theorem OmsState.NewOutcome.stamps {s after : OmsState} {action : OrderAction}
    {observed : List Observation} (h : NewOutcome s action after observed) : s.Stamps after := by
  cases h with
  | refused | burned | deferred => exact .of_same rfl rfl
  | created _ _ _ _ hrecord =>
      refine ⟨1, ?_, ?_⟩
      · rcases hrecord.base_eq with rfl | rfl <;> rfl
      · have hstamp := hrecord.creationSequence_eq
        rcases hrecord.base_eq with rfl | rfl
        all_goals
          rw [creationSequences, addOrder, List.map_append, List.map_singleton, hstamp]
          rfl

/-- The primary phase handles a New, or adds no record. Only a restart touches the
counter then, and starts it again. -/
theorem PrimaryOutcome.new_or_length_eq {s after : OmsState} {op : Op σ}
    {resolved : Option LogicalOrderId} {observed : List Observation}
    (h : PrimaryOutcome s op after resolved observed) :
    (∃ approved, op = .submit approved ∧ NewOutcome s approved.action after observed) ∨
      after.orders.length = s.orders.length ∧
        (after.creationSequence = s.creationSequence ∨
          after.creationSequence = 0 ∧ resolved = none) := by
  cases h with
  | submit h =>
      cases h with
      | refused | burned => exact .inr ⟨rfl, .inl rfl⟩
      | new _ _ houtcome => exact .inl ⟨_, rfl, houtcome⟩
      | edited _ _ _ hedit =>
          rcases hedit.base_eq with rfl | rfl | rfl
          all_goals exact .inr ⟨List.length_set, .inl rfl⟩
  | apply h =>
      cases h with
      | discarded => exact .inr ⟨rfl, .inl rfl⟩
      | edited _ _ _ hedit =>
          obtain ⟨_, _, rfl⟩ := hedit.base_eq
          exact .inr ⟨List.length_set, .inl rfl⟩
  | onTimer => exact .inr ⟨List.length_map _, .inl rfl⟩
  | reconcile h => exact .inr ⟨h.length_eq, .inl rfl⟩
  | resolve h =>
      cases h with
      | refused => exact .inr ⟨rfl, .inl rfl⟩
      | concluded => exact .inr ⟨List.length_set, .inl rfl⟩
  | attachExecution | advance | venue | restartRefused => exact .inr ⟨rfl, .inl rfl⟩
  | restarted =>
      refine .inr ⟨?_, .inr ⟨rfl, rfl⟩⟩
      rw [restarted_orders, List.length_map]

/-- The primary phase stamps what it creates, but a restart starts the counter again. -/
theorem PrimaryOutcome.stamps {s after : OmsState} {op : Op σ} {resolved : Option LogicalOrderId}
    {observed : List Observation} (h : PrimaryOutcome s op after resolved observed) :
    s.Stamps after ∨
      after.creationSequence = 0 ∧ after.creationSequences = s.creationSequences ∧
        resolved = none := by
  rcases h.new_or_length_eq with ⟨_, -, houtcome⟩ | ⟨hlength, hcounter⟩
  · exact .inl houtcome.stamps
  · have hsequences : after.creationSequences = s.creationSequences := by
      apply (h.evolves (admits_true op)).map_eq hlength
      rintro i a b (rfl | hedited)
      · rfl
      · exact hedited.creationSequence_eq
    rcases hcounter with hsame | ⟨hzero, hresolved⟩
    · exact .inl (.of_same hsame hsequences)
    · exact .inr ⟨hzero, hsequences, hresolved⟩

theorem step_stamps (port : IExchangeExecution σ) (op : Op σ) {w : World σ}
    (hnumbered : w.oms.toOmsState.Numbered) :
    w.oms.toOmsState.Stamps (step port op w).oms.toOmsState ∨
      (step port op w).oms.creationSequence = 0 ∧
        (step port op w).oms.toOmsState.creationSequences =
          w.oms.toOmsState.creationSequences := by
  obtain ⟨_, _, houtcome⟩ := primary_outcome port op w hnumbered
  rcases houtcome.stamps with hstamps | ⟨hcounter, hsequences, hresolved⟩
  · left
    apply release_keeps (I := w.oms.toOmsState.Stamps) port _ _ _ hstamps
    · exact fun _ _ hs => hs
    · exact fun _ _ _ _ hs hnew => hs.trans hnew.stamps
  · right
    rw [step, hresolved]
    exact ⟨hcounter, hsequences⟩

/-! ## Which steps create -/

section Creates

variable (port : IExchangeExecution σ)

/-- A New that gets as far as an identity becomes an order. -/
theorem handleNew_length_lt_iff (action : OrderAction) (w : World σ) :
    w.oms.orders.length < (handleNew port action w).2.oms.orders.length ↔
      w.oms.toOmsState.admits action = true ∧
        w.oms.toOmsState.mintsNone w.oms.idGenerator = false := by
  cases hadmits : w.oms.toOmsState.admits action with
  | false =>
      refine iff_of_false ?_ fun h => Bool.false_ne_true h.1
      rcases handleNew_of_not_admits port hadmits with hsame | ⟨_, _, -, hdeferred⟩
      · rw [hsame]
        exact lt_irrefl _
      · rw [hdeferred]
        exact lt_irrefl _
  | true =>
      rw [handleNew_of_admits port hadmits]
      cases hmints : w.oms.toOmsState.mintsNone w.oms.idGenerator with
      | false =>
          rw [createOrder_of_mints port hmints]
          exact iff_of_true (Nat.lt_succ_self _) ⟨rfl, rfl⟩
      | true =>
          rw [createOrder_of_mintsNone port hmints]
          exact iff_of_false (lt_irrefl _) fun h => Bool.false_ne_true h.2.symm

theorem submit_length_lt_iff (approved : ApprovedAction) (w : World σ) :
    w.oms.orders.length < (submit port approved w).2.oms.orders.length ↔
      createsOrder port (.submit approved) w = true := by
  by_cases hnew : approved.valid = true ∧ approved.action.type = .new
  · have hsubmit : submit port approved w = handleNew port approved.action w := by
      simp [submit, hnew.1, hnew.2]
    rw [hsubmit, handleNew_length_lt_iff]
    simp [createsOrder, hnew.1, hnew.2]
  · have hnone : createsOrder port (.submit approved) w = false := by
      rw [not_and, ← Bool.not_eq_false] at hnew
      cases hvalid : approved.valid with
      | false => simp [createsOrder, hvalid]
      | true => simp [createsOrder, hvalid, hnew (by simp [hvalid])]
    rw [hnone]
    refine iff_of_false ?_ Bool.false_ne_true
    obtain ⟨_, -, houtcome⟩ := submit_outcome port approved w
    generalize (submit port approved w).2.oms.toOmsState = after at houtcome
    cases houtcome with
    | refused | burned => exact lt_irrefl _
    | new hvalid htype => exact absurd ⟨hvalid, htype⟩ hnew
    | edited _ _ _ hedit =>
        rcases hedit.base_eq with rfl | rfl | rfl
        all_goals exact List.length_set.not_gt

/-- A step that creates an order makes the table longer, and no other does. -/
theorem createsOrder_iff (op : Op σ) {w : World σ} (hnumbered : w.oms.toOmsState.Numbered) :
    createsOrder port op w = true ↔ w.oms.orders.length < (step port op w).oms.orders.length := by
  by_cases hsubmit : ∃ approved, op = .submit approved
  · obtain ⟨approved, rfl⟩ := hsubmit
    exact (submit_length_lt_iff port approved w).symm
  · have hcreates : createsOrder port op w =
        (primary port op w).2.any fun id =>
          !(primary port op w).1.oms.toOmsState.releasesNone id := by
      cases op with
      | submit approved => exact absurd ⟨approved, rfl⟩ hsubmit
      | _ => rfl
    have hprimary : (primary port op w).1.oms.orders.length = w.oms.orders.length := by
      obtain ⟨_, -, houtcome⟩ := primary_outcome port op w hnumbered
      rcases houtcome.new_or_length_eq with ⟨approved, hop, -⟩ | ⟨hlength, -⟩
      · exact absurd ⟨approved, hop⟩ hsubmit
      · exact hlength
    rw [hcreates, step]
    cases (primary port op w).2 with
    | none => exact iff_of_false Bool.false_ne_true hprimary.not_gt
    | some id =>
        obtain ⟨hnone, hsome⟩ := release_orders port id (primary port op w).1
        rw [Option.any_some, ← hprimary]
        cases hreleases : (primary port op w).1.oms.toOmsState.releasesNone id with
        | true =>
            rw [hnone hreleases]
            exact iff_of_false Bool.false_ne_true (lt_irrefl _)
        | false => exact iff_of_true rfl (hsome hreleases)

end Creates

/-- What the stamps are whatever the run: the counter is not ahead of the records, and
no stamp is ahead of its position. -/
structure Stamped (s : OmsState) : Prop where
  numbered : s.Numbered
  counter : s.creationSequence ≤ s.orders.length
  positive : ∀ n ∈ s.creationSequences, 0 < n
  le : ∀ (i : Nat) (hi : i < s.creationSequences.length), s.creationSequences[i] ≤ i + 1

theorem stamped_init (config : OmsConfig) (clock : Nanos) :
    Stamped (OrderManager.init config clock).toOmsState where
  numbered := numbered_init config clock
  counter := le_rfl
  positive := fun _ hn => absurd hn List.not_mem_nil
  le := fun i hi => absurd hi (Nat.not_lt_zero i)

theorem step_stamped (port : IExchangeExecution σ) (op : Op σ) (w : World σ)
    (hw : Stamped w.oms.toOmsState) : Stamped (step port op w).oms.toOmsState := by
  have hnumbered := step_numbered port op w hw.numbered
  rcases step_stamps port op hw.numbered with ⟨k, hcounter, hsequences⟩ | ⟨hcounter, hsequences⟩
  · have hlength := congrArg List.length hsequences
    rw [length_creationSequences, List.length_append, length_creationSequences,
      List.length_range'] at hlength
    have hbehind := hw.counter
    refine ⟨hnumbered, by omega, ?_, ?_⟩
    · intro n hn
      rw [hsequences, List.mem_append, List.mem_range'_1] at hn
      rcases hn with hold | hnew
      · exact hw.positive n hold
      · omega
    · intro i hi
      simp only [hsequences, List.getElem_append, List.getElem_range', length_creationSequences]
      split
      · exact hw.le i _
      · omega
  · have hlength := congrArg List.length hsequences
    rw [length_creationSequences, length_creationSequences] at hlength
    refine ⟨hnumbered, by omega, ?_, ?_⟩
    · rw [hsequences]
      exact hw.positive
    · simp only [hsequences]
      exact hw.le

/-- A step keeps the order of creation exactly when it creates nothing or the manager
has counted every order it holds. -/
theorem step_pairwise_iff (port : IExchangeExecution σ) (op : Op σ) (w : World σ)
    (hw : Stamped w.oms.toOmsState)
    (hordered : w.oms.toOmsState.creationSequences.Pairwise (· < ·)) :
    (step port op w).oms.toOmsState.creationSequences.Pairwise (· < ·) ↔
      (createsOrder port op w = true → w.oms.toOmsState.CountsAll) := by
  rw [createsOrder_iff port op hw.numbered]
  rcases step_stamps port op hw.numbered with ⟨k, -, hsequences⟩ | ⟨-, hsequences⟩
  · have hlength := congrArg List.length hsequences
    rw [length_creationSequences, List.length_append, length_creationSequences,
      List.length_range'] at hlength
    rw [hsequences, List.pairwise_append]
    constructor
    · rintro ⟨-, -, hbefore⟩ hlonger
      have hfirst : w.oms.creationSequence + 1 ∈ List.range' (w.oms.creationSequence + 1) k :=
        List.mem_range'_1.mpr (by omega)
      -- A counter that is behind repeats the stamp of the record it points at.
      by_contra hnot
      have hbehind : w.oms.creationSequence < w.oms.toOmsState.creationSequences.length := by
        rw [length_creationSequences]
        exact lt_of_le_of_ne hw.counter hnot
      have hstamp := succ_le_of_pairwise_lt hordered hw.positive hbehind
      exact absurd (hbefore _ (List.getElem_mem hbehind) _ hfirst) (Nat.not_lt.mpr hstamp)
    · intro hcounts
      refine ⟨hordered, List.pairwise_lt_range', ?_⟩
      intro a ha b hb
      rw [List.mem_range'_1] at hb
      have hall : w.oms.creationSequence = w.oms.orders.length := hcounts (by omega)
      obtain ⟨i, hi, rfl⟩ := List.getElem_of_mem ha
      have hle := hw.le i hi
      rw [length_creationSequences] at hi
      omega
  · have hlength := congrArg List.length hsequences
    rw [length_creationSequences, length_creationSequences] at hlength
    rw [hsequences]
    exact iff_of_true hordered fun hlonger => absurd hlonger hlength.not_gt

/-- Creation sequences follow the logical identities in every state of a run exactly
when along the run no New becomes an order at a manager that has recovered records. -/
theorem creation_ordered_iff_along (port : IExchangeExecution σ) (config : OmsConfig)
    (clock : Nanos) (venue : σ) (ops : List (Op σ)) :
    (∀ n, CreationOrdered
        (Machine.run (step port) (ops.take n) (World.init config clock venue)).oms.toOmsState) ↔
      Machine.Along (step port)
        (fun op w => createsOrder port op w = true → w.oms.toOmsState.CountsAll) ops
        (World.init config clock venue) := by
  rw [← Machine.forall_take_iff_along
    (I := fun w : World σ => w.oms.toOmsState.creationSequences.Pairwise (· < ·))
    (J := fun w : World σ => Stamped w.oms.toOmsState) (step_stamped port)
    (step_pairwise_iff port) (stamped_init config clock) List.Pairwise.nil]
  apply forall_congr'
  intro n
  exact creationOrdered_iff (run_numbered port config clock venue (ops.take n))

namespace Sample

/-- An order, a restart, and another order. -/
def acrossRestart : List (Op Unit) :=
  [.attachExecution, submitNew 10, ack '1' 'x', .restart {}, submitNew 5]

end Sample

/-- The order after the restart is stamped like the one before it. -/
theorem creation_repeats_after_restart :
    ¬CreationOrdered
      (World.reached Sample.acceptAll {} 1 () Sample.acrossRestart).oms.toOmsState := by
  intro hordered
  have hsequences := (creationOrdered_iff
    (run_numbered Sample.acceptAll {} 1 () Sample.acrossRestart)).mp hordered
  revert hsequences
  decide +kernel

end MmEngine.Oms
