/-
# What a release creates

Releasing the deferrals of an order hands each New that waits on it back to the entry
of the order manager, which may turn it away, defer it again, or find no identity for
it. Whether any record comes of a release can be read off the state it starts in: the
slots and the capacity stay as they are until the first record is created, and only the
generator of identities moves.
-/

import MmEngine.Oms.Run

namespace MmEngine.Oms

open MmEngine.Exchange MmEngine.Quote MmEngine.Risk OmsState OrderManager

variable {σ : Type}

/-- Capacity and slot let a New through to the minting of its identity. -/
def OmsState.admits (s : OmsState) (action : OrderAction) : Bool :=
  decide (s.orders.length < s.config.maxOrders) &&
    (s.findSlotOrder action.identity.name action.symbol action.slot).all fun occupant =>
      decide (occupant.2.state ≠ .pendingCancel) && !occupant.2.hasPendingRequest

/-- The generator's next identity does not exist or is taken. -/
def OmsState.mintsNone (s : OmsState) (generator : ClientOrderIdGenerator) : Bool :=
  generator.next.1.all fun id => (s.byClientId.lookup id).isSome

/-- None of the entries that wait on the order `id` becomes a record, the generator
moving with each that reaches it. -/
def OmsState.createsNone (s : OmsState) (id : LogicalOrderId) :
    ClientOrderIdGenerator → List (Option DeferredNew) → Bool
  | _, [] => true
  | generator, none :: rest => s.createsNone id generator rest
  | generator, some waiting :: rest =>
      if waiting.waitingOn = id && s.admits waiting.action then
        s.mintsNone generator && s.createsNone id generator.next.2 rest
      else s.createsNone id generator rest

/-- Releasing what waits on the order `id` creates no record. -/
def OmsState.releasesNone (s : OmsState) (id : LogicalOrderId) : Bool :=
  s.deferredCount = 0 || s.createsNone id s.idGenerator s.deferred

theorem OmsState.createsNone_congr {s t : OmsState} (id : LogicalOrderId)
    (hadmits : ∀ action, t.admits action = s.admits action)
    (hclient : t.byClientId = s.byClientId) (entries : List (Option DeferredNew)) :
    ∀ generator, t.createsNone id generator entries = s.createsNone id generator entries := by
  induction entries with
  | nil => exact fun _ => rfl
  | cons entry rest ih =>
      intro generator
      cases entry with
      | none => exact ih generator
      | some waiting =>
          rw [createsNone, createsNone, hadmits, ih, ih, mintsNone, mintsNone, hclient]

section New

variable (port : IExchangeExecution σ) {action : OrderAction} {w : World σ}

/-- A New that is not admitted changes nothing, or waits in the first free entry. -/
theorem handleNew_of_not_admits (h : w.oms.toOmsState.admits action = false) :
    (handleNew port action w).2.oms.toOmsState = w.oms.toOmsState ∨
      ∃ entry waitingOn, w.oms.deferred.findIdx? Option.isNone = some entry ∧
        (handleNew port action w).2.oms.toOmsState =
          w.oms.toOmsState.defer entry action waitingOn := by
  rw [handleNew]
  split
  · exact .inl rfl
  rename_i hroom
  rw [Nat.not_le] at hroom
  rw [admits, decide_eq_true hroom, Bool.true_and] at h
  cases hslot : w.oms.findSlotOrder action.identity.name action.symbol action.slot with
  | none => simp [hslot] at h
  | some found =>
      obtain ⟨k, occupant⟩ := found
      rw [hslot, Option.all_some] at h
      dsimp only at h ⊢
      by_cases hcancel : occupant.state = .pendingCancel
      · rw [if_pos hcancel, deferNew]
        cases hfree : w.oms.deferred.findIdx? Option.isNone with
        | none => exact .inl rfl
        | some entry => exact .inr ⟨entry, occupant.logicalId, rfl, rfl⟩
      · have hpending : occupant.hasPendingRequest = true := by simpa [hcancel] using h
        rw [if_neg hcancel, if_pos hpending]
        exact .inl rfl

theorem handleNew_of_admits (h : w.oms.toOmsState.admits action = true) :
    handleNew port action w = createOrder port action w := by
  rw [admits, Bool.and_eq_true, decide_eq_true_eq] at h
  obtain ⟨hroom, hslot⟩ := h
  rw [handleNew, if_neg (Nat.not_le.mpr hroom)]
  cases hfound : w.oms.findSlotOrder action.identity.name action.symbol action.slot with
  | none => rfl
  | some found =>
      obtain ⟨k, occupant⟩ := found
      rw [hfound, Option.all_some, Bool.and_eq_true, decide_eq_true_eq, Bool.not_eq_true'] at hslot
      obtain ⟨hcancel, hpending⟩ := hslot
      simp [hcancel, hpending]

theorem createOrder_of_mintsNone
    (h : w.oms.toOmsState.mintsNone w.oms.idGenerator = true) :
    (createOrder port action w).2.oms.toOmsState = w.oms.toOmsState.burnClientId := by
  rw [mintsNone] at h
  rw [createOrder]
  cases hid : w.oms.idGenerator.next.1 with
  | none => rfl
  | some clientId =>
      rw [hid, Option.all_some] at h
      dsimp only
      rw [if_pos (show ((w.withOms fun m => m.onState burnClientId).oms.byClientId.lookup
        clientId).isSome = true from h)]
      rfl

theorem createOrder_of_mints
    (h : w.oms.toOmsState.mintsNone w.oms.idGenerator = false) :
    (createOrder port action w).2.oms.orders.length = w.oms.orders.length + 1 := by
  rw [mintsNone] at h
  rw [createOrder]
  cases hid : w.oms.idGenerator.next.1 with
  | none => simp [hid] at h
  | some clientId =>
      rw [hid, Option.all_some] at h
      dsimp only
      rw [if_neg (by
        rw [Bool.not_eq_true]
        exact h)]
      obtain ⟨record, base, _, hrecord, -, hstate⟩ := sendNew_outcome port
        (s := w.oms.toOmsState.burnClientId)
        (w.oms.toOmsState.burnClientId.newOrder action clientId)
        (w := (w.withOms fun m => m.onState burnClientId).withOms fun m =>
          ((m.onState fun s => s.addOrder (w.oms.toOmsState.burnClientId.newOrder action
            clientId)).count fun k => { k with ordersCreated := k.ordersCreated + 1 }).journalOrder
              .created (w.oms.toOmsState.burnClientId.newOrder action clientId) .created .created)
        rfl
      have horders := congrArg (fun s => s.orders.length) hstate
      refine horders.trans ?_
      rcases hrecord.base_eq with rfl | rfl <;> simp [addOrder, burnClientId, nextRequest]

end New

section Entries

variable (port : IExchangeExecution σ) {id : LogicalOrderId} {w : World σ} {k : Nat}

theorem releaseEntry_of_not_waiting
    (h : ∀ waiting, w.oms.deferred[k]? = some (some waiting) → waiting.waitingOn ≠ id) :
    releaseEntry port id w k = w := by
  rw [releaseEntry]
  split
  · rename_i waiting hentry
    rw [if_neg (h waiting hentry)]
  · rfl

theorem releaseEntry_of_waiting {waiting : DeferredNew}
    (hentry : w.oms.deferred[k]? = some (some waiting)) (hon : waiting.waitingOn = id) :
    (releaseEntry port id w k).oms =
      (handleNew port waiting.action
        (w.withOms fun m => m.onState fun s => s.vacate k)).2.oms := by
  rw [releaseEntry, hentry]
  dsimp only
  rw [if_pos hon]
  rfl

/-- An entry that is turned away changes no record, and leaves the entries behind it. -/
theorem releaseEntry_of_not_admits {waiting : DeferredNew}
    (hentry : w.oms.deferred[k]? = some (some waiting)) (hon : waiting.waitingOn = id)
    (hnot : w.oms.toOmsState.admits waiting.action = false) :
    (releaseEntry port id w k).oms.orders = w.oms.orders ∧
      (releaseEntry port id w k).oms.config = w.oms.config ∧
      (releaseEntry port id w k).oms.byClientId = w.oms.byClientId ∧
      (releaseEntry port id w k).oms.idGenerator = w.oms.idGenerator ∧
      (releaseEntry port id w k).oms.deferred.drop (k + 1) = w.oms.deferred.drop (k + 1) := by
  have hlt := (List.getElem?_eq_some_iff.mp hentry).1
  have hvacated : (w.oms.deferred.set k none).drop (k + 1) = w.oms.deferred.drop (k + 1) :=
    List.drop_set_of_lt (Nat.lt_succ_self k)
  rw [releaseEntry_of_waiting port hentry hon]
  rcases handleNew_of_not_admits port
      (w := w.withOms fun m => m.onState fun s => s.vacate k) hnot with
    hsame | ⟨entry, waitingOn, hfree, hdeferred⟩
  · rw [hsame]
    exact ⟨rfl, rfl, rfl, rfl, hvacated⟩
  · rw [hdeferred]
    refine ⟨rfl, rfl, rfl, rfl, ?_⟩
    -- The entry just vacated is free, so the New waits there or before.
    have hle : entry ≤ k := by
      by_contra hbeyond
      replace hfree : (w.oms.deferred.set k none).findIdx? Option.isNone = some entry := hfree
      obtain ⟨_, -, hbefore⟩ := List.findIdx?_eq_some_iff_getElem.mp hfree
      refine hbefore k (Nat.not_le.mp hbeyond) ?_
      rw [List.getElem_set_self]
      rfl
    show ((w.oms.deferred.set k none).set entry _).drop (k + 1) = _
    rw [List.drop_set_of_lt (Nat.lt_succ_of_le hle), hvacated]

/-- An entry for which no identity is minted changes no record either. -/
theorem releaseEntry_of_mintsNone {waiting : DeferredNew}
    (hentry : w.oms.deferred[k]? = some (some waiting)) (hon : waiting.waitingOn = id)
    (hadmits : w.oms.toOmsState.admits waiting.action = true)
    (hnone : w.oms.toOmsState.mintsNone w.oms.idGenerator = true) :
    (releaseEntry port id w k).oms.toOmsState = (w.oms.toOmsState.vacate k).burnClientId := by
  rw [releaseEntry_of_waiting port hentry hon,
    handleNew_of_admits port (w := w.withOms fun m => m.onState fun s => s.vacate k) hadmits]
  exact createOrder_of_mintsNone port hnone

theorem releaseEntry_of_mints {waiting : DeferredNew}
    (hentry : w.oms.deferred[k]? = some (some waiting)) (hon : waiting.waitingOn = id)
    (hadmits : w.oms.toOmsState.admits waiting.action = true)
    (hmints : w.oms.toOmsState.mintsNone w.oms.idGenerator = false) :
    (releaseEntry port id w k).oms.orders.length = w.oms.orders.length + 1 := by
  rw [releaseEntry_of_waiting port hentry hon,
    handleNew_of_admits port (w := w.withOms fun m => m.onState fun s => s.vacate k) hadmits]
  exact createOrder_of_mints port hmints

theorem releaseEntry_length_le (id : LogicalOrderId) (w : World σ) (k : Nat) :
    w.oms.orders.length ≤ (releaseEntry port id w k).oms.orders.length := by
  rcases releaseEntry_outcome port id w k with hsame | ⟨waiting, _, _, _, houtcome, _⟩
  · rw [hsame]
  · exact (houtcome.evolves (Q := fun _ => True) trivial).length_le

theorem releaseEntries_length_le (id : LogicalOrderId) (entries : List Nat) (w : World σ) :
    w.oms.orders.length ≤ (entries.foldl (releaseEntry port id) w).oms.orders.length := by
  induction entries generalizing w with
  | nil => exact le_rfl
  | cons k entries ih => exact (releaseEntry_length_le port id w k).trans (ih _)

/-- The entries from `k` on, released in order, leave the records as they are or add to
them, as the state in front of them tells. -/
theorem releaseEntries_orders (id : LogicalOrderId) (rest : List (Option DeferredNew)) :
    ∀ (k : Nat) (w : World σ), w.oms.deferred.drop k = rest →
      (w.oms.toOmsState.createsNone id w.oms.idGenerator rest = true →
        ((List.range' k rest.length).foldl (releaseEntry port id) w).oms.orders = w.oms.orders) ∧
      (w.oms.toOmsState.createsNone id w.oms.idGenerator rest = false →
        w.oms.orders.length <
          ((List.range' k rest.length).foldl (releaseEntry port id) w).oms.orders.length) := by
  induction rest with
  | nil => exact fun k w _ => ⟨fun _ => rfl, fun h => by cases h⟩
  | cons entry rest ih =>
      intro k w hdrop
      have hentry : w.oms.deferred[k]? = some entry := by
        rw [← List.head?_drop, hdrop]
        rfl
      have hrest : w.oms.deferred.drop (k + 1) = rest := by
        rw [← List.tail_drop, hdrop]
        rfl
      rw [List.length_cons, List.range'_succ, List.foldl_cons]
      cases entry with
      | none =>
          have hsame : releaseEntry port id w k = w := by
            refine releaseEntry_of_not_waiting port fun waiting hwaiting => ?_
            rw [hentry] at hwaiting
            cases hwaiting
          rw [hsame, createsNone]
          exact ih (k + 1) w hrest
      | some waiting =>
          by_cases hon : waiting.waitingOn = id
          · cases hadmits : w.oms.toOmsState.admits waiting.action with
            | false =>
                obtain ⟨horders, hconfig, hclient, hgenerator, hdeferred⟩ :=
                  releaseEntry_of_not_admits port hentry hon hadmits
                have hcongr := createsNone_congr (s := w.oms.toOmsState)
                  (t := (releaseEntry port id w k).oms.toOmsState) id
                  (fun action => by
                    rw [admits, admits, findSlotOrder, findSlotOrder, entryAt.eq_def,
                        entryAt.eq_def,
                      horders, hconfig])
                  hclient rest w.oms.idGenerator
                have hlater := ih (k + 1) (releaseEntry port id w k) (hdeferred.trans hrest)
                rw [hgenerator, hcongr, horders] at hlater
                rw [createsNone, if_neg (by simp [hadmits])]
                exact hlater
            | true =>
                rw [createsNone, if_pos (by simp [hon, hadmits])]
                cases hnone : w.oms.toOmsState.mintsNone w.oms.idGenerator with
                | false =>
                    rw [Bool.false_and]
                    refine ⟨fun h => absurd h Bool.false_ne_true, fun _ => ?_⟩
                    have hlonger := releaseEntry_of_mints port hentry hon hadmits hnone
                    have hle := releaseEntries_length_le port id
                      (List.range' (k + 1) rest.length) (releaseEntry port id w k)
                    omega
                | true =>
                    have hburned := releaseEntry_of_mintsNone port hentry hon hadmits hnone
                    have hlater := ih (k + 1) (releaseEntry port id w k) (by
                      rw [hburned]
                      exact (List.drop_set_of_lt (Nat.lt_succ_self k)).trans hrest)
                    have hcongr := createsNone_congr (s := w.oms.toOmsState)
                      (t := (w.oms.toOmsState.vacate k).burnClientId) id (fun _ => rfl) rfl rest
                      w.oms.idGenerator.next.2
                    rw [hburned] at hlater
                    rw [Bool.true_and, ← hcongr]
                    exact hlater
          · have hsame : releaseEntry port id w k = w := by
              refine releaseEntry_of_not_waiting port fun other hother => ?_
              rw [hentry] at hother
              cases hother
              exact hon
            rw [hsame, createsNone, if_neg (by simp [hon])]
            exact ih (k + 1) w hrest

end Entries

/-- A release leaves the records as they are, or adds to them, as the state before it
tells. -/
theorem release_orders (port : IExchangeExecution σ) (id : LogicalOrderId) (w : World σ) :
    (w.oms.toOmsState.releasesNone id = true →
        (w.release port (some id)).oms.orders = w.oms.orders) ∧
      (w.oms.toOmsState.releasesNone id = false →
        w.oms.orders.length < (w.release port (some id)).oms.orders.length) := by
  rw [World.release, releaseDeferred]
  by_cases hcount : w.oms.deferredCount = 0
  · simp [releasesNone, hcount]
  · rw [if_neg hcount, List.range_eq_range']
    have hentries := releaseEntries_orders port id w.oms.deferred 0 w rfl
    simpa [releasesNone, hcount] using hentries

end MmEngine.Oms
