/-
# What a determinate exposure leaves out

The exposure of a symbol is folded over the order records. A quantity that does not fit
makes the snapshot indeterminate; a notional that does not fit is dropped, and the
snapshot stays determinate. So a determinate snapshot is exact in its quantities, and in
its notionals only where nothing was dropped.
-/

import MmEngine.Lib.CheckedSum
import MmEngine.Oms.Exposure

namespace MmEngine.Oms.OrderRecord

/-- What an order may still fill, without bound and never negative. -/
def owed (order : OrderRecord) : Int := max 0 order.stillOpen

/-- The notional of what an order may still fill, truncated, without bound. -/
def owedNotional (order : OrderRecord) : Int :=
  (order.price.raw * order.owed).tdiv Fixed.kScale

end MmEngine.Oms.OrderRecord

namespace MmEngine.Risk.ExposureSnapshot

open MmEngine.Oms

/-- The working notional of a side. -/
def workingNotional (snapshot : ExposureSnapshot) : Side → Notional
  | .buy => snapshot.workingBuyNotional
  | .sell => snapshot.workingSellNotional

/-- The number of open orders as its 32-bit field holds it. -/
def storedCount (snapshot : ExposureSnapshot) : Nat := snapshot.openOrderCount % 2 ^ 32

/-- The orders that an exposure adds up on a side. -/
def countedOn (symbol : Symbol) (side : Side) (orders : List OrderRecord) : List OrderRecord :=
  orders.filter fun order => counts symbol side order && (contribution order).isPositive

theorem countedOn_append (symbol : Symbol) (side : Side) (orders more : List OrderRecord) :
    countedOn symbol side (orders ++ more) =
      countedOn symbol side orders ++ countedOn symbol side more :=
  List.filter_append orders more

/-- A raw value that a 64-bit field holds. -/
def Fits (raw : Int) : Prop := rawMin ≤ raw ∧ raw ≤ rawMax

instance : DecidablePred Fits := fun _ => inferInstanceAs (Decidable (_ ∧ _))

/-- The notional of a contribution, truncated, without bound. -/
def contributedNotional (order : OrderRecord) : Int :=
  (order.price.raw * (contribution order).raw).tdiv Fixed.kScale

theorem workingNotional_withWorking (snapshot : ExposureSnapshot) (side side' : Side)
    (total : Qty) :
    (snapshot.withWorking side' total).workingNotional side = snapshot.workingNotional side := by
  cases side' <;> rfl

@[simp]
theorem workingNotional_countOpen (snapshot : ExposureSnapshot) (side : Side) :
    snapshot.countOpen.workingNotional side = snapshot.workingNotional side := by
  cases side <;> rfl

theorem openOrderCount_withWorking (snapshot : ExposureSnapshot) (side : Side) (total : Qty) :
    (snapshot.withWorking side total).openOrderCount = snapshot.openOrderCount := by
  cases side <;> rfl

theorem openOrderCount_addNotional (snapshot : ExposureSnapshot) (side : Side) (price : Px)
    (quantity : Qty) :
    (snapshot.addNotional side price quantity).openOrderCount = snapshot.openOrderCount := by
  simp only [addNotional]
  split <;> rfl

/-- A notional is added to its side, if it and the sum fit. -/
theorem workingNotional_addNotional (snapshot : ExposureSnapshot) (side side' : Side) (price : Px)
    (quantity : Qty) :
    ((snapshot.addNotional side' price quantity).workingNotional side).raw =
      if side' = side then
        CheckedSum.add Fits (snapshot.workingNotional side).raw
          ((price.raw * quantity.raw).tdiv Fixed.kScale)
      else (snapshot.workingNotional side).raw := by
  -- The checked sum of two fields is the sum, or the first of them.
  have hsum (held value : Notional) :
      ((Fixed.checkedAdd held value).getD held).raw =
        if Fits (held.raw + value.raw) then held.raw + value.raw else held.raw := by
    cases hadd : Fixed.checkedAdd held value with
    | none =>
        have hrange := Fixed.fromRaw?_eq_none_iff.mp hadd
        rw [if_neg (by rw [Fits]; omega)]
        rfl
    | some sum =>
        rw [← Fixed.checkedAdd_eq_some_iff.mp hadd, if_pos ⟨sum.rawMin_le, sum.raw_le⟩]
        rfl
  simp only [addNotional, CheckedSum.add]
  split
  · rename_i hvalue
    have hrange := Fixed.fromRaw?_eq_none_iff.mp hvalue
    have hnot : ¬Fits ((price.raw * quantity.raw).tdiv Fixed.kScale) := by
      rw [Fits]
      omega
    simp only [hnot, false_and, if_false, ite_self]
  all_goals
    rename_i value hvalue
    have hraw := Fixed.fromRaw?_eq_some_iff.mp hvalue
    have hfits : Fits value.raw := ⟨value.rawMin_le, value.raw_le⟩
    rw [← hraw]
    cases side <;> simp [workingNotional, hsum, hfits]

/-- A stretch of orders was counted and left the snapshot determinate: none of them is
unknown, and each side has what their contributions add up to. -/
structure Counted (symbol : Symbol) (before : ExposureSnapshot) (orders : List OrderRecord)
    (after : ExposureSnapshot) : Prop where
  determinate : before.determinate = true
  known : ∀ order ∈ orders, ∀ side, counts symbol side order = true → order.state ≠ .unknown
  working : ∀ side, (after.working side).raw = (before.working side).raw +
    ((countedOn symbol side orders).map fun order => (contribution order).raw).sum
  notional : ∀ side, (after.workingNotional side).raw =
    CheckedSum.total Fits (before.workingNotional side).raw
      ((countedOn symbol side orders).map contributedNotional)
  openOrders : after.openOrderCount = before.openOrderCount +
    ((countedOn symbol .buy orders).length + (countedOn symbol .sell orders).length)

theorem Counted.nil {symbol : Symbol} {snapshot : ExposureSnapshot}
    (h : snapshot.determinate = true) : Counted symbol snapshot [] snapshot where
  determinate := h
  known order horder := by cases horder
  working side := by simp [countedOn]
  notional side := rfl
  openOrders := by simp [countedOn]

theorem Counted.append {symbol : Symbol} {first second third : ExposureSnapshot}
    {orders more : List OrderRecord} (h : Counted symbol first orders second)
    (h' : Counted symbol second more third) : Counted symbol first (orders ++ more) third where
  determinate := h.determinate
  known order horder := by
    rcases List.mem_append.mp horder with hold | hnew
    · exact h.known order hold
    · exact h'.known order hnew
  working side := by
    rw [h'.working, h.working, countedOn_append, List.map_append, List.sum_append, Int.add_assoc]
  notional side := by
    rw [h'.notional, h.notional, countedOn_append, List.map_append, CheckedSum.total_append]
  openOrders := by
    simp only [h'.openOrders, h.openOrders, countedOn_append, List.length_append]
    omega

/-- The ways one order is counted. -/
inductive Counts (symbol : Symbol) (snapshot : ExposureSnapshot) (order : OrderRecord) :
    ExposureSnapshot → Prop
  | skipped (hother : ∀ side, counts symbol side order = false) :
      Counts symbol snapshot order snapshot
  | unknown {after : ExposureSnapshot} (hcounts : counts symbol order.side order = true)
      (hunknown : order.state = .unknown) (hafter : after.determinate = false) :
      Counts symbol snapshot order after
  | nothing (hknown : order.state ≠ .unknown) (hnothing : (contribution order).raw ≤ 0) :
      Counts symbol snapshot order snapshot
  | overflow {after : ExposureSnapshot} (hcounts : counts symbol order.side order = true)
      (hpositive : 0 < (contribution order).raw)
      (hover : rawMax < (snapshot.working order.side).raw + (contribution order).raw)
      (hafter : after.determinate = false) :
      Counts symbol snapshot order after
  | added (hcounts : ∀ side, counts symbol side order = decide (order.side = side))
      (hknown : order.state ≠ .unknown) (hpositive : 0 < (contribution order).raw) (total : Qty)
      (htotal : total.raw = (snapshot.working order.side).raw + (contribution order).raw) :
      Counts symbol snapshot order
        ((snapshot.withWorking order.side total).addNotional order.side order.price
          (contribution order)).countOpen

theorem addOrder_counts (symbol : Symbol) (snapshot : ExposureSnapshot) (order : OrderRecord) :
    Counts symbol snapshot order (snapshot.addOrder symbol order) := by
  rw [addOrder]
  split
  · rename_i hskip
    refine .skipped fun side => ?_
    rw [counts]
    rcases Bool.or_eq_true_iff.mp hskip with hsymbol | hexposure
    · simp [of_decide_eq_true hsymbol]
    · simp [Bool.not_eq_true' _ ▸ hexposure]
  rename_i hcount
  have hcounts (side : Side) : counts symbol side order = decide (order.side = side) := by
    simp only [Bool.or_eq_true, not_or, decide_eq_true_eq, not_not, Bool.not_eq_true',
      Bool.not_eq_false] at hcount
    simp [counts, hcount]
  have hself : counts symbol order.side order = true := by rw [hcounts, decide_eq_true rfl]
  split
  · rename_i hunknown
    exact .unknown hself hunknown rfl
  rename_i hknown
  split
  · rename_i hsmall
    exact .nothing hknown (by simpa using hsmall)
  rename_i hpositive
  rw [Bool.not_eq_true', Bool.not_eq_false, Fixed.isPositive_iff] at hpositive
  split
  · rename_i hover
    have hrange := Fixed.fromRaw?_eq_none_iff.mp hover
    have hlow := (snapshot.working order.side).rawMin_le
    exact .overflow hself hpositive (by omega) rfl
  · rename_i total htotal
    exact .added hcounts hknown hpositive total (Fixed.checkedAdd_eq_some_iff.mp htotal)

/-- An order that is not counted on any side, or not for anything. -/
theorem counted_of_not_counted {symbol : Symbol} {snapshot : ExposureSnapshot}
    {order : OrderRecord} (hdeterminate : snapshot.determinate = true)
    (hknown : ∀ side, counts symbol side order = true → order.state ≠ .unknown)
    (hnone : ∀ side, (counts symbol side order && (contribution order).isPositive) = false) :
    Counted symbol snapshot [order] snapshot := by
  have hempty (side : Side) : countedOn symbol side [order] = [] :=
    List.filter_eq_nil_iff.mpr fun known hmem => by
      rw [List.mem_singleton.mp hmem, hnone]
      exact Bool.false_ne_true
  exact
    { determinate := hdeterminate
      known := fun known hmem => List.mem_singleton.mp hmem ▸ hknown
      working := fun side => by simp [hempty]
      notional := fun side => by rw [hempty]; rfl
      openOrders := by simp [hempty] }

/-- One order that leaves the snapshot determinate. -/
theorem addOrder_counted {symbol : Symbol} {snapshot : ExposureSnapshot} {order : OrderRecord}
    (hdeterminate : (snapshot.addOrder symbol order).determinate = true) :
    Counted symbol snapshot [order] (snapshot.addOrder symbol order) := by
  have hcase := addOrder_counts symbol snapshot order
  revert hdeterminate hcase
  generalize snapshot.addOrder symbol order = after
  intro hdeterminate hcase
  cases hcase with
  | skipped hother =>
      refine counted_of_not_counted hdeterminate (fun side h => ?_) fun side => ?_
      · rw [hother side] at h
        cases h
      · rw [hother side, Bool.false_and]
  | unknown _ _ hafter =>
      rw [hafter] at hdeterminate
      cases hdeterminate
  | nothing hknown hnothing =>
      refine counted_of_not_counted hdeterminate (fun _ _ => hknown) fun side => ?_
      rw [(Fixed.isPositive_eq_false_iff _).mpr hnothing, Bool.and_false]
  | overflow _ _ _ hafter =>
      rw [hafter] at hdeterminate
      cases hdeterminate
  | added hcounts hknown hpositive total htotal =>
      have hon (side : Side) :
          countedOn symbol side [order] = if order.side = side then [order] else [] := by
        simp only [countedOn, List.filter_cons, List.filter_nil, hcounts,
          (Fixed.isPositive_iff _).mpr hpositive, Bool.and_true, decide_eq_true_eq]
      exact
        { determinate := by simpa [countOpen] using hdeterminate
          known := fun known hmem side _ => List.mem_singleton.mp hmem ▸ hknown
          working := fun side => by
            rw [countOpen_working, addNotional_working, withWorking_working, hon]
            split
            · rename_i hside
              simp [htotal, hside]
            · simp
          notional := fun side => by
            rw [hon, workingNotional_countOpen]
            split
            · rename_i hside
              simpa [hside, workingNotional_withWorking, contributedNotional] using
                workingNotional_addNotional (snapshot.withWorking order.side total) side
                  order.side order.price (contribution order)
            · rename_i hside
              simpa [hside, workingNotional_withWorking] using
                workingNotional_addNotional (snapshot.withWorking order.side total) side
                  order.side order.price (contribution order)
          openOrders := by
            simp only [hon, countOpen, openOrderCount_addNotional, openOrderCount_withWorking]
            cases order.side <;> rfl }

/-! ## All orders -/

/-- Any stretch of orders that leaves the snapshot determinate. -/
theorem foldl_addOrder_counted {symbol : Symbol} {orders : List OrderRecord}
    {snapshot : ExposureSnapshot}
    (hdeterminate : (orders.foldl (addOrder symbol) snapshot).determinate = true) :
    Counted symbol snapshot orders (orders.foldl (addOrder symbol) snapshot) := by
  induction orders generalizing snapshot with
  | nil => exact .nil hdeterminate
  | cons order orders ih =>
      have hrest := ih hdeterminate
      exact (addOrder_counted hrest.determinate).append hrest

theorem sum_contributions_nonneg (symbol : Symbol) (side : Side) (orders : List OrderRecord) :
    0 ≤ ((countedOn symbol side orders).map fun order => (contribution order).raw).sum := by
  apply List.sum_nonneg
  intro amount hamount
  obtain ⟨order, horder, rfl⟩ := List.mem_map.mp hamount
  have hpositive := (Bool.and_eq_true_iff.mp (List.mem_filter.mp horder).2).2
  exact ((Fixed.isPositive_iff _).mp hpositive).le

/-- A snapshot stays determinate while no order is unknown and no side overflows. -/
theorem foldl_addOrder_determinate {symbol : Symbol} {orders : List OrderRecord}
    {snapshot : ExposureSnapshot} (hdeterminate : snapshot.determinate = true)
    (hknown : ∀ order ∈ orders, ∀ side, counts symbol side order = true → order.state ≠ .unknown)
    (hfits : ∀ side, (snapshot.working side).raw +
      ((countedOn symbol side orders).map fun order => (contribution order).raw).sum ≤ rawMax) :
    (orders.foldl (addOrder symbol) snapshot).determinate = true := by
  induction orders generalizing snapshot with
  | nil => exact hdeterminate
  | cons order orders ih =>
      rw [List.forall_mem_cons] at hknown
      have hsplit (side : Side) :
          ((countedOn symbol side (order :: orders)).map fun order =>
            (contribution order).raw).sum =
            ((countedOn symbol side [order]).map fun order => (contribution order).raw).sum +
              ((countedOn symbol side orders).map fun order => (contribution order).raw).sum := by
        rw [← List.sum_append, ← List.map_append, ← countedOn_append, List.singleton_append]
      have hfirst : (snapshot.addOrder symbol order).determinate = true := by
        have hcase := addOrder_counts symbol snapshot order
        revert hcase
        generalize snapshot.addOrder symbol order = after
        intro hcase
        cases hcase with
        | skipped => exact hdeterminate
        | unknown hcounts hunknown => exact absurd hunknown (hknown.1 _ hcounts)
        | nothing => exact hdeterminate
        | overflow hcounts hpositive hover =>
            have hone : countedOn symbol order.side [order] = [order] := by
              simp [countedOn, hcounts, hpositive]
            have hside := hfits order.side
            have hrest := sum_contributions_nonneg symbol order.side orders
            rw [hsplit, hone, List.map_singleton, List.sum_singleton] at hside
            omega
        | added => simpa [countOpen] using hdeterminate
      refine ih hfirst hknown.2 fun side => ?_
      rw [(addOrder_counted hfirst).working side, Int.add_assoc, ← hsplit]
      exact hfits side

end MmEngine.Risk.ExposureSnapshot

namespace MmEngine.Oms

open MmEngine.Risk MmEngine.Risk.ExposureSnapshot

/-- The orders of a symbol that may still fill something on a side. -/
def owingOn (symbol : Symbol) (side : Side) (orders : List OrderRecord) : List OrderRecord :=
  orders.filter fun order => counts symbol side order && decide (0 < order.owed)

/-- The snapshot is what the orders add up to in unbounded integers: what they may
still fill, the notional of that, and their number. -/
structure ExactExposure (symbol : Symbol) (orders : List OrderRecord)
    (snapshot : ExposureSnapshot) : Prop where
  working : ∀ side, (snapshot.working side).raw =
    ((owingOn symbol side orders).map OrderRecord.owed).sum
  notional : ∀ side, (snapshot.workingNotional side).raw =
    ((owingOn symbol side orders).map OrderRecord.owedNotional).sum
  openOrders : snapshot.storedCount =
    (owingOn symbol .buy orders).length + (owingOn symbol .sell orders).length

/-- What a determinate snapshot leaves out comes to nothing: no order has more left than
64 bits hold, the notionals that do not fit cancel out, and the counter has not wrapped. -/
structure FullyCounted (symbol : Symbol) (orders : List OrderRecord) : Prop where
  remaining : ∀ order ∈ orders, ∀ side, counts symbol side order = true → order.stillOpen ≤ rawMax
  notional : ∀ side,
    (CheckedSum.leftOut Fits 0 ((owingOn symbol side orders).map OrderRecord.owedNotional)).sum = 0
  openOrders : (owingOn symbol .buy orders).length + (owingOn symbol .sell orders).length < 2 ^ 32

/-- What an order contributes is what it owes, while that fits; what does not fit
contributes nothing. -/
theorem OrderRecord.owed_cases (order : OrderRecord) :
    (order.stillOpen ≤ rawMax ∧ order.owed = max 0 (contribution order).raw) ∨
      (rawMax < order.stillOpen ∧ (contribution order).raw = 0) := by
  rw [OrderRecord.owed, OrderRecord.stillOpen, contribution]
  by_cases hnew : order.state = .pendingNew
  · rw [if_pos hnew, if_pos hnew]
    exact .inl ⟨order.originalQuantity.raw_le, rfl⟩
  rw [if_neg hnew, if_neg hnew, OrderRecord.remaining]
  cases hleft : Fixed.checkedSub order.originalQuantity order.cumulativeQuantity with
  | none =>
      rcases Fixed.fromRaw?_eq_none_iff.mp hleft with hlow | hhigh
      · simp only [rawMin] at hlow
        refine .inl ⟨by simp only [rawMax]; omega, ?_⟩
        rw [max_eq_left (by omega), Fixed.zero_raw, max_self]
      · exact .inr ⟨hhigh, rfl⟩
  | some left =>
      rw [← Fixed.checkedSub_eq_some_iff.mp hleft]
      refine .inl ⟨left.raw_le, ?_⟩
      by_cases hpositive : left.isPositive = true
      · simp only [hpositive, if_true]
      · have hnot : left.raw ≤ 0 := by simpa using hpositive
        simp only [hpositive, Bool.false_eq_true, if_false]
        rw [max_eq_left hnot, Fixed.zero_raw, max_self]

section Orders

variable {symbol : Symbol} {side : Side} {orders : List OrderRecord}

/-- Where every order fits, the orders counted are the ones that owe something. -/
theorem owingOn_eq_countedOn
    (hfits : ∀ order ∈ orders, counts symbol side order = true → order.stillOpen ≤ rawMax) :
    owingOn symbol side orders = countedOn symbol side orders := by
  apply List.filter_congr
  intro order horder
  cases hcounts : counts symbol side order with
  | false => rfl
  | true =>
      rcases order.owed_cases with ⟨-, howed⟩ | ⟨hover, -⟩
      · rw [howed, Bool.true_and, Bool.true_and, Fixed.isPositive]
        simp
      · exact absurd (hfits order horder hcounts) (Int.not_le.mpr hover)

theorem owed_of_countedOn {order : OrderRecord} (h : order ∈ countedOn symbol side orders) :
    order.owed = (contribution order).raw := by
  have hpositive := (Bool.and_eq_true_iff.mp (List.mem_filter.mp h).2).2
  rw [Fixed.isPositive_iff] at hpositive
  rcases order.owed_cases with ⟨-, howed⟩ | ⟨-, hzero⟩
  · rw [howed, max_eq_right hpositive.le]
  · omega

theorem map_owed_countedOn :
    (countedOn symbol side orders).map OrderRecord.owed =
      (countedOn symbol side orders).map fun order => (contribution order).raw :=
  List.map_congr_left fun _ h => owed_of_countedOn h

theorem map_owedNotional_countedOn :
    (countedOn symbol side orders).map OrderRecord.owedNotional =
      (countedOn symbol side orders).map contributedNotional :=
  List.map_congr_left fun order h => by
    rw [OrderRecord.owedNotional, owed_of_countedOn h, contributedNotional]

/-- No order owes more than all of them. -/
theorem stillOpen_le_sum_owed {order : OrderRecord} (horder : order ∈ orders)
    (hcounts : counts symbol side order = true) :
    order.stillOpen ≤ max 0 ((owingOn symbol side orders).map OrderRecord.owed).sum := by
  by_cases howed : 0 < order.owed
  · have hmem : order ∈ owingOn symbol side orders :=
      List.mem_filter.mpr ⟨horder, by simp [hcounts, howed]⟩
    have hle := List.single_le_sum (l := (owingOn symbol side orders).map OrderRecord.owed)
      (by
        intro amount hamount
        obtain ⟨owing, -, rfl⟩ := List.mem_map.mp hamount
        exact le_max_left _ _)
      _ (List.mem_map_of_mem hmem)
    exact (le_max_right 0 order.stillOpen).trans (hle.trans (le_max_right _ _))
  · rw [OrderRecord.owed] at howed
    omega

end Orders

/-- The snapshot is determinate exactly when no order that counts is unknown and no
side's contributions overflow. -/
theorem exposure_determinate_iff (s : OmsState) (symbol : Symbol) :
    (s.exposure symbol).determinate = true ↔
      (∀ order ∈ s.orders, ∀ side, counts symbol side order = true → order.state ≠ .unknown) ∧
        ∀ side, ((countedOn symbol side s.orders).map fun order => (contribution order).raw).sum ≤
          rawMax := by
  have hzero (side : Side) :
      (ExposureSnapshot.working { determinate := true } side : Qty).raw = 0 := by
    cases side <;> rfl
  constructor
  · intro h
    have hcounted := foldl_addOrder_counted h
    refine ⟨hcounted.known, fun side => ?_⟩
    have hworking := hcounted.working side
    rw [hzero, Int.zero_add] at hworking
    rw [← hworking]
    exact Fixed.raw_le _
  · rintro ⟨hknown, hfits⟩
    refine foldl_addOrder_determinate rfl hknown fun side => ?_
    rw [hzero, Int.zero_add]
    exact hfits side

/-- What a determinate snapshot holds. -/
theorem exposure_counted {s : OmsState} {symbol : Symbol}
    (h : (s.exposure symbol).determinate = true) :
    Counted symbol { determinate := true } s.orders (s.exposure symbol) :=
  foldl_addOrder_counted h

/-- A determinate snapshot is exact where nothing that was left out amounts to
anything. -/
theorem exact_iff_of_determinate {s : OmsState} {symbol : Symbol}
    (h : (s.exposure symbol).determinate = true) :
    ExactExposure symbol s.orders (s.exposure symbol) ↔ FullyCounted symbol s.orders := by
  have hcounted := exposure_counted h
  have hworking (side : Side) : ((s.exposure symbol).working side).raw =
      ((countedOn symbol side s.orders).map fun order => (contribution order).raw).sum := by
    rw [hcounted.working]
    cases side <;> exact Int.zero_add _
  have hnotional (side : Side) : ((s.exposure symbol).workingNotional side).raw =
      CheckedSum.total Fits 0 ((countedOn symbol side s.orders).map contributedNotional) := by
    rw [hcounted.notional]
    cases side <;> rfl
  have hopen : (s.exposure symbol).openOrderCount =
      (countedOn symbol .buy s.orders).length + (countedOn symbol .sell s.orders).length := by
    rw [hcounted.openOrders]
    exact Nat.zero_add _
  -- Once every order fits, the exact sums run over the orders that were counted.
  by_cases hremaining : ∀ order ∈ s.orders, ∀ side, counts symbol side order = true →
      order.stillOpen ≤ rawMax
  · have howing (side : Side) : owingOn symbol side s.orders = countedOn symbol side s.orders :=
      owingOn_eq_countedOn fun order horder => hremaining order horder side
    have hsum (side : Side) :
        ((s.exposure symbol).workingNotional side).raw =
            ((owingOn symbol side s.orders).map OrderRecord.owedNotional).sum ↔
          (CheckedSum.leftOut Fits 0
            ((owingOn symbol side s.orders).map OrderRecord.owedNotional)).sum = 0 := by
      rw [hnotional, howing, map_owedNotional_countedOn, ← CheckedSum.total_eq_iff, zero_add]
    have hcount : (s.exposure symbol).storedCount =
          (owingOn symbol .buy s.orders).length + (owingOn symbol .sell s.orders).length ↔
        (owingOn symbol .buy s.orders).length +
          (owingOn symbol .sell s.orders).length < 2 ^ 32 := by
      rw [ExposureSnapshot.storedCount, hopen, howing, howing]
      exact Nat.mod_eq_iff_lt (by decide)
    constructor
    · exact fun hexact =>
        ⟨hremaining, fun side => (hsum side).mp (hexact.notional side), hcount.mp hexact.openOrders⟩
    · intro hfull
      refine ⟨fun side => ?_, fun side => (hsum side).mpr (hfull.notional side),
        hcount.mpr hfull.openOrders⟩
      rw [hworking, howing, map_owed_countedOn]
  · refine iff_of_false (fun hexact => hremaining ?_) fun hfull => hremaining hfull.remaining
    intro order horder side hcounts
    have hle := stillOpen_le_sum_owed horder hcounts
    rw [← hexact.working side] at hle
    have hmax := ((s.exposure symbol).working side).raw_le
    simp only [rawMax] at hmax ⊢
    omega

/-- An order is unknown, or the quantities of a side overflow: nothing is promised. -/
def Indeterminate (symbol : Symbol) (orders : List OrderRecord) : Prop :=
  (∃ order ∈ orders, order.symbol = symbol ∧ order.state = .unknown) ∨
    ∃ side, rawMax < ((countedOn symbol side orders).map fun order => (contribution order).raw).sum

theorem exposure_determinate_iff_not (s : OmsState) (symbol : Symbol) :
    (s.exposure symbol).determinate = true ↔ ¬Indeterminate symbol s.orders := by
  rw [exposure_determinate_iff, Indeterminate, not_or]
  simp only [not_exists, not_and, not_lt]
  refine and_congr_left fun _ => ?_
  constructor
  · intro h order horder hsymbol hunknown
    refine h order horder order.side ?_ hunknown
    rw [counts, OrderRecord.consumesExposure, hsymbol, hunknown]
    simp [OrderState.consumesExposure, OrderState.isTerminal]
  · intro h order horder side hcounts
    rw [counts, Bool.and_eq_true, Bool.and_eq_true, decide_eq_true_eq] at hcounts
    exact h order horder hcounts.1.1

/-- A determinate exposure is exact exactly when an order is unknown or a side overflows,
so that the snapshot is not determinate, or what it leaves out comes to nothing. Where
no price is negative, the notionals of a side come out exactly when their sum fits. -/
theorem determinate_exposure_exact_iff (s : OmsState) (symbol : Symbol) :
    (((s.exposure symbol).determinate = true →
        ExactExposure symbol s.orders (s.exposure symbol)) ↔
      Indeterminate symbol s.orders ∨ FullyCounted symbol s.orders) ∧
    ∀ side, (∀ order ∈ owingOn symbol side s.orders, 0 ≤ order.price.raw) →
      ((CheckedSum.leftOut Fits 0
          ((owingOn symbol side s.orders).map OrderRecord.owedNotional)).sum = 0 ↔
        ((owingOn symbol side s.orders).map OrderRecord.owedNotional).sum ≤ rawMax) := by
  constructor
  · by_cases hdeterminate : (s.exposure symbol).determinate = true
    · have hnot := (exposure_determinate_iff_not s symbol).mp hdeterminate
      rw [or_iff_right hnot, ← exact_iff_of_determinate hdeterminate]
      exact forall_prop_of_true hdeterminate
    · have hindeterminate : Indeterminate symbol s.orders := by
        by_contra hnot
        exact hdeterminate ((exposure_determinate_iff_not s symbol).mpr hnot)
      exact iff_of_true (fun h => absurd h hdeterminate) (.inl hindeterminate)
  · intro side hprices
    have hnonneg : ∀ value ∈ (owingOn symbol side s.orders).map OrderRecord.owedNotional,
        0 ≤ value := by
      intro value hvalue
      obtain ⟨order, horder, rfl⟩ := List.mem_map.mp hvalue
      exact Int.tdiv_nonneg (mul_nonneg (hprices order horder) (le_max_left _ _)) (by decide)
    rw [CheckedSum.sum_leftOut_eq_zero_iff
      (fun a b ha hab hb => ⟨by simp only [rawMin]; omega, hab.trans hb.2⟩) le_rfl
      ⟨by decide, by decide⟩ hnonneg, zero_add, Fits]
    have hsum := List.sum_nonneg hnonneg
    exact and_iff_right (by simp only [rawMin]; omega)

/-- A bid of one unit at a price near the top of the range. -/
def priceyBid : OrderRecord where
  symbol := (InlineString.assign "BTC".toList).1
  side := .buy
  price := .narrow 5000000000000000000
  originalQuantity := .narrow 100000000
  state := .working

/-- Two of them: the snapshot is determinate and shows the notional of one. -/
theorem exposure_drops_notional :
    ∃ s : OmsState, (s.exposure priceyBid.symbol).determinate = true ∧
      ¬ExactExposure priceyBid.symbol s.orders (s.exposure priceyBid.symbol) := by
  let s : OmsState := { (OrderManager.init {} 0).toOmsState with orders := [priceyBid, priceyBid] }
  refine ⟨s, by decide +kernel, fun hexact => ?_⟩
  have hnotional := hexact.notional .buy
  revert hnotional
  decide +kernel

end MmEngine.Oms
