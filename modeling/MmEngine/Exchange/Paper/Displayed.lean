/-
# Matching against what is displayed

Over a side sorted best first, the walk takes what the order still wants or everything
its share of the reached levels offers, whichever is less. What it takes is missing from
the levels and from nothing else, and what it pays on average lies between the best
price and the limit. Nothing it computes on the way leaves the range it is kept in.
-/

import Mathlib.Algebra.Order.BigOperators.Group.List
import Mathlib.Data.Int.Order.Basic
import MmEngine.Exchange.Paper.Executions

namespace MmEngine.Exchange.Paper

/-- One price is as good as another or better, for an order of the given side: lower
for a buy. -/
def NoWorse (side : Side) (better worse : Px) : Prop :=
  match side with
  | .buy => better.raw ≤ worse.raw
  | .sell => worse.raw ≤ better.raw

instance (side : Side) (better worse : Px) : Decidable (NoWorse side better worse) :=
  match side with
  | .buy => Int.decLe _ _
  | .sell => Int.decLe _ _

/-- Levels of the opposite side, the best for an order of the given side first. -/
def BestFirst (side : Side) (levels : List PriceLevel) : Prop :=
  levels.Pairwise fun better worse => NoWorse side better.price worse.price

instance (side : Side) (levels : List PriceLevel) : Decidable (BestFirst side levels) :=
  inferInstanceAs (Decidable (List.Pairwise _ levels))

/-- A price no better than the best and no worse than the limit. -/
def BetweenPrices (side : Side) (best price limit : Px) : Prop :=
  NoWorse side best price ∧ NoWorse side price limit

/-- The share of the levels that the limit reaches, without bound. -/
def reachableShare (order : PaperOrder) (bps : Nat) (levels : List PriceLevel) : Int :=
  ((levels.filter fun level => order.reaches level.price).map fun level =>
    level.quantity.raw * (bps : Int) / 10000).sum

/-- Everything the levels show. -/
def displayed (levels : List PriceLevel) : Int :=
  (levels.map fun level => level.quantity.raw).sum

/-- A level that the limit does not reach ends it for all that are worse. -/
theorem unreached_of_bestFirst {order : PaperOrder} {level : PriceLevel}
    {levels : List PriceLevel} (hsorted : BestFirst order.side (level :: levels))
    (hreach : order.reaches level.price = false) :
    ∀ worse ∈ levels, order.reaches worse.price = false := by
  intro worse hworse
  have hbetter := (List.pairwise_cons.mp hsorted).1 worse hworse
  cases hside : order.side with
  | buy =>
      simp only [NoWorse, PaperOrder.reaches, hside, decide_eq_false_iff_not, not_le]
        at hreach hbetter ⊢
      omega
  | sell =>
      simp only [NoWorse, PaperOrder.reaches, hside, decide_eq_false_iff_not, not_le]
        at hreach hbetter ⊢
      omega

theorem reachableShare_cons (order : PaperOrder) (bps : Nat) (level : PriceLevel)
    (levels : List PriceLevel) :
    reachableShare order bps (level :: levels) =
      (if order.reaches level.price then level.quantity.raw * bps / 10000 else 0) +
        reachableShare order bps levels := by
  rw [reachableShare, List.filter_cons]
  split
  · rw [List.map_cons, List.sum_cons, reachableShare]
  · rw [zero_add, reachableShare]

theorem reachableShare_nonneg (order : PaperOrder) (bps : Nat) {levels : List PriceLevel}
    (hshown : Shown levels) : 0 ≤ reachableShare order bps levels := by
  apply List.sum_nonneg
  intro share hshare
  obtain ⟨level, hlevel, rfl⟩ := List.mem_map.mp hshare
  exact Int.ediv_nonneg
    (mul_nonneg (hshown level (List.mem_of_mem_filter hlevel)) (Int.natCast_nonneg _)) (by decide)

/-- Up to the whole of it, the share of a level is the exact one. -/
theorem applyShare_raw {bps : Nat} (hbps : bps ≤ 10000) {quantity : Qty} (h : 0 ≤ quantity.raw) :
    (applyShare quantity bps).raw = quantity.raw * bps / 10000 := by
  rcases Nat.lt_or_ge bps 10000 with hpart | hwhole
  · have hproduct : 0 ≤ quantity.raw * bps := mul_nonneg h (Int.natCast_nonneg _)
    have hmax := quantity.raw_le
    have hle : quantity.raw * bps / 10000 ≤ quantity.raw := by
      apply Int.ediv_le_of_le_mul (by decide)
      exact Int.mul_le_mul_of_nonneg_left (by omega) h
    have hlow : 0 ≤ quantity.raw * bps / 10000 := Int.ediv_nonneg hproduct (by decide)
    rw [applyShare, if_neg (Nat.not_le.mpr hpart), Int.tdiv_eq_ediv_of_nonneg hproduct,
      Fixed.narrow_raw_of_inRange (by simp only [rawMin]; omega) (by omega)]
  · have hexact : bps = 10000 := Nat.le_antisymm hbps hwhole
    rw [applyShare_whole hwhole, hexact]
    exact (Int.mul_ediv_cancel _ (by decide)).symm

section Walk

variable {order : PaperOrder} {remaining : Qty} {bps : Nat}

/-- The walk takes what is still wanted, or everything its share offers. -/
theorem takeLevels_filled (hbps : bps ≤ 10000) {levels : List PriceLevel} (hshown : Shown levels)
    (hsorted : BestFirst order.side levels) {taken : Taken} (hwithin : taken.Within remaining) :
    (takeLevels order remaining bps levels taken).1.filled.raw =
      min remaining.raw (taken.filled.raw + reachableShare order bps levels) := by
  induction levels generalizing taken with
  | nil =>
      have hbounded := hwithin.bounded
      rw [reachableShare, List.filter_nil, List.map_nil, List.sum_nil, add_zero,
          min_eq_right hbounded]
      rfl
  | cons level levels ih =>
      have hdeeper : Shown levels := fun other hmem => hshown other (List.mem_cons_of_mem _ hmem)
      have hshare := applyShare_raw hbps (hshown level List.mem_cons_self)
      have hrest := reachableShare_nonneg order bps hdeeper
      have hbounded := hwithin.bounded
      rw [reachableShare_cons]
      rcases takeLevels_cons order bps hwithin level levels with
        ⟨hstop, hwalk, -⟩ | ⟨hreaches, hnone, hwalk, -⟩ |
        ⟨take, after, hreaches, hpos, havailable, hfilled, hafter, hmin, -, hwalk, -⟩
      · rw [hwalk]
        rcases hstop with hreach | hfull
        · have hnothing : reachableShare order bps levels = 0 := by
            rw [reachableShare, List.filter_eq_nil_iff.mpr, List.map_nil, List.sum_nil]
            intro worse hworse
            rw [unreached_of_bestFirst hsorted hreach worse hworse]
            exact Bool.false_ne_true
          rw [hreach, hnothing]
          simp [hbounded]
        · have hlevel : 0 ≤ if order.reaches level.price = true then
              level.quantity.raw * bps / 10000 else 0 := by
            have hquantity := hshown level List.mem_cons_self
            split <;> positivity
          rw [min_eq_left (by omega), hfull]
      · have hquantity : 0 ≤ level.quantity.raw * bps / 10000 :=
          Int.ediv_nonneg (mul_nonneg (hshown level List.mem_cons_self) (Int.natCast_nonneg _))
            (by decide)
        rw [hwalk, ih hdeeper (List.pairwise_cons.mp hsorted).2 hwithin, if_pos hreaches]
        congr 2
        omega
      · rw [hwalk, ih hdeeper (List.pairwise_cons.mp hsorted).2 hafter, if_pos hreaches, ← hshare]
        -- Either the whole share was taken, or nothing more is wanted.
        rcases hmin with hwhole | hfull
        · congr 1
          omega
        · rw [min_eq_left (by omega), min_eq_left (by omega)]

/-- What the walk takes is missing from the levels, and nothing else is. -/
theorem takeLevels_displayed {levels : List PriceLevel} (hshown : Shown levels) {taken : Taken}
    (hwithin : taken.Within remaining) :
    displayed levels - displayed (takeLevels order remaining bps levels taken).2 =
      (takeLevels order remaining bps levels taken).1.filled.raw - taken.filled.raw := by
  induction levels generalizing taken with
  | nil =>
      rw [sub_eq_sub_iff_add_eq_add]
      exact add_comm _ _
  | cons level levels ih =>
      have hdeeper : Shown levels := fun other hmem => hshown other (List.mem_cons_of_mem _ hmem)
      have hquantity := hshown level List.mem_cons_self
      rcases takeLevels_cons order bps hwithin level levels with
        ⟨-, hwalk, -⟩ | ⟨-, -, hwalk, -⟩ |
        ⟨take, after, -, hpos, havailable, hfilled, hafter, -, -, hwalk, -⟩
      · rw [hwalk, sub_self, sub_self]
      · have hrest := ih hdeeper hwithin
        simp only [hwalk, displayed, List.map_cons, List.sum_cons] at hrest ⊢
        omega
      · have hrest := ih hdeeper hafter
        have hleft := PriceLevel.consume_quantity hpos.le
          (havailable.trans (applyShare_le hquantity bps))
        simp only [hwalk, displayed, List.map_cons, List.sum_cons, hleft] at hrest ⊢
        omega

/-- A level beyond the limit stays as it is. -/
theorem takeLevels_untouched {levels : List PriceLevel} {taken : Taken}
    (hwithin : taken.Within remaining) {i : Nat} {level : PriceLevel}
    (hlevel : levels[i]? = some level) (hreach : order.reaches level.price = false) :
    (takeLevels order remaining bps levels taken).2[i]? = some level := by
  induction levels generalizing taken i with
  | nil => cases hlevel
  | cons first levels ih =>
      rcases takeLevels_cons order bps hwithin first levels with
        ⟨-, hwalk, -⟩ | ⟨hreaches, -, hwalk, -⟩ |
          ⟨take, after, hreaches, -, -, -, hafter, -, -, hwalk, -⟩
      · rw [hwalk]
        exact hlevel
      · rw [hwalk]
        cases i with
        | zero => exact hlevel
        | succ i => exact ih hwithin hlevel
      · rw [hwalk]
        cases i with
        | zero =>
            cases hlevel
            rw [hreach] at hreaches
            cases hreaches
        | succ i => exact ih hafter hlevel

/-- What the walk pays lies between any prices that every reached level lies between. -/
theorem takeLevels_value {levels : List PriceLevel} {low high : Int}
    (hprices : ∀ level ∈ levels, order.reaches level.price = true →
      low ≤ level.price.raw ∧ level.price.raw ≤ high) {taken : Taken}
    (hwithin : taken.Within remaining) (hlow : low * taken.filled.raw ≤ taken.value)
    (hhigh : taken.value ≤ high * taken.filled.raw) :
    low * (takeLevels order remaining bps levels taken).1.filled.raw ≤
        (takeLevels order remaining bps levels taken).1.value ∧
      (takeLevels order remaining bps levels taken).1.value ≤
        high * (takeLevels order remaining bps levels taken).1.filled.raw := by
  induction levels generalizing taken with
  | nil => exact ⟨hlow, hhigh⟩
  | cons level levels ih =>
      rw [List.forall_mem_cons] at hprices
      rcases takeLevels_cons order bps hwithin level levels with
        ⟨-, hwalk, -⟩ | ⟨-, -, hwalk, -⟩ |
        ⟨take, after, hreaches, hpos, -, hfilled, hafter, -, hvalue, hwalk, -⟩
      · rw [hwalk]
        exact ⟨hlow, hhigh⟩
      · rw [hwalk]
        exact ih hprices.2 hwithin hlow hhigh
      · rw [hwalk]
        obtain ⟨hfirst, hlast⟩ := hprices.1 hreaches
        refine ih hprices.2 hafter ?_ ?_
        · rw [hfilled, hvalue, mul_add]
          exact add_le_add hlow
            ((mul_comm low take.raw).trans_le (mul_le_mul_of_nonneg_left hfirst hpos.le))
        · rw [hfilled, hvalue, mul_add]
          exact add_le_add hhigh
            ((mul_le_mul_of_nonneg_left hlast hpos.le).trans_eq (mul_comm take.raw high))

end Walk

/-! ## Nothing wraps -/

/-- A quantity that a level may give: no more than its share of the level, nor than is
still wanted. -/
structure MayTake (remaining : Qty) (bps : Nat) (level : PriceLevel) (taken : Taken)
    (take : Qty) : Prop where
  nonneg : 0 ≤ take.raw
  available : take.raw ≤ (applyShare level.quantity bps).raw
  wanted : taken.filled.raw + take.raw ≤ remaining.raw

/-- Every product, sum and difference that is formed at a level is exact: the scaled
quantity and the share, what is still wanted, what has been taken afterwards, what it is
worth, and what is left at the level. -/
structure ExactLevel (remaining : Qty) (bps : Nat) (level : PriceLevel) (taken : Taken) :
    Prop where
  scaled : |level.quantity.raw * (bps : Int)| < 2 ^ 127
  share : (applyShare level.quantity bps).raw = level.quantity.raw * (bps : Int) / 10000
  room : ∃ room, Fixed.checkedSub remaining taken.filled = some room
  filled : ∀ take, MayTake remaining bps level taken take →
    ∃ next, Fixed.checkedAdd taken.filled take = some next
  worth : ∀ take, MayTake remaining bps level taken take →
    |take.raw * level.price.raw| < 2 ^ 127 ∧
      |taken.value + take.raw * level.price.raw| < 2 ^ 127
  left : ∀ take, MayTake remaining bps level taken take →
    ∃ left, Fixed.checkedSub level.quantity take = some left ∧ left.isNegative = false

theorem exists_checkedSub {a b : Qty} (hb : 0 ≤ b.raw) (hle : b.raw ≤ a.raw) :
    ∃ difference, Fixed.checkedSub a b = some difference ∧ difference.raw = a.raw - b.raw := by
  have hmax := a.raw_le
  cases hsub : Fixed.checkedSub a b with
  | none =>
      have hout := Fixed.fromRaw?_eq_none_iff.mp hsub
      simp only [rawMin] at hout
      omega
  | some difference => exact ⟨difference, rfl, Fixed.checkedSub_eq_some_iff.mp hsub⟩

/-- Fairly taken levels are worth a value of at most 126 bits. -/
theorem Taken.Fair.value_lt {remaining : Qty} {taken : Taken} (h : taken.Fair remaining) :
    |taken.value| < 2 ^ 127 := by
  have hvalue : 0 ≤ taken.value := h.nonneg.trans h.paid
  have hmost : rawMax * taken.filled.raw ≤ rawMax * rawMax :=
    mul_le_mul_of_nonneg_left taken.filled.raw_le (by decide)
  rw [abs_of_nonneg hvalue]
  exact (h.inRange.trans hmost).trans_lt (by decide)

/-- A level that a walk comes to after taking fairly is computed with exactly. -/
theorem Taken.Fair.exactLevel {remaining : Qty} {taken : Taken} (h : taken.Fair remaining)
    {bps : Nat} (hbps : bps ≤ 10000) {level : PriceLevel} (hprice : 0 < level.price.raw)
    (hquantity : 0 < level.quantity.raw) : ExactLevel remaining bps level taken := by
  have hmax := level.quantity.raw_le
  have htaken : ∀ take, MayTake remaining bps level taken take →
      ∃ next : Qty, Fixed.checkedAdd taken.filled take = some next := by
    intro take htake
    have hsum : 0 ≤ taken.filled.raw + take.raw := add_nonneg h.nonneg htake.nonneg
    exact Fixed.exists_checkedAdd hsum htake.wanted
  constructor
  · have hscaled : level.quantity.raw * (bps : Int) ≤ rawMax * 10000 :=
      mul_le_mul hmax (by omega) (Int.natCast_nonneg _) (by decide)
    rw [abs_of_nonneg (mul_nonneg hquantity.le (Int.natCast_nonneg _))]
    exact hscaled.trans_lt (by decide)
  · exact applyShare_raw hbps hquantity.le
  · obtain ⟨room, hroom, -⟩ := exists_checkedSub h.nonneg h.bounded
    exact ⟨room, hroom⟩
  · exact htaken
  · intro take htake
    have hproduct : |take.raw * level.price.raw| < 2 ^ 127 := by
      rw [abs_of_nonneg (mul_nonneg htake.nonneg hprice.le)]
      exact (mul_le_mul take.raw_le level.price.raw_le hprice.le (by decide)).trans_lt
        (show rawMax * rawMax < 2 ^ 127 by decide)
    refine ⟨hproduct, ?_⟩
    rcases htake.nonneg.eq_or_lt with hnothing | hsomething
    · rw [← hnothing, zero_mul, add_zero]
      exact h.value_lt
    · obtain ⟨next, hnext⟩ := htaken take htake
      have hraw := Fixed.checkedAdd_eq_some_iff.mp hnext
      exact (h.take hsomething hprice hraw (hraw.trans_le htake.wanted)
        (taken.levelsConsumed + 1)).value_lt
  · intro take htake
    obtain ⟨left, hleft, hraw⟩ := exists_checkedSub htake.nonneg
      (htake.available.trans (applyShare_le hquantity.le bps))
    have hshare := htake.available.trans (applyShare_le hquantity.le bps)
    refine ⟨left, hleft, ?_⟩
    rw [← Bool.not_eq_true, Fixed.isNegative_iff]
    omega

/-- What a match against displayed levels comes to. -/
structure FromDisplayed (order : PaperOrder) (bps : Nat) (levels : List PriceLevel)
    (result : MatchResult) (left : List PriceLevel) : Prop where
  wanted : result.quantity.raw ≤ order.remaining.raw
  quantity : result.quantity.raw = min order.remaining.raw (reachableShare order bps levels)
  decreases : displayed levels - displayed left = result.quantity.raw
  sameLevels : prices left = prices levels
  nonneg : ∀ level ∈ left, 0 ≤ level.quantity.raw
  untouched : ∀ (i : Nat) (level : PriceLevel), levels[i]? = some level →
    order.reaches level.price = false → left[i]? = some level
  priced : 0 < result.quantity.raw → ∃ best : PriceLevel, levels.head? = some best ∧
    BetweenPrices order.side best.price result.price order.price
  unpriced : result.quantity.raw = 0 → result.price = .zero

/-- Every value that a match forms is exact: those at a level, after what was taken of
the levels before it, and the average at the end. -/
structure ExactMatch (order : PaperOrder) (bps : Nat) (levels : List PriceLevel) : Prop where
  level : ∀ (i : Nat) (level : PriceLevel), levels[i]? = some level →
    ExactLevel order.remaining bps level
      (takeLevels order order.remaining bps (levels.take i) {}).1
  average : ∀ taken, taken = (takeLevels order order.remaining bps levels {}).1 →
    0 < taken.filled.raw →
      (Fixed.narrow (taken.value.tdiv taken.filled.raw) : Px).raw =
        taken.value / taken.filled.raw

section Match

variable {order : PaperOrder} {levels : List PriceLevel} {bps : Nat}

/-- On a sorted side the best level the limit reaches bounds them all. -/
theorem prices_between {best : PriceLevel} (hsorted : BestFirst order.side (best :: levels)) :
    ∃ low high : Int, (∀ price : Px, low ≤ price.raw → price.raw ≤ high →
        BetweenPrices order.side best.price price order.price) ∧
      ∀ level ∈ best :: levels, order.reaches level.price = true →
        low ≤ level.price.raw ∧ level.price.raw ≤ high := by
  have hbetter := (List.pairwise_cons.mp hsorted).1
  cases hside : order.side with
  | buy =>
      refine ⟨best.price.raw, order.price.raw, fun _ hlow hhigh => ⟨hlow, hhigh⟩, ?_⟩
      intro level hlevel hreaches
      simp only [PaperOrder.reaches, hside, decide_eq_true_eq] at hreaches
      refine ⟨?_, hreaches⟩
      rcases List.mem_cons.mp hlevel with rfl | hdeeper
      · exact le_rfl
      · have := hbetter level hdeeper
        rwa [hside] at this
  | sell =>
      refine ⟨order.price.raw, best.price.raw, fun _ hlow hhigh => ⟨hhigh, hlow⟩, ?_⟩
      intro level hlevel hreaches
      simp only [PaperOrder.reaches, hside, decide_eq_true_eq] at hreaches
      refine ⟨hreaches, ?_⟩
      rcases List.mem_cons.mp hlevel with rfl | hdeeper
      · exact le_rfl
      · have := hbetter level hdeeper
        rwa [hside] at this

/-- A quotient of what was taken lies between prices that its value lies between. -/
theorem ediv_between {value filled low high : Int} (hfilled : 0 < filled)
    (hlow : low * filled ≤ value) (hhigh : value ≤ high * filled) :
    low ≤ value / filled ∧ value / filled ≤ high :=
  ⟨(Int.le_ediv_iff_mul_le hfilled).mpr hlow,
    Int.le_of_mul_le_mul_right ((Int.ediv_mul_le value hfilled.ne').trans hhigh) hfilled⟩

theorem Taken.Fair.average_raw {remaining : Qty} {taken : Taken} (h : taken.Fair remaining)
    (hfilled : 0 < taken.filled.raw) :
    (Fixed.narrow (taken.value.tdiv taken.filled.raw) : Px).raw =
      taken.value / taken.filled.raw := by
  have hpaid : 1 * taken.filled.raw ≤ taken.value := by
    rw [one_mul]
    exact h.paid
  obtain ⟨hone, hmax⟩ := ediv_between hfilled hpaid h.inRange
  rw [Int.tdiv_eq_ediv_of_nonneg (h.nonneg.trans h.paid)]
  exact Fixed.narrow_raw_of_inRange ((show rawMin ≤ 1 by decide).trans hone) hmax

/-- What a match reports as its price: the average of what it took, or nothing. -/
theorem matchAndConsume_price (hresting : order.isResting = true)
    (hwants : 0 < order.remaining.raw) {touch : PriceLevel} :
    (matchAndConsume order (touch :: levels) .displayedLiquidity bps).1.price =
      if 0 < (takeLevels order order.remaining bps (touch :: levels) {}).1.filled.raw then
        Fixed.narrow ((takeLevels order order.remaining bps (touch :: levels) {}).1.value.tdiv
          (takeLevels order order.remaining bps (touch :: levels) {}).1.filled.raw)
      else .zero := by
  unfold matchAndConsume
  rw [if_neg (by simp [hresting, hwants])]
  dsimp only
  split
  · rename_i hnone
    rw [Bool.not_eq_true', Fixed.isPositive_eq_false_iff] at hnone
    rw [if_neg hnone.not_gt]
  · rename_i hsome
    rw [Bool.not_eq_true', Bool.not_eq_false, Fixed.isPositive_iff] at hsome
    rw [if_pos hsome]

theorem matchAndConsume_nil (model : FillModel) :
    matchAndConsume order [] model bps = ({}, []) := by
  unfold matchAndConsume
  split
  · rfl
  · rfl

/-- An order with nothing left takes nothing. -/
theorem fromDisplayed_of_done (hdone : order.remaining.raw = 0) (hshown : Shown levels) :
    FromDisplayed order bps levels {} levels where
  wanted := hdone.ge
  quantity := by
    rw [hdone]
    exact (min_eq_left (reachableShare_nonneg order bps hshown)).symm
  decreases := sub_self _
  sameLevels := rfl
  nonneg := hshown
  untouched := fun _ _ hlevel _ => hlevel
  priced := fun h => absurd h (lt_irrefl 0)
  unpriced := fun _ => rfl

/-- A match of a resting order against a side that is sorted best first takes what the
order still wants or all that its share of the reached levels offers, from these levels
and at prices between the best and the limit; and it computes exactly. -/
theorem matchAndConsume_displayed (hresting : order.isResting = true) (hbps : bps ≤ 10000)
    (hsorted : BestFirst order.side levels)
    (hpositive : ∀ level ∈ levels, 0 < level.price.raw ∧ 0 < level.quantity.raw) :
    FromDisplayed order bps levels
        (matchAndConsume order levels .displayedLiquidity bps).1
        (matchAndConsume order levels .displayedLiquidity bps).2 ∧
      ExactMatch order bps levels := by
  have hshown : Shown levels := fun level hlevel => (hpositive level hlevel).2.le
  have hprices : ∀ price ∈ prices levels, 0 < price.raw := by
    intro price hprice
    obtain ⟨level, hlevel, rfl⟩ := List.mem_map.mp hprice
    exact (hpositive level hlevel).1
  have hnonneg : 0 ≤ order.remaining.raw := order.remaining_nonneg
  obtain ⟨hfair, hsame⟩ := takeLevels_fair order order.remaining bps hprices
    (Taken.fair_empty hnonneg)
  constructor
  · rcases hnonneg.eq_or_lt with hdone | hwants
    · rw [(matchAndConsume_of_idle order levels bps _ (.inr hdone.ge)).1]
      exact fromDisplayed_of_done hdone.symm hshown
    · have hwithin := Taken.within_empty hwants.le
      obtain ⟨hquantity, hleft, -⟩ := matchAndConsume_of_walk order levels bps hresting hwants
      constructor
      · rw [hquantity]
        exact hfair.bounded
      · rw [hquantity, takeLevels_filled hbps hshown hsorted hwithin]
        exact congrArg _ (zero_add _)
      · rw [hquantity, hleft, takeLevels_displayed hshown hwithin]
        exact sub_zero _
      · rw [hleft]
        exact hsame
      · exact (matchAndConsume_draws order bps hshown).1.shown
      · intro i level hlevel hreach
        rw [hleft]
        exact takeLevels_untouched hwithin hlevel hreach
      · rw [hquantity]
        intro hfilled
        cases levels with
        | nil => exact absurd hfilled (lt_irrefl 0)
        | cons best deeper =>
            obtain ⟨low, high, hbetween, hall⟩ := prices_between hsorted
            obtain ⟨hlow, hhigh⟩ := takeLevels_value hall hwithin (mul_zero low).le
              (mul_zero high).ge
            obtain ⟨hleast, hmost⟩ := ediv_between hfilled hlow hhigh
            refine ⟨best, rfl, hbetween _ ?_ ?_⟩
            · rw [matchAndConsume_price hresting hwants, if_pos hfilled, hfair.average_raw hfilled]
              exact hleast
            · rw [matchAndConsume_price hresting hwants, if_pos hfilled, hfair.average_raw hfilled]
              exact hmost
      · rw [hquantity]
        intro hnone
        cases levels with
        | nil => rw [matchAndConsume_nil]
        | cons best deeper => rw [matchAndConsume_price hresting hwants, if_neg hnone.not_gt]
  · constructor
    · intro i level hlevel
      have hmem := List.mem_of_getElem? hlevel
      have hbefore : ∀ price ∈ prices (levels.take i), 0 < price.raw := by
        intro price hprice
        obtain ⟨other, hother, rfl⟩ := List.mem_map.mp hprice
        exact (hpositive other (List.mem_of_mem_take hother)).1
      have hfairBefore := (takeLevels_fair order order.remaining bps hbefore
        (Taken.fair_empty hnonneg)).1
      exact hfairBefore.exactLevel hbps (hpositive level hmem).1 (hpositive level hmem).2
    · rintro taken rfl hfilled
      exact hfair.average_raw hfilled

end Match

namespace Sample

/-- A bid for three at the venue. -/
def bidForThree : PaperOrder :=
  (PaperExecution.init config 0 0).arrivingOrder (request 'a' .buy price three)

def twoOffers : List PriceLevel := [⟨price, three⟩, ⟨price, one⟩]

end Sample

open Sample

theorem matchAndConsume_displayed_twoOffers :
    FromDisplayed bidForThree 5000 twoOffers
        (matchAndConsume bidForThree twoOffers .displayedLiquidity 5000).1
        (matchAndConsume bidForThree twoOffers .displayedLiquidity 5000).2 ∧
      ExactMatch bidForThree 5000 twoOffers :=
  matchAndConsume_displayed (by decide) (by decide) (by decide) (by decide)

/-- A match that takes nothing reports a price below every offer. -/
theorem idle_price_below :
    bidForThree.isResting = true ∧ BestFirst bidForThree.side twoOffers ∧
      (∀ level ∈ twoOffers, 0 < level.price.raw ∧ 0 < level.quantity.raw) ∧
      ∃ best, twoOffers.head? = some best ∧
        ¬BetweenPrices bidForThree.side best.price
          (matchAndConsume bidForThree twoOffers .displayedLiquidity 0).1.price
          bidForThree.price := by
  refine ⟨by decide, by decide, by decide, ⟨price, three⟩, rfl, ?_⟩
  intro hbetween
  exact absurd hbetween.1 (by decide)

end MmEngine.Exchange.Paper
