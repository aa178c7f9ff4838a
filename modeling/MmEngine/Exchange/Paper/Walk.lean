/-
# What a walk takes from each level

A match under the displayed-liquidity model reports one quantity and one price.
Here the same walk is told level by level: what it takes from each position of the
side, against what it leaves there. The amounts add up to the quantity it reports,
no position gives more than it shows, and only positions the limit reaches give
anything. When the whole queue is ours, an order that still wants more has emptied
everything its limit reaches, and an emptied side gives nothing.
-/

import MmEngine.Exchange.Paper.PaperMatcher

namespace MmEngine.Exchange.Paper

/-- The quantity shown at a position, zero past the end. -/
def quantityAt (levels : List PriceLevel) (i : Nat) : Int :=
  ((levels[i]?).map fun level => level.quantity.raw).getD 0

/-- The quantity the walk takes at each level, in their order. -/
def levelTakes (order : PaperOrder) (remaining : Qty) (bps : Nat) :
    List PriceLevel → Taken → List Int
  | [], _ => []
  | level :: levels, taken =>
      let untouched := List.replicate (levels.length + 1) 0
      if !order.reaches level.price then untouched
      else
        let available := applyShare level.quantity bps
        if !available.isPositive then 0 :: levelTakes order remaining bps levels taken
        else
          match Fixed.checkedSub remaining taken.filled with
          | none => untouched
          | some room =>
              if !room.isPositive then untouched
              else
                let take := if room.raw < available.raw then room else available
                match Fixed.checkedAdd taken.filled take with
                | none => untouched
                | some next =>
                    let after : Taken :=
                      { filled := next
                        value := taken.value + take.raw * level.price.raw
                        levelsConsumed := taken.levelsConsumed + 1 }
                    if remaining.raw ≤ next.raw then take.raw :: List.replicate levels.length 0
                    else take.raw :: levelTakes order remaining bps levels after

/-- What an order takes from each level of a side, under either model. -/
def matchTakes (order : PaperOrder) (levels : List PriceLevel) (model : FillModel)
    (queueShareBps : Nat) : List Int :=
  if !order.isResting || !order.remaining.isPositive then []
  else
    match levels with
    | [] => []
    | touch :: _ =>
        match model with
        | .fullOnCross => if !order.reaches touch.price then [] else [order.remaining.raw]
        | .displayedLiquidity => levelTakes order order.remaining queueShareBps levels {}

theorem applyShare_le {quantity : Qty} (h : 0 ≤ quantity.raw) (bps : Nat) :
    (applyShare quantity bps).raw ≤ quantity.raw := by
  unfold applyShare
  split
  · exact le_rfl
  rename_i hbps
  have hmax := quantity.raw_le
  have hproduct : 0 ≤ quantity.raw * bps := Int.mul_nonneg h (Int.natCast_nonneg _)
  have hshare : quantity.raw * bps / 10000 ≤ quantity.raw := by
    apply Int.ediv_le_of_le_mul (by decide)
    exact Int.mul_le_mul_of_nonneg_left (by omega) h
  have hlow : 0 ≤ quantity.raw * bps / 10000 := Int.ediv_nonneg hproduct (by decide)
  rw [Int.tdiv_eq_ediv_of_nonneg hproduct, Fixed.narrow_raw_of_inRange]
  · exact hshare
  · exact (show rawMin ≤ 0 by decide).trans hlow
  · omega

theorem applyShare_whole {bps : Nat} (h : 10000 ≤ bps) (quantity : Qty) :
    applyShare quantity bps = quantity := if_pos h

theorem PriceLevel.consume_quantity {level : PriceLevel} {take : Qty} (hpos : 0 ≤ take.raw)
    (hle : take.raw ≤ level.quantity.raw) :
    (level.consume take).quantity.raw = level.quantity.raw - take.raw := by
  unfold PriceLevel.consume
  have hmax := level.quantity.raw_le
  cases hsub : Fixed.checkedSub level.quantity take with
  | none =>
      have hout := Fixed.fromRaw?_eq_none_iff.mp hsub
      simp only [rawMin] at hout
      omega
  | some left =>
      have hleft := Fixed.checkedSub_eq_some_iff.mp hsub
      have hnot : ¬left.isNegative = true := by
        rw [Fixed.isNegative_iff]
        omega
      dsimp only
      rw [if_neg hnot, hleft]

/-- A walk has room for what it may still take. -/
structure Taken.Within (remaining : Qty) (taken : Taken) : Prop where
  nonneg : 0 ≤ taken.filled.raw
  bounded : taken.filled.raw ≤ remaining.raw

theorem Taken.within_empty {remaining : Qty} (h : 0 ≤ remaining.raw) : Within remaining {} :=
  ⟨le_rfl, h⟩

/-- A walk that has what it wants takes nothing more. -/
theorem takeLevels_of_full (order : PaperOrder) {remaining : Qty} (bps : Nat) {taken : Taken}
    (hfull : taken.filled.raw = remaining.raw) (levels : List PriceLevel) :
    takeLevels order remaining bps levels taken = (taken, levels) ∧
      levelTakes order remaining bps levels taken = List.replicate levels.length 0 := by
  induction levels with
  | nil => exact ⟨rfl, rfl⟩
  | cons level levels ih =>
      unfold takeLevels levelTakes
      dsimp only
      split
      · exact ⟨rfl, rfl⟩
      split
      · rw [ih.1, ih.2]
        exact ⟨rfl, rfl⟩
      cases hsub : Fixed.checkedSub remaining taken.filled with
      | none => exact ⟨rfl, rfl⟩
      | some room =>
          have hroom := Fixed.checkedSub_eq_some_iff.mp hsub
          have hnot : (!room.isPositive) = true := by
            rw [Bool.not_eq_true', Fixed.isPositive_eq_false_iff]
            omega
          dsimp only
          rw [if_pos hnot, if_pos hnot]
          exact ⟨rfl, rfl⟩

/-- Everything the walk can do at a level: stop there, pass it over, or take from it
and go on. -/
theorem takeLevels_cons (order : PaperOrder) {remaining : Qty} (bps : Nat) {taken : Taken}
    (hwithin : taken.Within remaining) (level : PriceLevel) (levels : List PriceLevel) :
    ((order.reaches level.price = false ∨ taken.filled.raw = remaining.raw) ∧
      takeLevels order remaining bps (level :: levels) taken = (taken, level :: levels) ∧
      levelTakes order remaining bps (level :: levels) taken =
        List.replicate (levels.length + 1) 0) ∨
    (order.reaches level.price = true ∧ (applyShare level.quantity bps).raw ≤ 0 ∧
      takeLevels order remaining bps (level :: levels) taken =
        ((takeLevels order remaining bps levels taken).1,
          level :: (takeLevels order remaining bps levels taken).2) ∧
      levelTakes order remaining bps (level :: levels) taken =
        0 :: levelTakes order remaining bps levels taken) ∨
    ∃ (take : Qty) (after : Taken), order.reaches level.price = true ∧ 0 < take.raw ∧
      take.raw ≤ (applyShare level.quantity bps).raw ∧
      after.filled.raw = taken.filled.raw + take.raw ∧ after.Within remaining ∧
      (take.raw = (applyShare level.quantity bps).raw ∨ after.filled.raw = remaining.raw) ∧
      after.value = taken.value + take.raw * level.price.raw ∧
      takeLevels order remaining bps (level :: levels) taken =
        ((takeLevels order remaining bps levels after).1,
          level.consume take :: (takeLevels order remaining bps levels after).2) ∧
      levelTakes order remaining bps (level :: levels) taken =
        take.raw :: levelTakes order remaining bps levels after := by
  obtain ⟨hnonneg, hbounded⟩ := hwithin
  rw [takeLevels, levelTakes]
  dsimp only
  split
  · rename_i hreach
    exact .inl ⟨.inl (by simpa using hreach), rfl, rfl⟩
  rename_i hreach
  have hreaches : order.reaches level.price = true := by simpa using hreach
  split
  · rename_i hnone
    exact .inr (.inl ⟨hreaches, by simpa using hnone, rfl, rfl⟩)
  rename_i hsome
  have havailable : 0 < (applyShare level.quantity bps).raw := by simpa using hsome
  have hmax := remaining.raw_le
  cases hsub : Fixed.checkedSub remaining taken.filled with
  | none =>
      have hout := Fixed.fromRaw?_eq_none_iff.mp hsub
      simp only [rawMin] at hout
      omega
  | some room =>
      have hroom := Fixed.checkedSub_eq_some_iff.mp hsub
      dsimp only
      split
      · rename_i hfull
        have hzero : room.raw ≤ 0 := by simpa using hfull
        exact .inl ⟨.inr (by omega), rfl, rfl⟩
      rename_i hwants
      have hpositive : 0 < room.raw := by simpa using hwants
      generalize htake : (if room.raw < (applyShare level.quantity bps).raw then room
        else applyShare level.quantity bps) = take
      have hleast : 0 < take.raw ∧ take.raw ≤ room.raw ∧
          take.raw ≤ (applyShare level.quantity bps).raw ∧
          (take.raw = room.raw ∨ take.raw = (applyShare level.quantity bps).raw) := by
        split at htake <;> subst htake <;> omega
      obtain ⟨htakes, htakeRoom, htakeAvailable, hmin⟩ := hleast
      cases hadd : Fixed.checkedAdd taken.filled take with
      | none =>
          have hout := Fixed.fromRaw?_eq_none_iff.mp hadd
          simp only [rawMin] at hout
          omega
      | some next =>
          have hnext := Fixed.checkedAdd_eq_some_iff.mp hadd
          refine .inr (.inr ⟨take,
            { filled := next
              value := taken.value + take.raw * level.price.raw
              levelsConsumed := taken.levelsConsumed + 1 },
            hreaches, htakes, htakeAvailable, hnext, ⟨?_, ?_⟩, ?_, rfl, ?_⟩)
          · show 0 ≤ next.raw
            omega
          · show next.raw ≤ remaining.raw
            omega
          · show take.raw = _ ∨ next.raw = remaining.raw
            omega
          · dsimp only
            split
            · rename_i hfilled
              -- Ending the walk here is going on with nothing left to take.
              have hdone := @takeLevels_of_full order remaining bps
                { filled := next
                  value := taken.value + take.raw * level.price.raw
                  levelsConsumed := taken.levelsConsumed + 1 }
                (show next.raw = remaining.raw by omega) levels
              rw [hdone.1, hdone.2]
              exact ⟨rfl, rfl⟩
            · exact ⟨rfl, rfl⟩

/-! ## The whole walk -/

@[simp]
theorem quantityAt_cons_zero (level : PriceLevel) (levels : List PriceLevel) :
    quantityAt (level :: levels) 0 = level.quantity.raw := rfl

@[simp]
theorem quantityAt_cons_succ (level : PriceLevel) (levels : List PriceLevel) (i : Nat) :
    quantityAt (level :: levels) (i + 1) = quantityAt levels i := rfl

@[simp]
theorem quantityAt_nil (i : Nat) : quantityAt [] i = 0 := rfl

/-- No level shows a negative quantity. -/
def Shown (levels : List PriceLevel) : Prop := ∀ level ∈ levels, 0 ≤ level.quantity.raw

theorem Shown.quantityAt_nonneg {levels : List PriceLevel} (h : Shown levels) (i : Nat) :
    0 ≤ quantityAt levels i := by
  unfold quantityAt
  cases hi : levels[i]? with
  | none => exact le_rfl
  | some level => exact h level (List.mem_of_getElem? hi)

/-- What an order leaves of a side it draws on: each position loses what was taken
there, which is no more than it showed and nothing unless the limit reaches it. -/
structure Draws (order : PaperOrder) (levels : List PriceLevel) (takes : List Int)
    (left : List PriceLevel) : Prop where
  prices : prices left = prices levels
  remains : ∀ i, quantityAt left i = quantityAt levels i - takes.getD i 0
  nonneg : ∀ i, 0 ≤ takes.getD i 0
  bounded : ∀ i, takes.getD i 0 ≤ quantityAt levels i
  reached : ∀ i, 0 < takes.getD i 0 →
    ∃ price, (Paper.prices levels)[i]? = some price ∧ order.reaches price = true
  shown : Shown left

theorem Draws.none {levels : List PriceLevel} (h : Shown levels) {takes : List Int}
    (hzero : ∀ i, takes.getD i 0 = 0) (order : PaperOrder) : Draws order levels takes levels where
  prices := rfl
  remains := fun i => by rw [hzero i, sub_zero]
  nonneg := fun i => (hzero i).ge
  bounded := fun i => (hzero i).le.trans (h.quantityAt_nonneg i)
  reached := fun i hi => absurd hi (hzero i).le.not_gt
  shown := h

theorem getD_replicate_zero (n i : Nat) : (List.replicate n (0 : Int)).getD i 0 = 0 := by
  rw [List.getD_eq_getElem?_getD, List.getElem?_replicate]
  split <;> rfl

theorem Draws.cons {order : PaperOrder} {level level' : PriceLevel} {levels left : List PriceLevel}
    {take : Int} {takes : List Int} (h : Draws order levels takes left)
    (hprice : level'.price = level.price)
    (hleft : level'.quantity.raw = level.quantity.raw - take) (hnonneg : 0 ≤ take)
    (hbounded : take ≤ level.quantity.raw)
    (hreached : 0 < take → order.reaches level.price = true) :
    Draws order (level :: levels) (take :: takes) (level' :: left) where
  prices := by
    show level'.price :: Paper.prices left = level.price :: Paper.prices levels
    rw [hprice, h.prices]
  remains := fun i => by
    cases i with
    | zero => exact hleft
    | succ i => exact h.remains i
  nonneg := fun i => by
    cases i with
    | zero => exact hnonneg
    | succ i => exact h.nonneg i
  bounded := fun i => by
    cases i with
    | zero => exact hbounded
    | succ i => exact h.bounded i
  reached := fun i hi => by
    cases i with
    | zero => exact ⟨level.price, rfl, hreached hi⟩
    | succ i => exact h.reached i hi
  shown := by
    intro other hother
    rcases List.mem_cons.mp hother with rfl | hmem
    · omega
    · exact h.shown other hmem

/-- The position lies as far as the limit reaches without a gap. -/
def Open (order : PaperOrder) (levels : List PriceLevel) (i : Nat) : Prop :=
  ∀ j ≤ i, ∃ price, (prices levels)[j]? = some price ∧ order.reaches price = true

/-- The side an order has emptied: nothing is left as far as its limit reaches. -/
def Emptied (order : PaperOrder) (levels : List PriceLevel) : Prop :=
  ∀ i, Open order levels i → quantityAt levels i = 0

theorem emptied_of_unreached {order : PaperOrder} {level : PriceLevel}
    (h : order.reaches level.price = false) (levels : List PriceLevel) :
    Emptied order (level :: levels) := by
  intro i hopen
  obtain ⟨price, hprice, hreaches⟩ := hopen 0 (Nat.zero_le i)
  cases hprice
  rw [h] at hreaches
  cases hreaches

theorem emptied_cons_iff {order : PaperOrder} {level : PriceLevel}
    (h : order.reaches level.price = true) {levels : List PriceLevel} :
    Emptied order (level :: levels) ↔ level.quantity.raw = 0 ∧ Emptied order levels := by
  constructor
  · intro hempty
    constructor
    · apply hempty 0
      intro j hj
      obtain rfl := Nat.le_zero.mp hj
      exact ⟨level.price, rfl, h⟩
    · intro i hopen
      apply hempty (i + 1)
      intro j hj
      cases j with
      | zero => exact ⟨level.price, rfl, h⟩
      | succ j => exact hopen j (Nat.le_of_succ_le_succ hj)
  · rintro ⟨hfirst, hrest⟩ i hopen
    cases i with
    | zero => exact hfirst
    | succ i => exact hrest i fun j hj => hopen (j + 1) (Nat.succ_le_succ hj)

/-- An emptied side stays so when nothing is put back. -/
theorem Emptied.mono {order : PaperOrder} {levels left : List PriceLevel}
    (h : Emptied order levels) (hprices : prices left = prices levels) (hshown : Shown left)
    (hle : ∀ i, quantityAt left i ≤ quantityAt levels i) : Emptied order left := by
  intro i hopen
  rw [Open, hprices] at hopen
  exact le_antisymm ((hle i).trans (h i hopen).le) (hshown.quantityAt_nonneg i)

/-- What an order has emptied, an order that reaches no further finds empty. -/
theorem Emptied.of_reaches {order other : PaperOrder} {levels : List PriceLevel}
    (h : Emptied order levels)
    (hreach : ∀ price, other.reaches price = true → order.reaches price = true) :
    Emptied other levels := by
  intro i hopen
  apply h i
  intro j hj
  obtain ⟨price, hprice, hother⟩ := hopen j hj
  exact ⟨price, hprice, hreach price hother⟩

section Walk

variable (order : PaperOrder) {remaining : Qty} (bps : Nat)

/-- The walk draws on the side what it takes from each level. -/
theorem takeLevels_draws {levels : List PriceLevel} (hshown : Shown levels) {taken : Taken}
    (hwithin : taken.Within remaining) :
    Draws order levels (levelTakes order remaining bps levels taken)
      (takeLevels order remaining bps levels taken).2 := by
  induction levels generalizing taken with
  | nil => exact Draws.none hshown (fun _ => rfl) order
  | cons level levels ih =>
      have hdeeper : Shown levels := fun other hmem => hshown other (List.mem_cons_of_mem _ hmem)
      have hquantity : 0 ≤ level.quantity.raw := hshown level List.mem_cons_self
      rcases takeLevels_cons order bps hwithin level levels with
        ⟨-, hwalk, htakes⟩ | ⟨-, -, hwalk, htakes⟩ |
        ⟨take, after, hreaches, hpos, havailable, -, hafter, -, -, hwalk, htakes⟩
      · rw [hwalk, htakes]
        exact Draws.none hshown (getD_replicate_zero _) order
      · rw [hwalk, htakes]
        exact (ih hdeeper hwithin).cons rfl (sub_zero _).symm le_rfl hquantity
          (fun h => absurd h (lt_irrefl 0))
      · rw [hwalk, htakes]
        have hle := havailable.trans (applyShare_le hquantity bps)
        exact (ih hdeeper hafter).cons rfl (PriceLevel.consume_quantity hpos.le hle) hpos.le hle
          fun _ => hreaches

/-- What is taken from the levels is what the walk reports, in quantity and in value. -/
theorem takeLevels_total (levels : List PriceLevel) {taken : Taken}
    (hwithin : taken.Within remaining) :
    (takeLevels order remaining bps levels taken).1.filled.raw =
        taken.filled.raw + (levelTakes order remaining bps levels taken).sum ∧
      (takeLevels order remaining bps levels taken).1.value =
        taken.value + (List.zipWith (fun take (level : PriceLevel) => take * level.price.raw)
          (levelTakes order remaining bps levels taken) levels).sum ∧
      (takeLevels order remaining bps levels taken).1.Within remaining := by
  induction levels generalizing taken with
  | nil => exact ⟨(add_zero _).symm, (add_zero _).symm, hwithin⟩
  | cons level levels ih =>
      rcases takeLevels_cons order bps hwithin level levels with
        ⟨-, hwalk, htakes⟩ | ⟨-, -, hwalk, htakes⟩ |
        ⟨take, after, -, -, -, hfilled, hafter, -, hvalue, hwalk, htakes⟩
      · rw [hwalk, htakes]
        have hzero : ∀ l : List PriceLevel, (List.zipWith
            (fun take (level : PriceLevel) => take * level.price.raw)
            (List.replicate l.length 0) l).sum = 0 := by
          intro l
          induction l with
          | nil => rfl
          | cons other l ih => simp [List.replicate_succ, ih]
        refine ⟨by simp, ?_, hwithin⟩
        rw [show levels.length + 1 = (level :: levels).length from rfl, hzero, add_zero]
      · rw [hwalk, htakes, List.sum_cons, List.zipWith_cons_cons, List.sum_cons, zero_mul,
          zero_add, zero_add]
        exact ih hwithin
      · obtain ⟨hsum, hworth, hend⟩ := ih hafter
        rw [hwalk, htakes, List.sum_cons, List.zipWith_cons_cons, List.sum_cons]
        dsimp only
        refine ⟨?_, ?_, hend⟩
        · omega
        · omega

/-- With the whole queue ours, an order that still wants more has emptied the side. -/
theorem takeLevels_emptied (hbps : 10000 ≤ bps) {levels : List PriceLevel}
    (hshown : Shown levels) {taken : Taken} (hwithin : taken.Within remaining)
    (hwants : (takeLevels order remaining bps levels taken).1.filled.raw < remaining.raw) :
    Emptied order (takeLevels order remaining bps levels taken).2 := by
  induction levels generalizing taken with
  | nil => exact fun i _ => rfl
  | cons level levels ih =>
      have hdeeper : Shown levels := fun other hmem => hshown other (List.mem_cons_of_mem _ hmem)
      have hquantity : 0 ≤ level.quantity.raw := hshown level List.mem_cons_self
      rcases takeLevels_cons order bps hwithin level levels with
        ⟨hstop, hwalk, -⟩ | ⟨hreaches, hnone, hwalk, -⟩ |
        ⟨take, after, hreaches, hpos, havailable, hfilled, hafter, hmin, -, hwalk, -⟩
      · rw [hwalk] at hwants ⊢
        rcases hstop with hreaches | hfull
        · exact emptied_of_unreached hreaches levels
        · exact absurd hfull hwants.ne
      · rw [hwalk] at hwants ⊢
        rw [applyShare_whole hbps] at hnone
        exact (emptied_cons_iff hreaches).mpr ⟨by omega, ih hdeeper hwithin hwants⟩
      · rw [hwalk] at hwants ⊢
        rw [applyShare_whole hbps] at havailable hmin
        have hwhole : take.raw = level.quantity.raw := by
          rcases hmin with hwhole | hfull
          · exact hwhole
          · have hdone := takeLevels_of_full order bps hfull levels
            rw [hdone.1] at hwants
            exact absurd hfull hwants.ne
        have hreached : order.reaches (level.consume take).price = true := hreaches
        refine (emptied_cons_iff hreached).mpr ⟨?_, ih hdeeper hafter hwants⟩
        rw [PriceLevel.consume_quantity hpos.le havailable, hwhole, sub_self]

/-- An emptied side gives nothing. -/
theorem takeLevels_of_emptied {levels : List PriceLevel} (hempty : Emptied order levels)
    {taken : Taken} (hwithin : taken.Within remaining) :
    takeLevels order remaining bps levels taken = (taken, levels) ∧
      ∀ i, (levelTakes order remaining bps levels taken).getD i 0 = 0 := by
  induction levels generalizing taken with
  | nil => exact ⟨rfl, fun _ => rfl⟩
  | cons level levels ih =>
      rcases takeLevels_cons order bps hwithin level levels with
        ⟨-, hwalk, htakes⟩ | ⟨hreaches, -, hwalk, htakes⟩ |
        ⟨take, after, hreaches, hpos, havailable, -⟩
      · rw [htakes]
        exact ⟨hwalk, getD_replicate_zero _⟩
      · obtain ⟨hsame, hzero⟩ := ih ((emptied_cons_iff hreaches).mp hempty).2 hwithin
        rw [hwalk, htakes, hsame]
        refine ⟨rfl, fun i => ?_⟩
        cases i with
        | zero => rfl
        | succ i => exact hzero i
      · have hnothing := ((emptied_cons_iff hreaches).mp hempty).1
        have hle := applyShare_le hnothing.ge bps
        omega

end Walk

/-- What an order wants is what it has left, when it has something left. -/
theorem PaperOrder.remaining_raw {order : PaperOrder} (h : order.remaining.isPositive = true) :
    order.remaining.raw = order.originalQty.raw - order.cumulativeQty.raw := by
  rw [Fixed.isPositive_iff] at h
  unfold PaperOrder.remaining at *
  cases hsub : Fixed.checkedSub order.originalQty order.cumulativeQty with
  | none =>
      rw [hsub] at h
      exact absurd h (lt_irrefl 0)
  | some out =>
      rw [hsub] at h
      dsimp only at h ⊢
      split at h
      · exact absurd h (lt_irrefl 0)
      · rename_i hnot
        rw [if_neg hnot]
        exact Fixed.checkedSub_eq_some_iff.mp hsub

theorem PaperOrder.remaining_nonneg (order : PaperOrder) : 0 ≤ order.remaining.raw := by
  unfold PaperOrder.remaining
  split
  · exact le_rfl
  · split
    · exact le_rfl
    · rename_i hnot
      rwa [Fixed.isNegative_iff, not_lt] at hnot

section Match

variable (order : PaperOrder) (levels : List PriceLevel) (bps : Nat)

/-- An order that does not rest or has nothing left matches nothing. -/
theorem matchAndConsume_of_idle (model : FillModel)
    (h : order.isResting = false ∨ order.remaining.raw ≤ 0) :
    matchAndConsume order levels model bps = ({}, levels) ∧
      matchTakes order levels model bps = [] := by
  have hidle : (!order.isResting || !order.remaining.isPositive) = true := by
    rcases h with hresting | hnothing
    · simp [hresting]
    · simp [Fixed.isPositive_eq_false_iff _ |>.mpr hnothing]
  exact ⟨if_pos hidle, if_pos hidle⟩

/-- Under the displayed-liquidity model a resting order with something left is
matched by a walk over the side. -/
theorem matchAndConsume_of_walk (hresting : order.isResting = true)
    (hwants : 0 < order.remaining.raw) :
    (matchAndConsume order levels .displayedLiquidity bps).1.quantity.raw =
        (takeLevels order order.remaining bps levels {}).1.filled.raw ∧
      (matchAndConsume order levels .displayedLiquidity bps).2 =
        (takeLevels order order.remaining bps levels {}).2 ∧
      matchTakes order levels .displayedLiquidity bps =
        levelTakes order order.remaining bps levels {} := by
  have hbusy : ¬(!order.isResting || !order.remaining.isPositive) = true := by
    simp [hresting, hwants]
  unfold matchAndConsume matchTakes
  rw [if_neg hbusy, if_neg hbusy]
  cases levels with
  | nil => exact ⟨rfl, rfl, rfl⟩
  | cons touch deeper =>
      obtain ⟨-, -, hend⟩ := takeLevels_total order bps (touch :: deeper)
        (Taken.within_empty hwants.le)
      have hnonneg := hend.nonneg
      dsimp only
      split
      · rename_i hnone
        have hzero := (Fixed.isPositive_eq_false_iff _).mp (by simpa using hnone)
        exact ⟨hnonneg.antisymm hzero, rfl, rfl⟩
      · exact ⟨rfl, rfl, rfl⟩

/-- What executes was wanted, under either model. -/
theorem matchAndConsume_wanted {model : FillModel}
    (h : 0 < (matchAndConsume order levels model bps).1.quantity.raw) :
    order.isResting = true ∧
      (matchAndConsume order levels model bps).1.quantity.raw ≤ order.remaining.raw := by
  have hresting : order.isResting = true := by
    by_contra hnot
    rw [(matchAndConsume_of_idle order levels bps model (.inl (by simpa using hnot))).1] at h
    exact absurd h (lt_irrefl 0)
  have hwants : 0 < order.remaining.raw := by
    by_contra hnot
    rw [(matchAndConsume_of_idle order levels bps model (.inr (not_lt.mp hnot))).1] at h
    exact absurd h (lt_irrefl 0)
  refine ⟨hresting, ?_⟩
  cases model with
  | displayedLiquidity =>
      rw [(matchAndConsume_of_walk order levels bps hresting hwants).1]
      exact (takeLevels_total order bps levels (Taken.within_empty hwants.le)).2.2.bounded
  | fullOnCross =>
      unfold matchAndConsume
      rw [if_neg (by simp [hresting, hwants])]
      cases levels with
      | nil => exact hwants.le
      | cons touch deeper =>
          dsimp only
          split
          · exact hwants.le
          · exact le_rfl

variable {levels}

/-- A match under the displayed-liquidity model draws its quantity from the side,
and no more than the order wants. -/
theorem matchAndConsume_draws (hshown : Shown levels) :
    Draws order levels (matchTakes order levels .displayedLiquidity bps)
        (matchAndConsume order levels .displayedLiquidity bps).2 ∧
      (matchAndConsume order levels .displayedLiquidity bps).1.quantity.raw =
        (matchTakes order levels .displayedLiquidity bps).sum ∧
      0 ≤ (matchAndConsume order levels .displayedLiquidity bps).1.quantity.raw := by
  by_cases hbusy : order.isResting = true ∧ 0 < order.remaining.raw
  · obtain ⟨hresting, hwants⟩ := hbusy
    obtain ⟨hquantity, hleft, htakes⟩ := matchAndConsume_of_walk order levels bps hresting hwants
    have hwithin := Taken.within_empty hwants.le
    obtain ⟨hsum, -, hend⟩ := takeLevels_total order bps levels hwithin
    rw [hquantity, hleft, htakes]
    exact ⟨takeLevels_draws order bps hshown hwithin, hsum.trans (zero_add _), hend.nonneg⟩
  · have hidle : order.isResting = false ∨ order.remaining.raw ≤ 0 := by
      rw [not_and_or, Bool.not_eq_true, not_lt] at hbusy
      exact hbusy
    obtain ⟨hmatch, htakes⟩ := matchAndConsume_of_idle order levels bps .displayedLiquidity hidle
    rw [hmatch, htakes]
    exact ⟨Draws.none hshown (fun _ => rfl) order, rfl, le_rfl⟩

/-- An order with the whole queue to itself that is left wanting has emptied the side. -/
theorem matchAndConsume_emptied (hresting : order.isResting = true) (hshown : Shown levels)
    (hbps : 10000 ≤ bps)
    (hwants : (matchAndConsume order levels .displayedLiquidity bps).1.quantity.raw <
      order.remaining.raw) :
    Emptied order (matchAndConsume order levels .displayedLiquidity bps).2 := by
  have hsomething : 0 < order.remaining.raw :=
    (matchAndConsume_draws order bps hshown).2.2.trans_lt hwants
  obtain ⟨hquantity, hleft, -⟩ := matchAndConsume_of_walk order levels bps hresting hsomething
  rw [hquantity] at hwants
  rw [hleft]
  exact takeLevels_emptied order bps hbps hshown (Taken.within_empty hsomething.le) hwants

/-- An order that finds the side empty matches nothing and leaves it as it is. -/
theorem matchAndConsume_of_emptied (hempty : Emptied order levels) :
    (matchAndConsume order levels .displayedLiquidity bps).1.quantity.raw = 0 := by
  by_cases hbusy : order.isResting = true ∧ 0 < order.remaining.raw
  · obtain ⟨hresting, hwants⟩ := hbusy
    rw [(matchAndConsume_of_walk order levels bps hresting hwants).1,
      (takeLevels_of_emptied order bps hempty (Taken.within_empty hwants.le)).1]
    rfl
  · have hidle : order.isResting = false ∨ order.remaining.raw ≤ 0 := by
      rw [not_and_or, Bool.not_eq_true, not_lt] at hbusy
      exact hbusy
    rw [(matchAndConsume_of_idle order levels bps .displayedLiquidity hidle).1]
    rfl

end Match

end MmEngine.Exchange.Paper
