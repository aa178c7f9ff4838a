/-
# The shape of a book

Each side of a book is a ladder of positive levels within the depth, whatever was done
to the book. One level moves a side to the ladder with that level written or erased and
cut to the depth, so that the levels of an update act on each side on its own. A book
whose mark of violation is down is neither crossed nor locked.
-/

import MmEngine.Book.OrderBook

namespace MmEngine.Book

open MmEngine.Exchange

/-- The place of a price on a side: lower is better. -/
def rank (which : Side) (price : Px) : Int :=
  match which with
  | .buy => -price.raw
  | .sell => price.raw

def levelRank (which : Side) (level : PriceLevel) : Int := rank which level.price

@[simp]
theorem rank_inj {which : Side} {a b : Px} : rank which a = rank which b ↔ a = b := by
  rw [Fixed.ext_iff]
  cases which <;> simp [rank]

theorem isBetter_eq (which : Side) (a b : Px) :
    isBetter which a b = decide (rank which a < rank which b) := by
  rw [Bool.eq_iff_iff, decide_eq_true_iff]
  cases which <;> simp [isBetter, rank]

/-- What an update may say about a price. -/
def Acceptable (level : PriceLevel) : Prop := 0 < level.price.raw ∧ 0 ≤ level.quantity.raw

instance (level : PriceLevel) : Decidable (Acceptable level) := instDecidableAnd

/-- What a book may hold. -/
def Positive (level : PriceLevel) : Prop := 0 < level.price.raw ∧ 0 < level.quantity.raw

instance (level : PriceLevel) : Decidable (Positive level) := instDecidableAnd

/-- A side as a book keeps it. -/
structure SideShaped (depth : Nat) (which : Side) (side : List PriceLevel) : Prop where
  sorted : Ladder.Sorted (levelRank which) side
  length_le : side.length ≤ depth
  positive : ∀ level ∈ side, Positive level

/-- A side after one level, in the terms of the ladder. -/
def place (depth : Nat) (which : Side) (side : List PriceLevel) (level : PriceLevel) :
    List PriceLevel :=
  if level.quantity.isZero then Ladder.erase (levelRank which) (levelRank which level) side
  else (Ladder.put (levelRank which) level side).take depth

/-- A side after levels in order. -/
def placeAll (depth : Nat) (which : Side) (levels side : List PriceLevel) : List PriceLevel :=
  levels.foldl (place depth which) side

section Place

variable {depth : Nat} {which : Side} {side : List PriceLevel} {level : PriceLevel}

theorem sideShaped_nil : SideShaped depth which [] :=
  ⟨List.Pairwise.nil, Nat.zero_le _, by simp⟩

theorem sorted_place (h : Ladder.Sorted (levelRank which) side) (depth : Nat) (level : PriceLevel) :
    Ladder.Sorted (levelRank which) (place depth which side level) := by
  rw [place]
  split
  · exact h.erase _
  · exact (h.put _).sublist (List.take_sublist _ _)

theorem levelRank_eq_iff {a b : PriceLevel} :
    levelRank which a = levelRank which b ↔ a.price = b.price :=
  rank_inj

/-- What is on a side once a level is placed: that level, or one from before at another
price. -/
theorem mem_place {held : PriceLevel} (h : held ∈ place depth which side level) :
    held = level ∧ level.quantity.isZero = false ∨ held ∈ side ∧ held.price ≠ level.price := by
  rw [place] at h
  split at h
  · obtain ⟨hmem, hne⟩ := Ladder.mem_erase.mp h
    exact .inr ⟨hmem, fun hprice => hne (levelRank_eq_iff.mpr hprice)⟩
  · rename_i hzero
    rcases Ladder.mem_put.mp (List.mem_of_mem_take h) with rfl | ⟨hmem, hne⟩
    · exact .inl ⟨rfl, eq_false_of_ne_true hzero⟩
    · exact .inr ⟨hmem, fun hprice => hne (levelRank_eq_iff.mpr hprice)⟩

theorem SideShaped.place (h : SideShaped depth which side) (hlevel : Acceptable level) :
    SideShaped depth which (place depth which side level) := by
  refine ⟨sorted_place h.sorted depth level, ?_, ?_⟩
  · rw [Book.place]
    split
    · exact (List.length_filter_le _ _).trans h.length_le
    · exact List.length_take_le _ _
  · intro held hheld
    rcases mem_place hheld with ⟨rfl, hzero⟩ | ⟨hmem, -⟩
    · have hnonneg := hlevel.2
      rw [Fixed.isZero, decide_eq_false_iff_not] at hzero
      exact ⟨hlevel.1, by omega⟩
    · exact h.positive held hmem

theorem SideShaped.placeAll {levels : List PriceLevel} (h : SideShaped depth which side)
    (hlevels : ∀ level ∈ levels, Acceptable level) :
    SideShaped depth which (placeAll depth which levels side) := by
  induction levels generalizing side with
  | nil => exact h
  | cons level levels ih =>
      exact ih (h.place (hlevels level List.mem_cons_self)) fun later hlater =>
        hlevels later (List.mem_cons_of_mem _ hlater)

theorem placeAll_append (earlier later : List PriceLevel) :
    placeAll depth which (earlier ++ later) side =
      placeAll depth which later (placeAll depth which earlier side) :=
  List.foldl_append

/-- What the search for a price finds on a ladder. -/
theorem locate_cases (h : Ladder.Sorted (levelRank which) side) (price : Px) :
    (locate side which price).1 = Ladder.below (levelRank which) (rank which price) side ∧
      ((∃ held ∈ side, held.price = price ∧
          (locate side which price).2 =
            held :: Ladder.beyond (levelRank which) (rank which price) side) ∨
        (∀ held ∈ side, held.price ≠ price) ∧
          (locate side which price).2 =
            Ladder.beyond (levelRank which) (rank which price) side) := by
  have hbetter : (fun level : PriceLevel => isBetter which level.price price) =
      fun level => decide (levelRank which level < rank which price) := by
    funext level
    exact isBetter_eq which level.price price
  rw [locate, hbetter]
  refine ⟨Ladder.takeWhile_eq_below h _, ?_⟩
  rcases Ladder.dropWhile_cases h (rank which price) with ⟨held, hmem, hkey, hback⟩ |
      ⟨habsent, hback⟩
  · exact .inl ⟨held, hmem, rank_inj.mp hkey, hback⟩
  · exact .inr ⟨fun held hmem hprice => habsent held hmem (by rw [levelRank, hprice]), hback⟩

end Place

namespace OrderBook

@[simp]
theorem side_setSide_self (book : OrderBook) (which : Side) (levels : List PriceLevel) :
    (book.setSide which levels).side which = levels := by
  cases which <;> rfl

@[simp]
theorem maxDepth_setSide (book : OrderBook) (which : Side) (levels : List PriceLevel) :
    (book.setSide which levels).maxDepth = book.maxDepth := by
  cases which <;> rfl

/-- The book with a side written, and its count of dropped levels. -/
def withSide (book : OrderBook) (which : Side) (levels : List PriceLevel) (dropped : Nat) :
    OrderBook :=
  { book.setSide which levels with levelsDropped := dropped }

theorem withSide_self (book : OrderBook) (which : Side) (dropped : Nat) :
    book.withSide which (book.side which) dropped = { book with levelsDropped := dropped } := by
  cases which <;> rfl

theorem withSide_withSide (book : OrderBook) (which : Side) (levels later : List PriceLevel)
    (dropped dropped' : Nat) :
    (book.withSide which levels dropped).withSide which later dropped' =
      book.withSide which later dropped' := by
  cases which <;> rfl

@[simp]
theorem side_withSide_self (book : OrderBook) (which : Side) (levels : List PriceLevel)
    (dropped : Nat) : (book.withSide which levels dropped).side which = levels := by
  cases which <;> rfl

@[simp]
theorem maxDepth_withSide (book : OrderBook) (which : Side) (levels : List PriceLevel)
    (dropped : Nat) : (book.withSide which levels dropped).maxDepth = book.maxDepth := by
  cases which <;> rfl

theorem setSide_eq_withSide (book : OrderBook) (which : Side) (levels : List PriceLevel) :
    book.setSide which levels = book.withSide which levels book.levelsDropped := by
  cases which <;> rfl

/-- Inserting and cutting leaves the cut ladder. -/
theorem trim_setSide (book : OrderBook) (which : Side) (levels : List PriceLevel) :
    ∃ dropped, (book.setSide which levels).trim which =
      book.withSide which (levels.take book.maxDepth) dropped := by
  rw [trim, side_setSide_self, maxDepth_setSide]
  split
  · refine ⟨(book.setSide which levels).levelsDropped + 1, ?_⟩
    cases which <;> rfl
  · rename_i hfits
    refine ⟨book.levelsDropped, ?_⟩
    rw [List.take_of_length_le (Nat.le_of_not_lt hfits), setSide_eq_withSide]

/-- A level is refused and marks the book, or it moves its side as on a ladder. -/
theorem applyLevel_cases {book : OrderBook} {which : Side}
    (h : SideShaped book.maxDepth which (book.side which)) (level : PriceLevel) :
    (¬Acceptable level ∧ ∃ code message violation,
        book.applyLevel which level = (.error code message, book.markInvalid violation)) ∨
      Acceptable level ∧ ∃ dropped,
        book.applyLevel which level =
          (.ok, book.withSide which (place book.maxDepth which (book.side which) level)
            dropped) := by
  rw [applyLevel]
  by_cases hprice : 0 < level.price.raw
  case neg =>
    exact .inl ⟨fun hlevel => hprice hlevel.1, _, _, _, if_pos (by simpa using hprice)⟩
  by_cases hquantity : level.quantity.raw < 0
  case pos =>
    rw [if_neg (by simpa using hprice)]
    exact .inl ⟨fun hlevel => absurd hlevel.2 (by omega), _, _, _,
        if_pos (by simpa using hquantity)⟩
  refine .inr ⟨⟨hprice, by omega⟩, ?_⟩
  rw [if_neg (by simpa using hprice), if_neg (by simpa using hquantity), place]
  obtain ⟨hfront, hback⟩ := locate_cases h.sorted level.price
  simp only [hfront]
  rcases hback with ⟨held, hmem, hheld, hback⟩ | ⟨habsent, hback⟩
  · have hfound : ((locate (book.side which) which level.price).2.head?.any fun held =>
        held.price = level.price) = true := by
      simp [hback, hheld]
    refine ⟨book.levelsDropped, ?_⟩
    rw [hfound, if_pos rfl, if_pos rfl, hback, List.tail_cons, ← setSide_eq_withSide]
    split
    · rw [Ladder.erase_eq_append h.sorted]
      rfl
    · have hlength :
          (Ladder.put (levelRank which) level (book.side which)).length ≤ book.maxDepth := by
        rw [Ladder.length_put_of_mem h.sorted hmem (by rw [levelRank, levelRank, hheld])]
        exact h.length_le
      rw [List.take_of_length_le hlength]
      rfl
  · have hlost : ((locate (book.side which) which level.price).2.head?.any fun held =>
        held.price = level.price) = false := by
      rw [Option.any_eq_false]
      intro held hheld
      have hmem : held ∈ book.side which :=
        (Ladder.mem_beyond.mp (hback ▸ List.mem_of_mem_head? hheld)).1
      simpa using habsent held hmem
    have hranks : ∀ held ∈ book.side which, levelRank which held ≠ levelRank which level := by
      intro held hheld
      simpa [levelRank] using habsent held hheld
    simp only [hlost, Bool.false_eq_true, if_false]
    by_cases hzero : level.quantity.isZero = true
    · simp only [if_pos hzero]
      exact ⟨book.levelsDropped, by rw [Ladder.erase_eq_self hranks, withSide_self]⟩
    · simp only [if_neg hzero]
      split
      · rename_i hfull
        -- The side is full and the level comes after all of it: the cut takes it off again.
        rw [Bool.and_eq_true, decide_eq_true_eq, List.isEmpty_iff, hback] at hfull
        refine ⟨book.levelsDropped + 1, ?_⟩
        have hcut : (book.side which ++ [level]).take book.maxDepth = book.side which :=
          List.take_left' (Nat.le_antisymm h.length_le hfull.1)
        rw [Ladder.put_eq_concat hfull.2 hranks, hcut, withSide_self]
      · obtain ⟨dropped, htrim⟩ := trim_setSide book which
          (Ladder.put (levelRank which) level (book.side which))
        refine ⟨dropped, ?_⟩
        rw [← htrim, hback]
        rfl

/-- Each side of the book is a ladder within the depth. -/
def Shaped (book : OrderBook) : Prop :=
  ∀ which, SideShaped book.maxDepth which (book.side which)

theorem shaped_withSide_place {which : Side} {level : PriceLevel} {book : OrderBook}
    (h : SideShaped book.maxDepth which (book.side which)) (hlevel : Acceptable level)
    (dropped : Nat) :
    let placed := book.withSide which (place book.maxDepth which (book.side which) level) dropped
    SideShaped placed.maxDepth which (placed.side which) := by
  simpa using h.place hlevel

/-- The levels moved the sides as ladders, and nothing else but a count. -/
theorem applyLevels_of_acceptable {which : Side} {levels : List PriceLevel} {book : OrderBook}
    (h : SideShaped book.maxDepth which (book.side which))
    (hlevels : ∀ level ∈ levels, Acceptable level) :
    ∃ dropped, applyLevels which levels book =
      (.ok, book.withSide which (placeAll book.maxDepth which levels (book.side which))
        dropped) := by
  induction levels generalizing book with
  | nil =>
      refine ⟨book.levelsDropped, ?_⟩
      rw [placeAll, List.foldl_nil, withSide_self]
      rfl
  | cons level levels ih =>
      rcases applyLevel_cases h level with ⟨hnot, -⟩ | ⟨hlevel, dropped, hstep⟩
      · exact absurd (hlevels level List.mem_cons_self) hnot
      · have hrest : ∀ later ∈ levels, Acceptable later := fun later hlater =>
          hlevels later (List.mem_cons_of_mem _ hlater)
        have hnext := shaped_withSide_place h hlevel dropped
        obtain ⟨total, hall⟩ := ih hnext hrest
        refine ⟨total, ?_⟩
        rw [applyLevels, hstep]
        simp only [hall, withSide_withSide, side_withSide_self, maxDepth_withSide]
        rfl

/-- A level that is not acceptable stops the update with the book marked. -/
theorem applyLevels_of_not_acceptable {which : Side} {levels : List PriceLevel} {book : OrderBook}
    (h : SideShaped book.maxDepth which (book.side which))
    (hlevels : ¬∀ level ∈ levels, Acceptable level) :
    ∃ code message side dropped violation, SideShaped book.maxDepth which side ∧
      applyLevels which levels book =
        (.error code message, (book.withSide which side dropped).markInvalid violation) := by
  induction levels generalizing book with
  | nil => simp at hlevels
  | cons level levels ih =>
      rw [applyLevels]
      rcases applyLevel_cases h level with ⟨-, code, message, violation, hstep⟩ |
          ⟨hlevel, dropped, hstep⟩
      · refine ⟨code, message, book.side which, book.levelsDropped, violation, h, ?_⟩
        rw [hstep, withSide_self]
      · have hrest : ¬∀ later ∈ levels, Acceptable later := by
          intro hall
          apply hlevels
          intro later hlater
          rcases List.mem_cons.mp hlater with rfl | hlater
          · exact hlevel
          · exact hall later hlater
        have hnext := shaped_withSide_place h hlevel dropped
        obtain ⟨code, message, side, total, violation, hside, hall⟩ := ih hnext hrest
        refine ⟨code, message, side, total, violation, by simpa using hside, ?_⟩
        rw [hstep]
        simp only [hall, withSide_withSide]

/-! ## What an update can do -/

theorem touchViolation_cases (bids asks : List PriceLevel) :
    touchViolation bids asks = .none ∨ touchViolation bids asks = .crossedBook ∨
      touchViolation bids asks = .lockedBook := by
  rw [touchViolation]
  split
  · split
    · exact .inr (.inl rfl)
    · split
      · exact .inr (.inr rfl)
      · exact .inl rfl
  · exact .inl rfl

/-- Every level can be applied, and the touch is in order once they are. -/
def Accepts (book : OrderBook) (levels : BookLevels) : Prop :=
  (∀ level ∈ levels.bids, Acceptable level) ∧ (∀ level ∈ levels.asks, Acceptable level) ∧
    touchViolation (placeAll book.maxDepth .buy levels.bids book.bids)
      (placeAll book.maxDepth .sell levels.asks book.asks) = .none

instance (book : OrderBook) (levels : BookLevels) : Decidable (book.Accepts levels) :=
  instDecidableAnd

/-- The book after an update that was accepted. -/
def updated (book : OrderBook) (levels : BookLevels) (finalUpdateId : Seq64) (dropped : Nat) :
    OrderBook :=
  { book with
    bids := placeAll book.maxDepth .buy levels.bids book.bids
    asks := placeAll book.maxDepth .sell levels.asks book.asks
    lastUpdateId := if finalUpdateId ≠ kNoSeq64 then finalUpdateId else book.lastUpdateId
    updatesApplied := book.updatesApplied + 1
    levelsDropped := dropped }

/-- What an update that was refused half-way leaves: a marked book that still has its
shape, and everything but the sides and the mark as it was. -/
structure Damaged (book after : OrderBook) : Prop where
  violated : after.violated = true
  shaped : after.Shaped
  symbol : after.symbol = book.symbol
  maxDepth : after.maxDepth = book.maxDepth
  snapshotApplied : after.snapshotApplied = book.snapshotApplied
  lastUpdateId : after.lastUpdateId = book.lastUpdateId
  stagingBids : after.stagingBids = book.stagingBids
  stagingAsks : after.stagingAsks = book.stagingAsks
  buildingSnapshot : after.buildingSnapshot = book.buildingSnapshot

theorem Shaped.withSide {book : OrderBook} (h : book.Shaped) {which : Side}
    {levels : List PriceLevel} (hlevels : SideShaped book.maxDepth which levels) (dropped : Nat) :
    (book.withSide which levels dropped).Shaped := by
  intro other
  cases which <;> cases other
  · exact hlevels
  · exact h .sell
  · exact h .buy
  · exact hlevels

/-- A write to a side followed by a mark. -/
theorem damaged_withSide {book : OrderBook} (h : book.Shaped) {which : Side}
    {levels : List PriceLevel} (hlevels : SideShaped book.maxDepth which levels) (dropped : Nat)
    (violation : BookViolation) :
    Damaged book ((book.withSide which levels dropped).markInvalid violation) where
  violated := rfl
  shaped := h.withSide hlevels dropped
  symbol := by cases which <;> rfl
  maxDepth := by cases which <;> rfl
  snapshotApplied := by cases which <;> rfl
  lastUpdateId := by cases which <;> rfl
  stagingBids := by cases which <;> rfl
  stagingAsks := by cases which <;> rfl
  buildingSnapshot := by cases which <;> rfl

theorem Damaged.of_withSide {book after : OrderBook} {which : Side} {levels : List PriceLevel}
    {dropped : Nat} (h : Damaged (book.withSide which levels dropped) after) :
    Damaged book after where
  violated := h.violated
  shaped := h.shaped
  symbol := by rw [h.symbol]; cases which <;> rfl
  maxDepth := by rw [h.maxDepth]; cases which <;> rfl
  snapshotApplied := by rw [h.snapshotApplied]; cases which <;> rfl
  lastUpdateId := by rw [h.lastUpdateId]; cases which <;> rfl
  stagingBids := by rw [h.stagingBids]; cases which <;> rfl
  stagingAsks := by rw [h.stagingAsks]; cases which <;> rfl
  buildingSnapshot := by rw [h.buildingSnapshot]; cases which <;> rfl

theorem closeUpdate_of_none {book : OrderBook} (h : touchViolation book.bids book.asks = .none)
    (finalUpdateId : Seq64) :
    book.closeUpdate finalUpdateId =
      (.ok,
        { book with
          lastUpdateId := if finalUpdateId ≠ kNoSeq64 then finalUpdateId else book.lastUpdateId
          updatesApplied := book.updatesApplied + 1 }) := by
  rw [closeUpdate, h]

theorem closeUpdate_of_ne_none {book : OrderBook} (h : touchViolation book.bids book.asks ≠ .none)
    (finalUpdateId : Seq64) :
    ∃ code message violation,
      book.closeUpdate finalUpdateId = (.error code message, book.markInvalid violation) := by
  rw [closeUpdate]
  rcases touchViolation_cases book.bids book.asks with hnone | hcrossed | hlocked
  · exact absurd hnone h
  · rw [hcrossed]
    exact ⟨_, _, _, rfl⟩
  · rw [hlocked]
    exact ⟨_, _, _, rfl⟩

theorem applyBoth_of_accepts {book : OrderBook} (h : book.Shaped) {levels : BookLevels}
    (haccepts : book.Accepts levels) (finalUpdateId : Seq64) :
    ∃ dropped, book.applyBoth levels finalUpdateId =
      (.ok, book.updated levels finalUpdateId dropped) := by
  obtain ⟨hbids, hasks, htouch⟩ := haccepts
  obtain ⟨dropped, hbuy⟩ := applyLevels_of_acceptable (h .buy) hbids
  have hshaped := h.withSide ((h .buy).placeAll hbids) dropped
  obtain ⟨total, hsell⟩ := applyLevels_of_acceptable (hshaped .sell) hasks
  refine ⟨total, ?_⟩
  rw [applyBoth, hbuy]
  simp only [hsell]
  rw [closeUpdate_of_none (by exact htouch)]
  rfl

theorem applyBoth_of_not_accepts {book : OrderBook} (h : book.Shaped) {levels : BookLevels}
    (hnot : ¬book.Accepts levels) (finalUpdateId : Seq64) :
    ∃ code message after,
      book.applyBoth levels finalUpdateId = (.error code message, after) ∧ Damaged book after := by
  rw [applyBoth]
  by_cases hbids : ∀ level ∈ levels.bids, Acceptable level
  case neg =>
    obtain ⟨code, message, side, dropped, violation, hside, hbuy⟩ :=
      applyLevels_of_not_acceptable (h .buy) hbids
    exact ⟨code, message, _, by rw [hbuy], damaged_withSide h hside dropped violation⟩
  obtain ⟨dropped, hbuy⟩ := applyLevels_of_acceptable (h .buy) hbids
  have hshaped := h.withSide ((h .buy).placeAll hbids) dropped
  rw [hbuy]
  by_cases hasks : ∀ level ∈ levels.asks, Acceptable level
  case neg =>
    obtain ⟨code, message, side, total, violation, hside, hsell⟩ :=
      applyLevels_of_not_acceptable (hshaped .sell) hasks
    simp only [hsell]
    exact ⟨code, message, _, rfl, (damaged_withSide hshaped hside total violation).of_withSide⟩
  obtain ⟨total, hsell⟩ := applyLevels_of_acceptable (hshaped .sell) hasks
  have hboth := hshaped.withSide ((hshaped .sell).placeAll hasks) total
  simp only [hsell]
  obtain ⟨code, message, violation, hclose⟩ :=
    @closeUpdate_of_ne_none
      ((book.withSide .buy (placeAll book.maxDepth .buy levels.bids book.bids) dropped).withSide
        .sell (placeAll book.maxDepth .sell levels.asks book.asks) total)
      (fun htouch => hnot ⟨hbids, hasks, htouch⟩) finalUpdateId
  refine ⟨code, message, _, hclose, ?_⟩
  exact (damaged_withSide hshaped ((hshaped .sell).placeAll hasks) total violation).of_withSide

/-- Nothing speaks against the update: there is an image to apply it to, its counts are
sane, its identifier does not go back, and the levels can be applied. -/
def Applicable (book : OrderBook) (levels : BookLevels) (finalUpdateId : Seq64) : Prop :=
  book.snapshotApplied = true ∧ levels.countsAreSane = true ∧
    (finalUpdateId ≠ kNoSeq64 → book.lastUpdateId ≤ finalUpdateId) ∧ book.Accepts levels

instance (book : OrderBook) (levels : BookLevels) (finalUpdateId : Seq64) :
    Decidable (book.Applicable levels finalUpdateId) :=
  instDecidableAnd

/-- What an update does to a book. -/
theorem applyUpdate_cases {book : OrderBook} (h : book.Shaped) (levels : BookLevels)
    (finalUpdateId : Seq64) :
    (book.Applicable levels finalUpdateId ∧ ∃ dropped,
        book.applyUpdate levels finalUpdateId = (.ok, book.updated levels finalUpdateId dropped)) ∨
      ¬book.Applicable levels finalUpdateId ∧ ∃ code message after,
        book.applyUpdate levels finalUpdateId = (.error code message, after) ∧
          (after = book ∧ book.snapshotApplied = false ∨ Damaged book after) := by
  have hmark : ∀ violation, Damaged book (book.markInvalid violation) := fun violation =>
    ⟨rfl, h, rfl, rfl, rfl, rfl, rfl, rfl, rfl⟩
  rw [applyUpdate]
  by_cases happlied : book.snapshotApplied = true
  case neg =>
    refine .inr ⟨fun hall => happlied hall.1, _, _, _, if_pos (by simpa using happlied), ?_⟩
    exact .inl ⟨rfl, by simpa using happlied⟩
  rw [if_neg (by simp [happlied])]
  by_cases hsane : levels.countsAreSane = true
  case neg =>
    refine .inr ⟨fun hall => hsane hall.2.1, _, _, _, if_pos (by simpa using hsane), ?_⟩
    exact .inr (hmark _)
  rw [if_neg (by simp [hsane])]
  by_cases hid : finalUpdateId ≠ kNoSeq64 → book.lastUpdateId ≤ finalUpdateId
  case neg =>
    rw [Classical.not_imp, UInt64.not_le] at hid
    refine .inr ⟨fun hall => absurd (hall.2.2.1 hid.1) (UInt64.not_le.mpr hid.2), _, _, _,
      if_pos (by simpa using hid), .inr (hmark _)⟩
  have hnot : ¬(decide (finalUpdateId ≠ kNoSeq64) &&
      decide (finalUpdateId < book.lastUpdateId)) = true := by
    rw [Bool.and_eq_true, decide_eq_true_eq, decide_eq_true_eq]
    exact fun hregressed => absurd (hid hregressed.1) (UInt64.not_le.mpr hregressed.2)
  rw [if_neg hnot]
  by_cases haccepts : book.Accepts levels
  · exact .inl ⟨⟨happlied, hsane, hid, haccepts⟩, applyBoth_of_accepts h haccepts finalUpdateId⟩
  · obtain ⟨code, message, after, hboth, hdamaged⟩ :=
      applyBoth_of_not_accepts h haccepts finalUpdateId
    exact .inr ⟨fun hall => haccepts hall.2.2.2, code, message, after, hboth, .inr hdamaged⟩

theorem Shaped.updated {book : OrderBook} (h : book.Shaped) {levels : BookLevels}
    (haccepts : book.Accepts levels) (finalUpdateId : Seq64) (dropped : Nat) :
    (book.updated levels finalUpdateId dropped).Shaped := by
  intro which
  cases which with
  | buy => exact (h .buy).placeAll haccepts.1
  | sell => exact (h .sell).placeAll haccepts.2.1

/-- The levels of an image that exist. -/
def listed (levels : List PriceLevel) : List PriceLevel :=
  levels.filter fun level => !level.quantity.isZero

theorem listed_cons_of_zero {level : PriceLevel} (h : level.quantity.isZero = true)
    (levels : List PriceLevel) : listed (level :: levels) = listed levels :=
  List.filter_cons_of_neg (by rw [h]; decide)

theorem listed_cons_of_ne_zero {level : PriceLevel} (h : ¬level.quantity.isZero = true)
    (levels : List PriceLevel) : listed (level :: levels) = level :: listed levels :=
  List.filter_cons_of_pos (by rw [eq_false_of_ne_true h]; decide)

/-- Every level of an image is an absence, or positive. -/
def WellFormed (levels : List PriceLevel) : Prop := ∀ level ∈ listed levels, Positive level

instance (levels : List PriceLevel) : Decidable (WellFormed levels) :=
  inferInstanceAs (Decidable (∀ _ ∈ _, _))

theorem stageLevels_of_wellFormed {levels : List PriceLevel} (h : WellFormed levels)
    (staged : List PriceLevel) : stageLevels levels staged = (true, staged ++ listed levels) := by
  induction levels generalizing staged with
  | nil => simp [stageLevels, listed]
  | cons level levels ih =>
      rw [stageLevels]
      by_cases hzero : level.quantity.isZero = true
      · have hlisted := listed_cons_of_zero hzero levels
        rw [if_pos hzero, hlisted]
        rw [WellFormed, hlisted] at h
        exact ih h staged
      · have hlisted := listed_cons_of_ne_zero hzero levels
        rw [WellFormed, hlisted] at h
        obtain ⟨hprice, hquantity⟩ := h level List.mem_cons_self
        have hvalid : ¬(!level.price.isPositive || level.quantity.isNegative) = true := by
          rw [Bool.or_eq_true, Bool.not_eq_true', Fixed.isPositive_eq_false_iff,
              Fixed.isNegative_iff]
          omega
        rw [if_neg hzero, if_neg hvalid, hlisted,
          ih (fun later hlater => h later (List.mem_cons_of_mem _ hlater)), List.append_assoc]
        rfl

theorem stageLevels_of_not_wellFormed {levels : List PriceLevel} (h : ¬WellFormed levels)
    {staged : List PriceLevel} (hstaged : ∀ level ∈ staged, Positive level) :
    ∃ after, stageLevels levels staged = (false, after) ∧ ∀ level ∈ after, Positive level := by
  induction levels generalizing staged with
  | nil => simp [WellFormed, listed] at h
  | cons level levels ih =>
      rw [stageLevels]
      by_cases hzero : level.quantity.isZero = true
      · have hlisted := listed_cons_of_zero hzero levels
        rw [if_pos hzero]
        rw [WellFormed, hlisted] at h
        exact ih h hstaged
      · have hlisted := listed_cons_of_ne_zero hzero levels
        rw [if_neg hzero]
        split
        · exact ⟨staged, rfl, hstaged⟩
        · rename_i hvalid
          rw [Bool.or_eq_true, Bool.not_eq_true', Fixed.isPositive_eq_false_iff,
            Fixed.isNegative_iff] at hvalid
          rw [Fixed.isZero_iff] at hzero
          have hlevel : Positive level := ⟨by omega, by omega⟩
          apply ih
          · intro hall
            apply h
            rw [WellFormed, hlisted]
            exact List.forall_mem_cons.mpr ⟨hlevel, hall⟩
          · intro later hlater
            rcases List.mem_append.mp hlater with hlater | hlater
            · exact hstaged later hlater
            · rw [List.mem_singleton.mp hlater]
              exact hlevel

/-- The chunk may be staged: its counts are sane and its levels well formed. -/
def Stageable (levels : BookLevels) : Prop :=
  levels.countsAreSane = true ∧ WellFormed levels.bids ∧ WellFormed levels.asks

instance (levels : BookLevels) : Decidable (Stageable levels) := instDecidableAnd

/-- Everything staged is positive. -/
def StagedPositive (book : OrderBook) : Prop :=
  (∀ level ∈ book.stagingBids, Positive level) ∧ ∀ level ∈ book.stagingAsks, Positive level

/-- What a chunk does to the image being built. -/
theorem addSnapshotLevels_cases {book : OrderBook} (h : book.StagedPositive) (levels : BookLevels) :
    (book.buildingSnapshot = true ∧ Stageable levels ∧
        book.addSnapshotLevels levels =
          (.ok,
            { book with
              stagingBids := book.stagingBids ++ listed levels.bids
              stagingAsks := book.stagingAsks ++ listed levels.asks })) ∨
      ¬(book.buildingSnapshot = true ∧ Stageable levels) ∧ ∃ code message bids asks,
        book.addSnapshotLevels levels =
            (.error code message, { book with stagingBids := bids, stagingAsks := asks }) ∧
          (∀ level ∈ bids, Positive level) ∧ ∀ level ∈ asks, Positive level := by
  rw [addSnapshotLevels]
  by_cases hbuilding : book.buildingSnapshot = true
  case neg =>
    refine .inr ⟨fun hall => hbuilding hall.1, _, _, book.stagingBids, book.stagingAsks,
      if_pos (by simpa using hbuilding), h⟩
  rw [if_neg (by simp [hbuilding])]
  by_cases hsane : levels.countsAreSane = true
  case neg =>
    refine .inr ⟨fun hall => hsane hall.2.1, _, _, book.stagingBids, book.stagingAsks,
      if_pos (by simpa using hsane), h⟩
  rw [if_neg (by simp [hsane])]
  by_cases hbids : WellFormed levels.bids
  case neg =>
    obtain ⟨after, hstage, hafter⟩ := stageLevels_of_not_wellFormed hbids h.1
    rw [hstage]
    exact .inr ⟨fun hall => hbids hall.2.2.1, _, _, after, book.stagingAsks, rfl, hafter, h.2⟩
  have hpositive : ∀ level ∈ book.stagingBids ++ listed levels.bids, Positive level :=
    List.forall_mem_append.mpr ⟨h.1, hbids⟩
  rw [stageLevels_of_wellFormed hbids]
  by_cases hasks : WellFormed levels.asks
  case neg =>
    obtain ⟨after, hstage, hafter⟩ := stageLevels_of_not_wellFormed hasks h.2
    simp only [hstage]
    exact .inr ⟨fun hall => hasks hall.2.2.2, _, _, _, after, rfl, hpositive, hafter⟩
  rw [stageLevels_of_wellFormed hasks]
  exact .inl ⟨hbuilding, ⟨hsane, hbids, hasks⟩, rfl⟩

theorem sortSide_eq_sort (which : Side) (side : List PriceLevel) :
    sortSide which side = Ladder.sort (levelRank which) side := by
  rw [sortSide, Ladder.sort]
  congr! 3 with a b
  rw [isBetter_eq, Bool.not_eq_true', decide_eq_false_iff_not, not_lt]
  rfl

/-- A sorted side without equal neighbours is a ladder. -/
theorem sorted_of_hasDuplicates {which : Side} {side : List PriceLevel}
    (hle : side.Pairwise fun a b => levelRank which a ≤ levelRank which b)
    (hdup : hasDuplicates side = false) : Ladder.Sorted (levelRank which) side := by
  induction side with
  | nil => exact List.Pairwise.nil
  | cons a side ih =>
      obtain ⟨hhead, htail⟩ := List.pairwise_cons.mp hle
      cases side with
      | nil => exact List.pairwise_singleton _ a
      | cons b side =>
          rw [hasDuplicates, Bool.or_eq_false_iff, decide_eq_false_iff_not] at hdup
          have hsorted := ih htail hdup.2
          have hab : levelRank which a < levelRank which b :=
            lt_of_le_of_ne (hhead b List.mem_cons_self) (by simpa [levelRank] using hdup.1)
          refine List.pairwise_cons.mpr ⟨?_, hsorted⟩
          intro c hc
          rcases List.mem_cons.mp hc with rfl | hc
          · exact hab
          · exact hab.trans ((List.pairwise_cons.mp hsorted).1 c hc)

/-- The levels staged for a side. -/
def staging (book : OrderBook) : Side → List PriceLevel
  | .buy => book.stagingBids
  | .sell => book.stagingAsks

/-- The side an image shows once it is sorted and cut. -/
def imageSide (book : OrderBook) (which : Side) : List PriceLevel :=
  (sortSide which (book.staging which)).take book.maxDepth

/-- The staged image may be shown: no price twice, and neither crossed nor locked. -/
def Publishable (book : OrderBook) : Prop :=
  book.buildingSnapshot = true ∧
    (∀ which, hasDuplicates (sortSide which (book.staging which)) = false) ∧
    touchViolation (book.imageSide .buy) (book.imageSide .sell) = .none

instance (book : OrderBook) : Decidable book.Publishable :=
  decidable_of_iff
    (book.buildingSnapshot = true ∧
      (hasDuplicates (sortSide .buy (book.staging .buy)) = false ∧
        hasDuplicates (sortSide .sell (book.staging .sell)) = false) ∧
      touchViolation (book.imageSide .buy) (book.imageSide .sell) = .none)
    (and_congr_right fun _ => and_congr_left fun _ =>
      ⟨fun h which => by cases which with | buy => exact h.1 | sell => exact h.2,
        fun h => ⟨h .buy, h .sell⟩⟩)

/-- The book that shows the staged image. -/
def published (book : OrderBook) (lastUpdateId : Seq64) : OrderBook :=
  { book with
    bids := book.imageSide .buy
    asks := book.imageSide .sell
    stagingBids := []
    stagingAsks := []
    buildingSnapshot := false
    lastUpdateId := lastUpdateId
    snapshotApplied := true
    violated := false
    violation := .none }

/-- What finishing an image does. An image that is refused stays out of sight. -/
theorem finishSnapshot_cases (book : OrderBook) (lastUpdateId : Seq64) :
    (book.Publishable ∧ book.finishSnapshot lastUpdateId = (.ok, book.published lastUpdateId)) ∨
      ¬book.Publishable ∧ ∃ code message after,
        book.finishSnapshot lastUpdateId = (.error code message, after) ∧
          (after = book ∧ book.buildingSnapshot = false ∨
            ∃ bids asks violation, bids ⊆ book.stagingBids ∧ asks ⊆ book.stagingAsks ∧
              after =
                { book with
                  buildingSnapshot := false
                  stagingBids := bids
                  stagingAsks := asks
                  violated := true
                  violation := violation }) := by
  have hbids : sortSide .buy book.stagingBids ⊆ book.stagingBids :=
    (List.perm_insertionSort _ _).subset
  have hasks : sortSide .sell book.stagingAsks ⊆ book.stagingAsks :=
    (List.perm_insertionSort _ _).subset
  rw [finishSnapshot]
  by_cases hbuilding : book.buildingSnapshot = true
  case neg =>
    refine .inr ⟨fun hall => hbuilding hall.1, _, _, _, if_pos (by simpa using hbuilding), ?_⟩
    exact .inl ⟨rfl, by simpa using hbuilding⟩
  rw [if_neg (by simp [hbuilding])]
  by_cases hdup : (hasDuplicates (sortSide .buy book.stagingBids) ||
      hasDuplicates (sortSide .sell book.stagingAsks)) = true
  case pos =>
    refine .inr ⟨?_, _, _, _, if_pos hdup, .inr ⟨_, _, _, hbids, hasks, rfl⟩⟩
    rintro ⟨-, hunique, -⟩
    have hbuy : hasDuplicates (sortSide .buy book.stagingBids) = false := hunique .buy
    have hsell : hasDuplicates (sortSide .sell book.stagingAsks) = false := hunique .sell
    rw [hbuy, hsell] at hdup
    cases hdup
  simp only [if_neg hdup]
  rw [Bool.not_eq_true, Bool.or_eq_false_iff] at hdup
  have hcutBids : (sortSide .buy book.stagingBids).take book.maxDepth ⊆ book.stagingBids :=
    fun _ hmem => hbids (List.mem_of_mem_take hmem)
  have hcutAsks : (sortSide .sell book.stagingAsks).take book.maxDepth ⊆ book.stagingAsks :=
    fun _ hmem => hasks (List.mem_of_mem_take hmem)
  split
  · rename_i htouch
    refine .inl ⟨⟨hbuilding, ?_, htouch⟩, rfl⟩
    rintro (_ | _)
    · exact hdup.1
    · exact hdup.2
  · rename_i htouch
    exact .inr ⟨fun hall => htouch hall.2.2, _, _, _, rfl,
      .inr ⟨_, _, _, hcutBids, hcutAsks, rfl⟩⟩

/-- Everything staged is listed once: sorted, it is a ladder. -/
theorem Publishable.sorted {book : OrderBook} (h : book.Publishable) (which : Side) :
    Ladder.Sorted (levelRank which) (sortSide which (book.staging which)) := by
  have hunique := h.2.1 which
  rw [sortSide_eq_sort] at hunique ⊢
  exact sorted_of_hasDuplicates (Ladder.pairwise_sort _) hunique

theorem StagedPositive.staging {book : OrderBook} (h : book.StagedPositive) {which : Side}
    {level : PriceLevel} (hlevel : level ∈ book.staging which) : Positive level := by
  cases which with
  | buy => exact h.1 level hlevel
  | sell => exact h.2 level hlevel

/-- A side of an image is a ladder within the depth. -/
theorem Publishable.sideShaped {book : OrderBook} (h : book.Publishable)
    (hstaged : book.StagedPositive) (which : Side) :
    SideShaped book.maxDepth which (book.imageSide which) := by
  refine ⟨(h.sorted which).sublist (List.take_sublist _ _), List.length_take_le _ _, ?_⟩
  intro level hlevel
  exact hstaged.staging ((List.perm_insertionSort _ _).subset (List.mem_of_mem_take hlevel))

/-! ## The representation invariant -/

/-- What holds of every book: its shape, that what is staged could be shown, and that a
book which says it is valid is neither crossed nor locked. -/
structure Sound (book : OrderBook) : Prop where
  shaped : book.Shaped
  staged : book.StagedPositive
  touch : book.isValid = true → touchViolation book.bids book.asks = .none

theorem isValid_iff {book : OrderBook} :
    book.isValid = true ↔ book.snapshotApplied = true ∧ book.violated = false := by
  simp [isValid]

theorem Sound.clear (book : OrderBook) : book.clear.Sound where
  shaped := by
    intro which
    cases which <;> exact sideShaped_nil
  staged := ⟨by simp [OrderBook.clear], by simp [OrderBook.clear]⟩
  touch := fun _ => rfl

theorem Sound.beginSnapshot {book : OrderBook} (h : book.Sound) : book.beginSnapshot.Sound where
  shaped := h.shaped
  staged := ⟨by simp [OrderBook.beginSnapshot], by simp [OrderBook.beginSnapshot]⟩
  touch := h.touch

theorem Sound.addSnapshotLevels {book : OrderBook} (h : book.Sound) (levels : BookLevels) :
    (book.addSnapshotLevels levels).2.Sound := by
  rcases addSnapshotLevels_cases h.staged levels with
    ⟨-, ⟨-, hbids, hasks⟩, hadd⟩ | ⟨-, code, message, bids, asks, hadd, hbids, hasks⟩
  · rw [hadd]
    exact ⟨h.shaped, ⟨List.forall_mem_append.mpr ⟨h.staged.1, hbids⟩,
      List.forall_mem_append.mpr ⟨h.staged.2, hasks⟩⟩, h.touch⟩
  · rw [hadd]
    exact ⟨h.shaped, ⟨hbids, hasks⟩, h.touch⟩

theorem Sound.finishSnapshot {book : OrderBook} (h : book.Sound) (lastUpdateId : Seq64) :
    (book.finishSnapshot lastUpdateId).2.Sound := by
  rcases finishSnapshot_cases book lastUpdateId with
    ⟨hpublishable, hfinish⟩ | ⟨-, code, message, after, hfinish, hrefused⟩
  · rw [hfinish]
    refine ⟨?_, ⟨by simp [published], by simp [published]⟩, fun _ => hpublishable.2.2⟩
    intro which
    cases which with
    | buy => exact hpublishable.sideShaped h.staged .buy
    | sell => exact hpublishable.sideShaped h.staged .sell
  · rw [hfinish]
    rcases hrefused with ⟨rfl, -⟩ | ⟨bids, asks, violation, hbids, hasks, rfl⟩
    · exact h
    · refine ⟨h.shaped, ⟨fun level hlevel => h.staged.1 level (hbids hlevel),
        fun level hlevel => h.staged.2 level (hasks hlevel)⟩, ?_⟩
      intro hvalid
      cases (isValid_iff.mp hvalid).2

theorem Sound.applyUpdate {book : OrderBook} (h : book.Sound) (levels : BookLevels)
    (finalUpdateId : Seq64) : (book.applyUpdate levels finalUpdateId).2.Sound := by
  rcases applyUpdate_cases h.shaped levels finalUpdateId with
    ⟨happlicable, dropped, hupdate⟩ | ⟨-, code, message, after, hupdate, hafter⟩
  · rw [hupdate]
    exact ⟨h.shaped.updated happlicable.2.2.2 finalUpdateId dropped, h.staged,
      fun _ => happlicable.2.2.2.2.2⟩
  · rw [hupdate]
    rcases hafter with ⟨rfl, -⟩ | hdamaged
    · exact h
    · refine ⟨hdamaged.shaped, ?_, ?_⟩
      · rw [StagedPositive, hdamaged.stagingBids, hdamaged.stagingAsks]
        exact h.staged
      · intro hvalid
        rw [isValid_iff, hdamaged.violated] at hvalid
        cases hvalid.2

end OrderBook

end MmEngine.Book
