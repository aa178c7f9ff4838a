/-
# The book and the unbounded map

What a venue means by an image and its diffs is a map from prices to quantities: the
image lists the prices that exist, a quantity of zero deletes a price and any other sets
it. A book keeps a bounded part of that map. What it holds is always right. It holds all
of the map as long as the map never outgrows the depth. The best price is right as long
as no deletion of it uncovers a price that was dropped: what the depth cut off does not
come back when there is room for it again.
-/

import MmEngine.Book.Representation
import Mathlib.Data.List.AList

namespace MmEngine.Book

open MmEngine.Exchange

/-- Prices and the quantities resting at them. -/
abbrev PriceMap := AList fun _ : Px => Qty

namespace PriceMap

/-- A quantity of zero deletes, any other sets. -/
def write (map : PriceMap) (level : PriceLevel) : PriceMap :=
  if level.quantity.isZero then map.erase level.price else map.insert level.price level.quantity

def writeAll (map : PriceMap) (levels : List PriceLevel) : PriceMap := levels.foldl write map

/-- The levels of the map, best first. -/
def ladder (which : Side) (map : PriceMap) : List PriceLevel :=
  Ladder.sort (levelRank which) (map.entries.map fun entry => ⟨entry.1, entry.2⟩)

variable {map : PriceMap} {level : PriceLevel} {which : Side}

theorem lookup_write_self (map : PriceMap) (level : PriceLevel) :
    (map.write level).lookup level.price =
      if level.quantity.isZero then none else some level.quantity := by
  rw [write]
  split
  · exact AList.lookup_erase _ _
  · exact AList.lookup_insert _

theorem lookup_write_other {price : Px} (h : price ≠ level.price) :
    (map.write level).lookup price = map.lookup price := by
  rw [write]
  split
  · exact AList.lookup_erase_ne h
  · exact AList.lookup_insert_ne h

theorem mem_ladder : level ∈ ladder which map ↔ map.lookup level.price = some level.quantity := by
  have hmem : level ∈ ladder which map ↔
      level ∈ map.entries.map fun entry => (⟨entry.1, entry.2⟩ : PriceLevel) :=
    (Ladder.perm_sort _).mem_iff
  rw [hmem, List.mem_map]
  constructor
  · rintro ⟨entry, hentry, rfl⟩
    exact AList.mem_lookup_iff.mpr hentry
  · intro hlookup
    exact ⟨⟨level.price, level.quantity⟩, AList.mem_lookup_iff.mp hlookup, rfl⟩

theorem sorted_ladder (which : Side) (map : PriceMap) :
    Ladder.Sorted (levelRank which) (ladder which map) := by
  apply Ladder.sorted_sort
  rw [List.map_map]
  have hkeys :
      (map.entries.map (levelRank which ∘ fun entry => (⟨entry.1, entry.2⟩ : PriceLevel))) =
      map.keys.map (rank which) := by
    rw [AList.keys, List.keys, List.map_map]
    rfl
  rw [hkeys]
  exact map.keys_nodup.map fun _ _ heq => rank_inj.mp heq

end PriceMap

section Tracking

variable {depth : Nat} {which : Side} {side : List PriceLevel} {map : PriceMap} {level : PriceLevel}

/-- Every level of the side is one of the map. -/
def Tracks (side : List PriceLevel) (map : PriceMap) : Prop :=
  ∀ level ∈ side, map.lookup level.price = some level.quantity

/-- Every level of the map is one of the side. -/
def Covers (side : List PriceLevel) (map : PriceMap) : Prop :=
  ∀ level : PriceLevel, map.lookup level.price = some level.quantity → level ∈ side

theorem Tracks.place (h : Tracks side map) :
    Tracks (place depth which side level) (map.write level) := by
  intro held hheld
  rcases mem_place hheld with ⟨rfl, hzero⟩ | ⟨hmem, hne⟩
  · rw [PriceMap.lookup_write_self, hzero]
    rfl
  · rw [PriceMap.lookup_write_other hne]
    exact h held hmem

/-- A side holds no more levels than the map it tracks. -/
theorem Tracks.length_le (h : Tracks side map) (hsorted : Ladder.Sorted (levelRank which) side) :
    side.length ≤ map.keys.length := by
  have hnodup : (side.map PriceLevel.price).Nodup :=
    List.pairwise_map.mpr (hsorted.imp fun hlt heq => hlt.ne (levelRank_eq_iff.mpr heq))
  have hsubset : side.map PriceLevel.price ⊆ map.keys := by
    intro price hprice
    obtain ⟨held, hheld, rfl⟩ := List.mem_map.mp hprice
    exact AList.lookup_isSome.mp (by rw [h held hheld]; rfl)
  simpa using (List.subperm_of_subset hnodup hsubset).length_le

theorem Covers.eq_ladder (hcovers : Covers side map) (htracks : Tracks side map)
    (hsorted : Ladder.Sorted (levelRank which) side) : side = map.ladder which := by
  apply hsorted.ext (PriceMap.sorted_ladder which map)
  intro level
  rw [PriceMap.mem_ladder]
  exact ⟨htracks level, hcovers level⟩

/-- A map within the depth is held in full. -/
theorem Covers.place (hcovers : Covers side map) (htracks : Tracks side map)
    (hshape : SideShaped depth which side) (hsize : (map.write level).keys.length ≤ depth) :
    Covers (place depth which side level) (map.write level) := by
  intro held hheld
  rw [Book.place]
  by_cases hzero : level.quantity.isZero = true
  · rw [if_pos hzero, Ladder.mem_erase, Ne, levelRank_eq_iff]
    by_cases hprice : held.price = level.price
    · rw [hprice, PriceMap.lookup_write_self, if_pos hzero] at hheld
      cases hheld
    · rw [PriceMap.lookup_write_other hprice] at hheld
      exact ⟨hcovers held hheld, hprice⟩
  · have hfits : (Ladder.put (levelRank which) level side).length ≤ depth := by
      by_cases hmem : ∃ known ∈ side, known.price = level.price
      · obtain ⟨known, hknown, hprice⟩ := hmem
        rw [Ladder.length_put_of_mem hshape.sorted hknown (levelRank_eq_iff.mpr hprice)]
        exact hshape.length_le
      · have habsent : level.price ∉ map := by
          intro hin
          obtain ⟨quantity, hquantity⟩ := Option.isSome_iff_exists.mp (AList.lookup_isSome.mpr hin)
          exact hmem ⟨⟨level.price, quantity⟩, hcovers ⟨level.price, quantity⟩ hquantity, rfl⟩
        have hkeys : (map.write level).keys.length = map.keys.length + 1 := by
          rw [PriceMap.write, if_neg hzero, AList.keys_insert, List.length_cons,
            List.erase_of_not_mem (fun hin => habsent (AList.mem_keys.mpr hin))]
        rw [Ladder.length_put]
        · have := htracks.length_le hshape.sorted
          omega
        · intro known hknown heq
          exact hmem ⟨known, hknown, levelRank_eq_iff.mp heq⟩
    rw [if_neg hzero, List.take_of_length_le hfits, Ladder.mem_put, Ne, levelRank_eq_iff]
    by_cases hprice : held.price = level.price
    · rw [hprice, PriceMap.lookup_write_self, if_neg hzero, Option.some.injEq] at hheld
      exact .inl (PriceLevel.ext hprice hheld.symm)
    · rw [PriceMap.lookup_write_other hprice] at hheld
      exact .inr ⟨hcovers held hheld, hprice⟩

/-! ## The touch -/

/-- No price of the map is better than the best level of the side. -/
def TouchExact (which : Side) (side : List PriceLevel) (map : PriceMap) : Prop :=
  ∀ price ∈ map, ∃ best ∈ side.head?, rank which best.price ≤ rank which price

theorem touchExact_iff (htracks : Tracks side map) :
    TouchExact which side map ↔ side.head? = (map.ladder which).head? := by
  have hmem : ∀ price ∈ map, ∃ held ∈ map.ladder which, held.price = price := by
    intro price hprice
    obtain ⟨quantity, hquantity⟩ := Option.isSome_iff_exists.mp (AList.lookup_isSome.mpr hprice)
    exact ⟨⟨price, quantity⟩, PriceMap.mem_ladder.mpr hquantity, rfl⟩
  constructor
  · intro hexact
    cases hladder : (map.ladder which).head? with
    | none =>
        rw [List.head?_eq_none_iff] at hladder
        cases hside : side.head? with
        | none => rfl
        | some best =>
            have hbest : best ∈ map.ladder which :=
              PriceMap.mem_ladder.mpr (htracks best (List.mem_of_mem_head? hside))
            rw [hladder] at hbest
            cases hbest
    | some top =>
        have htop := PriceMap.mem_ladder.mp (List.mem_of_mem_head? hladder)
        obtain ⟨best, hbest, hle⟩ :=
          hexact top.price (AList.lookup_isSome.mp (by rw [htop]; rfl))
        have hin : best ∈ map.ladder which :=
          PriceMap.mem_ladder.mpr (htracks best (List.mem_of_mem_head? hbest))
        have hge := (PriceMap.sorted_ladder which map).head?_le hladder hin
        rw [hbest, (PriceMap.sorted_ladder which map).eq_of_key_eq hin
          (List.mem_of_mem_head? hladder) (le_antisymm hle hge)]
  · intro hheads price hprice
    obtain ⟨held, hheld, rfl⟩ := hmem price hprice
    obtain ⟨top, htop⟩ := Option.isSome_iff_exists.mp
      (List.isSome_head?.mpr (List.ne_nil_of_mem hheld))
    refine ⟨top, by rw [hheads, htop]; rfl, ?_⟩
    exact (PriceMap.sorted_ladder which map).head?_le htop hheld

/-- The level does not delete the best price over one that the side is missing: when it
deletes the best price, the next level of the side is as good as any other price of the
map. -/
def KeepsTouch (which : Side) (level : PriceLevel) (s : List PriceLevel × PriceMap) : Prop :=
  level.quantity.isZero = true → (∃ best ∈ s.1.head?, best.price = level.price) →
    ∀ price ∈ s.2, price ≠ level.price →
      ∃ next ∈ s.1.tail.head?, rank which next.price ≤ rank which price

instance (which : Side) (level : PriceLevel) (s : List PriceLevel × PriceMap) :
    Decidable (KeepsTouch which level s) :=
  inferInstanceAs (Decidable (_ → _ → ∀ price ∈ s.2.keys, _))

/-- One level on the side and on the map. -/
def track (depth : Nat) (which : Side) (level : PriceLevel) (s : List PriceLevel × PriceMap) :
    List PriceLevel × PriceMap :=
  (place depth which s.1 level, s.2.write level)

/-- One level keeps the touch exact exactly when it does not uncover a missing price. -/
theorem touchExact_track_iff (hdepth : 0 < depth) {s : List PriceLevel × PriceMap}
    (hsorted : Ladder.Sorted (levelRank which) s.1) (hexact : TouchExact which s.1 s.2) :
    TouchExact which (track depth which level s).1 (track depth which level s).2 ↔
      KeepsTouch which level s := by
  obtain ⟨side, map⟩ := s
  simp only [track, PriceMap.write, place]
  by_cases hzero : level.quantity.isZero = true
  · simp only [if_pos hzero, TouchExact, AList.mem_erase]
    by_cases hbest : ∃ best ∈ side.head?, best.price = level.price
    · -- The best level goes, and the next one takes its place.
      obtain ⟨best, hhead, hprice⟩ := hbest
      obtain ⟨tail, rfl⟩ := List.head?_eq_some_iff.mp hhead
      have hrest :
          Ladder.erase (levelRank which) (levelRank which level) (best :: tail) = tail := by
        rw [Ladder.erase, List.filter_cons_of_neg (by simp [levelRank_eq_iff, hprice])]
        apply Ladder.erase_eq_self
        intro held hheld
        rw [← levelRank_eq_iff.mpr hprice]
        exact ((List.pairwise_cons.mp hsorted).1 held hheld).ne'
      rw [hrest]
      constructor
      · intro hafter _ _ price hmem hne
        exact hafter price ⟨hne, hmem⟩
      · intro hkeeps price hmem
        exact hkeeps hzero ⟨best, rfl, hprice⟩ price hmem.2 hmem.1
    · refine iff_of_true ?_ fun _ hhead => absurd hhead hbest
      rintro price ⟨-, hmem⟩
      obtain ⟨best, hhead, hle⟩ := hexact price hmem
      obtain ⟨tail, rfl⟩ := List.head?_eq_some_iff.mp hhead
      have hne : best.price ≠ level.price := fun hprice => hbest ⟨best, hhead, hprice⟩
      refine ⟨best, ?_, hle⟩
      rw [Ladder.erase, List.filter_cons_of_pos (by simp [levelRank_eq_iff, hne])]
      rfl
  · refine iff_of_true ?_ fun hdelete => absurd hdelete hzero
    simp only [if_neg hzero, TouchExact, AList.mem_insert, List.head?_take, if_neg hdepth.ne']
    have hput := hsorted.put level
    have hlevel : level ∈ Ladder.put (levelRank which) level side := Ladder.mem_put.mpr (.inl rfl)
    obtain ⟨top, htop⟩ := Option.isSome_iff_exists.mp
      (List.isSome_head?.mpr (List.ne_nil_of_mem hlevel))
    intro price hmem
    refine ⟨top, htop, ?_⟩
    rcases hmem with rfl | hmem
    · exact hput.head?_le htop hlevel
    · obtain ⟨best, hhead, hle⟩ := hexact price hmem
      by_cases hprice : best.price = level.price
      · rw [hprice] at hle
        exact (hput.head?_le htop hlevel).trans hle
      · have hin : best ∈ Ladder.put (levelRank which) level side :=
          Ladder.mem_put.mpr (.inr ⟨List.mem_of_mem_head? hhead,
            fun heq => hprice (levelRank_eq_iff.mp heq)⟩)
        exact (hput.head?_le htop hin).trans hle

/-- The levels a side is fed, one by one. -/
theorem run_track (levels : List PriceLevel) (s : List PriceLevel × PriceMap) :
    Machine.run (track depth which) levels s =
      (placeAll depth which levels s.1, s.2.writeAll levels) := by
  induction levels generalizing s with
  | nil => rfl
  | cons level levels ih =>
      rw [Machine.run_cons, ih]
      rfl

/-- A side and a map that agree on what the side holds. -/
structure Mirrors (depth : Nat) (which : Side) (s : List PriceLevel × PriceMap) : Prop where
  shaped : SideShaped depth which s.1
  tracks : Tracks s.1 s.2

theorem Mirrors.track {s : List PriceLevel × PriceMap} (h : Mirrors depth which s)
    (hlevel : Acceptable level) : Mirrors depth which (track depth which level s) :=
  ⟨h.shaped.place hlevel, h.tracks.place⟩

theorem Mirrors.run {levels : List PriceLevel} {s : List PriceLevel × PriceMap}
    (h : Mirrors depth which s) (hlevels : ∀ level ∈ levels, Acceptable level) :
    Mirrors depth which (Machine.run (Book.track depth which) levels s) :=
  Machine.invariant_run (fun _ _ hs hlevel => hs.track hlevel) h
    (Machine.along_label_iff.mpr hlevels)

/-- A map that is within the depth all along is held in full at the end. -/
theorem covers_run {levels : List PriceLevel} {s : List PriceLevel × PriceMap}
    (h : Mirrors depth which s) (hlevels : ∀ level ∈ levels, Acceptable level)
    (hcovers : Covers s.1 s.2) (hsize : ∀ n, (s.2.writeAll (levels.take n)).keys.length ≤ depth) :
    Covers (Machine.run (track depth which) levels s).1
      (Machine.run (track depth which) levels s).2 := by
  induction levels generalizing s with
  | nil => exact hcovers
  | cons level levels ih =>
      obtain ⟨hlevel, hrest⟩ := List.forall_mem_cons.mp hlevels
      apply ih (h.track hlevel) hrest
      · exact hcovers.place h.tracks h.shaped (hsize 1)
      · exact fun n => hsize (n + 1)

/-- The touch is exact after every level exactly when none of them uncovers a missing
price. -/
theorem touchExact_run_iff (hdepth : 0 < depth) {levels : List PriceLevel}
    {s : List PriceLevel × PriceMap} (hsorted : Ladder.Sorted (levelRank which) s.1)
    (hexact : TouchExact which s.1 s.2) :
    (∀ n, TouchExact which (Machine.run (track depth which) (levels.take n) s).1
        (Machine.run (track depth which) (levels.take n) s).2) ↔
      Machine.Along (track depth which) (KeepsTouch which) levels s :=
  Machine.forall_take_iff_along
    (I := fun s : List PriceLevel × PriceMap => TouchExact which s.1 s.2)
    (J := fun s => Ladder.Sorted (levelRank which) s.1)
    (fun level _ hsorted => sorted_place hsorted depth level)
    (fun _ _ hsorted hexact => touchExact_track_iff hdepth hsorted hexact) hsorted hexact

/-- Levels at distinct prices are what the map says about them. -/
theorem lookup_writeAll {levels : List PriceLevel}
    (hexist : ∀ level ∈ levels, ¬level.quantity.isZero = true)
    (hprices : (levels.map PriceLevel.price).Nodup) (map : PriceMap) (held : PriceLevel) :
    (map.writeAll levels).lookup held.price = some held.quantity ↔
      held ∈ levels ∨ held.price ∉ levels.map PriceLevel.price ∧
        map.lookup held.price = some held.quantity := by
  induction levels generalizing map with
  | nil => simp [PriceMap.writeAll]
  | cons level levels ih =>
      obtain ⟨hlevel, hrest⟩ := List.forall_mem_cons.mp hexist
      rw [List.map_cons, List.nodup_cons] at hprices
      rw [show map.writeAll (level :: levels) = (map.write level).writeAll levels from rfl,
        ih hrest hprices.2, List.mem_cons, List.map_cons, List.mem_cons]
      by_cases hprice : held.price = level.price
      · have hnot : held ∉ levels := fun hmem =>
          hprices.1 (hprice ▸ List.mem_map_of_mem hmem)
        rw [hprice, PriceMap.lookup_write_self, if_neg hlevel, Option.some.injEq]
        constructor
        · rintro (hmem | ⟨-, hquantity⟩)
          · exact absurd hmem hnot
          · exact .inl (.inl (PriceLevel.ext hprice hquantity.symm))
        · rintro ((rfl | hmem) | ⟨hne, -⟩)
          · exact .inr ⟨hprices.1, rfl⟩
          · exact absurd hmem hnot
          · exact absurd (.inl rfl) hne
      · rw [PriceMap.lookup_write_other hprice]
        have hne : held ≠ level := fun heq => hprice (heq ▸ rfl)
        simp [hprice, hne]

/-- The map of an image that may be shown holds what was staged. -/
theorem OrderBook.Publishable.mem_sortSide_iff {book : OrderBook} (h : book.Publishable)
    (hstaged : book.StagedPositive) (which : Side) (level : PriceLevel) :
    level ∈ sortSide which (book.staging which) ↔
      (PriceMap.writeAll ∅ (book.staging which)).lookup level.price = some level.quantity := by
  have hperm : (sortSide which (book.staging which)).Perm (book.staging which) :=
    List.perm_insertionSort _ _
  have hexist : ∀ level ∈ book.staging which, ¬level.quantity.isZero = true := by
    intro level hlevel
    have hpositive := hstaged.staging hlevel
    rw [Fixed.isZero_iff]
    exact hpositive.2.ne'
  have hsorted : (sortSide which (book.staging which)).Pairwise fun a b => a.price ≠ b.price :=
    (h.sorted which).imp fun hlt heq => hlt.ne (levelRank_eq_iff.mpr heq)
  have hprices : ((book.staging which).map PriceLevel.price).Nodup :=
    (hperm.map PriceLevel.price).nodup_iff.mp (List.pairwise_map.mpr hsorted)
  rw [hperm.mem_iff, lookup_writeAll hexist hprices]
  simp

theorem OrderBook.Publishable.mirrors {book : OrderBook} (h : book.Publishable)
    (hstaged : book.StagedPositive) (which : Side) :
    Mirrors book.maxDepth which
      (book.imageSide which, PriceMap.writeAll ∅ (book.staging which)) := by
  refine ⟨h.sideShaped hstaged which, ?_⟩
  intro level hlevel
  exact (h.mem_sortSide_iff hstaged which level).mp (List.mem_of_mem_take hlevel)

theorem OrderBook.Publishable.covers {book : OrderBook} (h : book.Publishable)
    (hstaged : book.StagedPositive) (which : Side)
    (hsize : (PriceMap.writeAll ∅ (book.staging which)).keys.length ≤ book.maxDepth) :
    Covers (book.imageSide which) (PriceMap.writeAll ∅ (book.staging which)) := by
  have htracks : Tracks (sortSide which (book.staging which))
      (PriceMap.writeAll ∅ (book.staging which)) := fun level hlevel =>
    (h.mem_sortSide_iff hstaged which level).mp hlevel
  have hlength := htracks.length_le (h.sorted which)
  intro level hlookup
  rw [OrderBook.imageSide, List.take_of_length_le (hlength.trans hsize)]
  exact (h.mem_sortSide_iff hstaged which level).mpr hlookup

theorem OrderBook.Publishable.touchExact {book : OrderBook} (h : book.Publishable)
    (hstaged : book.StagedPositive) (hdepth : 0 < book.maxDepth) (which : Side) :
    TouchExact which (book.imageSide which) (PriceMap.writeAll ∅ (book.staging which)) := by
  intro price hprice
  obtain ⟨quantity, hquantity⟩ := Option.isSome_iff_exists.mp (AList.lookup_isSome.mpr hprice)
  have hmem := (h.mem_sortSide_iff hstaged which ⟨price, quantity⟩).mpr hquantity
  obtain ⟨top, htop⟩ := Option.isSome_iff_exists.mp
    (List.isSome_head?.mpr (List.ne_nil_of_mem hmem))
  refine ⟨top, ?_, (h.sorted which).head?_le htop hmem⟩
  rw [OrderBook.imageSide, List.head?_take, if_neg hdepth.ne']
  exact htop

end Tracking

/-- The levels of an event on a side. -/
def sideLevels (which : Side) (levels : BookLevels) : List PriceLevel :=
  match which with
  | .buy => levels.bids
  | .sell => levels.asks

namespace OrderBook

/-- Loading an image that comes in chunks. -/
def loadOps (chunks : List BookLevels) (lastUpdateId : Seq64) : List Op :=
  .beginSnapshot :: (chunks.map .addSnapshotLevels ++ [.finishSnapshot lastUpdateId])

/-- Applying updates, each with its final identifier. -/
def updateOps (updates : List (BookLevels × Seq64)) : List Op :=
  updates.map fun update => .applyUpdate update.1 update.2

/-- The levels an image lists on a side. -/
def imageLevels (which : Side) (chunks : List BookLevels) : List PriceLevel :=
  chunks.flatMap fun chunk => listed (sideLevels which chunk)

/-- The levels that updates bring to a side. -/
def updateLevels (which : Side) (updates : List (BookLevels × Seq64)) : List PriceLevel :=
  updates.flatMap fun update => sideLevels which update.1

/-- The unbounded map of an image and updates on a side. -/
def priceMap (which : Side) (chunks : List BookLevels) (updates : List (BookLevels × Seq64)) :
    PriceMap :=
  PriceMap.writeAll ∅ (imageLevels which chunks ++ updateLevels which updates)

/-- Chunks that are all staged. -/
theorem run_addSnapshotLevels {chunks : List BookLevels} {book : OrderBook}
    (hstaged : book.StagedPositive)
    (h : Machine.Along step Succeeds (chunks.map .addSnapshotLevels) book) :
    (Machine.run step (chunks.map .addSnapshotLevels) book).StagedPositive ∧
      Machine.run step (chunks.map .addSnapshotLevels) book =
        { book with
          stagingBids := book.stagingBids ++ imageLevels .buy chunks
          stagingAsks := book.stagingAsks ++ imageLevels .sell chunks } := by
  induction chunks generalizing book with
  | nil =>
      refine ⟨hstaged, ?_⟩
      simp [imageLevels]
  | cons chunk chunks ih =>
      obtain ⟨hfirst, hrest⟩ := h
      rcases addSnapshotLevels_cases hstaged chunk with
        ⟨-, ⟨-, hbids, hasks⟩, hadd⟩ | ⟨-, code, message, bids, asks, hadd, -⟩
      · have hstep : step (.addSnapshotLevels chunk) book =
            { book with
              stagingBids := book.stagingBids ++ listed chunk.bids
              stagingAsks := book.stagingAsks ++ listed chunk.asks } := by
          rw [step, call, hadd]
        have hnext : (step (.addSnapshotLevels chunk) book).StagedPositive := by
          rw [hstep]
          exact ⟨List.forall_mem_append.mpr ⟨hstaged.1, hbids⟩,
            List.forall_mem_append.mpr ⟨hstaged.2, hasks⟩⟩
        obtain ⟨hpositive, hrun⟩ := ih hnext hrest
        rw [List.map_cons, Machine.run_cons]
        refine ⟨hpositive, ?_⟩
        rw [hrun, hstep]
        simp [imageLevels, sideLevels]
      · rw [Succeeds, call, hadd] at hfirst
        cases hfirst

/-- An accepted image: what was staged could be shown, and is. -/
theorem run_loadOps {chunks : List BookLevels} {lastUpdateId : Seq64} {book : OrderBook}
    (h : Machine.Along step Succeeds (loadOps chunks lastUpdateId) book) :
    ∃ staged : OrderBook, staged.Publishable ∧ staged.StagedPositive ∧
      (∀ which, staged.staging which = imageLevels which chunks) ∧
      staged.maxDepth = book.maxDepth ∧ staged.symbol = book.symbol ∧
      Machine.run step (loadOps chunks lastUpdateId) book = staged.published lastUpdateId := by
  obtain ⟨-, hload⟩ := h
  obtain ⟨hadds, hfinish, -⟩ := Machine.Along.append_iff.mp hload
  have hbegin : (step .beginSnapshot book).StagedPositive := ⟨by simp [step, call, beginSnapshot],
    by simp [step, call, beginSnapshot]⟩
  obtain ⟨hstaged, hrun⟩ := run_addSnapshotLevels hbegin hadds
  rw [loadOps, Machine.run_cons, Machine.run_append]
  rcases finishSnapshot_cases (Machine.run step (chunks.map .addSnapshotLevels)
      (step .beginSnapshot book)) lastUpdateId with
    ⟨hpublishable, hpublished⟩ | ⟨-, code, message, after, hrefused, -⟩
  · refine ⟨_, hpublishable, hstaged, ?_, ?_, ?_, ?_⟩
    · rw [hrun]
      rintro (_ | _) <;> rfl
    · rw [hrun]
      rfl
    · rw [hrun]
      rfl
    · rw [Machine.run_cons, Machine.run_nil, step, call, hpublished]
  · rw [Succeeds, call, hrefused] at hfinish
    cases hfinish

/-- Updates that are all applied move each side level by level. -/
theorem run_updateOps {updates : List (BookLevels × Seq64)} {book : OrderBook}
    (hshaped : book.Shaped) (h : Machine.Along step Succeeds (updateOps updates) book)
    (which : Side) :
    (∀ level ∈ updateLevels which updates, Acceptable level) ∧
      (Machine.run step (updateOps updates) book).side which =
        placeAll book.maxDepth which (updateLevels which updates) (book.side which) := by
  induction updates generalizing book with
  | nil => exact ⟨by simp [updateLevels], rfl⟩
  | cons update updates ih =>
      obtain ⟨hfirst, hrest⟩ := h
      rcases applyUpdate_cases hshaped update.1 update.2 with
        ⟨happlicable, dropped, hupdate⟩ | ⟨-, code, message, after, hupdate, -⟩
      · have hstep : step (.applyUpdate update.1 update.2) book =
            book.updated update.1 update.2 dropped := by
          rw [step, call, hupdate]
        have haccepts := happlicable.2.2.2
        rw [hstep] at hrest
        obtain ⟨hlevels, hside⟩ := ih (hshaped.updated haccepts update.2 dropped) hrest
        rw [updateLevels, List.flatMap_cons, placeAll_append]
        refine ⟨List.forall_mem_append.mpr ⟨?_, hlevels⟩, ?_⟩
        · cases which with
          | buy => exact haccepts.1
          | sell => exact haccepts.2.1
        · rw [updateOps, List.map_cons, Machine.run_cons, hstep]
          rw [updateOps, updateLevels] at hside
          rw [hside]
          cases which <;> rfl
      · rw [Succeeds, call, hupdate] at hfirst
        cases hfirst

/-- What the sides and their maps are after an accepted image and accepted updates. -/
theorem mirrors_load {chunks : List BookLevels} {lastUpdateId : Seq64} {book : OrderBook}
    (h : Machine.Along step Succeeds (loadOps chunks lastUpdateId) book) (which : Side) :
    (Machine.run step (loadOps chunks lastUpdateId) book).Shaped ∧
      (Machine.run step (loadOps chunks lastUpdateId) book).maxDepth = book.maxDepth ∧
      Mirrors book.maxDepth which
        ((Machine.run step (loadOps chunks lastUpdateId) book).side which,
          priceMap which chunks []) ∧
      (0 < book.maxDepth → TouchExact which
        ((Machine.run step (loadOps chunks lastUpdateId) book).side which)
        (priceMap which chunks [])) ∧
      ((priceMap which chunks []).keys.length ≤ book.maxDepth → Covers
        ((Machine.run step (loadOps chunks lastUpdateId) book).side which)
        (priceMap which chunks [])) := by
  obtain ⟨staged, hpublishable, hstaged, himage, hdepth, -, hrun⟩ := run_loadOps h
  have hmap : priceMap which chunks [] = PriceMap.writeAll ∅ (staged.staging which) := by
    rw [himage, priceMap, updateLevels, List.flatMap_nil, List.append_nil]
  have hside : ∀ which, (staged.published lastUpdateId).side which = staged.imageSide which := by
    rintro (_ | _) <;> rfl
  rw [hrun, hmap, hside, ← hdepth]
  refine ⟨?_, rfl, hpublishable.mirrors hstaged which, fun hpos =>
    hpublishable.touchExact hstaged hpos which, hpublishable.covers hstaged which⟩
  intro other
  rw [hside]
  exact hpublishable.sideShaped hstaged other

/-- The side after an accepted image and accepted updates, and its map, are a run of the
levels from the image. -/
theorem run_track_load {chunks : List BookLevels} {lastUpdateId : Seq64}
    {updates : List (BookLevels × Seq64)} {book : OrderBook}
    (h : Machine.Along step Succeeds (loadOps chunks lastUpdateId ++ updateOps updates) book)
    (which : Side) :
    (∀ level ∈ updateLevels which updates, Acceptable level) ∧
      Machine.run (track book.maxDepth which) (updateLevels which updates)
          ((Machine.run step (loadOps chunks lastUpdateId) book).side which,
            priceMap which chunks []) =
        ((Machine.run step (loadOps chunks lastUpdateId ++ updateOps updates) book).side which,
          priceMap which chunks updates) := by
  obtain ⟨hload, hupdates⟩ := Machine.Along.append_iff.mp h
  obtain ⟨hshaped, hdepth, -⟩ := mirrors_load hload which
  obtain ⟨hlevels, hside⟩ := run_updateOps hshaped hupdates which
  refine ⟨hlevels, ?_⟩
  rw [run_track, Machine.run_append, hside, hdepth]
  simp [priceMap, PriceMap.writeAll, updateLevels]

/-- Every level a book holds is what the unbounded map says about its price; and a side
whose map never outgrows the depth is that map, best first. -/
theorem tracked_levels_exact {chunks : List BookLevels} {lastUpdateId : Seq64}
    {updates : List (BookLevels × Seq64)} {book : OrderBook}
    (h : Machine.Along step Succeeds (loadOps chunks lastUpdateId ++ updateOps updates) book)
    (which : Side) :
    (∀ level ∈
        (Machine.run step (loadOps chunks lastUpdateId ++ updateOps updates) book).side which,
      (priceMap which chunks updates).lookup level.price = some level.quantity) ∧
      ((∀ n, (PriceMap.writeAll ∅ (imageLevels which chunks ++
          (updateLevels which updates).take n)).keys.length ≤ book.maxDepth) →
        (Machine.run step (loadOps chunks lastUpdateId ++ updateOps updates) book).side which =
          (priceMap which chunks updates).ladder which) := by
  obtain ⟨-, -, hmirrors, -, hcovers⟩ :=
    mirrors_load (Machine.Along.append_iff.mp h).1 which
  obtain ⟨hlevels, hrun⟩ := run_track_load h which
  have hend := hmirrors.run hlevels
  rw [hrun] at hend
  refine ⟨hend.tracks, fun hsize => ?_⟩
  have hfull := covers_run hmirrors hlevels
    (hcovers (by simpa [priceMap, updateLevels] using hsize 0))
    (fun n => by simpa [priceMap, updateLevels, PriceMap.writeAll] using hsize n)
  rw [hrun] at hfull
  exact hfull.eq_ladder hend.tracks hend.shaped.sorted

/-- In every run in which no deletion of a best price uncovers a price that the book is
missing, the best bid and ask are those of the unbounded map, after the image and after
every update. -/
theorem best_exact_of_keepsTouch {chunks : List BookLevels} {lastUpdateId : Seq64}
    {updates : List (BookLevels × Seq64)} {book : OrderBook} (hdepth : 0 < book.maxDepth)
    (h : Machine.Along step Succeeds (loadOps chunks lastUpdateId ++ updateOps updates) book)
    (hkeeps : ∀ which, Machine.Along (track book.maxDepth which) (KeepsTouch which)
      (updateLevels which updates)
      ((Machine.run step (loadOps chunks lastUpdateId) book).side which, priceMap which chunks []))
    (n : Nat) (which : Side) :
    (Machine.run step (loadOps chunks lastUpdateId ++ updateOps (updates.take n)) book).best which =
      ((priceMap which chunks (updates.take n)).ladder which).head? := by
  have hops : updateOps updates = updateOps (updates.take n) ++ updateOps (updates.drop n) := by
    rw [updateOps, updateOps, updateOps, ← List.map_append, List.take_append_drop]
  have hlevels : updateLevels which updates =
      updateLevels which (updates.take n) ++ updateLevels which (updates.drop n) := by
    rw [updateLevels, updateLevels, updateLevels, ← List.flatMap_append, List.take_append_drop]
  rw [hops, ← List.append_assoc] at h
  have hprefix := (Machine.Along.append_iff.mp h).1
  have hkeeps := hkeeps which
  rw [hlevels] at hkeeps
  obtain ⟨-, -, hmirrors, hexact, -⟩ :=
    mirrors_load (Machine.Along.append_iff.mp hprefix).1 which
  obtain ⟨hacceptable, hrun⟩ := run_track_load hprefix which
  have hend := hmirrors.run hacceptable
  have htouch := (touchExact_run_iff hdepth hmirrors.shaped.sorted (hexact hdepth)).mpr
    (Machine.Along.append_iff.mp hkeeps).1 (updateLevels which (updates.take n)).length
  rw [List.take_length, hrun] at htouch
  rw [hrun] at hend
  exact (touchExact_iff hend.tracks).mp htouch

/-- Two bids, of which a book of depth one keeps the better; then it is deleted. -/
def thinChunks : List BookLevels := [{ bids := [sampleLevel 100 5, sampleLevel 99 3] }]

def thinUpdates : List (BookLevels × Seq64) := [({ bids := [sampleLevel 100 0] }, 11)]

/-- The second bid was cut off and does not come back: the book has no best bid. -/
theorem best_missing_after_deletion :
    Machine.Along step Succeeds (loadOps thinChunks 10 ++ updateOps thinUpdates) (new .empty 1) ∧
      (Machine.run step (loadOps thinChunks 10 ++ updateOps thinUpdates) (new .empty 1)).best .buy =
        none ∧
      ((priceMap .buy thinChunks thinUpdates).ladder .buy).head? = some (sampleLevel 99 3) := by
  decide +kernel

/-- With a depth of two the same updates are tracked in full. -/
theorem tracked_levels_exact_thin :
    (Machine.run step (loadOps thinChunks 10 ++ updateOps thinUpdates) (new .empty 2)).side .buy =
      (priceMap .buy thinChunks thinUpdates).ladder .buy := by
  refine (tracked_levels_exact (by decide +kernel) .buy).2 ?_
  rintro (_ | n)
  · decide +kernel
  · rw [List.take_of_length_le (Nat.le_add_left 1 n)]
    decide +kernel

theorem best_exact_of_keepsTouch_thin :
    (Machine.run step (loadOps thinChunks 10 ++ updateOps (thinUpdates.take 1)) (new .empty 2)).best
        .buy = some (sampleLevel 99 3) := by
  rw [best_exact_of_keepsTouch (by decide) (by decide +kernel)
    (by rintro (_ | _) <;> decide +kernel) 1 .buy]
  decide +kernel

end OrderBook

end MmEngine.Book
