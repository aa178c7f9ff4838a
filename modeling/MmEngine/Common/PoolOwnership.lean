/-
# Every object of the pool has one owner

The first `freeCount` entries of the free list are the indices whose flag is down, each of
them once. No call can break this, whatever index it names: an index goes on the stack only
while its flag is up, and then it is not there already. So the pool is an allocator that
keeps its free places on a stack, and what such an allocator promises its callers holds of
the pool in every run.
-/

import MmEngine.Common.ObjectPool
import MmEngine.Lib.Ownership

universe u

namespace MmEngine

open Ownership

variable {α : Type u} {cap : PoolCapacity} {idx : PoolIndex}

namespace PoolCapacity

/-- The indices of the slots. -/
def indices (cap : PoolCapacity) : Finset PoolIndex :=
  (Finset.range cap.value).image (BitVec.ofNat 32)

variable (cap)

theorem toNat_ofNat {i : Nat} (hlt : i < cap.value) : (BitVec.ofNat 32 i).toNat = i := by
  have hle := cap.le_max
  rw [BitVec.toNat_ofNat, Nat.mod_eq_of_lt (by omega)]

theorem mem_indices : idx ∈ cap.indices ↔ idx.toNat < cap.value := by
  rw [indices, Finset.mem_image]
  constructor
  · rintro ⟨i, hi, rfl⟩
    rw [Finset.mem_range] at hi
    rw [cap.toNat_ofNat hi]
    exact hi
  · intro hlt
    exact ⟨idx.toNat, Finset.mem_range.mpr hlt, by rw [BitVec.ofNat_toNat, BitVec.setWidth_eq]⟩

theorem ofNat_inj {i j : Nat} (hi : i < cap.value) (hj : j < cap.value)
    (h : BitVec.ofNat 32 i = BitVec.ofNat 32 j) : i = j := by
  rw [← cap.toNat_ofNat hi, h, cap.toNat_ofNat hj]

theorem card_indices : cap.indices.card = cap.value := by
  rw [indices, Finset.card_image_of_injOn, Finset.card_range]
  intro i hi j hj h
  rw [Finset.coe_range, Set.mem_Iio] at hi hj
  exact cap.ofNat_inj hi hj h

/-- The invalid index is no index of a slot. -/
theorem kInvalidIndex_notMem : kInvalidIndex ∉ cap.indices := by
  have hle := cap.le_max
  rw [mem_indices, kInvalidIndex, BitVec.toNat_allOnes]
  omega

end PoolCapacity

namespace ObjectPool

variable {pool pool' : ObjectPool α cap}

/-- The entries of the free list that count. -/
def free (pool : ObjectPool α cap) : List PoolIndex := pool.freeList.take pool.freeCount

/-- The indices in use. -/
def live (pool : ObjectPool α cap) : Finset PoolIndex :=
  cap.indices.filter fun idx => pool.isLive idx = true

theorem mem_live : idx ∈ pool.live ↔ pool.isLive idx = true := by
  rw [live, Finset.mem_filter, cap.mem_indices, and_iff_right_iff_imp, isLive, Bool.and_eq_true]
  exact fun h => of_decide_eq_true h.1

theorem isLive_eq_false_iff (hlt : idx.toNat < cap.value) :
    pool.isLive idx = false ↔ pool.inUse[idx.toNat]? = some false := by
  have hflag : idx.toNat < pool.inUse.length := by
    rw [pool.length_inUse]
    exact hlt
  rw [isLive, decide_eq_true hlt, Bool.true_and, List.getD_eq_getElem?_getD,
    List.getElem?_eq_getElem hflag, Option.getD_some, Option.some.injEq]

/-- Writing one flag. -/
theorem isLive_of_set {flag : Bool} (hflags : pool'.inUse = pool.inUse.set idx.toNat flag)
    (hlt : idx.toNat < cap.value) (other : PoolIndex) :
    pool'.isLive other = if other = idx then flag else pool.isLive other := by
  rw [isLive, isLive, hflags, List.getD_eq_getElem?_getD, List.getD_eq_getElem?_getD]
  split
  · rename_i heq
    rw [heq, List.getElem?_set_self (by rw [pool.length_inUse]; exact hlt), Option.getD_some,
      decide_eq_true hlt, Bool.true_and]
  · rename_i hne
    rw [List.getElem?_set_ne fun heq => hne (BitVec.eq_of_toNat_eq heq.symm)]

theorem live_of_raised (hflags : pool'.inUse = pool.inUse.set idx.toNat true)
    (hlt : idx.toNat < cap.value) : pool'.live = insert idx pool.live := by
  ext other
  rw [Finset.mem_insert, mem_live, mem_live, isLive_of_set hflags hlt]
  split
  · rename_i heq
    exact iff_of_true rfl (.inl heq)
  · rename_i hne
    exact (or_iff_right hne).symm

theorem live_of_lowered (hflags : pool'.inUse = pool.inUse.set idx.toNat false)
    (hlt : idx.toNat < cap.value) : pool'.live = pool.live.erase idx := by
  ext other
  rw [Finset.mem_erase, mem_live, mem_live, isLive_of_set hflags hlt]
  split
  · rename_i heq
    exact iff_of_false Bool.false_ne_true fun h => h.1 heq
  · rename_i hne
    exact (and_iff_right hne).symm

theorem acquire_of_empty [Inhabited α] (hzero : pool.freeCount = 0) :
    pool.acquire = (kInvalidIndex, pool) := by
  rw [acquire, if_pos hzero]

/-- What is on the stack is what an acquire leaves there and the index it returns. -/
theorem free_eq_acquire [Inhabited α] (hcount : pool.freeCount ≤ cap.value)
    (hsome : pool.freeCount ≠ 0) : pool.free = pool.acquire.2.free ++ [pool.acquire.1] := by
  have htop : pool.freeCount - 1 < pool.freeList.length := by
    rw [pool.length_freeList]
    omega
  have htake := List.take_succ_eq_append_getElem htop
  rw [Nat.sub_add_cancel (Nat.pos_of_ne_zero hsome)] at htake
  rw [acquire, if_neg hsome]
  show pool.freeList.take pool.freeCount =
    pool.freeList.take (pool.freeCount - 1) ++ [pool.freeList.getD (pool.freeCount - 1) 0]
  rw [htake, List.getD_eq_getElem?_getD, List.getElem?_eq_getElem htop, Option.getD_some]

/-- The rest of what an acquire does. -/
theorem acquire_writes [Inhabited α] (hsome : pool.freeCount ≠ 0) :
    pool.acquire.2.freeCount + 1 = pool.freeCount ∧
      pool.acquire.2.inUse = pool.inUse.set pool.acquire.1.toNat true ∧
      pool.acquire.2.slots = pool.slots.set pool.acquire.1.toNat default := by
  rw [acquire, if_neg hsome]
  exact ⟨Nat.sub_add_cancel (Nat.pos_of_ne_zero hsome), rfl, rfl⟩

/-- A release is refused and counted, or pushes its index and lowers the flag. -/
theorem release_cases (pool : ObjectPool α cap) (idx : PoolIndex) :
    (pool.isLive idx = false ∧
        pool.release idx =
          (false, { pool with invalidReleases := pool.invalidReleases + 1 })) ∨
      (pool.isLive idx = true ∧ (pool.release idx).1 = true ∧
        (pool.release idx).2.freeCount = pool.freeCount + 1 ∧
        (pool.release idx).2.freeList = pool.freeList.set pool.freeCount idx ∧
        (pool.release idx).2.inUse = pool.inUse.set idx.toNat false) := by
  have hguard : (decide (cap.value ≤ idx.toNat) || !pool.inUse.getD idx.toNat false) =
      !pool.isLive idx := by
    rw [isLive, Bool.not_and, ← decide_not, decide_eq_decide.mpr Nat.not_lt]
  cases hlive : pool.isLive idx with
  | false => exact .inl ⟨rfl, by rw [release, hguard, hlive, Bool.not_false, if_pos rfl]⟩
  | true =>
      refine .inr ⟨rfl, ?_⟩
      rw [release, hguard, hlive, Bool.not_true, if_neg Bool.false_ne_true]
      exact ⟨rfl, rfl, rfl, rfl⟩

/-! ## The invariant -/

/-- The counted entries of the free list are there, and they are the stack of the indices
that are not in use. -/
structure WellFormed (pool : ObjectPool α cap) : Prop where
  count_le : pool.freeCount ≤ cap.value
  stack : FreeStack cap.indices pool.live pool.free

theorem live_init [Inhabited α] : (init : ObjectPool α cap).live = ∅ := by
  rw [Finset.eq_empty_iff_forall_notMem]
  intro idx hmem
  have hlt := cap.mem_indices.mp (Finset.mem_of_mem_filter idx hmem)
  have hdead : (init : ObjectPool α cap).isLive idx = false :=
    (isLive_eq_false_iff hlt).mpr (List.getElem?_replicate_of_lt hlt)
  rw [mem_live, hdead] at hmem
  cases hmem

theorem wellFormed_init [Inhabited α] : (init : ObjectPool α cap).WellFormed := by
  have hfree : (init : ObjectPool α cap).free =
      (List.range cap.value).map fun i => .ofNat 32 (cap.value - 1 - i) := by
    rw [free, init, List.take_of_length_le (by rw [List.length_map, List.length_range])]
  refine ⟨Nat.le_refl _, ?_, ?_, fun idx => ?_⟩
  · rw [live_init]
    exact Finset.empty_subset _
  · rw [hfree]
    refine List.Nodup.map_on (fun i hi j hj heq => ?_) List.nodup_range
    rw [List.mem_range] at hi hj
    have hsame := cap.ofNat_inj (by omega) (by omega) heq
    omega
  · rw [hfree, List.mem_map, live_init, cap.mem_indices]
    constructor
    · rintro ⟨i, hi, rfl⟩
      rw [List.mem_range] at hi
      rw [cap.toNat_ofNat (by omega)]
      exact ⟨by omega, Finset.notMem_empty _⟩
    · rintro ⟨hlt, -⟩
      refine ⟨cap.value - 1 - idx.toNat, List.mem_range.mpr (by omega), ?_⟩
      rw [show cap.value - 1 - (cap.value - 1 - idx.toNat) = idx.toNat by omega,
        BitVec.ofNat_toNat, BitVec.setWidth_eq]

namespace WellFormed

theorem length_free (h : pool.WellFormed) : pool.free.length = pool.freeCount := by
  rw [free, List.length_take, pool.length_freeList]
  exact Nat.min_eq_left h.count_le

theorem count_add_card (h : pool.WellFormed) : pool.freeCount + pool.live.card = cap.value := by
  have hall := h.stack.length_add_card
  rwa [h.length_free, cap.card_indices] at hall

/-- While an index is in use there is room on the stack to put it back. -/
theorem count_lt (h : pool.WellFormed) (hlive : idx ∈ pool.live) : pool.freeCount < cap.value := by
  have hall := h.count_add_card
  have hsome := Finset.card_pos.mpr ⟨idx, hlive⟩
  omega

theorem mem_free_iff (h : pool.WellFormed) :
    idx ∈ pool.free ↔ pool.inUse[idx.toNat]? = some false := by
  rw [h.stack.mem_iff, cap.mem_indices, mem_live, Bool.not_eq_true]
  constructor
  · rintro ⟨hlt, hdead⟩
    exact (isLive_eq_false_iff hlt).mp hdead
  · intro hflag
    have hlt := (List.getElem?_eq_some_iff.mp hflag).1
    rw [pool.length_inUse] at hlt
    exact ⟨hlt, (isLive_eq_false_iff hlt).mpr hflag⟩

/-- An index that is released is not live any more, and its slot is free. -/
theorem released (h : pool.WellFormed) (htrue : (pool.release idx).1 = true) :
    (∀ other, (pool.release idx).2.isLive other = true ↔ other ≠ idx ∧ pool.isLive other = true) ∧
      (pool.release idx).2.available = pool.available + 1 := by
  rcases release_cases pool idx with ⟨-, hsame⟩ | ⟨hup, -, hcount, -, hflags⟩
  · rw [hsame] at htrue
    cases htrue
  · have hplace := h.stack.live_subset (mem_live.mpr hup)
    have hlive := live_of_lowered hflags (cap.mem_indices.mp hplace)
    refine ⟨fun other => ?_, hcount⟩
    rw [← mem_live, ← mem_live, hlive, Finset.mem_erase]

end WellFormed

/-- What a call shows. -/
def observe [Inhabited α] : PoolCall α → ObjectPool α cap → List (Event PoolIndex)
  | .acquire, pool =>
      if pool.acquire.1 = kInvalidIndex then [.exhausted] else [.taken pool.acquire.1]
  | .release idx, pool => if (pool.release idx).1 then [.returned idx] else [.refused idx]
  | .assign _ _, _ => []

namespace WellFormed

/-- An acquire that finds a free slot hands out an index that is not live. -/
theorem acquire_top [Inhabited α] (h : pool.WellFormed) (hsome : pool.freeCount ≠ 0) :
    pool.acquire.1 ∈ cap.indices ∧ pool.acquire.1 ∉ pool.live := by
  have hstack := h.stack
  rw [free_eq_acquire h.count_le hsome] at hstack
  exact hstack.top

theorem acquire_ne_kInvalidIndex [Inhabited α] (h : pool.WellFormed) (hsome : pool.freeCount ≠ 0) :
    pool.acquire.1 ≠ kInvalidIndex :=
  fun heq => cap.kInvalidIndex_notMem (heq ▸ (h.acquire_top hsome).1)

theorem acquire [Inhabited α] (h : pool.WellFormed) :
    pool.acquire.2.WellFormed ∧
      Path cap.indices pool.live (observe .acquire pool) pool.acquire.2.live := by
  rw [observe]
  have hstack := h.stack
  by_cases hzero : pool.freeCount = 0
  · have hempty : pool.free = [] := by rw [free, hzero, List.take_zero]
    rw [hempty] at hstack
    rw [acquire_of_empty hzero, if_pos rfl, hstack.exhausted]
    exact ⟨h, _, .exhausted, rfl⟩
  · obtain ⟨hplace, hdead⟩ := h.acquire_top hzero
    obtain ⟨hcount, hflags, -⟩ := acquire_writes hzero
    have hlive := live_of_raised hflags (cap.mem_indices.mp hplace)
    have hle := h.count_le
    rw [free_eq_acquire hle hzero] at hstack
    rw [if_neg (h.acquire_ne_kInvalidIndex hzero), hlive]
    refine ⟨⟨by omega, ?_⟩, _, .taken hplace hdead, rfl⟩
    rw [hlive]
    exact hstack.pop

theorem release [Inhabited α] (h : pool.WellFormed) (idx : PoolIndex) :
    (pool.release idx).2.WellFormed ∧
      Path cap.indices pool.live (observe (.release idx) pool) (pool.release idx).2.live := by
  rw [observe]
  rcases release_cases pool idx with
    ⟨hdead, hsame⟩ | ⟨hup, htrue, hcount, hlist, hflags⟩
  · rw [hsame, if_neg Bool.false_ne_true]
    refine ⟨⟨h.count_le, h.stack⟩, _, .refused fun hmem => ?_, rfl⟩
    rw [mem_live, hdead] at hmem
    cases hmem
  · have hmem := mem_live.mpr hup
    have hlt := cap.mem_indices.mp (h.stack.live_subset hmem)
    have hroom := h.count_lt hmem
    have hlive := live_of_lowered hflags hlt
    have hfree : (pool.release idx).2.free = pool.free ++ [idx] := by
      have htop : pool.freeCount < (pool.freeList.set pool.freeCount idx).length := by
        rw [List.length_set, pool.length_freeList]
        exact hroom
      rw [free, free, hcount, hlist, List.take_succ_eq_append_getElem htop,
        List.getElem_set_self, List.take_set_of_le (Nat.le_refl _)]
    rw [htrue, if_pos rfl, hlive]
    refine ⟨⟨by omega, ?_⟩, _, .returned hmem, rfl⟩
    rw [hlive, hfree]
    exact h.stack.push hmem

theorem assign (h : pool.WellFormed) (idx : PoolIndex) (object : α) :
    (pool.assign idx object).WellFormed ∧ (pool.assign idx object).live = pool.live := by
  rw [ObjectPool.assign]
  split
  · exact ⟨⟨h.count_le, h.stack⟩, rfl⟩
  · exact ⟨h, rfl⟩

variable [Inhabited α]

/-- Every call keeps the invariant and is a step of an allocator of the indices. -/
theorem step (h : pool.WellFormed) (call : PoolCall α) :
    (step call pool).WellFormed ∧
      Path cap.indices pool.live (observe call pool) (ObjectPool.step call pool).live := by
  cases call with
  | acquire => exact h.acquire
  | release idx => exact h.release idx
  | assign idx object =>
      obtain ⟨hnext, hlive⟩ := h.assign idx object
      exact ⟨hnext, hlive.symm⟩

theorem run (h : pool.WellFormed) (calls : List (PoolCall α)) :
    (Machine.run ObjectPool.step calls pool).WellFormed ∧
      Path cap.indices pool.live (Machine.outputs ObjectPool.step observe calls pool).flatten
        (Machine.run ObjectPool.step calls pool).live := by
  induction calls generalizing pool with
  | nil => exact ⟨h, rfl⟩
  | cons call calls ih =>
      obtain ⟨hnext, hfirst⟩ := h.step call
      obtain ⟨hlast, hrest⟩ := ih hnext
      exact ⟨hlast, path_append_iff.mpr ⟨_, hfirst, hrest⟩⟩

end WellFormed

variable [Inhabited α]

theorem wellFormed_reached (calls : List (PoolCall α)) : (reached cap calls).WellFormed :=
  (wellFormed_init.run calls).1

/-- What the calls of a run show, in order. -/
def shown (cap : PoolCapacity) (calls : List (PoolCall α)) : List (Event PoolIndex) :=
  (Machine.outputs step observe calls (init : ObjectPool α cap)).flatten

/-- A run of the pool is a run of an allocator that starts with nothing live. -/
theorem path_reached (cap : PoolCapacity) (calls : List (PoolCall α)) :
    Path cap.indices ∅ (shown cap calls) (reached cap calls).live := by
  have hnothing : (init : ObjectPool α cap).live = ∅ := live_init
  rw [← hnothing]
  exact (wellFormed_init.run calls).2

/-- An index that is acquired twice has been released between, whatever else was called. -/
theorem released_between {calls : List (PoolCall α)} {before middle after : List (Event PoolIndex)}
    (h : shown cap calls = before ++ .taken idx :: (middle ++ .taken idx :: after)) :
    .returned idx ∈ middle := by
  have hpath := path_reached cap calls
  rw [h] at hpath
  exact hpath.returned_between

/-- An acquired object is a new one. -/
theorem get_acquire (h : pool.WellFormed) (hsome : pool.freeCount ≠ 0) :
    pool.acquire.2.get pool.acquire.1 = some default := by
  have hlt := cap.mem_indices.mp (h.acquire_top hsome).1
  obtain ⟨-, hflags, hslots⟩ := acquire_writes hsome
  rw [get, isLive_of_set hflags hlt, if_pos rfl, if_pos rfl, hslots,
    List.getElem?_set_self (by rw [pool.length_slots]; exact hlt)]

/-- What is asked of the pool between any two calls. -/
structure PoolSound (pool : ObjectPool α cap) : Prop where
  /-- As many entries of the free list count as the pool says. -/
  length : (pool.freeList.take pool.freeCount).length = pool.freeCount
  distinct : (pool.freeList.take pool.freeCount).Nodup
  /-- They are the indices not in use. -/
  free_iff : ∀ idx,
    idx ∈ pool.freeList.take pool.freeCount ↔ pool.inUse[idx.toNat]? = some false
  /-- The next index to be acquired is not live. -/
  fresh : pool.isLive pool.acquire.1 = false
  /-- Without a free slot there is no index, and nothing happens. -/
  exhausted : pool.acquire.1 = kInvalidIndex ↔ pool.available = 0
  exhausted_same : pool.available = 0 → pool.acquire.2 = pool
  /-- Otherwise the index that is acquired is live from then on, with a new object, and one
  slot fewer is free. -/
  acquired : pool.available ≠ 0 →
    (∀ idx, pool.acquire.2.isLive idx = true ↔ idx = pool.acquire.1 ∨ pool.isLive idx = true) ∧
      pool.acquire.2.available + 1 = pool.available ∧
      pool.acquire.2.get pool.acquire.1 = some default
  refused_iff : ∀ idx, (pool.release idx).1 = false ↔ pool.isLive idx = false
  /-- A refused release is counted, and that is all. -/
  refused : ∀ idx, (pool.release idx).1 = false →
    (pool.release idx).2 = { pool with invalidReleases := pool.invalidReleases + 1 }
  released : ∀ idx, (pool.release idx).1 = true →
    (∀ other, (pool.release idx).2.isLive other = true ↔ other ≠ idx ∧ pool.isLive other = true) ∧
      (pool.release idx).2.available = pool.available + 1
  balance : pool.inUseCount + pool.available = cap.value
  /-- The slots in use are those that are live. -/
  inUse : pool.inUseCount = pool.live.card
  /-- An acquire reads the free list and writes its slot in range. -/
  acquire_inRange : pool.available ≠ 0 →
    pool.freeCount - 1 < pool.freeList.length ∧ pool.acquire.1.toNat < cap.value
  /-- A release that is not refused writes the free list in range. -/
  release_inRange : ∀ idx, pool.isLive idx = true → pool.freeCount < pool.freeList.length

theorem WellFormed.fresh (h : pool.WellFormed) : pool.isLive pool.acquire.1 = false := by
  rw [← Bool.not_eq_true, ← mem_live]
  by_cases hzero : pool.freeCount = 0
  · rw [acquire_of_empty hzero]
    exact fun hmem => cap.kInvalidIndex_notMem (h.stack.live_subset hmem)
  · exact (h.acquire_top hzero).2

theorem WellFormed.exhausted_iff (h : pool.WellFormed) :
    pool.acquire.1 = kInvalidIndex ↔ pool.available = 0 := by
  constructor
  · intro hinvalid
    by_contra hsome
    exact h.acquire_ne_kInvalidIndex hsome hinvalid
  · intro hzero
    rw [acquire_of_empty hzero]

theorem WellFormed.acquired (h : pool.WellFormed) (hsome : pool.available ≠ 0) :
    (∀ idx, pool.acquire.2.isLive idx = true ↔ idx = pool.acquire.1 ∨ pool.isLive idx = true) ∧
      pool.acquire.2.available + 1 = pool.available ∧
      pool.acquire.2.get pool.acquire.1 = some default := by
  obtain ⟨hcount, hflags, -⟩ := acquire_writes hsome
  have hlive := live_of_raised hflags (cap.mem_indices.mp (h.acquire_top hsome).1)
  refine ⟨fun idx => ?_, hcount, get_acquire h hsome⟩
  rw [← mem_live, ← mem_live, hlive, Finset.mem_insert]

theorem WellFormed.sound (h : pool.WellFormed) : PoolSound pool where
  length := h.length_free
  distinct := h.stack.nodup
  free_iff _ := h.mem_free_iff
  fresh := h.fresh
  exhausted := h.exhausted_iff
  exhausted_same hzero := by rw [acquire_of_empty hzero]
  acquired := h.acquired
  refused_iff idx := by
    rcases release_cases pool idx with ⟨hdead, hsame⟩ | ⟨hup, htrue, -⟩
    · rw [hsame, hdead]
    · rw [htrue, hup]
  refused idx hrefused := by
    rcases release_cases pool idx with ⟨-, hsame⟩ | ⟨-, htrue, -⟩
    · rw [hsame]
    · rw [htrue] at hrefused
      cases hrefused
  released _ := h.released
  balance := Nat.sub_add_cancel h.count_le
  inUse := by
    have hall := h.count_add_card
    rw [inUseCount]
    omega
  acquire_inRange hsome := by
    have hle := h.count_le
    rw [pool.length_freeList]
    exact ⟨Nat.lt_of_lt_of_le (Nat.sub_one_lt hsome) hle,
      cap.mem_indices.mp (h.acquire_top hsome).1⟩
  release_inRange idx hlive := by
    rw [pool.length_freeList]
    exact h.count_lt (mem_live.mpr hlive)

/-- After any calls, with any indices, the free list and the flags are complementary and
nothing that is in use is handed out: an index that was acquired twice has been released in
between. -/
theorem pool_sound_after_any_calls (cap : PoolCapacity) (calls : List (PoolCall α)) :
    PoolSound (reached cap calls) ∧
      ∀ idx before middle after,
        shown cap calls = before ++ .taken idx :: (middle ++ .taken idx :: after) →
          .returned idx ∈ middle :=
  ⟨(wellFormed_reached calls).sound, fun _ _ _ _ => released_between⟩

end ObjectPool

end MmEngine
