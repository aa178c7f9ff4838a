/-
# Order statistics from counts

The sample of a rank is the one at that place among the samples in order. Counting the
samples by a key that respects their order loses the order within a key and nothing else:
the place at which the running total of the counts first reaches a rank is the key of the
sample of that rank.
-/

import Mathlib.Algebra.Order.Ring.Nat
import Mathlib.Data.List.Sort
import Mathlib.Order.Basic

universe u

namespace Quantile

variable {α : Type u} [LinearOrder α] {samples : List α} {sample : α} {rank : Nat}

/-- The samples in order. -/
def sorted (samples : List α) : List α := samples.mergeSort fun a b => decide (a ≤ b)

theorem perm_sorted (samples : List α) : (sorted samples).Perm samples := List.mergeSort_perm _ _

theorem pairwise_sorted (samples : List α) : (sorted samples).Pairwise (· ≤ ·) :=
  List.pairwise_mergeSort' _ samples

/-- The sample of the given rank, counted from one. -/
def nth (samples : List α) (rank : Nat) : Option α := (sorted samples)[rank - 1]?

theorem exists_nth (hpos : 1 ≤ rank) (hle : rank ≤ samples.length) :
    ∃ sample, nth samples rank = some sample := by
  have hlt : rank - 1 < (sorted samples).length := by
    rw [(perm_sorted samples).length_eq]
    omega
  exact ⟨_, List.getElem?_eq_getElem hlt⟩

theorem mem_of_nth (h : nth samples rank = some sample) : sample ∈ samples :=
  (perm_sorted samples).mem_iff.mp (List.mem_of_getElem? h)

/-- The samples before a place in an ordered list, and those behind it. -/
theorem le_of_split {before after : List α} {mid : α}
    (h : (before ++ mid :: after).Pairwise (· ≤ ·)) :
    (∀ a ∈ before, a ≤ mid) ∧ ∀ a ∈ after, mid ≤ a := by
  obtain ⟨_, hbehind, hcross⟩ := List.pairwise_append.mp h
  exact ⟨fun a ha => hcross a ha mid List.mem_cons_self, (List.pairwise_cons.mp hbehind).1⟩

/-- The ordered samples around the sample of a rank. -/
theorem sorted_eq_of_nth (h : nth samples rank = some sample) :
    ∃ before after, sorted samples = before ++ sample :: after ∧ before.length = rank - 1 := by
  obtain ⟨hlt, hget⟩ := List.getElem?_eq_some_iff.mp h
  refine ⟨(sorted samples).take (rank - 1), (sorted samples).drop (rank - 1 + 1), ?_, ?_⟩
  · rw [← hget, List.getElem_cons_drop, List.take_append_drop]
  · rw [List.length_take]
    omega

/-- Fewer samples than the rank are below the sample of a rank. -/
theorem countP_lt_of_nth (h : nth samples rank = some sample) (hpos : 0 < rank) :
    samples.countP (fun other => decide (other < sample)) < rank := by
  obtain ⟨before, after, hsorted, hlength⟩ := sorted_eq_of_nth h
  have hordered := pairwise_sorted samples
  rw [hsorted] at hordered
  have hafter : (sample :: after).countP (fun other => decide (other < sample)) = 0 := by
    rw [List.countP_eq_zero]
    intro other hother
    rcases List.mem_cons.mp hother with rfl | hbehind
    · simp
    · simpa using (le_of_split hordered).2 other hbehind
  have hbefore := List.countP_le_length (p := fun other => decide (other < sample)) (l := before)
  rw [← (perm_sorted samples).countP_eq, hsorted, List.countP_append, hafter]
  omega

/-- As many samples as the rank, at least, are up to the sample of a rank. -/
theorem le_countP_of_nth (h : nth samples rank = some sample) :
    rank ≤ samples.countP fun other => decide (other ≤ sample) := by
  obtain ⟨before, after, hsorted, hlength⟩ := sorted_eq_of_nth h
  have hordered := pairwise_sorted samples
  rw [hsorted] at hordered
  have hbefore : before.countP (fun other => decide (other ≤ sample)) = before.length := by
    rw [List.countP_eq_length]
    intro other hother
    simpa using (le_of_split hordered).1 other hother
  rw [← (perm_sorted samples).countP_eq, hsorted, List.countP_append, hbefore,
    List.countP_cons_of_pos (by simp)]
  omega

/-- The place at which the running total of the counts, on top of what has been counted,
first reaches the rank. -/
def firstReaching (rank : Nat) : List Nat → (counted place : Nat) → Option Nat
  | [], _, _ => none
  | count :: counts, counted, place =>
      if rank ≤ counted + count then some place
      else firstReaching rank counts (counted + count) (place + 1)

theorem firstReaching_eq {counts : List Nat} {target : Nat} :
    ∀ (counted place : Nat), target < counts.length →
      counted + (counts.take target).sum < rank →
      rank ≤ counted + (counts.take (target + 1)).sum →
      firstReaching rank counts counted place = some (place + target) := by
  induction counts generalizing target with
  | nil => exact fun _ _ hlt => absurd hlt (Nat.not_lt_zero _)
  | cons count counts ih =>
      intro counted place hlt hbefore hreach
      rw [firstReaching]
      cases target with
      | zero =>
          rw [if_pos (by simpa using hreach), Nat.add_zero]
      | succ target =>
          rw [List.take_succ_cons, List.sum_cons] at hbefore hreach
          rw [if_neg (by omega),
            ih _ _ (by simpa using hlt) (by omega) (by omega)]
          congr 1
          omega

/-- The items of each key below a bound. -/
def countsOf {β : Type u} (key : β → Nat) (bound : Nat) (items : List β) : List Nat :=
  (List.range bound).map fun place => items.countP fun item => decide (key item = place)

section Key

variable {β : Type u} {key : β → Nat} {items : List β}

theorem countP_lt_succ (place : Nat) :
    items.countP (fun item => decide (key item < place + 1)) =
      items.countP (fun item => decide (key item < place)) +
        items.countP fun item => decide (key item = place) := by
  induction items with
  | nil => rfl
  | cons item items ih =>
      simp only [List.countP_cons, ih, decide_eq_true_eq]
      split_ifs <;> omega

/-- The running total up to a key counts the items of smaller keys. -/
theorem sum_take_countsOf {bound place : Nat} (hle : place ≤ bound) :
    ((countsOf key bound items).take place).sum =
      items.countP fun item => decide (key item < place) := by
  rw [countsOf, ← List.map_take, List.take_range, Nat.min_eq_left hle]
  clear hle
  induction place with
  | zero => simp
  | succ place ih =>
      rw [List.range_succ, List.map_append, List.sum_append, ih, countP_lt_succ]
      simp

/-- One more item counts at its key. -/
theorem countsOf_concat {bound : Nat} (item : β) :
    countsOf key bound (items ++ [item]) =
      (countsOf key bound items).modify (key item) (· + 1) := by
  refine List.ext_getElem? fun place => ?_
  rw [List.getElem?_modify, countsOf, countsOf, List.getElem?_map, List.getElem?_map]
  rcases Nat.lt_or_ge place bound with hlt | hge
  · rw [List.getElem?_range hlt]
    by_cases hplace : key item = place
    · simp [hplace]
    · simp [hplace]
  · rw [List.getElem?_eq_none (by simpa using hge)]
    simp

end Key

/-- The total first reaches a rank at the key of the sample of that rank. -/
theorem firstReaching_countsOf {key : α → Nat} {bound : Nat}
    (hkey : ∀ a ∈ samples, ∀ b ∈ samples, a ≤ b → key a ≤ key b)
    (hbound : ∀ a ∈ samples, key a < bound) (h : nth samples rank = some sample) (hpos : 0 < rank) :
    firstReaching rank (countsOf key bound samples) 0 0 = some (key sample) := by
  have hmem := mem_of_nth h
  have hnext : key sample + 1 ≤ bound := hbound sample hmem
  have hplace : key sample < (countsOf key bound samples).length := by
    rw [countsOf, List.length_map, List.length_range]
    exact hnext
  have hbelow : samples.countP (fun other => decide (key other < key sample)) ≤
      samples.countP fun other => decide (other < sample) := by
    refine List.countP_mono_left fun other hin hother => ?_
    rw [decide_eq_true_eq] at hother ⊢
    by_contra hnot
    exact absurd (hkey _ hmem _ hin (not_lt.mp hnot)) (by omega)
  have hupto : samples.countP (fun other => decide (other ≤ sample)) ≤
      samples.countP fun other => decide (key other < key sample + 1) := by
    refine List.countP_mono_left fun other hin hother => ?_
    rw [decide_eq_true_eq] at hother ⊢
    exact Nat.lt_succ_of_le (hkey _ hin _ hmem hother)
  have hlt := countP_lt_of_nth h hpos
  have hle := le_countP_of_nth h
  have hbefore : 0 + ((countsOf key bound samples).take (key sample)).sum < rank := by
    rw [sum_take_countsOf (Nat.le_of_lt hnext)]
    omega
  have hreach : rank ≤ 0 + ((countsOf key bound samples).take (key sample + 1)).sum := by
    rw [sum_take_countsOf hnext]
    omega
  have hreached := firstReaching_eq 0 0 hplace hbefore hreach
  rwa [Nat.zero_add] at hreached

end Quantile
