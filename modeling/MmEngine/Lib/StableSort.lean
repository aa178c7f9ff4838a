/-
# Stable sorting

Insertion sort keeps the order of what compares equal. So a sort whose ties are broken
by the place in the list is the sort without the tie-break, and a list whose one part
comes before the rest is sorted part by part.
-/

import Mathlib.Data.List.Sort

namespace List

universe u v

variable {α : Type u} {β : Type v} (r : α → α → Prop) [DecidableRel r]

theorem map_orderedInsert_of_forall (s : β → β → Prop) [DecidableRel s] (f : α → β) {a : α}
    {l : List α} (h : ∀ b ∈ l, r a b ↔ s (f a) (f b)) :
    (l.orderedInsert r a).map f = (l.map f).orderedInsert s (f a) := by
  induction l with
  | nil => rfl
  | cons b l ih =>
      rw [forall_mem_cons] at h
      by_cases hab : r a b
      · simp [hab, h.1.mp hab]
      · simp [hab, mt h.1.mpr hab, ih h.2]

/-- A map that the comparison sees through, of anything with what comes after it in the
list, takes sorted lists to sorted lists. -/
theorem map_insertionSort_of_pairwise (s : β → β → Prop) [DecidableRel s] (f : α → β)
    {l : List α} (h : l.Pairwise fun a b => r a b ↔ s (f a) (f b)) :
    (l.insertionSort r).map f = (l.map f).insertionSort s := by
  induction l with
  | nil => rfl
  | cons a l ih =>
      rw [pairwise_cons] at h
      rw [insertionSort_cons, map_orderedInsert_of_forall r s, ih h.2, map_cons,
        insertionSort_cons]
      exact fun b hb => h.1 b ((mem_insertionSort r).mp hb)

theorem orderedInsert_append_left {a : α} {later : List α} (h : ∀ b ∈ later, r a b)
    (l : List α) : (l ++ later).orderedInsert r a = l.orderedInsert r a ++ later := by
  induction l with
  | nil =>
      cases later with
      | nil => rfl
      | cons b later => simp [h b mem_cons_self]
  | cons b l ih =>
      by_cases hab : r a b
      · simp [hab]
      · simp [hab, ih]

theorem orderedInsert_append_right {a : α} {l : List α} (h : ∀ b ∈ l, ¬r a b)
    (later : List α) : (l ++ later).orderedInsert r a = l ++ later.orderedInsert r a := by
  induction l with
  | nil => rfl
  | cons b l ih =>
      rw [forall_mem_cons] at h
      simp [h.1, ih h.2]

/-- What comes before the rest is sorted first. -/
theorem insertionSort_eq_append (p : α → Bool) {l : List α}
    (h : ∀ a ∈ l, ∀ b ∈ l, p a = true → p b = false → r a b ∧ ¬r b a) :
    l.insertionSort r =
      (l.filter p).insertionSort r ++ (l.filter fun a => !p a).insertionSort r := by
  induction l with
  | nil => rfl
  | cons a l ih =>
      simp only [forall_mem_cons] at h
      rw [insertionSort_cons, ih fun b hb c hc => (h.2 b hb).2 c hc]
      cases ha : p a with
      | true =>
          rw [orderedInsert_append_left, filter_cons_of_pos ha, filter_cons_of_neg (by simp [ha]),
            insertionSort_cons]
          intro b hb
          obtain ⟨hmem, hb⟩ := mem_filter.mp ((mem_insertionSort r).mp hb)
          exact (h.1.2 b hmem ha (by simpa using hb)).1
      | false =>
          rw [orderedInsert_append_right, filter_cons_of_neg (by simp [ha]),
            filter_cons_of_pos (by simp [ha]), insertionSort_cons]
          intro b hb
          obtain ⟨hmem, hb⟩ := mem_filter.mp ((mem_insertionSort r).mp hb)
          exact ((h.2 b hmem).1 hb ha).2

end List
