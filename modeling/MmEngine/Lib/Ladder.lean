/-
# Ladders

A ladder is a list whose entries stand in strictly increasing order of a key, so that
the first entry is the best one. Entries are written at their place and erased by key;
on a ladder the place is found by skipping the entries with a smaller key, and that is
the same as filtering by the key. The lemmas say what a write leaves in the list, that
the order survives it, and what truncation to a depth keeps.
-/

import Mathlib.Data.List.Sort

namespace Ladder

universe u v

variable {α : Type u} {K : Type v} [LinearOrder K] (key : α → K)

/-- The entries stand in strictly increasing order of their keys. -/
def Sorted (l : List α) : Prop := l.Pairwise fun a b => key a < key b

/-- The entries before the place of a key. -/
def below (k : K) (l : List α) : List α := l.filter fun a => key a < k

/-- The entries beyond the place of a key. -/
def beyond (k : K) (l : List α) : List α := l.filter fun a => k < key a

/-- The list without the entries of a key. -/
def erase (k : K) (l : List α) : List α := l.filter fun a => key a ≠ k

/-- The list with an entry at its place, over any entry with its key. -/
def put (a : α) (l : List α) : List α := below key (key a) l ++ a :: beyond key (key a) l

variable {key}

theorem Sorted.sublist {l l' : List α} (h : Sorted key l) (hsub : l'.Sublist l) : Sorted key l' :=
  List.Pairwise.sublist hsub h

theorem Sorted.nodup_map {l : List α} (h : Sorted key l) : (l.map key).Nodup :=
  List.pairwise_map.mpr (h.imp fun hlt => hlt.ne)

theorem Sorted.eq_of_key_eq {l : List α} (h : Sorted key l) {a b : α} (ha : a ∈ l) (hb : b ∈ l)
    (hkey : key a = key b) : a = b :=
  List.inj_on_of_nodup_map h.nodup_map ha hb hkey

/-- Ladders with the same entries are the same. -/
theorem Sorted.ext {l l' : List α} (h : Sorted key l) (h' : Sorted key l')
    (hmem : ∀ a, a ∈ l ↔ a ∈ l') : l = l' := by
  have hantisymm : Std.Antisymm fun a b : α => key a < key b := ⟨fun a b hab hba =>
    absurd (hab.trans hba) (lt_irrefl _)⟩
  have hirrefl : Std.Irrefl fun a b : α => key a < key b := ⟨fun a => lt_irrefl _⟩
  exact List.Pairwise.eq_of_mem_iff h h' hmem

@[simp]
theorem mem_below {l : List α} {k : K} {a : α} : a ∈ below key k l ↔ a ∈ l ∧ key a < k := by
  simp [below]

@[simp]
theorem mem_beyond {l : List α} {k : K} {a : α} : a ∈ beyond key k l ↔ a ∈ l ∧ k < key a := by
  simp [beyond]

theorem Sorted.below {l : List α} (h : Sorted key l) (k : K) : Sorted key (below key k l) :=
  h.sublist List.filter_sublist

theorem Sorted.beyond {l : List α} (h : Sorted key l) (k : K) : Sorted key (beyond key k l) :=
  h.sublist List.filter_sublist

theorem beyond_eq_self {l : List α} {k : K} (h : ∀ a ∈ l, k < key a) : beyond key k l = l := by
  rw [Ladder.beyond, List.filter_eq_self]
  intro a ha
  simpa using h a ha

/-- Skipping the better entries of a ladder stops where the others are. -/
theorem takeWhile_eq_below {l : List α} (h : Sorted key l) (k : K) :
    (l.takeWhile fun a => key a < k) = below key k l := by
  rw [Ladder.below]
  induction l with
  | nil => rfl
  | cons a l ih =>
      obtain ⟨hhead, htail⟩ := List.pairwise_cons.mp h
      by_cases ha : key a < k
      · rw [List.takeWhile_cons_of_pos (by simpa using ha),
          List.filter_cons_of_pos (by simpa using ha), ih htail]
      · rw [List.takeWhile_cons_of_neg (by simpa using ha),
          List.filter_cons_of_neg (by simpa using ha)]
        symm
        rw [List.filter_eq_nil_iff]
        intro b hb
        have hlt := hhead b hb
        simp only [decide_eq_true_eq, not_lt] at ha ⊢
        exact ha.trans hlt.le

/-- What stands at the place of a key: an entry with it, or the first entry beyond. -/
theorem dropWhile_cases {l : List α} (h : Sorted key l) (k : K) :
    (∃ a ∈ l, key a = k ∧ (l.dropWhile fun b => key b < k) = a :: beyond key k l) ∨
      (∀ a ∈ l, key a ≠ k) ∧ (l.dropWhile fun b => key b < k) = beyond key k l := by
  induction l with
  | nil => exact .inr ⟨by simp, rfl⟩
  | cons a l ih =>
      obtain ⟨hhead, htail⟩ := List.pairwise_cons.mp h
      rcases lt_trichotomy (key a) k with hlt | heq | hgt
      · have hdrop : ((a :: l).dropWhile fun b => key b < k) = l.dropWhile fun b => key b < k :=
          List.dropWhile_cons_of_pos (by simpa using hlt)
        have hbeyond : Ladder.beyond key k (a :: l) = Ladder.beyond key k l :=
          List.filter_cons_of_neg (by simpa using hlt.le)
        rw [hdrop, hbeyond]
        rcases ih htail with ⟨b, hb, hkey, hback⟩ | ⟨habsent, hback⟩
        · exact .inl ⟨b, List.mem_cons_of_mem _ hb, hkey, hback⟩
        · refine .inr ⟨?_, hback⟩
          intro b hb
          rcases List.mem_cons.mp hb with rfl | hb
          · exact hlt.ne
          · exact habsent b hb
      · refine .inl ⟨a, List.mem_cons_self, heq, ?_⟩
        have hbeyond : Ladder.beyond key k (a :: l) = Ladder.beyond key k l :=
          List.filter_cons_of_neg (by simp [heq])
        rw [List.dropWhile_cons_of_neg (by simp [heq]), hbeyond, beyond_eq_self]
        intro b hb
        rw [← heq]
        exact hhead b hb
      · have hall : ∀ b ∈ a :: l, k < key b := by
          intro b hb
          rcases List.mem_cons.mp hb with rfl | hb
          · exact hgt
          · exact hgt.trans (hhead b hb)
        refine .inr ⟨fun b hb => (hall b hb).ne', ?_⟩
        rw [List.dropWhile_cons_of_neg (by simpa using hgt.le), beyond_eq_self hall]

theorem Sorted.erase {l : List α} (h : Sorted key l) (k : K) : Sorted key (erase key k l) :=
  h.sublist List.filter_sublist

@[simp]
theorem mem_erase {l : List α} {k : K} {a : α} : a ∈ erase key k l ↔ a ∈ l ∧ key a ≠ k := by
  simp [erase]

theorem erase_eq_self {l : List α} {k : K} (h : ∀ a ∈ l, key a ≠ k) : erase key k l = l := by
  rw [erase, List.filter_eq_self]
  intro a ha
  simpa using h a ha

/-- Erasing a key leaves what is before its place and what is beyond. -/
theorem erase_eq_append {l : List α} (h : Sorted key l) (k : K) :
    erase key k l = below key k l ++ beyond key k l := by
  apply (h.erase k).ext
  · refine List.pairwise_append.mpr ⟨h.below k, h.beyond k, ?_⟩
    intro a ha b hb
    exact (mem_below.mp ha).2.trans (mem_beyond.mp hb).2
  · intro a
    rw [List.mem_append, mem_erase, mem_below, mem_beyond, ← and_or_left, lt_or_lt_iff_ne]

theorem Sorted.put {l : List α} (h : Sorted key l) (a : α) : Sorted key (put key a l) := by
  refine List.pairwise_append.mpr
    ⟨h.below _, List.pairwise_cons.mpr ⟨fun b hb => (mem_beyond.mp hb).2, h.beyond _⟩, ?_⟩
  intro b hb c hc
  have hba : key b < key a := (mem_below.mp hb).2
  rcases List.mem_cons.mp hc with rfl | hc
  · exact hba
  · exact hba.trans (mem_beyond.mp hc).2

@[simp]
theorem mem_put {l : List α} {a b : α} : b ∈ put key a l ↔ b = a ∨ b ∈ l ∧ key b ≠ key a := by
  rw [put, List.mem_append, List.mem_cons, mem_below, mem_beyond, ← lt_or_lt_iff_ne, and_or_left]
  tauto

/-- A new key makes the ladder one longer. -/
theorem length_put {l : List α} {a : α} (habsent : ∀ b ∈ l, key b ≠ key a) :
    (put key a l).length = l.length + 1 := by
  have hsplit := List.length_eq_length_filter_add (l := l) fun b => decide (key b < key a)
  have hbeyond : (l.filter fun b => !decide (key b < key a)) = beyond key (key a) l := by
    apply List.filter_congr
    intro b hb
    have hne := habsent b hb
    simp only [← decide_not, not_lt, decide_eq_decide]
    exact ⟨fun hle => lt_of_le_of_ne hle hne.symm, le_of_lt⟩
  rw [hbeyond] at hsplit
  simp only [put, below, List.length_append, List.length_cons]
  omega

/-- A key that is there keeps the ladder as long. -/
theorem length_put_of_mem {l : List α} (h : Sorted key l) {a b : α} (hb : b ∈ l)
    (hkey : key b = key a) : (put key a l).length = l.length := by
  have hmap : (put key a l).map key = l.map key := by
    have hput : Sorted id ((put key a l).map key) := by
      rw [Sorted, List.pairwise_map]
      exact h.put a
    have hl : Sorted id (l.map key) := by
      rw [Sorted, List.pairwise_map]
      exact h
    apply hput.ext hl
    intro k
    simp only [List.mem_map, mem_put]
    constructor
    · rintro ⟨c, rfl | ⟨hc, -⟩, rfl⟩
      · exact ⟨b, hb, hkey⟩
      · exact ⟨c, hc, rfl⟩
    · rintro ⟨c, hc, rfl⟩
      by_cases hca : key c = key a
      · exact ⟨a, .inl rfl, hca.symm⟩
      · exact ⟨c, .inr ⟨hc, hca⟩, rfl⟩
  simpa using congrArg List.length hmap

/-- A key beyond all others goes to the end. -/
theorem put_eq_concat {l : List α} {a : α} (h : beyond key (key a) l = [])
    (habsent : ∀ b ∈ l, key b ≠ key a) : put key a l = l ++ [a] := by
  have hbelow : below key (key a) l = l := by
    rw [Ladder.below, List.filter_eq_self]
    intro b hb
    have hnot : ¬key a < key b := by
      intro hlt
      have hmem : b ∈ Ladder.beyond key (key a) l := mem_beyond.mpr ⟨hb, hlt⟩
      rw [h] at hmem
      cases hmem
    simpa using lt_of_le_of_ne (not_lt.mp hnot) (habsent b hb)
  rw [put, hbelow, h]

/-- The first entry of a ladder is the one none is better than. -/
theorem Sorted.head?_le {l : List α} (h : Sorted key l) {a b : α} (ha : a ∈ l.head?) (hb : b ∈ l) :
    key a ≤ key b := by
  cases l with
  | nil => cases hb
  | cons c l =>
      have hac : c = a := by simpa using ha
      subst hac
      rcases List.mem_cons.mp hb with rfl | hb
      · exact le_rfl
      · exact ((List.pairwise_cons.mp h).1 b hb).le

variable (key) in
/-- The entries sorted by key. -/
def sort (l : List α) : List α := l.insertionSort fun a b => key a ≤ key b

theorem perm_sort (l : List α) : (sort key l).Perm l := List.perm_insertionSort _ l

theorem pairwise_sort (l : List α) : (sort key l).Pairwise fun a b => key a ≤ key b := by
  have htotal : Std.Total fun a b : α => key a ≤ key b := ⟨fun a b => le_total _ _⟩
  have htrans : IsTrans α fun a b : α => key a ≤ key b := ⟨fun _ _ _ => le_trans⟩
  exact List.pairwise_insertionSort _ l

/-- Entries with distinct keys make a ladder when they are sorted. -/
theorem sorted_sort {l : List α} (h : (l.map key).Nodup) : Sorted key (sort key l) := by
  have hnodup : ((sort key l).map key).Nodup := ((perm_sort l).map key).nodup_iff.mpr h
  have hne : (sort key l).Pairwise fun a b => key a ≠ key b := List.pairwise_map.mp hnodup
  exact List.Pairwise.imp₂ (fun _ _ hle hne => lt_of_le_of_ne hle hne) (pairwise_sort l) hne

end Ladder
