/-
# Indices of a table

An index maps the key of an entry to the position of that entry. `Indexes` says
that it does so for every key of the table and for nothing else; the lemmas keep
this across the ways a table and its index are written together: an entry
appended, an entry given its first key, an entry whose key changes. The last
section is about an index built by one pass over a table. It contains the last
position of every key, which is the only one when the keys are distinct.
-/

import Mathlib.Data.List.AList

namespace Index

universe u v

variable {α : Type u} {K : Type v} [DecidableEq K]

/-- The index holds exactly the keys of the table's entries, each with the
position of its entry. -/
def Indexes (key : α → Option K) (table : List α) (index : AList fun _ : K => Nat) : Prop :=
  ∀ (k : K) (i : Nat), index.lookup k = some i ↔ table[i]?.bind key = some k

namespace Indexes

variable {key : α → Option K} {table : List α} {index : AList fun _ : K => Nat}

theorem unique (h : Indexes key table index) {i j : Nat} {k : K}
    (hi : table[i]?.bind key = some k) (hj : table[j]?.bind key = some k) : i = j := by
  rw [← h] at hi hj
  rw [hi] at hj
  exact Option.some.inj hj

/-- Entries that keep their keys keep their index. -/
theorem congr (h : Indexes key table index) {after : List α}
    (hkeys : ∀ i : Nat, after[i]?.bind key = table[i]?.bind key) : Indexes key after index := by
  intro k i
  rw [hkeys, h]

/-- An entry rewritten under its key. -/
theorem set (h : Indexes key table index) {i : Nat} {a b : α} (ha : table[i]? = some a)
    (hkey : key b = key a) : Indexes key (table.set i b) index := by
  apply h.congr
  intro j
  by_cases hij : i = j
  · subst hij
    rw [List.getElem?_set_self (List.getElem?_eq_some_iff.mp ha).1, ha, Option.bind_some,
      Option.bind_some, hkey]
  · rw [List.getElem?_set_ne hij]

theorem concat (h : Indexes key table index) {b : α} {k : K} (hkey : key b = some k)
    (hfresh : index.lookup k = none) :
    Indexes key (table ++ [b]) (index.insert k table.length) := by
  intro k' i
  by_cases hk : k' = k
  · subst hk
    rw [AList.lookup_insert, Option.some.injEq]
    constructor
    · rintro rfl
      simp [hkey]
    · intro hentry
      by_contra hne
      have hold : (table ++ [b])[i]? = table[i]? := by
        by_cases hi : i < table.length
        · rw [List.getElem?_append_left hi]
        · have hbeyond : table.length < i := by omega
          rw [List.getElem?_eq_none (by simp; omega), List.getElem?_eq_none (by omega)]
      rw [hold, ← h, hfresh] at hentry
      cases hentry
  · rw [AList.lookup_insert_ne hk, h]
    by_cases hi : i < table.length
    · rw [List.getElem?_append_left hi]
    · rw [List.getElem?_eq_none (Nat.le_of_not_lt hi),
        List.getElem?_append_right (Nat.le_of_not_lt hi)]
      cases hoffset : i - table.length with
      | zero => simp [hkey, Ne.symm hk]
      | succ n => simp

/-- An entry without a key. -/
theorem concat_none (h : Indexes key table index) {b : α} (hkey : key b = none) :
    Indexes key (table ++ [b]) index := by
  apply h.congr
  intro i
  by_cases hi : i < table.length
  · rw [List.getElem?_append_left hi]
  · rw [List.getElem?_eq_none (Nat.le_of_not_lt hi),
      List.getElem?_append_right (Nat.le_of_not_lt hi)]
    cases hoffset : i - table.length with
    | zero => simp [hkey]
    | succ n => simp

/-- An entry given its first key, or the one it has. -/
theorem bind (h : Indexes key table index) {i : Nat} {a b : α} {k : K} (ha : table[i]? = some a)
    (hkey : key b = some k) (hbefore : key a = none ∨ key a = some k)
    (hfree : ∀ j, index.lookup k = some j → j = i) :
    Indexes key (table.set i b) (index.insert k i) := by
  have hlt : i < table.length := (List.getElem?_eq_some_iff.mp ha).1
  intro k' j
  by_cases hij : i = j
  · subst hij
    rw [List.getElem?_set_self hlt, Option.bind_some, hkey, Option.some.injEq]
    by_cases hk : k' = k
    · subst hk
      simp
    · rw [AList.lookup_insert_ne hk, h, ha, Option.bind_some]
      constructor
      · intro hother
        rcases hbefore with hnone | hsome
        · rw [hnone] at hother
          cases hother
        · rw [hsome] at hother
          exact Option.some.inj hother
      · exact fun heq => absurd heq.symm hk
  · rw [List.getElem?_set_ne hij]
    by_cases hk : k' = k
    · subst hk
      rw [AList.lookup_insert, Option.some.injEq]
      constructor
      · exact fun heq => absurd heq hij
      · intro hentry
        exact absurd (hfree j ((h k' j).mpr hentry)).symm hij
    · rw [AList.lookup_insert_ne hk, h]

/-- An entry whose key changes. An entry that had none erases a key nobody has. -/
theorem rekey (h : Indexes key table index) {i : Nat} {a b : α} {old k : K}
    (ha : table[i]? = some a) (hold : key a = some old ∨ key a = none ∧ index.lookup old = none)
    (hkey : key b = some k) (hfree : ∀ j, index.lookup k = some j → j = i) :
    Indexes key (table.set i b) ((index.erase old).insert k i) := by
  have hlt : i < table.length := (List.getElem?_eq_some_iff.mp ha).1
  -- Nobody but the entry itself can be found under the key that is erased.
  have holdFree : ∀ j, index.lookup old = some j → j = i := by
    intro j hlookup
    rcases hold with hsome | ⟨_, hnone⟩
    · exact h.unique ((h old j).mp hlookup) (by rw [ha, Option.bind_some, hsome])
    · rw [hnone] at hlookup
      cases hlookup
  intro k' j
  by_cases hij : i = j
  · subst hij
    rw [List.getElem?_set_self hlt, Option.bind_some, hkey, Option.some.injEq]
    by_cases hk : k' = k
    · subst hk
      simp
    · rw [AList.lookup_insert_ne hk]
      constructor
      · intro hlookup
        by_cases hk' : k' = old
        · subst hk'
          rw [AList.lookup_erase] at hlookup
          cases hlookup
        · rw [AList.lookup_erase_ne hk', h, ha, Option.bind_some] at hlookup
          rcases hold with hsome | ⟨hnone, _⟩
          · rw [hsome] at hlookup
            exact absurd (Option.some.inj hlookup).symm hk'
          · rw [hnone] at hlookup
            cases hlookup
      · exact fun heq => absurd heq.symm hk
  · rw [List.getElem?_set_ne hij, ← h]
    by_cases hk : k' = k
    · subst hk
      rw [AList.lookup_insert, Option.some.injEq]
      constructor
      · exact fun heq => absurd heq hij
      · exact fun hlookup => absurd (hfree j hlookup).symm hij
    · rw [AList.lookup_insert_ne hk]
      by_cases hk' : k' = old
      · subst hk'
        rw [AList.lookup_erase]
        constructor
        · intro hfalse
          cases hfalse
        · exact fun hlookup => absurd (holdFree j hlookup).symm hij
      · rw [AList.lookup_erase_ne hk']

/-- An entry can only be appended under a key nobody has. -/
theorem lookup_eq_none_of_concat (h : Indexes key table index) {b : α} {k : K}
    (hkey : key b = some k) {after : AList fun _ : K => Nat}
    (hafter : Indexes key (table ++ [b]) after) : index.lookup k = none := by
  by_contra hsome
  obtain ⟨j, hj⟩ := Option.ne_none_iff_exists'.mp hsome
  have hentry := (h k j).mp hj
  have hlt : j < table.length := by
    by_contra hnot
    rw [List.getElem?_eq_none (Nat.le_of_not_lt hnot)] at hentry
    cases hentry
  have hold : (table ++ [b])[j]?.bind key = some k := by
    rw [List.getElem?_append_left hlt, hentry]
  have hnew : (table ++ [b])[table.length]?.bind key = some k := by simp [hkey]
  exact absurd (hafter.unique hold hnew) (Nat.ne_of_lt hlt)

/-- An entry can only be rewritten under a key no other entry has. -/
theorem eq_of_lookup_of_set (h : Indexes key table index) {i : Nat} {a b : α} {k : K}
    (ha : table[i]? = some a) (hkey : key b = some k) {after : AList fun _ : K => Nat}
    (hafter : Indexes key (table.set i b) after) {j : Nat} (hlookup : index.lookup k = some j) :
    j = i := by
  by_contra hne
  have hold : (table.set i b)[j]?.bind key = some k := by
    rw [List.getElem?_set_ne (Ne.symm hne), (h k j).mp hlookup]
  have hnew : (table.set i b)[i]?.bind key = some k := by
    rw [List.getElem?_set_self (List.getElem?_eq_some_iff.mp ha).1, Option.bind_some, hkey]
  exact hne (hafter.unique hold hnew)

end Indexes

/-- The index after the first `n` positions: a later entry overwrites an earlier
one with the same key, and an entry without a key is skipped. -/
def build (key : α → Option K) (table : List α) (n : Nat) : AList fun _ : K => Nat :=
  (List.range n).foldl
    (fun index i =>
      match table[i]?.bind key with
      | none => index
      | some k => index.insert k i) ∅

variable {key : α → Option K} {table : List α}

theorem build_succ (n : Nat) :
    build key table (n + 1) =
      match table[n]?.bind key with
      | none => build key table n
      | some k => (build key table n).insert k n := by
  rw [build, List.range_succ, List.foldl_append]
  rfl

/-- A built index points at an entry that carries the key. -/
theorem key_of_lookup_build {n i : Nat} {k : K} (h : (build key table n).lookup k = some i) :
    i < n ∧ table[i]?.bind key = some k := by
  induction n with
  | zero => simp [build] at h
  | succ n ih =>
      rw [build_succ] at h
      cases hkey : table[n]?.bind key with
      | none =>
          rw [hkey] at h
          exact ⟨Nat.lt_succ_of_lt (ih h).1, (ih h).2⟩
      | some k' =>
          rw [hkey] at h
          dsimp only at h
          by_cases hk : k = k'
          · subst hk
            rw [AList.lookup_insert] at h
            cases h
            exact ⟨Nat.lt_succ_self _, hkey⟩
          · rw [AList.lookup_insert_ne hk] at h
            exact ⟨Nat.lt_succ_of_lt (ih h).1, (ih h).2⟩

/-- With distinct keys, a built index finds every entry it has passed. -/
theorem lookup_build {n i : Nat} {k : K} (hi : i < n) (hkey : table[i]?.bind key = some k)
    (hdistinct : ∀ j : Nat, table[j]?.bind key = some k → j = i) :
    (build key table n).lookup k = some i := by
  induction n with
  | zero => cases hi
  | succ n ih =>
      rw [build_succ]
      by_cases hin : i = n
      · subst hin
        rw [hkey]
        exact AList.lookup_insert _
      · have hlt : i < n := by omega
        cases hn : table[n]?.bind key with
        | none => exact ih hlt
        | some k' =>
            have hk : k ≠ k' := by
              rintro rfl
              exact hin (hdistinct n hn).symm
            dsimp only
            rw [AList.lookup_insert_ne hk]
            exact ih hlt

/-- With distinct keys, a pass over the whole table builds its index. -/
theorem indexes_build
    (hdistinct : ∀ (i j : Nat) (k : K), table[i]?.bind key = some k →
      table[j]?.bind key = some k → i = j) :
    Indexes key table (build key table table.length) := by
  intro k i
  constructor
  · exact fun hlookup => (key_of_lookup_build hlookup).2
  · intro hkey
    have hlt : i < table.length := by
      by_contra hnot
      rw [List.getElem?_eq_none (Nat.le_of_not_lt hnot)] at hkey
      cases hkey
    exact lookup_build hlt hkey fun j hj => hdistinct j i k hj hkey

end Index
