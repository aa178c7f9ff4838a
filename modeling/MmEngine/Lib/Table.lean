/-
# Append-only tables

A table is a list whose positions identify its entries: an operation may rewrite
entries in place and append new ones, and never moves or removes one. `Evolves`
says so, with what a rewrite may do and what a new entry looks like; the lemmas
carry a property of all entries across such an operation. The last section
turns a loop that rewrites position after position into a map.
-/

import Mathlib.Data.List.Basic

namespace Table

universe u v

variable {α : Type u}

/-- The table `after` extends `before`: the entry at `i` was rewritten by
`Rewrite i`, and every entry beyond the old length is `New`. -/
structure Evolves (Rewrite : Nat → α → α → Prop) (New : α → Prop) (before after : List α) :
    Prop where
  length_le : before.length ≤ after.length
  old : ∀ (i : Nat) (a : α), before[i]? = some a → ∃ b, after[i]? = some b ∧ Rewrite i a b
  new : ∀ (i : Nat) (b : α), before.length ≤ i → after[i]? = some b → New b

namespace Evolves

variable {Rewrite Rewrite' : Nat → α → α → Prop} {New New' : α → Prop}
  {before middle after : List α}

theorem refl (hrefl : ∀ i a, Rewrite i a a) (l : List α) : Evolves Rewrite New l l where
  length_le := Nat.le_refl _
  old _ a ha := ⟨a, ha, hrefl _ a⟩
  new i b hi hb := by
    rw [List.getElem?_eq_none hi] at hb
    cases hb

/-- An entry of the later table is a rewritten old entry or a new one. -/
theorem cases_entry (h : Evolves Rewrite New before after) {i : Nat} {b : α}
    (hb : after[i]? = some b) :
    (∃ a, before[i]? = some a ∧ Rewrite i a b) ∨ before.length ≤ i ∧ New b := by
  by_cases hi : before.length ≤ i
  · exact .inr ⟨hi, h.new i b hi hb⟩
  · obtain ⟨a, ha⟩ : ∃ a, before[i]? = some a :=
      ⟨_, List.getElem?_eq_getElem (Nat.lt_of_not_le hi)⟩
    obtain ⟨b', hb', hrewrite⟩ := h.old i a ha
    rw [hb] at hb'
    cases hb'
    exact .inl ⟨a, ha, hrewrite⟩

/-- Overwriting one entry. -/
theorem set (hrefl : ∀ i a, Rewrite i a a) {i : Nat} {a b : α} (ha : before[i]? = some a)
    (hrewrite : Rewrite i a b) : Evolves Rewrite New before (before.set i b) where
  length_le := Nat.le_of_eq List.length_set.symm
  old j c hc := by
    by_cases hij : i = j
    · subst hij
      rw [ha] at hc
      cases hc
      have hlt : i < before.length := (List.getElem?_eq_some_iff.mp ha).1
      exact ⟨b, by rw [List.getElem?_set_self hlt], hrewrite⟩
    · exact ⟨c, by rw [List.getElem?_set_ne hij, hc], hrefl j c⟩
  new j c hj hc := by
    have hlt : j < (before.set i b).length := (List.getElem?_eq_some_iff.mp hc).1
    rw [List.length_set] at hlt
    omega

/-- Overwriting one entry of the later table by a rewrite of the earlier one. -/
theorem set_later (h : Evolves Rewrite New before after) {i : Nat} {b : α}
    (hi : i < before.length) (hrewrite : ∀ a, before[i]? = some a → Rewrite i a b) :
    Evolves Rewrite New before (after.set i b) where
  length_le := by
    rw [List.length_set]
    exact h.length_le
  old j a ha := by
    by_cases hij : i = j
    · subst hij
      exact ⟨b, List.getElem?_set_self (Nat.lt_of_lt_of_le hi h.length_le), hrewrite a ha⟩
    · rw [List.getElem?_set_ne hij]
      exact h.old j a ha
  new j c hj hc := by
    rw [List.getElem?_set_ne (by omega)] at hc
    exact h.new j c hj hc

/-- Appending one entry. -/
theorem concat (hrefl : ∀ i a, Rewrite i a a) {b : α} (hnew : New b) :
    Evolves Rewrite New before (before ++ [b]) where
  length_le := by simp
  old i a ha := by
    have hlt : i < before.length := (List.getElem?_eq_some_iff.mp ha).1
    exact ⟨a, by rw [List.getElem?_append_left hlt, ha], hrefl i a⟩
  new i c hi hc := by
    rw [List.getElem?_append_right hi] at hc
    have hlt : i - before.length < [b].length := (List.getElem?_eq_some_iff.mp hc).1
    rw [List.length_singleton, Nat.lt_one_iff] at hlt
    rw [hlt] at hc
    cases hc
    exact hnew

/-- Rewriting every entry. -/
theorem map {f : α → α} (hrewrite : ∀ i a, before[i]? = some a → Rewrite i a (f a)) :
    Evolves Rewrite New before (before.map f) where
  length_le := Nat.le_of_eq (List.length_map f).symm
  old i a ha := ⟨f a, by rw [List.getElem?_map, ha, Option.map_some], hrewrite i a ha⟩
  new i b hi hb := by
    rw [List.getElem?_eq_none (by rwa [List.length_map])] at hb
    cases hb

/-- An operation that adds nothing keeps the length. -/
theorem length_eq (h : Evolves Rewrite (fun _ => False) before after) :
    after.length = before.length := by
  apply Nat.le_antisymm _ h.length_le
  by_contra hlt
  have hget : after[before.length]? = some (after.get ⟨before.length, Nat.lt_of_not_le hlt⟩) :=
    List.getElem?_eq_getElem (Nat.lt_of_not_le hlt)
  exact h.new before.length _ (Nat.le_refl _) hget

/-- What every rewrite keeps, the table keeps at every position. -/
theorem bind_eq {β : Type v} {f : α → Option β}
    (h : Evolves Rewrite (fun _ => False) before after)
    (hf : ∀ i a b, Rewrite i a b → f b = f a) (i : Nat) :
    after[i]?.bind f = before[i]?.bind f := by
  cases ha : before[i]? with
  | none =>
      have hbeyond : after.length ≤ i := by
        rw [h.length_eq]
        exact List.getElem?_eq_none_iff.mp ha
      rw [List.getElem?_eq_none hbeyond]
  | some a =>
      obtain ⟨b, hb, hab⟩ := h.old i a ha
      rw [hb, Option.bind_some, Option.bind_some, hf i a b hab]

/-- An operation that adds nothing keeps what every rewrite keeps. -/
theorem map_eq {β : Type v} {f : α → β} (h : Evolves Rewrite New before after)
    (hlength : after.length = before.length) (hf : ∀ i a b, Rewrite i a b → f b = f a) :
    after.map f = before.map f := by
  apply List.ext_getElem?
  intro i
  rw [List.getElem?_map, List.getElem?_map]
  cases ha : before[i]? with
  | none =>
      have hbeyond := List.getElem?_eq_none_iff.mp ha
      rw [List.getElem?_eq_none (Nat.le_trans (Nat.le_of_eq hlength) hbeyond)]
  | some a =>
      obtain ⟨b, hb, hab⟩ := h.old i a ha
      rw [hb, Option.map_some, Option.map_some, hf i a b hab]

theorem mono (h : Evolves Rewrite New before after)
    (hrewrite : ∀ i a b, before[i]? = some a → Rewrite i a b → Rewrite' i a b)
    (hnew : ∀ b, New b → New' b) : Evolves Rewrite' New' before after where
  length_le := h.length_le
  old i a ha := by
    obtain ⟨b, hb, hab⟩ := h.old i a ha
    exact ⟨b, hb, hrewrite i a b ha hab⟩
  new i b hi hb := hnew b (h.new i b hi hb)

/-- An operation followed by one that only appends. -/
theorem append_only (h : Evolves Rewrite New before middle)
    (hlater : Evolves (fun _ a b => a = b) New middle after) :
    Evolves Rewrite New before after where
  length_le := Nat.le_trans h.length_le hlater.length_le
  old i a ha := by
    obtain ⟨b, hb, hab⟩ := h.old i a ha
    obtain ⟨c, hc, rfl⟩ := hlater.old i b hb
    exact ⟨b, hc, hab⟩
  new i b hi hb := by
    rcases hlater.cases_entry hb with ⟨a, ha, rfl⟩ | ⟨_, hnew⟩
    · exact h.new i a hi ha
    · exact hnew

/-- A property of all entries survives when rewriting keeps it and new entries
have it. -/
theorem forall_entries {P : α → Prop} (h : Evolves Rewrite New before after)
    (hbefore : ∀ a ∈ before, P a) (hrewrite : ∀ i a b, P a → Rewrite i a b → P b)
    (hnew : ∀ b, New b → P b) : ∀ b ∈ after, P b := by
  intro b hb
  obtain ⟨i, hi⟩ := List.mem_iff_getElem?.mp hb
  rcases h.cases_entry hi with ⟨a, ha, hab⟩ | ⟨_, hfresh⟩
  · exact hrewrite i a b (hbefore a (List.mem_of_getElem? ha)) hab
  · exact hnew b hfresh

end Evolves

/-- A loop that rewrites each position by `f`, wherever the table sits in the
state, maps `f` over the table. The invariant `I` fixes whatever else the body
reads. -/
theorem foldl_modify {S : Type v} (table : S → List α) (f : α → α) (body : S → Nat → S)
    {I : S → Prop} (hI : ∀ s i, I s → I (body s i))
    (hbody : ∀ s i, I s → table (body s i) = (table s).modify i f) {s : S} (hs : I s) :
    table ((List.range (table s).length).foldl body s) = (table s).map f := by
  -- The first `n` iterations rewrite exactly the first `n` positions.
  have hpassed : ∀ n, I ((List.range n).foldl body s) ∧
      ∀ i : Nat, (table ((List.range n).foldl body s))[i]? =
        if i < n then (table s)[i]?.map f else (table s)[i]? := by
    intro n
    induction n with
    | zero => exact ⟨hs, fun i => by simp⟩
    | succ n ih =>
        rw [List.range_succ, List.foldl_append, List.foldl_cons, List.foldl_nil]
        refine ⟨hI _ n ih.1, fun i => ?_⟩
        rw [hbody _ n ih.1, List.getElem?_modify, ih.2 i]
        by_cases hi : n = i
        · subst hi
          simp
        · have hlt : i < n + 1 ↔ i < n := by omega
          simp [hi, hlt]
  apply List.ext_getElem?
  intro i
  rw [(hpassed _).2 i, List.getElem?_map]
  by_cases hi : i < (table s).length
  · rw [if_pos hi]
  · rw [if_neg hi, List.getElem?_eq_none (Nat.le_of_not_lt hi), Option.map_none]

/-- What every iteration preserves, the loop preserves. -/
theorem foldl_invariant {S : Type v} {β : Type*} {I : S → Prop} {body : S → β → S}
    (hbody : ∀ s b, I s → I (body s b)) (l : List β) {s : S} (hs : I s) : I (l.foldl body s) := by
  induction l generalizing s with
  | nil => exact hs
  | cons b l ih => exact ih (hbody s b hs)

/-- A loop over a list preserves what every iteration over one of its elements
preserves. -/
theorem foldl_invariant_mem {S : Type v} {β : Type*} {I : S → Prop} {body : S → β → S}
    (l : List β) (hbody : ∀ s, ∀ b ∈ l, I s → I (body s b)) {s : S} (hs : I s) :
    I (l.foldl body s) := by
  induction l generalizing s with
  | nil => exact hs
  | cons b l ih =>
      apply ih (fun s b' hb' => hbody s b' (List.mem_cons_of_mem b hb'))
      exact hbody s b List.mem_cons_self hs

/-- A loop passes over an entry that its body ignores. -/
theorem foldl_eraseIdx {S : Type v} {body : S → α → S} {l : List α} {i : Nat} {a : α}
    (ha : l[i]? = some a) (hignored : ∀ s, body s a = s) (s : S) :
    l.foldl body s = (l.eraseIdx i).foldl body s := by
  induction l generalizing i s with
  | nil => simp at ha
  | cons x l ih =>
      cases i with
      | zero =>
          simp only [List.getElem?_cons_zero, Option.some.injEq] at ha
          subst ha
          rw [List.foldl_cons, hignored, List.eraseIdx_cons_zero]
      | succ i =>
          rw [List.getElem?_cons_succ] at ha
          rw [List.foldl_cons, List.eraseIdx_cons_succ, List.foldl_cons, ih ha]

end Table
