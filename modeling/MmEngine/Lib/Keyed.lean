/-
# Lists searched by key

A list whose entries carry a key is searched from the front, and the entry found
is the one that is written back. The lemmas say what such a write changes: the
entry found under its own key, and nothing that is found under another. Reading the
entry, changing it and writing it back is one operation, `amend`, and its lemmas say
which properties of the whole list such a change keeps.
-/

import Mathlib.Data.List.Basic

namespace Keyed

universe u v

variable {α : Type u} {K : Type v} [DecidableEq K] {key : α → K}

/-- Writes an entry over the first one with a key. -/
def put (key : α → K) (k : K) (b : α) (l : List α) : List α :=
  l.replaceF fun a => if key a = k then some b else none

theorem put_cons (k : K) (a b : α) (l : List α) :
    put key k b (a :: l) = if key a = k then b :: l else a :: put key k b l := by
  simp only [put]
  rw [List.replaceF_cons]
  split <;> simp_all

/-- Writing back an entry under its key: it is found there. -/
theorem find?_put_self {k : K} {a b : α} {l : List α}
    (hfind : l.find? (fun c => key c = k) = some a) (hkey : key b = k) :
    (put key k b l).find? (fun c => key c = k) = some b := by
  induction l with
  | nil => cases hfind
  | cons c l ih =>
      rw [put_cons]
      by_cases hc : key c = k
      · rw [if_pos hc, List.find?_cons_of_pos (by simpa using hkey)]
      · rw [if_neg hc, List.find?_cons_of_neg (by simpa using hc)]
        rw [List.find?_cons_of_neg (by simpa using hc)] at hfind
        exact ih hfind

/-- A write under one key is not seen under another. -/
theorem find?_put_other {k k' : K} {b : α} {l : List α} (hkey : key b = k) (hk : k' ≠ k) :
    (put key k b l).find? (fun c => key c = k') = l.find? (fun c => key c = k') := by
  induction l with
  | nil => rfl
  | cons c l ih =>
      rw [put_cons]
      by_cases hc : key c = k
      · have hb : ¬key b = k' := fun hb => hk (hb.symm.trans hkey)
        have hc' : ¬key c = k' := fun hc' => hk (hc'.symm.trans hc)
        rw [if_pos hc, List.find?_cons_of_neg (by simpa using hb),
          List.find?_cons_of_neg (by simpa using hc')]
      · rw [if_neg hc, List.find?_cons, List.find?_cons, ih]

/-- A write replaces one entry in place: the first with its key. -/
theorem exists_split_put {k : K} {a : α} {l : List α}
    (hfind : l.find? (fun c => key c = k) = some a) (b : α) :
    ∃ front back, l = front ++ a :: back ∧ (∀ c ∈ front, key c ≠ k) ∧
      put key k b l = front ++ b :: back := by
  induction l with
  | nil => cases hfind
  | cons c l ih =>
      rw [put_cons]
      by_cases hc : key c = k
      · rw [List.find?_cons_of_pos (by simpa using hc)] at hfind
        cases hfind
        exact ⟨[], l, rfl, by simp, if_pos hc⟩
      · rw [List.find?_cons_of_neg (by simpa using hc)] at hfind
        obtain ⟨front, back, rfl, hfront, hput⟩ := ih hfind
        refine ⟨c :: front, back, rfl, ?_, by rw [if_neg hc, hput]; rfl⟩
        rintro d (_ | ⟨_, hd⟩)
        · exact hc
        · exact hfront d hd

/-- Changes the first entry with a key, if there is one. -/
def amend (key : α → K) (k : K) (f : α → α) (l : List α) : List α :=
  match l.find? fun a => key a = k with
  | none => l
  | some a => put key k (f a) l

theorem amend_cons (k : K) (f : α → α) (a : α) (l : List α) :
    amend key k f (a :: l) = if key a = k then f a :: l else a :: amend key k f l := by
  by_cases ha : key a = k
  · rw [amend, List.find?_cons_of_pos (by simpa using ha), if_pos ha]
    simp only [put_cons, if_pos ha]
  · rw [amend, amend, List.find?_cons_of_neg (by simpa using ha), if_neg ha]
    cases l.find? fun a => key a = k with
    | none => rfl
    | some b => simp only [put_cons, if_neg ha]

theorem length_amend (k : K) (f : α → α) (l : List α) :
    (amend key k f l).length = l.length := by
  induction l with
  | nil => rfl
  | cons a l ih =>
      rw [amend_cons]
      split
      · rfl
      · rw [List.length_cons, List.length_cons, ih]

/-- Afterwards an entry is as it was, or it is the changed one. -/
theorem mem_amend {k : K} {f : α → α} {l : List α} {b : α} (h : b ∈ amend key k f l) :
    b ∈ l ∨ ∃ a ∈ l, key a = k ∧ b = f a := by
  induction l with
  | nil => exact .inl h
  | cons c l ih =>
      rw [amend_cons] at h
      split at h
      · rename_i hc
        rcases List.mem_cons.mp h with rfl | hb
        · exact .inr ⟨c, List.mem_cons_self, hc, rfl⟩
        · exact .inl (List.mem_cons_of_mem _ hb)
      · rcases List.mem_cons.mp h with rfl | hb
        · exact .inl List.mem_cons_self
        · rcases ih hb with hold | ⟨a, ha, hkey, rfl⟩
          · exact .inl (List.mem_cons_of_mem _ hold)
          · exact .inr ⟨a, List.mem_cons_of_mem _ ha, hkey, rfl⟩

/-- A change that keeps keys is seen where the entry is found. -/
theorem find?_amend_self {k : K} {f : α → α} (hf : ∀ a, key (f a) = key a) (l : List α) :
    (amend key k f l).find? (fun a => key a = k) = (l.find? fun a => key a = k).map f := by
  rw [amend]
  cases hfind : l.find? fun a => key a = k with
  | none => simp only [hfind, Option.map_none]
  | some a =>
      have hkey : key a = k := by simpa using List.find?_some hfind
      exact find?_put_self hfind ((hf a).trans hkey)

/-- It is seen under no other key. -/
theorem find?_amend_other {k k' : K} {f : α → α} (hf : ∀ a, key (f a) = key a) (hk : k' ≠ k)
    (l : List α) :
    (amend key k f l).find? (fun a => key a = k') = l.find? fun a => key a = k' := by
  rw [amend]
  cases hfind : l.find? fun a => key a = k with
  | none => rfl
  | some a =>
      have hkey : key a = k := by simpa using List.find?_some hfind
      exact find?_put_other ((hf a).trans hkey) hk

/-- An entry behind another of its key is never the one that is changed. -/
theorem pairwise_amend {P : α → Prop} {k : K} {f : α → α} (hf : ∀ a, key (f a) = key a)
    {l : List α} (h : l.Pairwise fun a b => key a = key b → P b) :
    (amend key k f l).Pairwise fun a b => key a = key b → P b := by
  induction l with
  | nil => exact h
  | cons c l ih =>
      rw [List.pairwise_cons] at h
      rw [amend_cons]
      split
      · rw [List.pairwise_cons, hf c]
        exact h
      · rename_i hc
        refine List.pairwise_cons.mpr ⟨?_, ih h.2⟩
        intro b hb heq
        rcases mem_amend hb with hmem | ⟨a, -, hkey, rfl⟩
        · exact h.1 b hmem heq
        · exact absurd (heq.trans ((hf a).trans hkey)) hc

/-- Lists that a view cannot tell apart, changed in ways it cannot tell apart. -/
theorem map_amend_congr {V : Type*} {view : α → V} {k : K} {f g : α → α}
    (hkey : ∀ a b, view a = view b → key a = key b)
    (hfg : ∀ a b, view a = view b → view (f a) = view (g b)) {l l' : List α}
    (h : l.map view = l'.map view) :
    (amend key k f l).map view = (amend key k g l').map view := by
  induction l generalizing l' with
  | nil =>
      cases l' with
      | nil => rfl
      | cons b l' => cases h
  | cons a l ih =>
      cases l' with
      | nil => cases h
      | cons b l' =>
          obtain ⟨hab, hrest⟩ := List.cons.inj h
          rw [amend_cons, amend_cons, hkey a b hab]
          split
          · rw [List.map_cons, List.map_cons, hfg a b hab, hrest]
          · rw [List.map_cons, List.map_cons, hab, ih hrest]

end Keyed
