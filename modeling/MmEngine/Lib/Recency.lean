/-
# The last keys accepted

A ring with a count and a cursor accepts a key unless it holds it already. What it holds is
told by the history of the keys it accepted: the last `cap` of them, all different. The
history itself may repeat a key, but never within a turn of the ring, so from the first
eviction on some accepted key is missing.
-/

import Mathlib.Data.List.Nodup
import Mathlib.Data.List.Perm.Basic
import MmEngine.Lib.Circle

universe u v

namespace Recency

variable {α : Type u} {cap : Nat} {history : List α} {id : α}

/-- The last `cap` keys of a history. -/
def recent (cap : Nat) (history : List α) : List α := history.drop (history.length - cap)

theorem length_recent : (recent cap history).length = min history.length cap := by
  rw [recent, List.length_drop]
  omega

theorem recent_of_le (h : history.length ≤ cap) : recent cap history = history := by
  rw [recent, Nat.sub_eq_zero_of_le h, List.drop_zero]

theorem recent_succ_concat : recent (cap + 1) (history ++ [id]) = recent cap history ++ [id] := by
  rw [recent, recent, List.length_append, List.length_singleton,
    List.drop_append_of_le_length (by omega)]
  congr 2
  omega

theorem recent_concat_of_lt (h : history.length < cap) :
    recent cap (history ++ [id]) = recent cap history ++ [id] := by
  rw [recent_of_le (Nat.le_of_lt h), recent_of_le]
  rw [List.length_append, List.length_singleton]
  exact h

/-- A full turn starts with its oldest key. -/
theorem recent_eq_cons (hcap : 0 < cap) (hfull : cap ≤ history.length) :
    ∃ oldest, history[history.length - cap]? = some oldest ∧
      recent cap history = oldest :: history.drop (history.length - cap + 1) := by
  have hlt : history.length - cap < history.length := by omega
  exact ⟨history[history.length - cap], List.getElem?_eq_getElem hlt, List.drop_eq_getElem_cons hlt⟩

theorem recent_concat_of_le (hcap : 0 < cap) (hfull : cap ≤ history.length) :
    recent cap (history ++ [id]) = history.drop (history.length - cap + 1) ++ [id] := by
  rw [recent, List.length_append, List.length_singleton,
    List.drop_append_of_le_length (by omega)]
  congr 2
  omega

/-- The parts of a ring that has accepted the keys of the history. -/
structure Remembers (cap : Nat) (ids : List α) (count next : Nat) (overflowed : Bool)
    (history : List α) : Prop where
  count_eq : count = min history.length cap
  next_eq : next = history.length % cap
  overflowed_eq : overflowed = decide (cap < history.length)
  held : Circle.Holds cap ids history (history.length - cap)
  perm : (ids.take count).Perm (recent cap history)
  nodup : (recent (cap + 1) history).Nodup

/-- What the keys a ring holds are, given the keys it has accepted. -/
structure MostRecent (cap : Nat) (remembered accepted : List α) (overflowed : Bool) : Prop where
  perm : remembered.Perm (recent cap accepted)
  length : remembered.length = min accepted.length cap
  nodup : remembered.Nodup
  complete : overflowed = false ↔ ∀ id ∈ accepted, id ∈ remembered

namespace Remembers

variable {ids : List α} {count next : Nat} {overflowed : Bool}

theorem nil (hlength : ids.length = cap) : Remembers cap ids 0 0 false [] where
  count_eq := (Nat.zero_min cap).symm
  next_eq := (Nat.zero_mod cap).symm
  overflowed_eq := by simp
  held := by
    rw [List.length_nil, Nat.zero_sub]
    exact Circle.holds_nil hlength
  perm := by simp [recent]
  nodup := by simp [recent]

theorem nodup_recent (h : Remembers cap ids count next overflowed history) :
    (recent cap history).Nodup := by
  refine h.nodup.sublist ?_
  rw [recent, recent]
  exact List.drop_sublist_drop_left history (by omega)

/-- Room: the key goes behind the others. -/
theorem perm_of_room (h : Remembers cap ids count next overflowed history)
    (hroom : history.length < cap) :
    ((ids.set next id).take (count + 1)).Perm (recent cap (history ++ [id])) := by
  have hcount : count = history.length := by
    rw [h.count_eq]
    omega
  have hnext : next = count := by rw [h.next_eq, hcount, Nat.mod_eq_of_lt hroom]
  have hlt : count < (ids.set next id).length := by
    rw [List.length_set, h.held.length, hcount]
    exact hroom
  have htake : (ids.set next id).take (count + 1) = ids.take count ++ [id] := by
    subst hnext
    rw [List.take_succ_eq_append_getElem hlt, List.getElem_set_self,
      List.take_set_of_le (Nat.le_refl _)]
  rw [htake, recent_concat_of_lt hroom]
  exact h.perm.append_right [id]

/-- No room: the key takes the slot of the oldest. -/
theorem perm_of_full (h : Remembers cap ids count next overflowed history) (hcap : 0 < cap)
    (hfull : cap ≤ history.length) :
    ((ids.set next id).take count).Perm (recent cap (history ++ [id])) := by
  have hcount : count = ids.length := by
    rw [h.count_eq, h.held.length]
    omega
  have hlt : next < ids.length := by
    rw [h.held.length, h.next_eq]
    exact Nat.mod_lt _ hcap
  obtain ⟨oldest, holdest, hrecent⟩ := recent_eq_cons hcap hfull
  have hslot : ids[next]? = some oldest := by
    rw [h.next_eq, Nat.mod_eq_sub_mod hfull, h.held.slot _ (Nat.le_refl _) (by omega), holdest]
  have hold : ids.Perm (oldest :: history.drop (history.length - cap + 1)) := by
    have hperm := h.perm
    rwa [hcount, List.take_length, hrecent] at hperm
  have hrest : (ids.eraseIdx next).Perm (history.drop (history.length - cap + 1)) := by
    obtain ⟨_, hget⟩ := List.getElem?_eq_some_iff.mp hslot
    have herase := (List.getElem_cons_eraseIdx_perm hlt).trans hold
    rw [hget] at herase
    exact herase.cons_inv
  have hall : count = (ids.set next id).length := by rw [List.length_set, hcount]
  rw [hall, List.take_length, recent_concat_of_le hcap hfull]
  calc List.Perm (ids.set next id) (id :: ids.eraseIdx next) := List.set_perm_cons_eraseIdx hlt id
    List.Perm _ (id :: history.drop (history.length - cap + 1)) := hrest.cons id
    List.Perm _ (history.drop (history.length - cap + 1) ++ [id]) :=
      (List.perm_append_singleton _ _).symm

/-- A key the ring does not hold is accepted. -/
theorem record (h : Remembers cap ids count next overflowed history) (hcap : 0 < cap)
    (hnew : id ∉ ids.take count) :
    Remembers cap (ids.set next id) (if count < cap then count + 1 else count)
      ((next + 1) % cap) (overflowed || !decide (count < cap)) (history ++ [id]) where
  count_eq := by
    have hcount := h.count_eq
    rw [List.length_append, List.length_singleton]
    split <;> omega
  next_eq := by
    rw [h.next_eq, Nat.mod_add_mod, List.length_append, List.length_singleton]
  overflowed_eq := by
    have hcount := h.count_eq
    rw [h.overflowed_eq, List.length_append, List.length_singleton, Bool.eq_iff_iff]
    simp only [Bool.or_eq_true, decide_eq_true_eq, Bool.not_eq_true', decide_eq_false_iff_not]
    omega
  held := by
    rw [h.next_eq, List.length_append, List.length_singleton]
    exact (h.held.forget (by omega)).write hcap (by omega) id
  perm := by
    have hcount := h.count_eq
    split
    · exact h.perm_of_room (by omega)
    · exact h.perm_of_full hcap (by omega)
  nodup := by
    rw [recent_succ_concat, List.nodup_append_comm, List.singleton_append, List.nodup_cons]
    exact ⟨fun hmem => hnew (h.perm.mem_iff.mpr hmem), h.nodup_recent⟩

/-- Nothing has been evicted, or the key evicted last is not held. -/
theorem complete (h : Remembers cap ids count next overflowed history) :
    overflowed = false ↔ ∀ id ∈ history, id ∈ ids.take count := by
  rw [h.overflowed_eq, decide_eq_false_iff_not, Nat.not_lt]
  constructor
  · intro hle id hmem
    rw [h.perm.mem_iff, recent_of_le hle]
    exact hmem
  · intro hall
    by_contra hlt
    have hfull : cap + 1 ≤ history.length := by omega
    obtain ⟨evicted, hevicted, hrecent⟩ := recent_eq_cons (Nat.succ_pos cap) hfull
    have hsame : history.drop (history.length - (cap + 1) + 1) = recent cap history := by
      rw [recent]
      congr 1
      omega
    have hnodup := h.nodup
    rw [hrecent, hsame, List.nodup_cons] at hnodup
    exact hnodup.1 (h.perm.mem_iff.mp (hall evicted (List.mem_of_getElem? hevicted)))

theorem mostRecent (h : Remembers cap ids count next overflowed history) :
    MostRecent cap (ids.take count) history overflowed where
  perm := h.perm
  length := by rw [h.perm.length_eq, length_recent]
  nodup := h.perm.nodup_iff.mpr h.nodup_recent
  complete := h.complete

end Remembers

section Run

variable {R : Type v} (insertCall : R → α → Bool × R)

/-- The keys a run of inserts accepted, and the ring after it. -/
def insertAll : List α → R → List α × R
  | [], ring => ([], ring)
  | id :: later, ring =>
      let rest := insertAll later (insertCall ring id).2
      (if (insertCall ring id).1 then id :: rest.1 else rest.1, rest.2)

variable {insertCall}

/-- What each insert keeps of the ring and the keys accepted so far, a run keeps. -/
theorem insertAll_invariant {I : R → List α → Prop}
    (haccepted : ∀ ring history id, I ring history → (insertCall ring id).1 = true →
      I (insertCall ring id).2 (history ++ [id]))
    (hrefused : ∀ ring history id, I ring history → (insertCall ring id).1 = false →
      I (insertCall ring id).2 history)
    (calls : List α) :
    ∀ ring history, I ring history →
      I (insertAll insertCall calls ring).2 (history ++ (insertAll insertCall calls ring).1) := by
  induction calls with
  | nil =>
      intro ring history h
      rwa [insertAll, List.append_nil]
  | cons id later ih =>
      intro ring history h
      rw [insertAll]
      cases hcalled : (insertCall ring id).1 with
      | true =>
          have hlater := ih _ _ (haccepted ring history id h hcalled)
          rw [List.append_assoc, List.singleton_append] at hlater
          exact hlater
      | false => exact ih _ _ (hrefused ring history id h hcalled)

end Run

end Recency
