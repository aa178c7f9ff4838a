/-
# Writing round a circle of slots

Values are written one after another into the slots of a circle, the value of number `k`
into slot `k % cap`. Two numbers less than a turn apart have different slots, so the slots
hold the values of the last turn, and the next write spoils only the oldest of a full turn.
-/

import Mathlib.Data.Nat.Basic

universe u

namespace Circle

variable {α : Type u} {cap lo lo' : Nat} {slots written : List α}

/-- Numbers less than a turn apart have different slots. -/
theorem mod_ne_mod {first second : Nat} (hlt : first < second) (hturn : second < first + cap) :
    first % cap ≠ second % cap := by
  intro heq
  have hzero := Nat.sub_mod_eq_zero_of_mod_eq heq.symm
  rw [Nat.mod_eq_of_lt (by omega)] at hzero
  omega

/-- The slots hold the values written from number `lo` on. -/
structure Holds (cap : Nat) (slots written : List α) (lo : Nat) : Prop where
  length : slots.length = cap
  slot : ∀ k, lo ≤ k → k < written.length → slots[k % cap]? = written[k]?

theorem holds_nil (h : slots.length = cap) : Holds cap slots [] 0 :=
  ⟨h, fun _ _ hlt => absurd hlt (Nat.not_lt_zero _)⟩

/-- Giving up the oldest values leaves the others. -/
theorem Holds.forget (h : Holds cap slots written lo) (hle : lo ≤ lo') :
    Holds cap slots written lo' :=
  ⟨h.length, fun k hk hlt => h.slot k (Nat.le_trans hle hk) hlt⟩

/-- A write less than a turn behind the oldest value spoils none of them. -/
theorem Holds.write (h : Holds cap slots written lo) (hcap : 0 < cap)
    (hroom : written.length < lo + cap) (value : α) :
    Holds cap (slots.set (written.length % cap) value) (written ++ [value]) lo := by
  refine ⟨by rw [List.length_set, h.length], fun k hk hlt => ?_⟩
  rw [List.length_append, List.length_singleton] at hlt
  by_cases hlast : k = written.length
  · subst hlast
    have hslot : written.length % cap < slots.length := by
      rw [h.length]
      exact Nat.mod_lt _ hcap
    rw [List.getElem?_set_self hslot, List.getElem?_concat_length]
  · have hne : k % cap ≠ written.length % cap := mod_ne_mod (by omega) (by omega)
    rw [List.getElem?_set_ne hne.symm, h.slot k hk (by omega),
      List.getElem?_append_left (by omega)]

end Circle
