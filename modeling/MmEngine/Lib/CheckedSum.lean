/-
# Sums that leave out what does not fit

A total is kept in a representation that holds only some of the values, and what cannot
be added is left out without a word. The total is then the true sum less what was left
out. For values of one sign it is the true sum exactly when the true sum can be held.
-/

import Mathlib.Algebra.Order.Group.Defs
import Mathlib.Algebra.Order.BigOperators.Group.List
import Mathlib.Tactic.Abel

namespace MmEngine.CheckedSum

variable {G : Type*} [AddCommGroup G] (fits : G → Prop) [DecidablePred fits]

/-- Adds a value, if it and the sum can be held. -/
def add (total value : G) : G := if fits value ∧ fits (total + value) then total + value else total

/-- Adds the values one after the other. -/
def total (start : G) (values : List G) : G := values.foldl (add fits) start

/-- The values that were left out on the way. -/
def leftOut : G → List G → List G
  | _, [] => []
  | start, value :: values =>
      if fits value ∧ fits (start + value) then leftOut (start + value) values
      else value :: leftOut start values

@[simp] theorem total_nil (start : G) : total fits start [] = start := rfl

@[simp] theorem total_cons (start value : G) (values : List G) :
    total fits start (value :: values) = total fits (add fits start value) values := rfl

theorem total_append (start : G) (values more : List G) :
    total fits start (values ++ more) = total fits (total fits start values) more :=
  List.foldl_append

/-- Nothing is lost but what was left out. -/
theorem total_add_sum_leftOut (start : G) (values : List G) :
    total fits start values + (leftOut fits start values).sum = start + values.sum := by
  induction values generalizing start with
  | nil => rfl
  | cons value values ih =>
      rw [total_cons, leftOut, add, List.sum_cons]
      split
      · rw [ih, add_assoc]
      · rw [List.sum_cons, ← add_assoc, add_comm _ value, add_assoc, ih]
        abel

/-- The total is the sum exactly when what was left out comes to nothing. -/
theorem total_eq_iff (start : G) (values : List G) :
    total fits start values = start + values.sum ↔ (leftOut fits start values).sum = 0 := by
  rw [← total_add_sum_leftOut fits start values]
  exact left_eq_add

variable {fits}

/-- What is held from the start is held throughout. -/
theorem fits_total {start : G} (hstart : fits start) (values : List G) :
    fits (total fits start values) := by
  induction values generalizing start with
  | nil => exact hstart
  | cons value values ih =>
      rw [total_cons, add]
      split
      · rename_i hfits
        exact ih hfits.2
      · exact ih hstart

section Ordered

variable [LinearOrder G] [IsOrderedAddMonoid G]

/-- When everything up to a value that can be held can be held, nothing of a sum that
can be held is left out. -/
theorem leftOut_eq_nil (hdown : ∀ a b : G, 0 ≤ a → a ≤ b → fits b → fits a) {start : G}
    (hstart : 0 ≤ start) {values : List G} (hvalues : ∀ value ∈ values, 0 ≤ value)
    (hsum : fits (start + values.sum)) : leftOut fits start values = [] := by
  induction values generalizing start with
  | nil => rfl
  | cons value values ih =>
      rw [List.forall_mem_cons] at hvalues
      have hrest : 0 ≤ values.sum := List.sum_nonneg hvalues.2
      rw [List.sum_cons, ← add_assoc] at hsum
      have hnext : 0 ≤ start + value := add_nonneg hstart hvalues.1
      have hfits : fits (start + value) := hdown _ _ hnext (le_add_of_nonneg_right hrest) hsum
      have hvalue : fits value := hdown _ _ hvalues.1 (le_add_of_nonneg_left hstart) hfits
      rw [leftOut, if_pos ⟨hvalue, hfits⟩]
      exact ih hnext hvalues.2 hsum

/-- Of values that are not negative nothing is missing exactly when their sum can be
held. -/
theorem sum_leftOut_eq_zero_iff (hdown : ∀ a b : G, 0 ≤ a → a ≤ b → fits b → fits a) {start : G}
    (hstart : 0 ≤ start) (hfits : fits start) {values : List G}
    (hvalues : ∀ value ∈ values, 0 ≤ value) :
    (leftOut fits start values).sum = 0 ↔ fits (start + values.sum) := by
  constructor
  · intro h
    rw [← (total_eq_iff fits start values).mpr h]
    exact fits_total hfits values
  · intro h
    rw [leftOut_eq_nil hdown hstart hvalues h, List.sum_nil]

end Ordered

end MmEngine.CheckedSum
