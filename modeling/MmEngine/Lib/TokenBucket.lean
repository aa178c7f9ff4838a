/-
# Token buckets

Tokens accrue at a rate up to a capacity, and a draw that finds one takes it. Each
draw that is granted is paid for by tokens in the bucket or by tokens that accrue, so
over any window the draws granted are bounded by one full bucket and the accrual of
the window. The bound asks only for inequalities of a draw: a bucket that loses tokens,
or that is drawn on by others, meets it as well.
-/

import Mathlib.Algebra.Order.Field.Basic
import Mathlib.Tactic.Linarith
import Mathlib.Tactic.Ring

namespace TokenBucket

variable {K : Type*} [Field K] [LinearOrder K] [IsStrictOrderedRing K]

/-- The tokens in a bucket and the time they were counted at. -/
structure Bucket (K : Type*) where
  level : K
  last : K

/-- One draw: what it takes and what it leaves is within the capacity, and was there
before or has accrued. -/
structure Draw (capacity rate : K) (before : Bucket K) (now : K) (granted : Bool)
    (after : Bucket K) : Prop where
  later : before.last ≤ now
  last : after.last = now
  nonneg : 0 ≤ after.level
  capped : after.level + (if granted then 1 else 0) ≤ capacity
  accrued : after.level + (if granted then 1 else 0) ≤ before.level + rate * (now - before.last)

/-- The draws on a bucket, each with its time and whether it counts. A draw may count
only when it was granted. What happens between draws does not count. -/
inductive Trace (capacity rate : K) : Bucket K → List (K × Bool) → Prop
  | nil (bucket : Bucket K) : Trace capacity rate bucket []
  | idle {bucket : Bucket K} {events : List (K × Bool)} (now : K)
      (rest : Trace capacity rate bucket events) :
      Trace capacity rate bucket ((now, false) :: events)
  | draw {before after : Bucket K} {now : K} {granted counted : Bool} {events : List (K × Bool)}
      (drawn : Draw capacity rate before now granted after)
      (counts : counted = true → granted = true) (rest : Trace capacity rate after events) :
      Trace capacity rate before ((now, counted) :: events)

/-- The draws that count up to a time. -/
def countUpTo (till : K) (events : List (K × Bool)) : Nat :=
  events.countP fun event => event.2 && decide (event.1 ≤ till)

/-- The draws that count within a window. -/
def countWithin (since till : K) (events : List (K × Bool)) : Nat :=
  events.countP fun event => event.2 && decide (since ≤ event.1) && decide (event.1 ≤ till)

variable {capacity rate since till now width : K} {bucket before after : Bucket K}
  {granted counted : Bool} {events : List (K × Bool)}

omit [Field K] [IsStrictOrderedRing K] in
theorem countWithin_le_countUpTo : countWithin since till events ≤ countUpTo till events := by
  apply List.countP_mono_left
  intro event _ hwithin
  simp only [Bool.and_eq_true] at hwithin ⊢
  exact ⟨hwithin.1.1, hwithin.2⟩

omit [Field K] [IsStrictOrderedRing K] in
theorem countUpTo_cons :
    countUpTo till ((now, counted) :: events) =
      countUpTo till events + if counted = true ∧ now ≤ till then 1 else 0 := by
  rw [countUpTo, List.countP_cons, countUpTo]
  simp

omit [Field K] [IsStrictOrderedRing K] in
theorem countWithin_cons :
    countWithin since till ((now, counted) :: events) =
      countWithin since till events +
        if counted = true ∧ since ≤ now ∧ now ≤ till then 1 else 0 := by
  rw [countWithin, List.countP_cons, countWithin]
  simp [and_assoc]

omit [IsStrictOrderedRing K] in
/-- Nothing counts before the bucket was last counted. -/
theorem Trace.countUpTo_eq_zero (h : Trace capacity rate bucket events)
    (hlast : till < bucket.last) : countUpTo till events = 0 := by
  induction h with
  | nil bucket => rfl
  | idle now rest ih =>
      rw [countUpTo_cons, ih hlast]
      rfl
  | draw drawn counts rest ih =>
      have hlate := hlast.trans_le drawn.later
      rw [countUpTo_cons, ih (hlate.trans_eq drawn.last.symm), if_neg fun h => hlate.not_ge h.2]

/-- What counts has been granted. -/
theorem counted_le_granted {P : Prop} [Decidable P] (counts : counted = true → granted = true) :
    (if counted = true ∧ P then (1 : K) else 0) ≤ if granted then 1 else 0 := by
  by_cases hcounted : counted = true ∧ P
  · rw [if_pos hcounted, if_pos (counts hcounted.1)]
  · rw [if_neg hcounted]
    split
    · exact zero_le_one
    · exact le_rfl

/-- Up to a time, what counts is paid for by the tokens there are and those that
accrue. -/
theorem Trace.countUpTo_le (hrate : 0 ≤ rate) (h : Trace capacity rate bucket events)
    (hlevel : 0 ≤ bucket.level) (hlast : bucket.last ≤ till) :
    (countUpTo till events : K) ≤ bucket.level + rate * (till - bucket.last) := by
  induction h with
  | nil bucket =>
      have haccrued := mul_nonneg hrate (sub_nonneg.mpr hlast)
      rw [countUpTo, List.countP_nil, Nat.cast_zero]
      linarith
  | idle now rest ih =>
      rw [countUpTo_cons, if_neg (by simp), add_zero]
      exact ih hlevel hlast
  | @draw before after now granted counted events drawn counts rest ih =>
      by_cases hnow : now ≤ till
      · have hrest := ih drawn.nonneg (drawn.last.trans_le hnow)
        have hcounted : (if counted = true ∧ now ≤ till then (1 : K) else 0) ≤
            if granted then 1 else 0 := counted_le_granted counts
        have haccrued := drawn.accrued
        rw [drawn.last] at hrest
        rw [countUpTo_cons, Nat.cast_add, Nat.cast_ite, Nat.cast_one, Nat.cast_zero]
        linarith
      · have hlate := not_le.mp hnow
        rw [countUpTo_cons, rest.countUpTo_eq_zero (hlate.trans_eq drawn.last.symm),
          if_neg fun h => hnow h.2, Nat.cast_zero]
        have haccrued := mul_nonneg hrate (sub_nonneg.mpr hlast)
        linarith

/-- In any window what counts is within one full bucket and the accrual of the window. -/
theorem Trace.countWithin_le (hrate : 0 ≤ rate) (hcapacity : 0 ≤ capacity)
    (h : Trace capacity rate bucket events) (hwidth : 0 ≤ width) :
    (countWithin since (since + width) events : K) ≤ capacity + rate * width := by
  have haccrued := mul_nonneg hrate hwidth
  induction h with
  | nil bucket =>
      rw [countWithin, List.countP_nil, Nat.cast_zero]
      linarith
  | idle now rest ih =>
      rw [countWithin_cons, if_neg (by simp), add_zero]
      exact ih
  | @draw before after now granted counted events drawn counts rest ih =>
      by_cases hsince : since ≤ now
      · by_cases htill : now ≤ since + width
        · -- From here on the draws are paid for from one bucket.
          have hrest := rest.countUpTo_le hrate drawn.nonneg (drawn.last.trans_le htill)
          have hwithin : (countWithin since (since + width) events : K) ≤
              countUpTo (since + width) events := Nat.cast_le.mpr countWithin_le_countUpTo
          have hcounted : (if counted = true ∧ since ≤ now ∧ now ≤ since + width
              then (1 : K) else 0) ≤ if granted then 1 else 0 := counted_le_granted counts
          have hcapped := drawn.capped
          have hlate : rate * (since + width - now) ≤ rate * width :=
            mul_le_mul_of_nonneg_left (by linarith) hrate
          rw [drawn.last] at hrest
          rw [countWithin_cons, Nat.cast_add, Nat.cast_ite, Nat.cast_one, Nat.cast_zero]
          linarith
        · have hlate := not_le.mp htill
          have hnone : countWithin since (since + width) events = 0 :=
            Nat.eq_zero_of_le_zero (countWithin_le_countUpTo.trans_eq
              (rest.countUpTo_eq_zero (hlate.trans_eq drawn.last.symm)))
          rw [countWithin_cons, hnone, if_neg fun h => htill h.2.2, Nat.cast_zero]
          linarith
      · rw [countWithin_cons, if_neg fun h => hsince h.2.1, add_zero]
        exact ih

end TokenBucket
