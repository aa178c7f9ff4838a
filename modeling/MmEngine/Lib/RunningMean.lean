/-
# A weighted mean kept in whole units

The mean of the lots seen so far is kept as one number, and each lot is added to the
value that number stands for. Products are scaled down and the quotient scaled up again,
both rounded down, so that every lot costs the mean a bounded part of the value. The mean
never stands for more than was added, nor exceeds the largest value.
-/

import Mathlib.Algebra.BigOperators.Group.List.Basic
import Mathlib.Data.Int.Order.Basic
import Mathlib.Tactic.Linarith

namespace MmEngine.RunningMean

variable (scale : Int)

/-- The mean after a lot of weight `q` and value `p` each is added to a weight of `w`. -/
def next (mean w p q : Int) : Int :=
  (mean * w / scale + p * q / scale) * scale / (w + q)

/-- What the lots are worth without rounding. -/
def value (lots : List (Int × Int)) : Int := (lots.map fun lot => lot.1 * lot.2).sum

def weight (lots : List (Int × Int)) : Int := (lots.map Prod.snd).sum

/-- The weight after each lot, from a weight at the start. -/
def weights (start : Int) : List (Int × Int) → List Int
  | [] => []
  | lot :: lots => (start + lot.2) :: weights (start + lot.2) lots

theorem value_concat (lots : List (Int × Int)) (p q : Int) :
    value (lots ++ [(p, q)]) = value lots + p * q := by
  rw [value, List.map_append, List.sum_append]
  simp [value]

theorem weight_concat (lots : List (Int × Int)) (p q : Int) :
    weight (lots ++ [(p, q)]) = weight lots + q := by
  rw [weight, List.map_append, List.sum_append]
  simp [weight]

theorem weights_append (start : Int) (lots more : List (Int × Int)) :
    weights start (lots ++ more) = weights start lots ++ weights (start + weight lots) more := by
  induction lots generalizing start with
  | nil => simp [weights, weight]
  | cons lot lots ih =>
      rw [List.cons_append, weights, weights, ih, List.cons_append]
      simp [weight, add_assoc]

theorem sum_weights_concat (lots : List (Int × Int)) (p q : Int) :
    (weights 0 (lots ++ [(p, q)])).sum = (weights 0 lots).sum + (weight lots + q) := by
  rw [weights_append, List.sum_append, zero_add]
  simp [weights]

variable {scale}

/-- Rounding a product down loses less than the scale. -/
theorem scaled_bounds (hscale : 0 < scale) (x : Int) :
    x / scale * scale ≤ x ∧ x ≤ x / scale * scale + (scale - 1) := by
  have hrest := Int.emod_lt_of_pos x hscale
  have hnonneg := Int.emod_nonneg x hscale.ne'
  have hsplit := Int.ediv_mul_add_emod x scale
  constructor
  · omega
  · omega

section Next

variable (mean p : Int) {w q : Int}

/-- The new mean stands for no more than the old one and the lot. -/
theorem next_mul_le (hscale : 0 < scale) (hweight : 0 < w + q) :
    next scale mean w p q * (w + q) ≤ mean * w + p * q := by
  have hold := (scaled_bounds hscale (mean * w)).1
  have hlot := (scaled_bounds hscale (p * q)).1
  have hmean := (scaled_bounds hweight ((mean * w / scale + p * q / scale) * scale)).1
  rw [add_mul] at hmean
  rw [next, add_mul]
  linarith

/-- What rounding costs at one lot. -/
theorem le_next_mul (hscale : 0 < scale) (hweight : 0 < w + q) :
    mean * w + p * q ≤ next scale mean w p q * (w + q) + (2 * (scale - 1) + (w + q - 1)) := by
  have hold := (scaled_bounds hscale (mean * w)).2
  have hlot := (scaled_bounds hscale (p * q)).2
  have hmean := (scaled_bounds hweight ((mean * w / scale + p * q / scale) * scale)).2
  rw [add_mul] at hmean
  rw [next, add_mul]
  linarith

variable {mean p}

theorem next_nonneg (hscale : 0 < scale) (hmean : 0 ≤ mean) (hw : 0 ≤ w) (hp : 0 ≤ p)
    (hq : 0 ≤ q) : 0 ≤ next scale mean w p q := by
  apply Int.ediv_nonneg _ (add_nonneg hw hq)
  apply mul_nonneg _ hscale.le
  exact add_nonneg (Int.ediv_nonneg (mul_nonneg hmean hw) hscale.le)
    (Int.ediv_nonneg (mul_nonneg hp hq) hscale.le)

/-- The new mean does not exceed what the old one and the lot's value keep to. -/
theorem next_le {bound : Int} (hscale : 0 < scale) (hw : 0 ≤ w) (hq : 0 < q)
    (hmean : mean * w ≤ bound * w) (hp : p ≤ bound) : next scale mean w p q ≤ bound := by
  have hweight : 0 < w + q := add_pos_of_nonneg_of_pos hw hq
  apply le_of_mul_le_mul_right _ hweight
  calc next scale mean w p q * (w + q)
      ≤ mean * w + p * q := next_mul_le mean p hscale hweight
    _ ≤ bound * w + bound * q := add_le_add hmean (mul_le_mul_of_nonneg_right hp hq.le)
    _ = bound * (w + q) := (mul_add bound w q).symm

end Next

/-- The mean of some lots, as it is kept: it stands for the value of the lots, less what
rounding has cost. -/
structure Keeps (scale : Int) (lots : List (Int × Int)) (mean : Int) : Prop where
  nonneg : 0 ≤ mean
  weight_nonneg : 0 ≤ weight lots
  atMost : lots ≠ [] → ∃ lot ∈ lots, mean ≤ lot.1
  below : weight lots * mean ≤ value lots
  error : value lots - weight lots * mean ≤
    2 * (scale - 1) * lots.length + ((weights 0 lots).sum - lots.length)

theorem keeps_nil : Keeps scale [] 0 where
  nonneg := le_rfl
  weight_nonneg := le_rfl
  atMost h := absurd rfl h
  below := le_rfl
  error := by simp [value, weight, weights]

theorem Keeps.concat {lots : List (Int × Int)} {mean p q : Int} (h : Keeps scale lots mean)
    (hscale : 0 < scale) (hp : 0 < p) (hq : 0 < q) :
    Keeps scale (lots ++ [(p, q)]) (next scale mean (weight lots) p q) := by
  have hweight : 0 < weight lots + q := add_pos_of_nonneg_of_pos h.weight_nonneg hq
  have hbelow := next_mul_le mean p hscale hweight
  have herror := le_next_mul mean p hscale hweight
  have hbefore := h.below
  have hcost := h.error
  constructor
  · exact next_nonneg hscale h.nonneg h.weight_nonneg hp.le hq.le
  · rw [weight_concat]
    exact hweight.le
  · intro _
    -- The larger of the two values that went in bounds the mean.
    rcases le_total mean p with hle | hle
    · refine ⟨(p, q), List.mem_append_right _ List.mem_cons_self, ?_⟩
      exact next_le hscale h.weight_nonneg hq (mul_le_mul_of_nonneg_right hle h.weight_nonneg)
          le_rfl
    · have hnext := next_le hscale h.weight_nonneg hq (le_refl (mean * weight lots)) hle
      cases hlots : lots with
      | nil =>
          refine ⟨(p, q), List.mem_cons_self, ?_⟩
          exact next_le hscale le_rfl hq ((mul_zero mean).trans (mul_zero p).symm).le le_rfl
      | cons first rest =>
          obtain ⟨lot, hlot, hmean⟩ := h.atMost (hlots ▸ List.cons_ne_nil first rest)
          rw [hlots] at hlot hnext
          exact ⟨lot, List.mem_append_left _ hlot, hnext.trans hmean⟩
  · rw [weight_concat, value_concat, mul_comm]
    linarith [mul_comm (weight lots) mean]
  · rw [weight_concat, value_concat, sum_weights_concat, List.length_append, List.length_singleton]
    push_cast
    linarith [mul_comm (weight lots) mean,
      mul_comm (weight lots + q) (next scale mean (weight lots) p q)]

end MmEngine.RunningMean
