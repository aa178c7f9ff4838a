/-
# Machine doubles

Where the engine computes with doubles (rate limits, price bands, thresholds) the
model asks only for the operations it applies, and for no law about them: what is
proved holds whatever the operations return, and so of the machine's doubles. The
rationals are one instance, which the worked examples run in.
-/

import Mathlib.Algebra.Order.Ring.Rat
import MmEngine.Common.Fixed

namespace MmEngine

/-- The operations the engine applies to doubles. -/
class Double (D : Type) extends Add D, Sub D, Mul D, Div D, Neg D where
  /-- Conversion of a machine integer. -/
  ofInt : Int → D
  lt : D → D → Bool
  le : D → D → Bool

instance : Double ℚ where
  ofInt n := n
  lt a b := decide (a < b)
  le a b := decide (a ≤ b)

/-- Ratio of two like values; zero when the divisor is. -/
def ratio (D : Type) [Double D] {tag : FixedTag} (a b : Fixed tag) : D :=
  if b.raw = 0 then Double.ofInt 0 else Double.ofInt a.raw / Double.ofInt b.raw

end MmEngine
