import KinematicManifold.Scalar

/-!
# Intervals and the excess over them

A bounded quantity is in order while it stays between two bounds. `Interval.excess` is the signed
amount by which it lies outside, zero inside; `Interval.slope` is the derivative of the excess away
from the bounds. At a bound the slope is zero.
-/

namespace KinematicManifold

/-- The values between two bounds, the bounds included. -/
structure Interval (K : Type) where
  lower : K
  upper : K

namespace Interval

variable {K : Type} [Scalar K]

/-- The values of no more than the given magnitude. -/
def symmetric (bound : K) : Interval K := ⟨-bound, bound⟩

/-- Holds when the lower bound lies above the upper one. -/
def isCrossed (i : Interval K) : Bool := decide (i.upper < i.lower)

/-- The signed amount by which a value lies outside. -/
def excess (i : Interval K) (value : K) : K :=
  Scalar.larger (value - i.upper) 0 + Scalar.smaller (value - i.lower) 0

/-- The slope of the excess: one outside, zero inside and at the bounds. -/
def slope (i : Interval K) (value : K) : K :=
  if i.upper < value ∨ value < i.lower then 1 else 0

end Interval

end KinematicManifold
