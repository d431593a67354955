/-!
# Scalars

Every algorithm of the library is written once, over any type with the operations of `Scalar`.
`Float` is the instance that runs. The operations promise no law, because floating-point numbers
have few: a sum depends on its order, and a value may compare with nothing, not even with itself. So
each definition fixes the order of its operations, and states each test the way round that decides
such a value as intended.

The derived operations are:
- `Scalar.isFinite`, `Scalar.isZero`: tests written with subtraction and order only;
- `Scalar.larger`, `Scalar.smaller`: the larger and the smaller of two scalars, which hand a value
  that compares with nothing through to the result;
- `Scalar.abs`.
-/

namespace KinematicManifold

/-- A type of numbers to compute with: ordered, with the field operations, decimal literals, a
square root and the trigonometric functions. -/
class Scalar (K : Type) extends Add K, Sub K, Mul K, Div K, Neg K, Zero K, One K, LT K, LE K,
    OfScientific K where
  /-- The square root. -/
  sqrt : K → K
  /-- The sine of an angle in radians. -/
  sin : K → K
  /-- The cosine of an angle in radians. -/
  cos : K → K
  /-- The tangent of an angle in radians. -/
  tan : K → K
  /-- The angle of the point with the given ordinate (first) and abscissa (second). -/
  atan2 : K → K → K
  /-- The relative size up to which a singular value counts as rounding noise. It is zero for an
  exact type, which has no noise. -/
  rankTolerance : K
  /-- Strict comparisons can be decided. -/
  decidableLT : DecidableLT K
  /-- Weak comparisons can be decided. -/
  decidableLE : DecidableLE K

attribute [reducible, instance] Scalar.decidableLT Scalar.decidableLE

instance : Scalar Float where
  zero := 0.0
  one := 1.0
  sqrt := Float.sqrt
  sin := Float.sin
  cos := Float.cos
  tan := Float.tan
  atan2 := Float.atan2
  rankTolerance := 1e-15
  decidableLT := inferInstance
  decidableLE := inferInstance

namespace Scalar

variable {K : Type} [Scalar K]

/-- Holds of zero of either sign, and of nothing that compares with nothing. -/
def isZero (a : K) : Bool := decide (a ≤ 0) && decide (0 ≤ a)

/-- A scalar is finite when it cancels against itself. -/
def isFinite (a : K) : Bool := isZero (a - a)

/-- The distance from zero. -/
def abs (a : K) : K := if a < 0 then -a else a

/-- The larger of two scalars. A scalar that compares with nothing is handed through. -/
def larger (a b : K) : K := if a < b then b else if b ≤ a then a else a + b

/-- The smaller of two scalars. A scalar that compares with nothing is handed through. -/
def smaller (a b : K) : K := if a < b then a else if b ≤ a then b else a + b

/-- The scalar moved into the interval from `lower` to `upper`; where the ends are crossed, the
upper end wins. -/
def clamp (a lower upper : K) : K := smaller upper (larger a lower)

/-- The square. -/
def square (a : K) : K := a * a

end Scalar

end KinematicManifold
