import KinematicManifold.Geometry.Mat3

/-!
# The nearest orthogonal matrix

A matrix with a positive determinant is right-handed, and the orthogonal matrix nearest to it is a
rotation. It is found by rounds: each replaces the matrix by the mean of itself and its transposed
inverse, which keeps the singular directions and brings the singular values closer to one.

Sizes may differ a great deal, between matrices and between the rows and columns of one. So products
of entries are formed only after the rows, and for an inverse also the columns, have been brought to
size one.
-/

namespace KinematicManifold

variable {K : Type} [Scalar K]

/-- The product of three magnitudes. The largest come first, so that it vanishes only where the
whole product is too small. -/
def Vec3.productDescending (v : Vec3 K) : K :=
  let high := Scalar.larger (Scalar.larger v.x v.y) v.z
  let low := Scalar.smaller (Scalar.smaller v.x v.y) v.z
  let middle := Scalar.larger (Scalar.smaller v.x v.y) (Scalar.smaller (Scalar.larger v.x v.y) v.z)
  high * middle * low

namespace Mat3

/-! ## Sizes -/

/-- The largest magnitude of an entry. -/
def largest (m : Mat3 K) : K :=
  Vec3.largest ⟨(m.row .x).largest, (m.row .y).largest, (m.row .z).largest⟩

/-- The size of each row: the largest magnitude of its entries, or one for a row of zeros. -/
def rowSizes (m : Mat3 K) : Vec3 K :=
  Vec3.map (fun size => if Scalar.isZero size then 1 else size)
    ⟨(m.row .x).largest, (m.row .y).largest, (m.row .z).largest⟩

/-- A matrix with each row divided by a number of its own. -/
def divideRows (m : Mat3 K) (sizes : Vec3 K) : Mat3 K :=
  ofRows ((m.row .x).divide sizes.x) ((m.row .y).divide sizes.y) ((m.row .z).divide sizes.z)

/-- A matrix with each column divided by a number of its own. -/
def divideCols (m : Mat3 K) (sizes : Vec3 K) : Mat3 K :=
  ofCols ((m.col .x).divide sizes.x) ((m.col .y).divide sizes.y) ((m.col .z).divide sizes.z)

/-- Holds unless the determinant is negative, zero, or too small to be told from zero. -/
def isRightHanded (m : Mat3 K) : Bool :=
  let sizes := m.rowSizes
  let volume := (m.divideRows sizes).det
  !(decide (volume ≤ 0) || decide (volume * sizes.productDescending ≤ 0))

/-! ## Rounds -/

/-- The transposed inverse of a matrix whose determinant is not zero. -/
def inverseTranspose (m : Mat3 K) : Mat3 K :=
  let rows := m.rowSizes
  let level := m.divideRows rows
  let cols := level.transpose.rowSizes
  let level := level.divideCols cols
  ((level.cofactors.scale (1 / level.det)).divideRows rows).divideCols cols

/-- The mean of a matrix and its transposed inverse, the two multiplied first by a number and by its
reciprocal so that they are of one size. -/
def polarRound (m : Mat3 K) : Mat3 K :=
  let inverse := m.inverseTranspose
  let factor := Scalar.sqrt inverse.largest / Scalar.sqrt m.largest
  (m.scale factor + inverse.scale (1 / factor)).scale 0.5

/-- The orthogonal matrix nearest to a right-handed one. Thirty rounds are enough for all sizes of
floating-point numbers: about half of the digits of the ratio between the largest and the smallest
singular value go in a round, and once that ratio is near to one the distance from it is squared. -/
def nearestOrthogonal (m : Mat3 K) : Mat3 K := Nat.repeat polarRound 30 m

end Mat3

end KinematicManifold
