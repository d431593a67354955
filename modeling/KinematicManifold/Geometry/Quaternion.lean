import KinematicManifold.Fault
import KinematicManifold.Geometry.Mat3

/-!
# Quaternions

A rotation is given by four numbers, the real part first. `Quaternion.normalized` makes one of unit
length, `Quaternion.toMat3` turns it into a matrix, and `Quaternion.ofOrthogonal` finds a unit
quaternion of a given rotation matrix. The last one starts from the component of largest square, so
that it never divides by a small number, and keeps the sign that comes out.

Main statement: `normalized_eq_ok_iff`, exactly the quaternions of finite length not below
`shortest` have a direction.
-/

namespace KinematicManifold

/-- A quaternion, real part first. -/
@[ext]
structure Quaternion (K : Type) where
  w : K
  x : K
  y : K
  z : K

namespace Quaternion

variable {K : Type}

/-- The components, real part first. -/
def toList (q : Quaternion K) : List K := [q.w, q.x, q.y, q.z]

variable [Scalar K]

/-- The sum of the squared components. -/
def normSq (q : Quaternion K) : K := q.w * q.w + q.x * q.x + q.y * q.y + q.z * q.z

/-- The length. -/
def norm (q : Quaternion K) : K := Scalar.sqrt q.normSq

/-- A quaternion with each component divided by a scalar. -/
def divide (q : Quaternion K) (c : K) : Quaternion K := ⟨q.w / c, q.x / c, q.y / c, q.z / c⟩

instance : Neg (Quaternion K) := ⟨fun q => ⟨-q.w, -q.x, -q.y, -q.z⟩⟩

/-- The length below which a quaternion has no direction. -/
def shortest : K := 1e-12

/-- Holds of a quaternion that has a direction. -/
def hasDirection (q : Quaternion K) : Bool := Scalar.isFinite q.norm && !decide (q.norm < shortest)

/-- The quaternion of unit length in the same direction. -/
def normalized (q : Quaternion K) : Except Fault (Quaternion K) :=
  if q.hasDirection then .ok (q.divide q.norm) else .error .quaternionWithoutDirection

/-- A quaternion is normalised by its norm exactly when its norm tells a direction. -/
theorem normalized_eq_ok_iff {q u : Quaternion K} :
    q.normalized = .ok u ↔ q.hasDirection = true ∧ u = q.divide q.norm := by
  by_cases h : q.hasDirection = true
  · simp only [normalized, h, if_true, Except.ok.injEq, true_and, eq_comm]
  · simp [normalized, h]

/-- The rotation matrix of a unit quaternion. -/
def toMat3 (q : Quaternion K) : Mat3 K where
  xx := q.x * q.x - q.y * q.y - q.z * q.z + q.w * q.w
  xy := 2.0 * (q.x * q.y - q.z * q.w)
  xz := 2.0 * (q.x * q.z + q.y * q.w)
  yx := 2.0 * (q.x * q.y + q.z * q.w)
  yy := -(q.x * q.x) + q.y * q.y - q.z * q.z + q.w * q.w
  yz := 2.0 * (q.y * q.z - q.x * q.w)
  zx := 2.0 * (q.x * q.z - q.y * q.w)
  zy := 2.0 * (q.y * q.z + q.x * q.w)
  zz := -(q.x * q.x) - q.y * q.y + q.z * q.z + q.w * q.w

/-! ## From a rotation matrix -/

/-- A multiple of the quaternion of a rotation matrix, by its first vector component. -/
def byX (m : Mat3 K) : Quaternion K :=
  ⟨m.zy - m.yz, 1 - m.trace + 2.0 * m.xx, m.yx + m.xy, m.zx + m.xz⟩

/-- A multiple of the quaternion of a rotation matrix, by its second vector component. -/
def byY (m : Mat3 K) : Quaternion K :=
  ⟨m.xz - m.zx, m.xy + m.yx, 1 - m.trace + 2.0 * m.yy, m.zy + m.yz⟩

/-- A multiple of the quaternion of a rotation matrix, by its third vector component. -/
def byZ (m : Mat3 K) : Quaternion K :=
  ⟨m.yx - m.xy, m.xz + m.zx, m.yz + m.zy, 1 - m.trace + 2.0 * m.zz⟩

/-- A multiple of the quaternion of a rotation matrix, by its real part. -/
def byReal (m : Mat3 K) : Quaternion K :=
  ⟨1 + m.trace, m.zy - m.yz, m.xz - m.zx, m.yx - m.xy⟩

/-- A multiple of the quaternion of a rotation matrix, by the first of the components whose square
is largest: the squares are ordered as the diagonal entries and the trace are. -/
def byLargest (m : Mat3 K) : Quaternion K :=
  -- Of equal entries the first is taken, so each test admits equality with the later ones.
  if m.yy ≤ m.xx ∧ m.zz ≤ m.xx ∧ m.trace ≤ m.xx then byX m
  else if m.zz ≤ m.yy ∧ m.trace ≤ m.yy then byY m
  else if m.trace ≤ m.zz then byZ m
  else byReal m

/-- A unit quaternion of a rotation matrix. -/
def ofOrthogonal (m : Mat3 K) : Quaternion K :=
  let q := byLargest m
  q.divide q.norm

/-! ## The sign -/

/-- Holds of the one of a quaternion and its negative that stands for both: its real part is
positive, or is zero and the first vector component other than zero is positive. -/
def isCanonical (q : Quaternion K) : Bool :=
  if q.w < 0 then false
  else if !Scalar.isZero q.w then true
  else if !Scalar.isZero q.x then !decide (q.x < 0)
  else if !Scalar.isZero q.y then !decide (q.y < 0)
  else !decide (q.z < 0)

/-- The one of a quaternion and its negative that stands for both. -/
def canonical (q : Quaternion K) : Quaternion K := if q.isCanonical then q else -q

end Quaternion

end KinematicManifold
