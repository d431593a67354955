import KinematicManifold.Geometry.Polar
import KinematicManifold.Geometry.Quaternion

/-!
# Rotations

A rotation is a matrix. It is also the exponential of a rotation vector, whose direction is the axis
and whose length is the angle: `Rotation.exp` and `Rotation.log?` pass between the two, both by way
of unit quaternions. A matrix that is right-handed but not orthogonal up to rounding is replaced by
the nearest orthogonal one before its quaternion is taken.

An angle about a known axis needs no rotation vector: `Rotation.turned` turns a frame about one of
its own axes, and `Rotation.aboutUnit` is the rotation about a vector of unit length.

`Rotation.inverseLeftJacobian` is the inverse of the left Jacobian of the exponential: it maps an
angular velocity to the rate at which the rotation vector changes.
-/

namespace KinematicManifold.Rotation

variable {K : Type} [Scalar K]

/-- The matrix of the vector product with a vector. -/
def skew (v : Vec3 K) : Mat3 K := ⟨0, -v.z, v.y, v.z, 0, -v.x, -v.y, v.x, 0⟩

/-! ## Matrices and quaternions -/

/-- Holds of a scalar that differs from a target by rounding only. -/
def near (target a : K) : Bool :=
  decide (Scalar.abs (a - target) ≤ 1e-12 + 1e-5 * Scalar.abs target)

/-- Holds of a matrix whose rows are orthonormal up to rounding. -/
def isOrthogonal (m : Mat3 K) : Bool :=
  let gram := m * m.transpose
  [gram.xx, gram.yy, gram.zz].all (near 1) && [gram.xy, gram.xz, gram.yz].all (near 0)

/-- A unit quaternion of a right-handed matrix. -/
def quaternion (m : Mat3 K) : Except Fault (Quaternion K) :=
  if m.isRightHanded then .ok (.ofOrthogonal (if isOrthogonal m then m else m.nearestOrthogonal))
  else .error .notRightHanded

/-- The rotation of a quaternion, which is normalised first. -/
def ofQuaternion (q : Quaternion K) : Except Fault (Mat3 K) := do
  let unit ← q.normalized
  return unit.toMat3

/-! ## Rotation vectors -/

/-- The unit quaternion of a rotation vector. -/
def expQuaternion (v : Vec3 K) : Quaternion K :=
  let angle := v.norm
  -- The limit at zero. An angle that compares with nothing also comes here, and spreads from `cos`.
  let factor := if 0 < angle then Scalar.sin (0.5 * angle) / angle else 0.5
  ⟨Scalar.cos (0.5 * angle), v.x * factor, v.y * factor, v.z * factor⟩

/-- The rotation about the direction of a vector by its length. -/
def exp (v : Vec3 K) : Mat3 K := (expQuaternion v).toMat3

/-- The rotation vector of a unit quaternion with its sign chosen; the angle is at most a half
turn. -/
def logQuaternion (q : Quaternion K) : Vec3 K :=
  let axis : Vec3 K := ⟨q.x, q.y, q.z⟩
  let angle := 2.0 * Scalar.atan2 axis.norm q.w
  let sine := Scalar.sin (0.5 * angle)
  -- The limit at zero.
  axis.scale (if Scalar.isZero sine then 2.0 else angle / sine)

/-- The rotation vector of a right-handed matrix, of length at most a half turn. -/
def log? (m : Mat3 K) : Except Fault (Vec3 K) := do
  let q ← quaternion m
  return logQuaternion q.canonical

/-! ## Angles about an axis -/

/-- A frame, whose axes are the columns of a matrix, turned about one of its own axes. This axis
stays, the axis after it turns towards the one after that, and the third is the vector product of
the two, whatever it was before. -/
def turned (m : Mat3 K) (axis : Axis) (angle : K) : Mat3 K :=
  let turn (a b : Axis) : Vec3 K :=
    (m.col a).scale (Scalar.cos angle) + (m.col b).scale (Scalar.sin angle)
  match axis with
  | .x =>
    let y := turn .y .z
    .ofCols (m.col .x) y ((m.col .x).cross y)
  | .y =>
    let z := turn .z .x
    .ofCols ((m.col .y).cross z) (m.col .y) z
  | .z =>
    let x := turn .x .y
    .ofCols x ((m.col .z).cross x) (m.col .z)

/-- The rotation by an angle about a vector of unit length. -/
def aboutUnit (axis : Vec3 K) (angle : K) : Mat3 K :=
  let cosine := Scalar.cos angle
  let across := axis.scale (Scalar.sin angle)
  let along := axis.scale (1 - cosine)
  { xx := along.x * axis.x + cosine
    xy := along.x * axis.y - across.z
    xz := along.x * axis.z + across.y
    yx := along.x * axis.y + across.z
    yy := along.y * axis.y + cosine
    yz := along.y * axis.z - across.x
    zx := along.x * axis.z - across.y
    zy := along.y * axis.z + across.x
    zz := along.z * axis.z + cosine }

/-- The rotation by a roll about `x`, then a pitch about `y`, then a yaw about `z`, the axes staying
where they are. Taken the other way round, each turns the frame that the earlier ones have made. -/
def ofRollPitchYaw (roll pitch yaw : K) : Mat3 K :=
  turned (turned (turned .identity .z yaw) .y pitch) .x roll

/-! ## The Jacobian of the logarithm -/

/-- The angle below which the coefficient of the inverse left Jacobian is taken from its series. -/
def smallAngle : K := 1e-6

/-- The coefficient of the squared vector product in the inverse left Jacobian. -/
def inverseLeftCoefficient (angle : K) : K :=
  if angle < smallAngle then 1 / 12.0 + angle * angle / 720.0
  else
    let half := 0.5 * angle
    (1 - half / Scalar.tan half) / (angle * angle)

/-- The inverse of the left Jacobian of the exponential at a rotation vector. -/
def inverseLeftJacobian (v : Vec3 K) : Mat3 K :=
  let hat := skew v
  Mat3.identity - hat.scale 0.5 + (hat * hat).scale (inverseLeftCoefficient v.norm)

end KinematicManifold.Rotation
