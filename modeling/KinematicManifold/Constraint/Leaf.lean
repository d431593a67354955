import KinematicManifold.Constraint.Spec
import KinematicManifold.Linear.Basic

/-!
# Single constraints

A single constraint measures a raw error, one number for each of its rows, and keeps each number in
an interval. The error of a row is the excess of the raw error over its interval; the gradient of a
row is the gradient of the raw error times the slope of the excess.

- a box constraint measures where a point of a link stands in the box;
- an orientation constraint measures the rotation vector of the deviation from the target;
- joint limits measure the configuration itself;
- an affine constraint measures given affine forms of the configuration.

The raw error of a link that stands nowhere is a fault, and so is the deviation of a link whose
frame is not right-handed.

Main statements: `length_placeInBox` and `length_velocitiesInBox` of the box constraints, one row
for each constrained axis; `length_unitRows`, one row for each joint.
-/

namespace KinematicManifold

/-- A point of a link stays in a box. -/
structure BoxConstraint (K : Type) (n : Nat) where
  spec : PositionSpec K
  link : Link K n

/-- The rotation of a link stays near a target. -/
structure OrientationConstraint (K : Type) (n : Nat) where
  spec : OrientationSpec K
  link : Link K n

/-- An affine form of a configuration, and the interval it is kept in. -/
structure AffineRow (K : Type) (n : Nat) where
  gradient : Vector K n
  offset : K
  interval : Interval K

/-- Affine forms of a configuration are kept in intervals. -/
structure AffineConstraint (K : Type) (n : Nat) where
  rows : List (AffineRow K n)
  linkName : Option String

/-- A single constraint over `n` joints. -/
inductive Leaf (K : Type) (n : Nat) where
  | box (constraint : BoxConstraint K n)
  | orientation (constraint : OrientationConstraint K n)
  | jointLimits (limits : JointLimits K n)
  | affine (constraint : AffineConstraint K n)

variable {K : Type} [Scalar K] {n : Nat}

/-! ## Raw errors -/

namespace BoxConstraint

/-- The point that is kept in the box, in the frame of the link's origin and along the axes of the
reference frame. -/
def offsetOf (c : BoxConstraint K n) (pose : Pose K) : Vec3 K :=
  pose.rotation.apply c.spec.linkOffset

/-- Where the point stands in the frame of the box. -/
def pointInBox (c : BoxConstraint K n) (pose : Pose K) : Vec3 K :=
  let point := pose.position + c.offsetOf pose
  c.spec.box.rotation.transpose.apply (point - c.spec.box.position)

/-- The place of the point along each constrained axis of the box, for a pose of the link. -/
def placeInBox (c : BoxConstraint K n) (pose : Pose K) : List K :=
  c.spec.constrainedAxes.map (c.pointInBox pose).along

/-- The gradient of that place, for a state of the link. -/
def velocitiesInBox (c : BoxConstraint K n) (state : LinkState K n) : List (Vector K n) :=
  let offset := c.offsetOf state.pose
  let velocities := state.jacobian.map fun twist =>
    c.spec.box.rotation.transpose.apply (twist.velocityAt offset)
  c.spec.constrainedAxes.map fun axis => velocities.map (·.along axis)

/-- The raw error: the place of the point along each constrained axis of the box. -/
def rawError (c : BoxConstraint K n) (q : Vector K n) : Except Fault (List K) := do
  let state ← c.link.state q
  return c.placeInBox state.pose

/-- The gradient of the raw error, a row for each constrained axis of the box. -/
def rawJacobian (c : BoxConstraint K n) (q : Vector K n) : Except Fault (List (Vector K n)) := do
  let state ← c.link.state q
  return c.velocitiesInBox state

/-- The interval of each constrained axis. -/
def intervals (c : BoxConstraint K n) : List (Interval K) :=
  c.spec.constrainedAxes.map fun axis => .symmetric (c.spec.halfExtents.along axis)

/-- Each constrained axis has one place. -/
@[simp] theorem length_placeInBox (c : BoxConstraint K n) (pose : Pose K) :
    (c.placeInBox pose).length = c.spec.constrainedAxes.length := by simp [placeInBox]

/-- Each constrained axis has one row of velocities. -/
@[simp] theorem length_velocitiesInBox (c : BoxConstraint K n) (state : LinkState K n) :
    (c.velocitiesInBox state).length = c.spec.constrainedAxes.length := by simp [velocitiesInBox]

/-- Each constrained axis has one interval. -/
@[simp] theorem length_intervals (c : BoxConstraint K n) :
    c.intervals.length = c.spec.constrainedAxes.length := by simp [intervals]

end BoxConstraint

namespace OrientationConstraint

/-- The target as a matrix. -/
def targetRotation (c : OrientationConstraint K n) : Mat3 K := c.spec.target.toMat3

/-- The rotation vector that leads from the target to a pose. -/
def deviation (c : OrientationConstraint K n) (pose : Pose K) : Except Fault (Vec3 K) :=
  Rotation.log? (pose.rotation * c.targetRotation.transpose)

/-- The components of the deviation from the target. -/
def rawError (c : OrientationConstraint K n) (q : Vector K n) : Except Fault (List K) := do
  let state ← c.link.state q
  let deviation ← c.deviation state.pose
  return deviation.toList

/-- The gradient of the raw error, a row for each component of the deviation. The angular velocity
of the link turns into the rate of the deviation by the inverse left Jacobian. -/
def rawJacobian (c : OrientationConstraint K n) (q : Vector K n) :
    Except Fault (List (Vector K n)) := do
  let state ← c.link.state q
  let deviation ← c.deviation state.pose
  let inverse := Rotation.inverseLeftJacobian deviation
  let rates := state.jacobian.map fun twist => inverse.apply twist.angular
  return Axis.all.map fun axis => rates.map (·.along axis)

/-- The interval of each component of the deviation. -/
def intervals (c : OrientationConstraint K n) : List (Interval K) :=
  c.spec.tolerances.toList.map .symmetric

end OrientationConstraint

/-- The gradient of each joint value: the rows of the identity matrix. -/
def unitRows (n : Nat) : List (Vector K n) :=
  (List.finRange n).map fun i => Vector.ofFn fun j => if i = j then 1 else 0

/-- Limits have one gradient for each joint. -/
@[simp] theorem length_unitRows : (unitRows (K := K) n).length = n := by simp [unitRows]

/-- The value of an affine form: its offset, to which the products are added one by one. -/
def AffineRow.valueAt (row : AffineRow K n) (q : Vector K n) : K :=
  (row.gradient.zip q).toList.foldl (fun sum (a, x) => sum + a * x) row.offset

namespace Leaf

/-- The raw error. -/
def rawError (leaf : Leaf K n) (q : Vector K n) : Except Fault (List K) :=
  match leaf with
  | box c => c.rawError q
  | orientation c => c.rawError q
  | jointLimits _ => .ok q.toList
  | affine c => .ok (c.rows.map (·.valueAt q))

/-- The gradients of the raw error. -/
def rawJacobian (leaf : Leaf K n) (q : Vector K n) : Except Fault (List (Vector K n)) :=
  match leaf with
  | box c => c.rawJacobian q
  | orientation c => c.rawJacobian q
  | jointLimits _ => .ok (unitRows n)
  | affine c => .ok (c.rows.map (·.gradient))

omit [Scalar K] in
/-- The name of the link that is constrained, if it is one. -/
def linkName : Leaf K n → Option String
  | box c => some c.spec.link
  | orientation c => some c.spec.link
  | jointLimits _ => none
  | affine c => c.linkName

/-- The interval of each row. -/
def intervals : Leaf K n → List (Interval K)
  | box c => c.intervals
  | orientation c => c.intervals
  | jointLimits l => l.intervals
  | affine c => c.rows.map (·.interval)

/-! ## Errors -/

/-- The number of rows. -/
def dimension (leaf : Leaf K n) : Nat := leaf.intervals.length

/-- The error: for each row, the excess of the raw error over its interval. -/
def evaluate (leaf : Leaf K n) (q : Vector K n) : Except Fault (List K) := do
  let raw ← leaf.rawError q
  return List.zipWith Interval.excess leaf.intervals raw

/-- The gradients of the error: for each row, that of the raw error times the slope of the
excess. -/
def jacobian (leaf : Leaf K n) (q : Vector K n) : Except Fault (List (Vector K n)) := do
  let raw ← leaf.rawError q
  let gradients ← leaf.rawJacobian q
  return List.zipWith Linear.scale (List.zipWith Interval.slope leaf.intervals raw) gradients

end Leaf

end KinematicManifold
