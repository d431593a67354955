import KinematicManifold.Constraint.Interval
import KinematicManifold.Kinematics.Model

/-!
# What a constraint asks for

A specification says what a constraint asks for, without saying of which model:
- `PositionSpec`: a point of a link stays in a box;
- `OrientationSpec`: the rotation of a link stays near a target;
- `JointLimits`: every joint stays between two values;
- `Bundle`: several of these at once.

Each has a description, as it is given, and a `build` that checks it. Of several faults the first is
reported, in the order that the documentation of `build` gives.
-/

namespace KinematicManifold

variable {K : Type} [Scalar K]

/-! ## Positions -/

/-- A point of a link stays in a box. The box stands at a pose and extends from there along its
axes; an axis with a negative half extent is free. -/
structure PositionSpec (K : Type) where
  link : String
  halfExtents : Vec3 K
  box : Pose K
  /-- The point, in the frame of the link. -/
  linkOffset : Vec3 K

/-- The axes of the box that are not free. -/
def PositionSpec.constrainedAxes (s : PositionSpec K) : List Axis :=
  Axis.all.filter fun a => decide (0 ≤ s.halfExtents.along a)

/-- A position specification as it is given. -/
structure PositionDescription (K : Type) where
  link : String
  halfExtents : Nested K
  box : PoseDescription K
  linkOffset : Option (Nested K)

/-- The specification that is described. The box is built first; then both lists are read, their
shapes are checked, and at last the half extents: each is finite, and one of them is not
negative. -/
def PositionDescription.build (d : PositionDescription K) : Except Fault (PositionSpec K) := do
  let box ← d.box.build
  -- Ragged lists are found before wrong shapes.
  let halfExtents ← d.halfExtents.toTensor
  let linkOffset ← PoseDescription.positionTensor d.linkOffset
  let halfExtents ← halfExtents.toVec3 .halfExtentsShape
  let linkOffset ← linkOffset.toVec3 .linkOffsetShape
  if !halfExtents.isFinite then .error .halfExtentsNotFinite
  else if halfExtents.toList.all (decide <| · < 0) then .error (.everyAxisFree d.link)
  else return ⟨d.link, halfExtents, box, linkOffset⟩

/-! ## Orientations -/

/-- The rotation of a link stays near a target: no component of the deviation, which is a rotation
vector along the axes of the reference frame, exceeds its tolerance. -/
structure OrientationSpec (K : Type) where
  link : String
  /-- The target, of unit length. -/
  target : Quaternion K
  tolerances : Vec3 K

/-- An orientation specification as it is given. -/
structure OrientationDescription (K : Type) where
  link : String
  target : Nested K
  tolerances : Nested K

/-- The specification that is described. The tolerances are checked first: each is finite and not
negative. Then the target is read and normalised. -/
def OrientationDescription.build (d : OrientationDescription K) :
    Except Fault (OrientationSpec K) := do
  let tolerances ← d.tolerances.toTensor
  let tolerances ← tolerances.toVec3 .tolerancesShape
  if tolerances.toList.any (decide <| · < 0) || !tolerances.isFinite then
    .error .tolerancesOutOfRange
  else
    let target ← d.target.toTensor
    let target ← target.toQuaternion .quaternionShape
    let target ← target.normalized
    return ⟨d.link, target, tolerances⟩

/-! ## Joint limits -/

/-- Every one of `n` joints stays between two values. -/
structure JointLimits (K : Type) (n : Nat) where
  lower : Vector K n
  upper : Vector K n

namespace JointLimits

variable {n : Nat}

/-- The interval of each joint, in order. -/
def intervals (l : JointLimits K n) : List (Interval K) :=
  (l.lower.zipWith Interval.mk l.upper).toList

/-- The joints whose lower limit lies above the upper one. -/
def crossed (l : JointLimits K n) : List Nat :=
  l.intervals.zipIdx.filterMap fun (interval, i) => if interval.isCrossed then some i else none

/-- Limits are accepted if there is a joint and no limits are crossed. -/
def check (l : JointLimits K n) : Except Fault (JointLimits K n) :=
  if n = 0 then .error .jointLimitsEmpty
  else if !l.crossed.isEmpty then .error (.jointLimitsCrossed l.crossed)
  else .ok l

/-- The limits of the joints of a model. -/
def ofModel (m : Model K n) : Except Fault (JointLimits K n) := check ⟨m.lower, m.upper⟩

end JointLimits

/-- Joint limits as they are given. -/
structure JointLimitsDescription (K : Type) where
  lower : Nested K
  upper : Nested K

/-- The limits that are described: two plain lists of one length other than zero, not crossed. -/
def JointLimitsDescription.build (d : JointLimitsDescription K) :
    Except Fault ((n : Nat) × JointLimits K n) := do
  let lower ← d.lower.toTensor
  let upper ← d.upper.toTensor
  match lower.shape, upper.shape with
  | [count], [other] =>
    if count = 0 then .error .jointLimitsEmpty
    else if count ≠ other then .error (.jointLimitsMismatch count other)
    else
      let lower ← lower.toConfiguration count
      let upper ← upper.toConfiguration count
      let limits ← JointLimits.check ⟨lower, upper⟩
      return ⟨count, limits⟩
  | _, _ => .error .jointLimitsShape

/-! ## Bundles -/

/-- The joint limits that a bundle asks for. -/
inductive LimitChoice (α : Type) where
  /-- The joints are not limited. -/
  | unlimited
  /-- Those of the model. -/
  | ofModel
  /-- The given ones. -/
  | given (limits : α)

/-- Constraints that are to hold at once. -/
structure Bundle (K : Type) where
  positions : List (PositionSpec K)
  orientations : List (OrientationSpec K)
  limits : LimitChoice ((n : Nat) × JointLimits K n)

/-- A bundle as it is given. -/
structure BundleDescription (K : Type) where
  positions : List (PositionDescription K)
  orientations : List (OrientationDescription K)
  limits : LimitChoice (JointLimitsDescription K)

/-- Holds of a bundle that asks for nothing. -/
def Bundle.isEmpty (b : Bundle K) : Bool :=
  b.positions.isEmpty && b.orientations.isEmpty && b.limits matches .unlimited

/-- The bundle that is described: the positions are built first, then the orientations, then the
limits. It asks for something. -/
def BundleDescription.build (d : BundleDescription K) : Except Fault (Bundle K) := do
  let positions ← d.positions.mapM (·.build)
  let orientations ← d.orientations.mapM (·.build)
  let limits ← match d.limits with
    | .unlimited => .ok .unlimited
    | .ofModel => .ok .ofModel
    | .given limits => limits.build.map .given
  let bundle : Bundle K := ⟨positions, orientations, limits⟩
  if bundle.isEmpty then .error .bundleEmpty else return bundle

end KinematicManifold
