import KinematicManifold.Tensor.Reading

/-!
# Descriptions of poses

A pose is described by a homogeneous matrix, or by a position together with a quaternion, with
angles or with a rotation matrix. `PoseDescription.build` makes the pose. Where a description has
two faults, ragged lists are found first, then the rotation is looked at before the position, except
that a rotation matrix is looked at last.

Main statement: `build_identity`, the description that leaves everything out is the identity.
-/

namespace KinematicManifold

/-- The ways a pose is given. -/
inductive PoseDescription (K : Type) where
  /-- A homogeneous matrix. -/
  | homogeneous (entries : Nested K)
  /-- A position and a quaternion, real part first. -/
  | quaternion (position : Option (Nested K)) (components : Nested K)
  /-- A position, and a roll, a pitch and a yaw. -/
  | angles (position : Option (Nested K)) (roll pitch yaw : K)
  /-- A position and a rotation matrix. Either may be left out. -/
  | matrix (position rotation : Option (Nested K))

namespace PoseDescription

variable {K : Type} [Scalar K]

/-- The array of a position, the origin where none is given. -/
def positionTensor : Option (Nested K) → Except Fault (Tensor K)
  | some position => position.toTensor
  | none => .ok (.ofList [0, 0, 0])

/-- A pose from the lists of its position and the matrix of its rotation. -/
def withPosition (position : Option (Nested K)) (rotation : Mat3 K) : Except Fault (Pose K) := do
  let entries ← positionTensor position
  let origin ← entries.toVec3 .positionShape
  return ⟨origin, rotation⟩

/-- The pose that is described. A rotation matrix is taken as it stands, orthogonal or not. -/
def build : PoseDescription K → Except Fault (Pose K)
  | .homogeneous entries => do
    let entries ← entries.toTensor
    let matrix ← entries.toMat4 .homogeneousShape
    return .ofHomogeneous matrix
  | .quaternion position components => do
    let components ← components.toTensor
    let quaternion ← components.toQuaternion .quaternionShape
    let rotation ← Rotation.ofQuaternion quaternion
    withPosition position rotation
  | .angles position roll pitch yaw =>
    withPosition position (Rotation.ofRollPitchYaw roll pitch yaw)
  | .matrix position none => withPosition position .identity
  | .matrix position (some rotation) => do
    let position ← positionTensor position
    let rotation ← rotation.toTensor
    let origin ← position.toVec3 .positionShape
    let matrix ← rotation.toMat3 .rotationMatrixShape
    return ⟨origin, matrix⟩

/-- The description of the pose that stands at the origin and is not turned. -/
def identity : PoseDescription K := .matrix none none

/-- The description of the identity makes the identity. -/
theorem build_identity : (identity : PoseDescription K).build = .ok Pose.identity := rfl

end PoseDescription

end KinematicManifold
