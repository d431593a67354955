import KinematicManifold.Geometry.Rotation

/-!
# Poses and twists

A pose is a position with a rotation: where a frame stands in another. Poses compose, and a pose can
be given and read as a homogeneous matrix of four rows, the last of which carries no information.
A twist is the velocity of a frame: of its origin, and of its rotation.

Main statements:
- `ofHomogeneous_toHomogeneous`: the homogeneous matrix of a pose gives the pose back;
- `compose_position`, `compose_rotation`: what composition does to the two parts.
-/

namespace KinematicManifold

/-- A matrix of four rows and four columns. -/
abbrev Mat4 (K : Type) := Vector (Vector K 4) 4

/-- The position and the rotation of a frame in another frame. -/
@[ext]
structure Pose (K : Type) where
  position : Vec3 K
  rotation : Mat3 K

/-- The velocity of a frame, along the axes of the reference frame. -/
@[ext]
structure Twist (K : Type) where
  /-- The velocity of the origin of the frame. -/
  linear : Vec3 K
  /-- The angular velocity. -/
  angular : Vec3 K

variable {K : Type} [Scalar K]

namespace Pose

/-- The pose of a frame in itself. -/
def identity : Pose K := ⟨0, Mat3.identity⟩

/-- The pose of a frame, given in a second frame, whose own pose comes first. -/
def compose (a b : Pose K) : Pose K :=
  ⟨a.position + a.rotation.apply b.position, a.rotation * b.rotation⟩

/-- Composed poses turn the second position into the first frame. -/
@[simp] theorem compose_position (a b : Pose K) :
    (a.compose b).position = a.position + a.rotation.apply b.position := rfl

/-- Composed poses multiply their rotations. -/
@[simp] theorem compose_rotation (a b : Pose K) :
    (a.compose b).rotation = a.rotation * b.rotation := rfl

/-- The homogeneous matrix of a pose. -/
def toHomogeneous (a : Pose K) : Mat4 K :=
  let r := a.rotation
  let p := a.position
  #v[#v[r.xx, r.xy, r.xz, p.x], #v[r.yx, r.yy, r.yz, p.y], #v[r.zx, r.zy, r.zz, p.z],
    #v[0, 0, 0, 1]]

omit [Scalar K] in
/-- The pose of a homogeneous matrix, whose last row is left unread. -/
def ofHomogeneous (m : Mat4 K) : Pose K where
  position := ⟨m[0][3], m[1][3], m[2][3]⟩
  rotation := ⟨m[0][0], m[0][1], m[0][2], m[1][0], m[1][1], m[1][2], m[2][0], m[2][1], m[2][2]⟩

/-- A pose is what its homogeneous matrix stands for. -/
theorem ofHomogeneous_toHomogeneous (a : Pose K) : ofHomogeneous a.toHomogeneous = a := rfl

/-- A unit quaternion of the rotation of a pose. -/
def quaternion (a : Pose K) : Except Fault (Quaternion K) := Rotation.quaternion a.rotation

end Pose

namespace Twist

instance : Zero (Twist K) := ⟨⟨0, 0⟩⟩

/-- The velocity of a point that is carried along, at the given place relative to the origin of the
frame. -/
def velocityAt (t : Twist K) (r : Vec3 K) : Vec3 K := t.linear - (Rotation.skew r).apply t.angular

/-- The twist at a point of what moves with a twist at the origin of the reference frame. -/
def movedTo (t : Twist K) (point : Vec3 K) : Twist K :=
  ⟨t.linear - point.cross t.angular, t.angular⟩

end Twist

end KinematicManifold
