import KinematicManifold.Geometry.Description

/-!
# Joints and screws

A joint carries a child link. Its frame stands at a fixed origin in the frame of the parent link,
and its value turns the child about the joint axis or slides it along that axis. `Joint.mount`
places the joint frame, `Joint.move` then moves it.

A joint is given with an array for its axis. It may be an array that is no vector: such a joint is
accepted, but nothing can be moved along it.

While the joint moves, a frame that it carries moves along a screw: `Screw.twistAt` is the velocity
of a carried frame per unit of joint velocity.
-/

namespace KinematicManifold

/-- What the value of a joint does. -/
inductive JointKind where
  /-- Turns the child link about the axis, by an angle. -/
  | revolute
  /-- Slides the child link along the axis, by a distance. -/
  | prismatic
  deriving DecidableEq, Repr

/-- The kind that a word names. -/
def JointKind.ofName (name : String) : Except Fault JointKind :=
  if name = "revolute" then .ok .revolute
  else if name = "prismatic" then .ok .prismatic
  else .error .unknownJointKind

/-- The word for a kind. -/
def JointKind.name : JointKind → String
  | revolute => "revolute"
  | prismatic => "prismatic"

/-- The word for a kind names that kind. -/
theorem JointKind.ofName_name (kind : JointKind) : ofName kind.name = .ok kind := by
  cases kind <;> rfl

/-- An axis in space along which or about which a joint moves what it carries. -/
structure Screw (K : Type) where
  kind : JointKind
  /-- A point on the axis. -/
  anchor : Vec3 K
  /-- The direction of the axis. -/
  axis : Vec3 K

/-- A joint of a chain. -/
structure Joint (K : Type) where
  name : String
  /-- The link that the joint carries. -/
  childLink : String
  /-- Where the joint frame stands in the frame of the parent link. -/
  origin : Pose K
  /-- The axis in the joint frame. Its length does not matter. -/
  axis : Vec3 K
  /-- The least value. -/
  lower : K
  /-- The greatest value. -/
  upper : K
  kind : JointKind

/-- A joint that is accepted, with its axis as it was given. -/
structure JointSpec (K : Type) where
  name : String
  childLink : String
  origin : Pose K
  /-- An array of three parts, which are vectors or numbers. -/
  axis : Tensor K
  lower : K
  upper : K
  kind : JointKind

/-- The joint of a chain that is specified, if its axis is a vector. -/
def JointSpec.joint? {K : Type} (s : JointSpec K) : Option (Joint K) :=
  match s.axis.shape, s.axis.data with
  | [3], [x, y, z] => some ⟨s.name, s.childLink, s.origin, ⟨x, y, z⟩, s.lower, s.upper, s.kind⟩
  | _, _ => none

/-- A joint as it is given. -/
structure JointDescription (K : Type) where
  name : String
  childLink : String
  origin : PoseDescription K
  axis : Nested K
  lower : K
  upper : K
  /-- The word for the kind of the joint; a joint without one is revolute. -/
  kind : Option String

variable {K : Type} [Scalar K]

/-- The velocity, at a point, of a frame that moves along a screw at unit speed. -/
def Screw.twistAt (s : Screw K) (point : Vec3 K) : Twist K :=
  match s.kind with
  | .revolute => ⟨s.axis.cross (point - s.anchor), s.axis⟩
  | .prismatic => ⟨s.axis, 0⟩

namespace Joint

/-- The axis at unit length. -/
def direction (j : Joint K) : Vec3 K := j.axis.unit

/-- The joint frame, when the frame of the parent link is given. -/
def mount (j : Joint K) (parent : Pose K) : Pose K := parent.compose j.origin

/-- The screw along which the joint moves, when the frame of the parent link is given. -/
def screw (j : Joint K) (parent : Pose K) : Screw K :=
  let frame := j.mount parent
  ⟨j.kind, frame.position, frame.rotation.apply j.direction⟩

/-- The frame of the child link, when the frame of the parent link and the joint value are given. -/
def move (j : Joint K) (parent : Pose K) (value : K) : Pose K :=
  let frame := j.mount parent
  match j.kind with
  | .revolute =>
    { frame with rotation := frame.rotation * Rotation.exp (j.direction.scale value) }
  | .prismatic =>
    { frame with position := frame.position + (frame.rotation.apply j.direction).scale value }

end Joint

/-- The length below which an axis has no direction. -/
def shortestAxis : K := 1e-12

/-- The Euclidean length of all entries of an array. -/
def Tensor.norm (t : Tensor K) : K := Scalar.sqrt (t.data.map Scalar.square).sum

/-- The axis that a list gives to a joint: an array of three parts that is not all but zero. A list
of another length is refused before its entries are looked at. -/
def readAxis (joint : String) : Nested K → Except Fault (Tensor K)
  | .leaf _ => .error .noComponents
  | .node entries => do
    if entries.length ≠ 3 then .error (.jointAxis joint)
    else
      let axis ← (Nested.node entries).toTensor
      if axis.norm < shortestAxis then .error (.jointAxis joint) else .ok axis

/-- The joint that is described. Its kind is looked up first, then its origin is built, then its
axis and its range are checked. -/
def JointDescription.build (d : JointDescription K) : Except Fault (JointSpec K) := do
  -- A joint about which nothing is said turns.
  let kind ← match d.kind with
    | none => .ok .revolute
    | some name => JointKind.ofName name
  let origin ← d.origin.build
  let axis ← readAxis d.name d.axis
  if d.upper < d.lower then .error (.jointRange d.name)
  else return ⟨d.name, d.childLink, origin, axis, d.lower, d.upper, kind⟩

end KinematicManifold
