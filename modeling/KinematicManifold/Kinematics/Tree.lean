import KinematicManifold.Kinematics.Chain

/-!
# Joint trees

In a joint tree every joint names the joint that carries it, which comes earlier; joint zero stands
for the fixed root. Named frames are attached to the joints: the root frame `universe`, a frame
moving with each joint under the name of the joint, and further frames at fixed placements.

The state of a tree is a list of coordinates, those of the first joint first. It moves with a list
of velocities, in the same order. A joint does not always take up as many coordinates as velocities:
a point on the unit circle has two coordinates and one velocity. So the first coordinate of a joint
and its first velocity have different places in the two lists, `JointTree.coordinateIndex` and
`JointTree.velocityIndex`.

A tree is controlled through some of its joints, each of which has one coordinate and one velocity,
in an order of choice. The values given to these joints are written into the state of rest, at the
places of their coordinates, and the twists of their velocities are read from those of the tree. A
joint may be chosen again: of several values given to one joint the last counts, and each choice has
the twist of the joint. A joint that is not chosen stays at rest.

A joint's moved frame is found by composing poses from the root: the frame of its parent, and its
placement moved by its value. Along with the frame goes the list of the screws that carry it.

The twists of a frame, one for each velocity of the tree, are the columns of a matrix, of which
those of the controlled joints are chosen. But a matrix with a single column is taken for a plain
list, which has no columns. So the frames of a tree with a single velocity have no state.

Main statements:
- `length_branches`: the root and every joint have a branch;
- `Articulation.length_screws`: a joint has a screw for each of its velocities;
- `JointTree.length_neutral`: a state has every coordinate.
-/

namespace KinematicManifold

/-- How a joint of a tree moves. -/
inductive Articulation (K : Type) where
  /-- Turns about a coordinate axis, by an angle. -/
  | turn (axis : Axis)
  /-- Slides along a coordinate axis, by a distance. -/
  | slide (axis : Axis)
  /-- Turns about or slides along a direction of unit length. -/
  | along (kind : JointKind) (direction : Vec3 K)
  /-- Turns about a coordinate axis without limits, the angle given by a point on the unit
  circle. -/
  | continuous (axis : Axis)
  /-- Moves in other ways, about and along some directions, and takes two coordinates or more for
  it. Given are the coordinates at rest. -/
  | compound (first second : K) (others : List K) (ways : List (JointKind × Vec3 K))

/-- A joint of a tree. -/
structure TreeJoint (K : Type) where
  name : String
  /-- The joint that carries this one; zero is the root. -/
  parent : Nat
  /-- Where the joint frame stands in the moved frame of the parent. -/
  placement : Pose K
  articulation : Articulation K
  lower : K
  upper : K

/-- A frame that is fixed to a joint of a tree. -/
structure TreeFrame (K : Type) where
  name : String
  /-- The joint that carries the frame; zero is the root. -/
  parent : Nat
  /-- Where the frame stands in the moved frame of that joint. -/
  placement : Pose K

/-- Joints, each carried by an earlier one or by the root, and frames besides those of the
joints. -/
structure JointTree (K : Type) where
  joints : List (TreeJoint K)
  extraFrames : List (TreeFrame K)

/-- The name of the root of a tree, and of its frame. -/
def rootName : String := "universe"

/-- The moved frame of a joint, and the screws that carry it, those of one joint after those of
another, each with the number of the joint. -/
structure Branch (K : Type) where
  pose : Pose K
  screws : List (Nat × List (Screw K))

variable {K : Type} [Scalar K]

/-- The twist, at the root, of the space that moves along a screw at unit speed. -/
def Screw.twistAtRoot (s : Screw K) : Twist K :=
  match s.kind with
  | .revolute => ⟨s.anchor.cross s.axis, s.axis⟩
  | .prismatic => ⟨s.axis, 0⟩

namespace Articulation

/-- A joint that turns about every axis. Its coordinates are those of a unit quaternion, the real
part last. -/
def ball : Articulation K :=
  compound 0 0 [0, 1] [(.revolute, ⟨1, 0, 0⟩), (.revolute, ⟨0, 1, 0⟩), (.revolute, ⟨0, 0, 1⟩)]

/-- The coordinates of a joint at rest. -/
def rest : Articulation K → List K
  | turn _ | slide _ | along _ _ => [0]
  | continuous _ => [1, 0]
  | compound first second others _ => first :: second :: others

omit [Scalar K] in
/-- The number of coordinates of a joint. -/
def coordinates : Articulation K → Nat
  | turn _ | slide _ | along _ _ => 1
  | continuous _ => 2
  | compound _ _ others _ => others.length + 2

omit [Scalar K] in
/-- The number of velocities of a joint. -/
def velocities : Articulation K → Nat
  | turn _ | slide _ | along _ _ | continuous _ => 1
  | compound _ _ _ ways => ways.length

/-- A placement moved by a joint value. Only a joint with a single coordinate ever leaves its rest.
A turn about a coordinate axis makes the third axis of the frame anew, so that a continuous joint
does too. -/
def move (a : Articulation K) (placement : Pose K) (value : K) : Pose K :=
  match a with
  | turn axis => { placement with rotation := Rotation.turned placement.rotation axis value }
  | slide axis =>
    { placement with position := placement.position + (placement.rotation.col axis).scale value }
  | along .revolute direction => placement.compose ⟨0, Rotation.aboutUnit direction value⟩
  | along .prismatic direction =>
    { placement with
      position := placement.position + placement.rotation.apply (direction.scale value) }
  | continuous axis => { placement with rotation := Rotation.turned placement.rotation axis 0 }
  | compound .. => placement

/-- The screws along which a joint moves what it carries when its frame has moved to a pose, one for
each of its velocities. -/
def screws (a : Articulation K) (pose : Pose K) : List (Screw K) :=
  match a with
  | turn axis | continuous axis => [⟨.revolute, pose.position, pose.rotation.col axis⟩]
  | slide axis => [⟨.prismatic, pose.position, pose.rotation.col axis⟩]
  | along kind direction => [⟨kind, pose.position, pose.rotation.apply direction⟩]
  | compound _ _ _ ways =>
    ways.map fun (kind, direction) => ⟨kind, pose.position, pose.rotation.apply direction⟩

/-- The rest position of a joint has as many entries as the joint has coordinates. -/
@[simp] theorem length_rest (a : Articulation K) : a.rest.length = a.coordinates := by
  cases a <;> rfl

/-- A joint has one screw for each of its velocities. -/
@[simp] theorem length_screws (a : Articulation K) (pose : Pose K) :
    (a.screws pose).length = a.velocities := by
  cases a <;> simp [screws, velocities]

end Articulation

namespace Branch

/-- The branch of the root. -/
def root : Branch K := ⟨.identity, []⟩

/-- The branch of a joint of the given number, at the end of the branch of its parent. -/
def grow (parent : Branch K) (number : Nat) (joint : TreeJoint K) (value : K) : Branch K :=
  let moved := joint.articulation.move joint.placement value
  let pose := if joint.parent = 0 then moved else parent.pose.compose moved
  ⟨pose, (number, joint.articulation.screws pose) :: parent.screws⟩

end Branch

namespace JointTree

/-! ## Branches -/

/-- The branches of the root and of the first joints, extended by those of the joints that
follow. -/
def extendBranches (value : Nat → K) : List (Branch K) → List (TreeJoint K) → List (Branch K)
  | done, [] => done
  | done, joint :: rest =>
    let number := done.length
    let branch := (done.getD joint.parent .root).grow number joint (value number)
    extendBranches value (done ++ [branch]) rest

/-- The branches of the root and of all joints, each joint at its value. -/
def branches (t : JointTree K) (value : Nat → K) : List (Branch K) :=
  extendBranches value [.root] t.joints

/-- The branch of the joint of a number. -/
def branch (t : JointTree K) (value : Nat → K) (number : Nat) : Branch K :=
  (t.branches value).getD number .root

/-- Growing a tree adds one branch for each joint. -/
theorem length_extendBranches (value : Nat → K) (done : List (Branch K))
    (joints : List (TreeJoint K)) :
    (extendBranches value done joints).length = done.length + joints.length := by
  induction joints generalizing done with
  | nil => rfl
  | cons joint rest ih =>
    simp only [extendBranches, ih, List.length_append, List.length_cons, List.length_nil]
    omega

/-- A tree has one branch for each joint and one for the root. -/
theorem length_branches (t : JointTree K) (value : Nat → K) :
    (t.branches value).length = t.joints.length + 1 := by
  simp [branches, length_extendBranches, Nat.add_comm]

/-! ## States -/

section
omit [Scalar K]

/-- The number of coordinates, or of velocities, that joints have together. -/
def total (count : Articulation K → Nat) : List (TreeJoint K) → Nat
  | [] => 0
  | joint :: rest => count joint.articulation + total count rest

/-- The place of the first coordinate of a joint, which follows those of the joints before it. -/
def coordinateIndex (t : JointTree K) (joint : Nat) : Nat :=
  total (·.coordinates) (t.joints.take joint)

/-- The place of the first velocity of a joint. -/
def velocityIndex (t : JointTree K) (joint : Nat) : Nat :=
  total (·.velocities) (t.joints.take joint)

/-- A limit for each coordinate: that of its joint. -/
def coordinateLimits (t : JointTree K) (limit : TreeJoint K → K) : List K :=
  t.joints.flatMap fun joint => List.replicate joint.articulation.coordinates (limit joint)

end

/-- The state of rest. -/
def neutral (t : JointTree K) : List K := t.joints.flatMap (·.articulation.rest)

/-- The value that a state gives to the joint of a number. -/
def valueAt (t : JointTree K) (state : List K) (number : Nat) : K :=
  state.getD (t.coordinateIndex (number - 1)) 0

/-- The neutral configuration has as many entries as the joints have coordinates together. -/
theorem length_neutral (t : JointTree K) :
    t.neutral.length = total (·.coordinates) t.joints := by
  rw [neutral]
  induction t.joints with
  | nil => rfl
  | cons joint rest ih => simp [total, ih]

/-! ## Frames -/

/-- The frames: that of the root, those of the joints, and the others. -/
def frames (t : JointTree K) : List (TreeFrame K) :=
  ⟨rootName, 0, .identity⟩ ::
    t.joints.mapIdx (fun i joint => ⟨joint.name, i + 1, .identity⟩) ++ t.extraFrames

/-- The first frame of a name. -/
def frame? (t : JointTree K) (name : String) : Option (TreeFrame K) :=
  t.frames.find? (·.name = name)

/-- The branch of the joint that carries a frame. -/
def branchOf (t : JointTree K) (state : List K) (frame : TreeFrame K) : Branch K :=
  t.branch (t.valueAt state) frame.parent

/-- Where a frame stands in the frame of the root. -/
def framePose (t : JointTree K) (state : List K) (frame : TreeFrame K) : Pose K :=
  (t.branchOf state frame).pose.compose frame.placement

/-- The twists that a joint gives to a frame at a point, one for each of its velocities. A joint
that does not carry the frame does not move it. -/
def jointTwists (joint : TreeJoint K) (number : Nat) (branch : Branch K) (point : Vec3 K) :
    List (Twist K) :=
  match branch.screws.lookup number with
  | some screws => screws.map (·.twistAtRoot.movedTo point)
  | none => List.replicate joint.articulation.velocities 0

/-- The twists of a frame, at its origin, per unit of each velocity of the tree. -/
def frameTwists (t : JointTree K) (state : List K) (frame : TreeFrame K) : List (Twist K) :=
  let branch := t.branchOf state frame
  let point := (t.framePose state frame).position
  (t.joints.mapIdx fun i joint => jointTwists joint (i + 1) branch point).flatten

end JointTree

/-- A tree that is moved through `n` of its joints. -/
structure ControlledTree (K : Type) (n : Nat) where
  tree : JointTree K
  /-- The joints whose values make up a configuration, in order. -/
  controlled : Vector (Fin tree.joints.length) n

/-- Entries some of which are written over, one after the other. -/
def scatter {α : Type} (entries : List α) (places : List Nat) (values : List α) : List α :=
  (places.zip values).foldl (fun entries (place, value) => entries.set place value) entries

namespace ControlledTree

variable {n : Nat}

section
omit [Scalar K]

/-- The joints whose values make up a configuration. -/
def joints (c : ControlledTree K n) : Vector (TreeJoint K) n := c.controlled.map (c.tree.joints[·])

/-- The places of their coordinates in the state of the tree. -/
def coordinateIndices (c : ControlledTree K n) : Vector Nat n :=
  c.controlled.map fun joint => c.tree.coordinateIndex joint.val

/-- The places of their velocities among those of the tree. -/
def velocityIndices (c : ControlledTree K n) : Vector Nat n :=
  c.controlled.map fun joint => c.tree.velocityIndex joint.val

/-- The number of the joint of a name. -/
def findJoint (t : JointTree K) (name : String) : Except Fault (Fin t.joints.length) :=
  match t.joints.findFinIdx? (·.name = name) with
  | some joint => .ok joint
  | none => .error (.unknownJoint name)

/-- A joint can be controlled only if it has a single coordinate and a single velocity. -/
def checkSingle (joint : TreeJoint K) : Except Fault Unit :=
  if joint.articulation.coordinates = 1 ∧ joint.articulation.velocities = 1 then .ok ()
  else .error (.notSingleAxis joint.name)

/-- The joints of the given names, or all of them. -/
def choose (t : JointTree K) : Option (List String) → Except Fault (List (Fin t.joints.length))
  | none => .ok (List.finRange t.joints.length)
  | some names => names.mapM (findJoint t)

/-- A tree that is moved through the joints of the given names, or through all of them. All names
are looked up before any joint is checked. -/
def control (t : JointTree K) (names : Option (List String)) :
    Except Fault ((n : Nat) × ControlledTree K n) := do
  let chosen ← choose t names
  -- Only now, so that an unknown name wins over a joint that cannot be controlled.
  chosen.forM fun i => checkSingle t.joints[i]
  return ⟨chosen.length, t, ⟨chosen.toArray, by simp⟩⟩

end

/-- The least joint values. -/
def lower (c : ControlledTree K n) : Vector K n :=
  c.coordinateIndices.map ((c.tree.coordinateLimits (·.lower)).getD · 0)

/-- The greatest joint values. -/
def upper (c : ControlledTree K n) : Vector K n :=
  c.coordinateIndices.map ((c.tree.coordinateLimits (·.upper)).getD · 0)

/-- The state of the tree at a configuration: that of rest, with the values of the controlled joints
written into it. -/
def state (c : ControlledTree K n) (q : Vector K n) : List K :=
  scatter c.tree.neutral c.coordinateIndices.toList q.toList

/-- The columns at some places of a matrix, of which there must not be just one. -/
def chooseColumns (columns : List (Twist K)) (places : Vector Nat n) :
    Except Fault (Vector (Twist K) n) :=
  -- A matrix with a single column has lost it: its entries are a plain list.
  if columns.length = 1 then .error .singleColumn else .ok (places.map (columns.getD · 0))

/-- Where a frame stands in the frame of the root, and how it moves with each controlled joint. -/
def frameState (c : ControlledTree K n) (q : Vector K n) (frame : TreeFrame K) :
    Except Fault (LinkState K n) := do
  let state := c.state q
  let jacobian ← chooseColumns (c.tree.frameTwists state frame) c.velocityIndices
  return ⟨c.tree.framePose state frame, jacobian⟩

end ControlledTree

end KinematicManifold
