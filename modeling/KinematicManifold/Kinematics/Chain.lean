import KinematicManifold.Kinematics.Joint

/-!
# Serial chains

A chain is a base link and, one after the other, joints that each carry a link. Forward kinematics
follows the joints up to a link: `Chain.linkPose` is where the link stands, and `Chain.linkState`
adds the geometric Jacobian, whose columns are the twists of the link per unit of joint velocity. A
joint beyond the link does not move it.

Main statements:
- `placeAlong_append`, `screwsAlong_append`: following joints in two stretches;
- `length_screwsAlong`: every joint that is followed has a screw.
-/

namespace KinematicManifold

/-- Where a link stands, and how it moves with each of `n` joints. -/
structure LinkState (K : Type) (n : Nat) where
  pose : Pose K
  /-- The twist of the link per unit velocity of each joint, at the origin of the link. -/
  jacobian : Vector (Twist K) n

/-- A base link, and `n` joints that each carry the next link. -/
structure Chain (K : Type) (n : Nat) where
  base : String
  joints : Vector (Joint K) n
  /-- A chain has a joint. -/
  joints_pos : 0 < n
  /-- No two links have the same name. -/
  linkNames_nodup : (base :: joints.toList.map (·.childLink)).Nodup

section
variable {K : Type} [Scalar K]

/-! ## Following joints -/

/-- The frame that is reached when joints are followed from a frame, each at its value. -/
def placeAlong (start : Pose K) (joints : List (Joint K × K)) : Pose K :=
  joints.foldl (fun frame (joint, value) => joint.move frame value) start

/-- The screws of joints that are followed from a frame, each at its value. -/
def screwsAlong (start : Pose K) : List (Joint K × K) → List (Screw K)
  | [] => []
  | (joint, value) :: rest => joint.screw start :: screwsAlong (joint.move start value) rest

/-- Joints one after the other are placed from where the joints before them end. -/
theorem placeAlong_append (start : Pose K) (first second : List (Joint K × K)) :
    placeAlong start (first ++ second) = placeAlong (placeAlong start first) second :=
  List.foldl_append

/-- The screws of joints one after the other are those of the first, then those of the second placed
from where the first end. -/
theorem screwsAlong_append (start : Pose K) (first second : List (Joint K × K)) :
    screwsAlong start (first ++ second) =
      screwsAlong start first ++ screwsAlong (placeAlong start first) second := by
  induction first generalizing start with
  | nil => rfl
  | cons head rest ih => simp only [List.cons_append, screwsAlong, placeAlong, List.foldl_cons, ih]

/-- Each joint on the way has one screw. -/
@[simp] theorem length_screwsAlong (start : Pose K) (joints : List (Joint K × K)) :
    (screwsAlong start joints).length = joints.length := by
  induction joints generalizing start with
  | nil => rfl
  | cons head rest ih => simp [screwsAlong, ih]

/-- The twists at a point of what moves along the first of `n` screws; the others do not move it. -/
def twistsAt (n : Nat) (screws : List (Screw K)) (point : Vec3 K) : Vector (Twist K) n :=
  Vector.ofFn fun i => (screws[i.val]?).elim 0 (·.twistAt point)

end

namespace Chain

variable {K : Type} {n : Nat}

/-- The names of the links, base first. -/
def linkNames (c : Chain K n) : List String := c.base :: c.joints.toList.map (·.childLink)

/-- A chain has one link more than joints. -/
theorem length_linkNames (c : Chain K n) : c.linkNames.length = n + 1 := by simp [linkNames]

/-- The least joint values. -/
def lower (c : Chain K n) : Vector K n := c.joints.map (·.lower)

/-- The greatest joint values. -/
def upper (c : Chain K n) : Vector K n := c.joints.map (·.upper)

/-- The link of a name; link zero is the base, and joint `i` carries link `i + 1`. -/
def link? (c : Chain K n) (name : String) : Option (Fin (n + 1)) :=
  (c.linkNames.finIdxOf? name).map (Fin.cast c.length_linkNames)

/-- A chain of the given joints, if there is one and no link name is used twice. -/
def ofJoints (base : String) (joints : List (Joint K)) : Except Fault ((n : Nat) × Chain K n) :=
  if hpos : 0 < joints.length then
    if hnodup : (base :: joints.map (·.childLink)).Nodup then
      .ok ⟨joints.length, base, ⟨joints.toArray, by simp⟩, hpos, by simpa using hnodup⟩
    else .error (.chainLinksRepeat (base :: joints.map (·.childLink)))
  else .error .chainEmpty

variable [Scalar K]

/-- The joints up to a link, each with its value. -/
def jointsTo (c : Chain K n) (q : Vector K n) (link : Fin (n + 1)) : List (Joint K × K) :=
  (c.joints.zip q).toList.take link

/-- Where a link stands in the frame of the base. -/
def linkPose (c : Chain K n) (q : Vector K n) (link : Fin (n + 1)) : Pose K :=
  placeAlong .identity (c.jointsTo q link)

/-- Where a link stands in the frame of the base, and how it moves with each joint. -/
def linkState (c : Chain K n) (q : Vector K n) (link : Fin (n + 1)) : LinkState K n :=
  let pose := c.linkPose q link
  ⟨pose, twistsAt n (screwsAlong .identity (c.jointsTo q link)) pose.position⟩

/-- The state of a link has the pose that the joints before it give it. -/
theorem linkState_pose (c : Chain K n) (q : Vector K n) (link : Fin (n + 1)) :
    (c.linkState q link).pose = c.linkPose q link := rfl

end Chain

end KinematicManifold
