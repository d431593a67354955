import KinematicManifold.Kinematics.Tree
import KinematicManifold.Proofs.Motion

/-!
# Joints of trees as joints of chains

A joint of a tree that has a single coordinate moves like a joint of a chain: it turns about a
direction of its frame, or slides along it. `Articulation.way?` is that direction. The angle of a
turn is given without a rotation vector, but in exact arithmetic the rotation is the same, and so is
the screw. Every other joint of a tree stays at rest, and then carries rigidly.

## Key results

- `Rotation.aboutUnit_eq`, `Rotation.turned_eq`: turns about a known axis are exponentials
- `TreeJoint.Matches`: a joint of a tree that moves like a joint of a chain
- `TreeJoint.Matches.grow_pose`, `TreeJoint.Matches.grow_screws`: it does so
- `Branch.grow_pose_of_rest`: what stays at rest carries rigidly
-/

namespace KinematicManifold

open Rotation

/-! ## Coordinate axes -/

namespace Axis

/-- The unit vector of an axis. -/
noncomputable def vector : Axis → Vec3 ℝ
  | x => ⟨1, 0, 0⟩
  | y => ⟨0, 1, 0⟩
  | z => ⟨0, 0, 1⟩

/-- An axis has unit length. -/
theorem norm_vector (a : Axis) : ‖a.vector‖ = 1 := by
  have hsq : ‖a.vector‖ ^ 2 = 1 := by
    rw [Vec3.norm_sq]
    cases a <;> simp [vector]
  exact (pow_eq_one_iff_of_nonneg (norm_nonneg _) two_ne_zero).1 hsq

end Axis

namespace Mat3

variable (m n : Mat3 ℝ) (a : Axis)

/-- A matrix takes an axis to its column of that axis. -/
theorem apply_vector : m.apply a.vector = m.col a := by
  cases a <;> ext <;> simp [Axis.vector, col]

/-- The columns of a product are the columns of the second factor, taken by the first. -/
theorem col_mul : (m * n).col a = m.apply (n.col a) := by
  rw [← apply_vector, apply_mul, apply_vector]

/-- A matrix takes a frame column by column. -/
theorem apply_ofCols (u v w : Vec3 ℝ) :
    m * ofCols u v w = ofCols (m.apply u) (m.apply v) (m.apply w) := by
  ext <;> simp [ofCols]

end Mat3

/-! ## Unit vectors -/

namespace Vec3

variable {v : Vec3 ℝ}

/-- The unit vector of a vector is the vector over its norm. -/
theorem unit_eq (v : Vec3 ℝ) : v.unit = ‖v‖⁻¹ • v := by
  ext <;> simp [unit, divide, norm_eq, div_eq_inv_mul]

/-- A vector of unit length is its own unit vector. -/
theorem unit_of_norm_eq_one (h : ‖v‖ = 1) : v.unit = v := by
  rw [unit_eq, h, inv_one, one_smul]

/-- The unit vector of a vector that is not zero has unit length. -/
theorem norm_unit (h : 0 < ‖v‖) : ‖v.unit‖ = 1 := by
  rw [unit_eq, norm_smul, norm_inv, norm_norm, inv_mul_cancel₀ h.ne']

end Vec3

/-! ## Turns about a known axis -/

namespace Rotation

variable {m : Mat3 ℝ} {direction : Vec3 ℝ}

/-- The formula of Rodrigues about a direction of unit length. -/
theorem exp_smul_of_norm_eq_one (h : ‖direction‖ = 1) (angle : ℝ) :
    exp (angle • direction) = 1 + Real.sin angle • skew direction +
      (1 - Real.cos angle) • (skew direction * skew direction) := by
  by_cases hangle : angle = 0
  · simp [hangle]
  · have hne : angle • direction ≠ 0 := by
      refine smul_ne_zero hangle fun hzero => ?_
      rw [hzero, norm_zero] at h
      exact zero_ne_one h
    have hnorm : ‖angle • direction‖ = |angle| := by
      rw [norm_smul, h, mul_one, Real.norm_eq_abs]
    -- the sine of the length divided by the length does not see the sign of the angle
    have hsin : Real.sin |angle| / |angle| = Real.sin angle / angle := by
      rcases abs_choice angle with habs | habs <;> rw [habs]
      rw [Real.sin_neg, neg_div_neg_eq]
    rw [exp_eq_of_ne_zero hne, hnorm, hsin, Real.cos_abs, sq_abs, skew_smul, smul_smul,
      smul_mul_smul_comm, smul_smul, div_mul_cancel₀ _ hangle, ← sq,
      div_mul_cancel₀ _ (pow_ne_zero 2 hangle)]

/-- The rotation about a unit vector is the exponential of the angle times that vector. -/
theorem aboutUnit_eq (h : ‖direction‖ = 1) (angle : ℝ) :
    aboutUnit direction angle = exp (angle • direction) := by
  have hone : direction.x ^ 2 + direction.y ^ 2 + direction.z ^ 2 = 1 := by
    rw [← Vec3.norm_sq, h, one_pow]
  rw [exp_smul_of_norm_eq_one h]
  ext <;> simp only [aboutUnit, skew, Mat3.add_def, Mat3.one_def, Mat3.smul_def, Mat3.scale_def,
    Mat3.mul_xx, Mat3.mul_xy, Mat3.mul_xz, Mat3.mul_yx, Mat3.mul_yy, Mat3.mul_yz, Mat3.mul_zx,
    Mat3.mul_zy, Mat3.mul_zz, Vec3.scale_x, Vec3.scale_y, Vec3.scale_z, Scalar.sin_real,
    Scalar.cos_real]
  -- the entries on the diagonal need the direction to have length one
  · linear_combination (1 - Real.cos angle) * hone
  · ring
  · ring
  · ring
  · linear_combination (1 - Real.cos angle) * hone
  · ring
  · ring
  · ring
  · linear_combination (1 - Real.cos angle) * hone

/-- A joint with the unrotated frame turns by the exponential along its axis. -/
theorem turned_one (axis : Axis) (angle : ℝ) :
    turned 1 axis angle = exp (angle • axis.vector) := by
  rw [exp_smul_of_norm_eq_one axis.norm_vector]
  cases axis <;> ext <;> simp [turned, Mat3.ofCols, Mat3.col, skew, Mat3.add_def, Mat3.one_def,
    Mat3.smul_def, Mat3.scale_def, Axis.vector]

/-- A rotation keeps the vector product from which the third axis of a turned frame is made. -/
theorem turned_eq (h : m.IsRotation) (axis : Axis) (angle : ℝ) :
    turned m axis angle = m * exp (angle • axis.vector) := by
  have hcol (a : Axis) : m.col a = m.apply ((1 : Mat3 ℝ).col a) := by
    rw [← Mat3.col_mul, mul_one]
  have hturn (u v : Vec3 ℝ) (c s : ℝ) : (m.apply u).scale c + (m.apply v).scale s =
      m.apply (u.scale c + v.scale s) := by
    simp only [← Vec3.smul_def, ← Mat3.action_apply, map_add, map_smul]
  rw [← turned_one]
  cases axis <;> simp only [turned, hcol, hturn, ← h.apply_cross, Mat3.apply_ofCols]

/-- A turn leaves its axis where it is. -/
theorem exp_smul_apply_self (direction : Vec3 ℝ) (angle : ℝ) :
    (exp (angle • direction)).apply direction = direction := by
  rw [exp_eq, skew_smul]
  simp [Mat3.add_apply, Mat3.smul_apply, skew_apply, -Mat3.apply_x]

end Rotation

/-! ## The way a joint moves -/

/-- The twist at the root is the velocity of a frame at the origin. -/
theorem Screw.twistAtRoot_eq (s : Screw ℝ) : s.twistAtRoot = s.twistAt 0 := by
  obtain ⟨kind, anchor, axis⟩ := s
  cases kind with
  | revolute =>
    ext : 1
    · ext <;> simp [twistAtRoot, twistAt] <;> ring
    · rfl
  | prismatic => rfl

namespace Articulation

/-- How a joint with a single coordinate moves, and the direction in its frame about which or along
which it does. -/
noncomputable def way? : Articulation ℝ → Option (JointKind × Vec3 ℝ)
  | turn axis => some (.revolute, axis.vector)
  | slide axis => some (.prismatic, axis.vector)
  | along kind direction => some (kind, direction)
  | continuous _ | compound .. => none

/-- The direction in which a joint moves has unit length. -/
def IsUnit (a : Articulation ℝ) : Prop := ∀ kind direction, a.way? = some (kind, direction) →
  ‖direction‖ = 1

variable {a : Articulation ℝ} {kind : JointKind} {direction : Vec3 ℝ} {placement : Pose ℝ}

/-- A joint that turns. -/
theorem move_of_revolute (h : a.way? = some (.revolute, direction)) (hunit : ‖direction‖ = 1)
    (hrigid : placement.rotation.IsRotation) (value : ℝ) : a.move placement value =
      ⟨placement.position, placement.rotation * exp (value • direction)⟩ := by
  cases a with
  | turn axis =>
    cases h
    simp only [move, turned_eq hrigid]
  | along kind direction =>
    cases h
    simp only [move, Pose.compose, aboutUnit_eq hunit, Mat3.apply_zero, add_zero]
  | slide _ | continuous _ | compound _ _ _ _ => cases h

/-- A joint that slides. -/
theorem move_of_prismatic (h : a.way? = some (.prismatic, direction)) (value : ℝ) :
    a.move placement value =
      ⟨placement.position + value • placement.rotation.apply direction, placement.rotation⟩ := by
  cases a with
  | slide axis =>
    cases h
    -- an axis of the placement is its column
    rw [Mat3.apply_vector]
    rfl
  | along kind direction =>
    cases h
    rw [← Mat3.action_apply, ← map_smul]
    rfl
  | turn _ | continuous _ | compound _ _ _ _ => cases h

/-- A joint that stays at rest. -/
theorem move_of_rest (h : a.way? = none) (hrigid : placement.rotation.IsRotation) (value : ℝ) :
    a.move placement value = placement := by
  cases a with
  | continuous axis => simp only [move, turned_eq hrigid, zero_smul, exp_zero, mul_one]
  | compound _ _ _ _ => rfl
  | turn _ | slide _ | along _ _ => cases h

/-- A joint with a way to go has the one screw along that way, carried by its frame. -/
theorem screws_of_way (h : a.way? = some (kind, direction)) (pose : Pose ℝ) :
    a.screws pose = [⟨kind, pose.position, pose.rotation.apply direction⟩] := by
  cases a with
  | turn axis | slide axis =>
    cases h
    simp only [screws, Mat3.apply_vector]
  | along kind direction =>
    cases h
    rfl
  | continuous _ | compound _ _ _ _ => cases h

end Articulation

/-! ## Joints that match -/

/-- The identity may be left out before a pose. -/
theorem Pose.identity_compose (p : Pose ℝ) : Pose.identity.compose p = p := by
  ext : 1
  · simp [identity]
  · simp [identity]

/-- The identity may be left out after a pose. -/
theorem Pose.compose_identity (p : Pose ℝ) : p.compose .identity = p := by
  ext : 1
  · simp [identity]
  · simp [identity]

/-- A single coordinate moves the joint in one way. -/
theorem Articulation.exists_way {a : Articulation ℝ} (h : a.coordinates = 1) :
    ∃ kind direction, a.way? = some (kind, direction) := by
  cases a with
  | turn axis => exact ⟨_, _, rfl⟩
  | slide axis => exact ⟨_, _, rfl⟩
  | along kind direction => exact ⟨_, _, rfl⟩
  | continuous _ => cases h
  | compound _ _ others _ => simp [coordinates] at h

/-- A joint of a tree moves like a joint of a chain: both frames stand at the same place, and both
move in the same way along the same direction. -/
structure TreeJoint.Matches (joint : TreeJoint ℝ) (j : Joint ℝ) : Prop where
  placement_eq : joint.placement = j.origin
  way?_eq : joint.articulation.way? = some (j.kind, j.direction)

/-- A joint that is fixed to the root has a parent that stands at the root. -/
theorem Branch.grow_pose {parent : Branch ℝ} {joint : TreeJoint ℝ}
    (hroot : joint.parent = 0 → parent.pose = .identity) (number : Nat) (value : ℝ) :
    (parent.grow number joint value).pose =
      parent.pose.compose (joint.articulation.move joint.placement value) := by
  by_cases h : joint.parent = 0
  · rw [hroot h, Pose.identity_compose]
    exact if_pos h
  · exact if_neg h

/-- A joint without a way to go adds its placement and nothing else. -/
theorem Branch.grow_pose_of_rest {parent : Branch ℝ} {joint : TreeJoint ℝ}
    (hroot : joint.parent = 0 → parent.pose = .identity)
    (hrigid : joint.placement.rotation.IsRotation) (hrest : joint.articulation.way? = none)
    (number : Nat) (value : ℝ) :
    (parent.grow number joint value).pose = parent.pose.compose joint.placement := by
  rw [grow_pose hroot, Articulation.move_of_rest hrest hrigid]

namespace TreeJoint

/-- The joint of a chain that moves in a given way. -/
def along (joint : TreeJoint ℝ) (kind : JointKind) (direction : Vec3 ℝ) : Joint ℝ :=
  ⟨joint.name, joint.name, joint.placement, direction, joint.lower, joint.upper, kind⟩

/-- A tree joint is matched by the serial joint that goes the same way along a unit direction. -/
theorem matches_along {joint : TreeJoint ℝ} {kind : JointKind} {direction : Vec3 ℝ}
    (hway : joint.articulation.way? = some (kind, direction)) (hunit : ‖direction‖ = 1) :
    joint.Matches (joint.along kind direction) where
  placement_eq := rfl
  way?_eq := by rw [hway, Joint.direction, along, Vec3.unit_of_norm_eq_one hunit]

end TreeJoint

namespace TreeJoint.Matches

variable {parent : Branch ℝ} {joint : TreeJoint ℝ} {j : Joint ℝ}

section
variable (h : joint.Matches j) (hunit : ‖j.direction‖ = 1)
  (hrigid : j.origin.rotation.IsRotation) (hroot : joint.parent = 0 → parent.pose = .identity)
include h hunit hrigid hroot

/-- The frames of joints that match stand at the same place, if those of their parents do. -/
theorem grow_pose (number : Nat) (value : ℝ) :
    (parent.grow number joint value).pose = j.move parent.pose value := by
  rw [Branch.grow_pose hroot, h.placement_eq]
  cases hkind : j.kind with
  | revolute =>
    -- the joint turns what it carries
    have hway := h.way?_eq
    rw [hkind] at hway
    rw [Articulation.move_of_revolute hway hunit hrigid]
    simp only [Joint.move, Joint.mount, hkind, Pose.compose, mul_assoc, Vec3.smul_def]
  | prismatic =>
    -- the joint slides what it carries along the turned axis
    have hway := h.way?_eq
    rw [hkind] at hway
    rw [Articulation.move_of_prismatic hway]
    simp only [Joint.move, Joint.mount, hkind, Pose.compose, ← Vec3.smul_def,
      ← Mat3.action_apply, map_add, map_smul, map_mul, add_assoc]
    rfl

/-- Joints that match have the same screw, if the frames of their parents stand at the same
place. -/
theorem grow_screws (number : Nat) (value : ℝ) : ∃ screw : Screw ℝ,
    (parent.grow number joint value).screws = (number, [screw]) :: parent.screws ∧
      screw.twistAtRoot = (j.screw parent.pose).twistAt 0 := by
  have hpose := h.grow_pose hunit hrigid hroot number value
  refine ⟨⟨j.kind, (j.move parent.pose value).position,
    (j.move parent.pose value).rotation.apply j.direction⟩, ?_, ?_⟩
  · rw [← Articulation.screws_of_way h.way?_eq, ← hpose]
    rfl
  · rw [Screw.twistAtRoot_eq]
    cases hkind : j.kind with
    | revolute =>
      -- neither the origin of the frame nor the axis moves when the joint turns
      simp only [Joint.move, Joint.screw, hkind, Mat3.apply_mul, ← Vec3.smul_def,
        exp_smul_apply_self]
    | prismatic =>
      -- the twist of a sliding joint does not depend on where its axis runs
      simp only [Joint.move, Joint.screw, hkind, Screw.twistAt]

end

end TreeJoint.Matches

end KinematicManifold
