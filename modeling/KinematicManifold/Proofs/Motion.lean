import KinematicManifold.Kinematics.Joint
import KinematicManifold.Proofs.Exponential

/-!
# Frames that move

A frame that depends on parameters moves with a twist: for every velocity of the parameters there is
one twist, taken at the origin of the reference frame, that gives both the velocity of the origin of
the frame and the velocity of its rotation. `Pose.MovesAt` says that this twist is the derivative of
the pose.

A frame that is carried rigidly moves with the same twist, and a joint adds its own screw at the
rate of its value. That the twist is taken at one fixed point makes both statements simple: no term
depends on where the carried frame stands.

## Key results

- `Screw.movedTo_twistAt`: the twist of a screw at a point, from that at the reference frame
- `Pose.MovesAt.hasFDerivAt_point`: the velocity of a point that is carried along
- `Pose.MovesAt.compose`: what is carried rigidly has the same twist
- `Pose.MovesAt.move`: a joint adds its screw, times the rate of its value
- `Pose.MovesAt.hasDerivAt_single`: partial derivatives
-/

namespace KinematicManifold

open Rotation

/-- The twist of a screw at a point is the one at the origin of the reference frame, moved there. -/
theorem Screw.movedTo_twistAt (s : Screw ℝ) (point : Vec3 ℝ) :
    (s.twistAt 0).movedTo point = s.twistAt point := by
  obtain ⟨kind, anchor, axis⟩ := s
  cases kind with
  | revolute =>
    ext : 1
    · ext <;> simp [twistAt, Twist.movedTo] <;> ring
    · rfl
  | prismatic =>
    ext : 1
    · ext <;> simp [twistAt, Twist.movedTo]
    · rfl

noncomputable section

namespace Twist

/-- The velocity of the origin of a frame that stands at a point, as a linear map of its twist. -/
def velocityMap (point : Vec3 ℝ) : Twist ℝ →ₗ[ℝ] Vec3 ℝ where
  toFun t := (t.movedTo point).linear
  map_add' s t := congrArg Twist.linear ((moving point).map_add s t)
  map_smul' c t := congrArg Twist.linear ((moving point).map_smul c t)

/-- The velocity of the rotation of a frame, as a linear map of its twist. -/
def turnMap (rotation : Mat3 ℝ) : Twist ℝ →ₗ[ℝ] Mat3 ℝ where
  toFun t := skew t.angular * rotation
  map_add' s t := by rw [add_angular, skew_add, add_mul]
  map_smul' c t := by rw [smul_angular, skew_smul, smul_mul_assoc, RingHom.id_apply]

def angularMap : Twist ℝ →ₗ[ℝ] Vec3 ℝ where
  toFun := Twist.angular
  map_add' _ _ := rfl
  map_smul' _ _ := rfl

@[simp] theorem velocityMap_apply (point : Vec3 ℝ) (t : Twist ℝ) :
    velocityMap point t = (t.movedTo point).linear := rfl

@[simp] theorem turnMap_apply (rotation : Mat3 ℝ) (t : Twist ℝ) :
    turnMap rotation t = skew t.angular * rotation := rfl

@[simp] theorem angularMap_apply (t : Twist ℝ) : angularMap t = t.angular := rfl

/-- The velocity of a carried point is that of a frame whose origin is there. -/
theorem velocityAt_eq (t : Twist ℝ) (r : Vec3 ℝ) : t.velocityAt r = velocityMap r t := by
  -- the vector product with the point is that of its matrix
  rw [velocityMap_apply, velocityAt, skew_apply]
  rfl

end Twist

variable {E : Type*} [NormedAddCommGroup E] [NormedSpace ℝ E] [FiniteDimensional ℝ E]

/-- A frame that depends on parameters moves with a twist, which depends linearly on the velocity of
the parameters and is taken at the origin of the reference frame. -/
structure Pose.MovesAt (pose : E → Pose ℝ) (x : E) (motion : E →ₗ[ℝ] Twist ℝ) : Prop where
  position : HasFDerivAt (fun y => (pose y).position)
    (LinearMap.toContinuousLinearMap (Twist.velocityMap (pose x).position ∘ₗ motion)) x
  rotation : HasFDerivAt (fun y => (pose y).rotation)
    (LinearMap.toContinuousLinearMap (Twist.turnMap (pose x).rotation ∘ₗ motion)) x

namespace Pose.MovesAt

variable {pose : E → Pose ℝ} {x : E} {motion : E →ₗ[ℝ] Twist ℝ}

/-- A pose that stays where it is does not move. -/
theorem const (p : Pose ℝ) (x : E) : MovesAt (fun _ => p) x 0 where
  position := by simpa using hasFDerivAt_const p.position x
  rotation := by simpa using hasFDerivAt_const p.rotation x

/-- The velocity of a vector that is fixed in the frame. -/
theorem hasFDerivAt_carried (h : MovesAt pose x motion) (v : Vec3 ℝ) :
    HasFDerivAt (fun y => (pose y).rotation.apply v)
      ((Mat3.applyMap v).comp
        (LinearMap.toContinuousLinearMap (Twist.turnMap (pose x).rotation ∘ₗ motion))) x :=
  (Mat3.applyMap v).hasFDerivAt.comp x h.rotation

/-- The velocity of a point that is fixed in the frame. -/
theorem hasFDerivAt_point (h : MovesAt pose x motion) (v : Vec3 ℝ) :
    HasFDerivAt (fun y => (pose y).position + (pose y).rotation.apply v)
      (LinearMap.toContinuousLinearMap
        (Twist.velocityMap ((pose x).position + (pose x).rotation.apply v) ∘ₗ motion)) x := by
  refine (h.position.add (h.hasFDerivAt_carried v)).congr_fderiv ?_
  ext1 ξ
  simp [Twist.movedTo_linear, skew_apply, Vec3.cross_add, add_assoc, -Mat3.apply_x]

/-- What is carried rigidly moves with the same twist. -/
theorem compose (h : MovesAt pose x motion) (carried : Pose ℝ) :
    MovesAt (fun y => (pose y).compose carried) x motion where
  position := h.hasFDerivAt_point carried.position
  rotation := by
    refine (h.rotation.mul_const' carried.rotation).congr_fderiv ?_
    ext1 ξ
    simp [mul_assoc]

/-! ## Joints -/

variable {value : E → ℝ} {rate : E →L[ℝ] ℝ}

/-- A linear function of a motion with a further screw is that of the motion and that of the screw,
at the rate of the screw. -/
private theorem linearMap_add_screw {F : Type*} [AddCommGroup F] [Module ℝ F] [TopologicalSpace F]
    [IsTopologicalAddGroup F] [ContinuousSMul ℝ F] (f : Twist ℝ →ₗ[ℝ] F)
    (motion : E →ₗ[ℝ] Twist ℝ) (rate : E →L[ℝ] ℝ) (twist : Twist ℝ) (ξ : E) :
    LinearMap.toContinuousLinearMap
      (f ∘ₗ (motion + (rate : E →ₗ[ℝ] ℝ).smulRight twist)) ξ = f (motion ξ) + rate ξ • f twist := by
  simp

/-- A frame that turns about an axis of its own adds the screw of the axis. -/
private theorem turn (h : MovesAt pose x motion) (hvalue : HasFDerivAt value rate x)
    (hrotation : (pose x).rotation.IsRotation) (axis : Vec3 ℝ) :
    MovesAt (fun y => ⟨(pose y).position, (pose y).rotation * exp (value y • axis)⟩) x
      (motion + (rate : E →ₗ[ℝ] ℝ).smulRight
        ((⟨.revolute, (pose x).position, (pose x).rotation.apply axis⟩ : Screw ℝ).twistAt 0)) where
  position := by
    -- the axis runs through the origin of the frame, which stays
    refine h.position.congr_fderiv ?_
    ext1 ξ
    rw [linearMap_add_screw, Twist.velocityMap_apply _ (Screw.twistAt _ _), Screw.movedTo_twistAt]
    simp [Screw.twistAt]
  rotation := by
    -- the turn about the axis in the frame is a turn about the axis in space, done first
    have hexp := (hasDerivAt_exp_smul axis (value x)).hasFDerivAt.comp x hvalue
    refine (h.rotation.mul' hexp).congr_fderiv ?_
    ext1 ξ
    rw [linearMap_add_screw]
    simp only [Screw.twistAt, Twist.turnMap_apply, ← mul_assoc, ← hrotation.mul_skew axis]
    simp [mul_assoc, add_comm]

/-- A frame that slides along an axis of its own adds the screw of the axis. -/
private theorem slide (h : MovesAt pose x motion) (hvalue : HasFDerivAt value rate x)
    (axis : Vec3 ℝ) :
    MovesAt
      (fun y => ⟨(pose y).position + value y • (pose y).rotation.apply axis, (pose y).rotation⟩) x
      (motion + (rate : E →ₗ[ℝ] ℝ).smulRight
        ((⟨.prismatic, (pose x).position, (pose x).rotation.apply axis⟩ : Screw ℝ).twistAt 0)) where
  position := by
    -- the frame carries the way it has come along the axis, and goes further along it
    refine (h.position.add (hvalue.smul (h.hasFDerivAt_carried axis))).congr_fderiv ?_
    ext1 ξ
    rw [linearMap_add_screw, Twist.velocityMap_apply _ (Screw.twistAt _ _), Screw.movedTo_twistAt]
    simp [Screw.twistAt, Twist.movedTo_linear, Vec3.cross_add, Vec3.cross_smul, skew_apply,
      -Mat3.apply_x]
    module
  rotation := by
    refine h.rotation.congr_fderiv ?_
    ext1 ξ
    simp [Screw.twistAt]

/-- A joint adds its screw, at the rate of its value. -/
theorem move (h : MovesAt pose x motion) (hvalue : HasFDerivAt value rate x) (j : Joint ℝ)
    (hrotation : (pose x).rotation.IsRotation) (horigin : j.origin.rotation.IsRotation) :
    MovesAt (fun y => j.move (pose y) (value y)) x
      (motion + (rate : E →ₗ[ℝ] ℝ).smulRight ((j.screw (pose x)).twistAt 0)) := by
  -- the joint frame is carried rigidly, and the joint moves it along its own axis
  have hmount : MovesAt (fun y => j.mount (pose y)) x motion := h.compose j.origin
  cases hkind : j.kind with
  | revolute =>
    simp only [Joint.move, Joint.screw, hkind]
    exact hmount.turn hvalue (hrotation.mul horigin) j.direction
  | prismatic =>
    simp only [Joint.move, Joint.screw, hkind]
    exact hmount.slide hvalue j.direction

/-! ## One parameter at a time -/

/-- The velocity of a frame while a single parameter moves. -/
theorem hasDerivAt_single {n : Nat} {pose : (Fin n → ℝ) → Pose ℝ} {x : Fin n → ℝ}
    {motion : (Fin n → ℝ) →ₗ[ℝ] Twist ℝ} (h : MovesAt pose x motion) (i : Fin n) :
    HasDerivAt (fun t => (pose (Function.update x i t)).position)
        ((motion (Pi.single i 1)).movedTo (pose x).position).linear (x i) ∧
      HasDerivAt (fun t => (pose (Function.update x i t)).rotation)
        (skew (motion (Pi.single i 1)).angular * (pose x).rotation) (x i) := by
  -- a curve on which only this parameter moves, at the rate one
  have hupdate := hasDerivAt_update x i (x i)
  have hsame : Function.update x i (x i) = x := Function.update_eq_self i x
  constructor
  · have hposition := h.position
    rw [← hsame] at hposition
    refine (hposition.comp_hasDerivAt (x i) hupdate).congr_deriv ?_
    simp only [LinearMap.coe_toContinuousLinearMap', LinearMap.comp_apply, Twist.velocityMap_apply,
      hsame]
  · have hrotation := h.rotation
    rw [← hsame] at hrotation
    refine (hrotation.comp_hasDerivAt (x i) hupdate).congr_deriv ?_
    simp only [LinearMap.coe_toContinuousLinearMap', LinearMap.comp_apply, Twist.turnMap_apply,
      hsame]

end Pose.MovesAt

end

end KinematicManifold
