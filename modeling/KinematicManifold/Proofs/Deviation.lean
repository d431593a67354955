import KinematicManifold.Proofs.Gradients
import KinematicManifold.Proofs.Logarithm

/-!
# The deviation from a target

The deviation of a link from its target is the rotation vector that leads from the target to the
link. It can be had at every configuration. Where it is shorter than a half turn it is the only
vector that short, and its gradients are the columns of the angular Jacobian under the inverse left
Jacobian. At angles other than zero that are too small for the exact coefficient, the inverse left
Jacobian is an approximation, and nothing is said.

## Key results

- `OrientationConstraint.rawError_eq_ok`: the deviation can be had everywhere
- `OrientationConstraint.hasGradientsAt_rawError`: its gradients, at a known deviation
- `OrientationConstraint.hasGradientsAt_deviation`: the same of an accepted constraint, where the
  deviation is known by its exponential
-/

namespace KinematicManifold

namespace OrientationConstraint

variable {n : Nat} {chain : Chain ℝ n} {link : Fin (n + 1)} {c : OrientationConstraint ℝ n}

/-- The gradients of a deviation: the inverse left Jacobian times the angular Jacobian, row by
row. -/
noncomputable def deviationGradients (deviation : Vec3 ℝ) (state : LinkState ℝ n) :
    List (Vector ℝ n) :=
  Axis.all.map fun axis => state.jacobian.map fun twist =>
    ((Rotation.inverseLeftJacobian deviation).apply twist.angular).along axis

/-- The rotation from the target to the link. -/
theorem isRotation_deviation (hrigid : chain.IsRigid) (htarget : c.spec.target.normSq = 1)
    (q : Vector ℝ n) :
    ((chain.linkPose q link).rotation * c.targetRotation.transpose).IsRotation :=
  (Chain.isRotation_linkPose hrigid q link).mul (Quaternion.isRotation_toMat3 htarget).transpose

section
variable (hrigid : chain.IsRigid) (hlink : c.link = .ofChain chain link)
  (htarget : c.spec.target.normSq = 1)

include hrigid hlink htarget

/-- The deviation can be had everywhere. -/
theorem rawError_eq_ok (q : Vector ℝ n) :
    c.rawError q = .ok (Rotation.log
      ((chain.linkPose q link).rotation * c.targetRotation.transpose)).toList := by
  simp only [rawError, hlink, Link.state_ofChain, deviation, bind, Except.bind,
    Chain.linkState_pose, Rotation.log?_eq_ok (isRotation_deviation hrigid htarget q)]
  rfl

/-- On a chain the raw Jacobian of an orientation is answered, and consists of the gradients of the
deviation. -/
theorem rawJacobian_eq_ok (q : Vector ℝ n) :
    c.rawJacobian q = .ok (deviationGradients
      (Rotation.log ((chain.linkPose q link).rotation * c.targetRotation.transpose))
      (chain.linkState q link)) := by
  simp only [rawJacobian, hlink, Link.state_ofChain, deviation, bind, Except.bind,
    Chain.linkState_pose, Rotation.log?_eq_ok (isRotation_deviation hrigid htarget q)]
  simp [deviationGradients, pure, Except.pure]

/-- The deviation moves with the angular velocity of the link under the inverse left Jacobian. -/
theorem hasGradientsAt_rawError {q : Vector ℝ n} {φ : Vec3 ℝ}
    (hφ : Rotation.log ((chain.linkPose q link).rotation * c.targetRotation.transpose) = φ)
    (hsmall : φ = 0 ∨ Rotation.smallAngle ≤ ‖φ‖) (hangle : ‖φ‖ < Real.pi) :
    HasGradientsAt c.rawError (deviationGradients φ (chain.linkState q link)) q := by
  refine ⟨Axis.all.map fun axis x => (Rotation.log ((chain.linkPose (Vector.ofFn x) link).rotation *
    c.targetRotation.transpose)).along axis, fun x => ?_, ?_⟩
  · rw [rawError_eq_ok hrigid hlink htarget]
    rfl
  · rw [deviationGradients, List.forall₂_map_left_iff, List.forall₂_map_right_iff,
      List.forall₂_same]
    intro axis _
    -- the rotation from the target turns as the link does, since the target stays
    have hmoves := Chain.movesAt_linkPose hrigid q.get link
    have hturn := hmoves.rotation.mul_const' c.targetRotation.transpose
    have hlog := Rotation.hasFDerivAt_log
      (ω := LinearMap.toContinuousLinearMap (Twist.angularMap ∘ₗ chain.motion q.get link))
      (fun y => isRotation_deviation hrigid htarget (Vector.ofFn y)) hturn
      (fun ξ => by simp [mul_assoc]) (by rwa [ofFn_get, hφ]) (by rwa [ofFn_get, hφ])
    rw [ofFn_get, hφ] at hlog
    refine ((Vec3.alongMap axis).hasFDerivAt.comp _ hlog).congr_fderiv ?_
    ext1 ξ
    have hmotion := chain.angularMap_motion q.get link ξ
    simp only [ofFn_get] at hmotion
    simp only [ContinuousLinearMap.comp_apply, LinearMap.coe_toContinuousLinearMap',
      LinearMap.comp_apply, hmotion, map_sum, gradientMap_apply]
    -- both sides are sums over the joints, and agree joint by joint
    refine Finset.sum_congr rfl fun i _ => ?_
    rw [map_smul, map_smul, smul_eq_mul, mul_comm]
    congr 1
    simp [-Mat3.apply_x]

end

/-- An accepted orientation constraint reports as its deviation the rotation vector `φ` of less than
a half turn that leads from the target to the link. Its gradients are the inverse left Jacobian at
`φ` times the angular Jacobian, and they are the derivative of the deviation. -/
theorem hasGradientsAt_deviation (hrigid : chain.IsRigid)
    (hbuilt : (Constraint.leaf (.orientation c)).BuiltOn (.chain chain))
    (hlink : chain.link? c.spec.link = some link) {q : Vector ℝ n} {φ : Vec3 ℝ}
    (hφ : Rotation.exp φ * c.targetRotation = (chain.linkPose q link).rotation)
    (hsmall : φ = 0 ∨ Rotation.smallAngle ≤ ‖φ‖) (hangle : ‖φ‖ < Real.pi) :
    c.rawError q = .ok φ.toList ∧
      c.rawJacobian q = .ok (deviationGradients φ (chain.linkState q link)) ∧
      HasGradientsAt c.rawError (deviationGradients φ (chain.linkState q link)) q := by
  have haccepted : Leaf.IsAccepted chain (.orientation c) :=
    hbuilt.isAccepted _ (by simp [Constraint.leaves])
  obtain ⟨⟨k, hk, hchain⟩, htarget, -⟩ := haccepted
  obtain rfl : link = k := Option.some.inj (hlink.symm.trans hk)
  have hlog : Rotation.log ((chain.linkPose q link).rotation * c.targetRotation.transpose) = φ := by
    have hrotation : c.targetRotation.IsRotation := Quaternion.isRotation_toMat3 htarget
    -- the target cancels, and the logarithm undoes the exponential
    rw [← hφ, mul_assoc, hrotation.mul_transpose, mul_one, Rotation.log_exp hangle]
  refine ⟨?_, ?_, hasGradientsAt_rawError hrigid hchain htarget hlog hsmall hangle⟩
  · rw [rawError_eq_ok hrigid hchain htarget, hlog]
  · rw [rawJacobian_eq_ok hrigid hchain htarget, hlog]

end OrientationConstraint

/-! ## An arm that is turned -/

/-- The arm is kept near the pose in which it is not turned. -/
noncomputable def armDescription : OrientationDescription ℝ where
  link := "arm"
  target := .ofList [1, 0, 0, 0]
  tolerances := .ofList [0, 0, 1]

noncomputable def armSpec : OrientationSpec ℝ := ⟨"arm", ⟨1, 0, 0, 0⟩, ⟨0, 0, 1⟩⟩

/-- The link between the two joints. -/
def armLink : Fin (2 + 1) := (Fin.last 1).castSucc

noncomputable def armConstraint : OrientationConstraint ℝ 2 :=
  ⟨armSpec, .ofChain turnThenSlide armLink⟩

/-- The description of the example makes its orientation. -/
theorem build_armDescription : armDescription.build = .ok armSpec := by
  have hunit : (⟨1, 0, 0, 0⟩ : Quaternion ℝ).normalized = .ok ⟨1, 0, 0, 0⟩ :=
    Quaternion.normalized_of_unit _ (by simp [Quaternion.normSq])
  simp only [armDescription, OrientationDescription.build, Nested.toTensor_ofList, bind,
    Except.bind, Tensor.ofList, Tensor.toVec3, Tensor.toQuaternion, List.length_cons,
    List.length_nil, zero_add, Nat.reduceAdd, hunit]
  simp [Vec3.isFinite, Vec3.toList, armSpec, pure, Except.pure]

/-- The chain of the example has the arm as a link. -/
theorem link?_arm : turnThenSlide.link? armConstraint.spec.link = some armLink := rfl

/-- The example constraint is built on the example chain. -/
theorem builtOn_armConstraint :
    (Constraint.leaf (.orientation armConstraint)).BuiltOn (.chain turnThenSlide) := by
  have hname : turnThenSlide.link? armSpec.link = some armLink := link?_arm
  have hlink := Model.requireLink_eq_ok_iff.2 ⟨armLink, hname, rfl⟩
  refine .orientation build_armDescription ?_
  simp only [Constraint.ofOrientation, hlink, bind, Except.bind]
  rfl

noncomputable def turned : Vector ℝ 2 := .ofFn ![1, 0]

/-- At the configuration of the example the arm is turned by one radian. -/
theorem linkPose_arm :
    (turnThenSlide.linkPose turned armLink).rotation = Rotation.exp ⟨0, 0, 1⟩ := by
  have hjoints : turnThenSlide.jointsTo turned armLink = [(turnJoint, 1)] := by
    simp [Chain.jointsTo, turnThenSlide, turned, armLink, Vector.toList_ofFn]
  have hdirection : turnJoint.direction = ⟨0, 0, 1⟩ := by
    simp [turnJoint, Joint.direction, Vec3.unit, Vec3.divide, Vec3.norm, Vec3.dot]
  simp [Chain.linkPose, hjoints, placeAlong, Joint.move, hdirection, Joint.mount, Pose.compose,
    Pose.identity, ← Vec3.smul_def]
  simp [turnJoint]

/-- The arm, turned by one radian. -/
theorem hasGradientsAt_deviation_arm :
    turnThenSlide.IsRigid ∧
    (Constraint.leaf (.orientation armConstraint)).BuiltOn (.chain turnThenSlide) ∧
    turnThenSlide.link? armConstraint.spec.link = some armLink ∧
    Rotation.exp ⟨0, 0, 1⟩ * armConstraint.targetRotation =
      (turnThenSlide.linkPose turned armLink).rotation ∧
    ((⟨0, 0, 1⟩ : Vec3 ℝ) = 0 ∨ Rotation.smallAngle ≤ ‖(⟨0, 0, 1⟩ : Vec3 ℝ)‖) ∧
    ‖(⟨0, 0, 1⟩ : Vec3 ℝ)‖ < Real.pi ∧
    armConstraint.rawError turned = .ok [0, 0, 1] ∧
    armConstraint.rawJacobian turned = .ok (OrientationConstraint.deviationGradients ⟨0, 0, 1⟩
      (turnThenSlide.linkState turned armLink)) ∧
    HasGradientsAt armConstraint.rawError (OrientationConstraint.deviationGradients ⟨0, 0, 1⟩
      (turnThenSlide.linkState turned armLink)) turned := by
  have hnorm : ‖(⟨0, 0, 1⟩ : Vec3 ℝ)‖ = 1 := by
    simp [Vec3.norm_eq, Vec3.norm, Vec3.dot]
  have htarget : armConstraint.targetRotation = 1 := by
    ext <;> simp [OrientationConstraint.targetRotation, armConstraint, armSpec, Quaternion.toMat3,
      Mat3.one_def]
  -- the deviation from no turn is the turn of the arm
  have hφ : Rotation.exp ⟨0, 0, 1⟩ * armConstraint.targetRotation =
      (turnThenSlide.linkPose turned armLink).rotation := by
    rw [htarget, mul_one, linkPose_arm]
  -- one radian is neither small nor half a turn
  have hsmall : (⟨0, 0, 1⟩ : Vec3 ℝ) = 0 ∨ Rotation.smallAngle ≤ ‖(⟨0, 0, 1⟩ : Vec3 ℝ)‖ := by
    rw [hnorm]
    norm_num [Rotation.smallAngle]
  have hangle : ‖(⟨0, 0, 1⟩ : Vec3 ℝ)‖ < Real.pi := by
    rw [hnorm]
    linarith [Real.pi_gt_three]
  exact ⟨isRigid_turnThenSlide, builtOn_armConstraint, link?_arm, hφ, hsmall, hangle,
    OrientationConstraint.hasGradientsAt_deviation isRigid_turnThenSlide builtOn_armConstraint
      link?_arm hφ hsmall hangle⟩

end KinematicManifold
