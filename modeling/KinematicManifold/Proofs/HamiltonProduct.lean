import KinematicManifold.Proofs.Deviation

/-!
# Quaternions as rotations

Quaternions are multiplied by Hamilton's rule, real part first. The matrix of a product is the
product of the matrices, and the matrix of a multiple is the matrix times the square of the factor.
So what a quaternion says about a rotation is its direction alone: every multiple other than zero
has the same rotation, products of quaternions are products of rotations, and the quaternion that is
found for a rotation is a unit vector in the direction that was given, or its negative.

## Key results

- `Quaternion.hamilton_mul`, `Quaternion.norm_mul`: the product of the quaternion algebra, whose
  lengths multiply
- `Quaternion.toMat3_mul`, `Quaternion.toMat3_scale`: the matrices of products and multiples
- `Quaternion.direction_mul`, `Quaternion.toMat3_direction_scale`: the same for unit quaternions
- `Rotation.ofQuaternion_eq_ok`: the rotation of a quaternion is the matrix of its direction
- `Rotation.quaternion_toMat3`: the quaternion that is found for the rotation of a unit quaternion
- `OrientationDescription.build_withTarget`, `OrientationConstraint.answers_congr`: what an
  orientation constraint makes of its target
- `Rotation.ofQuaternion_faithful`: quaternions represent rotations
-/

section

-- opened here, because inside the namespace the library's own quaternions have this name
open scoped Quaternion

namespace KinematicManifold

namespace Quaternion

/-! ## Products and multiples -/

section
variable {K : Type} [Scalar K]

/-- Hamilton's product. -/
instance : Mul (Quaternion K) := ⟨fun a b =>
  ⟨a.w * b.w - a.x * b.x - a.y * b.y - a.z * b.z, a.w * b.x + a.x * b.w + a.y * b.z - a.z * b.y,
    a.w * b.y - a.x * b.z + a.y * b.w + a.z * b.x, a.w * b.z + a.x * b.y - a.y * b.x + a.z * b.w⟩⟩

/-- A quaternion with each component multiplied by a scalar. -/
def scale (c : K) (q : Quaternion K) : Quaternion K := ⟨c * q.w, c * q.x, c * q.y, c * q.z⟩

variable (a b : Quaternion K)

@[simp] theorem mul_w :
    (a * b).w = a.w * b.w - a.x * b.x - a.y * b.y - a.z * b.z := rfl
@[simp] theorem mul_x :
    (a * b).x = a.w * b.x + a.x * b.w + a.y * b.z - a.z * b.y := rfl
@[simp] theorem mul_y :
    (a * b).y = a.w * b.y - a.x * b.z + a.y * b.w + a.z * b.x := rfl
@[simp] theorem mul_z :
    (a * b).z = a.w * b.z + a.x * b.y - a.y * b.x + a.z * b.w := rfl

end

variable (a b : Quaternion ℝ) (c : ℝ)

/-- A quaternion as an element of the quaternion algebra. -/
def hamilton (a : Quaternion ℝ) : ℍ[ℝ] := ⟨a.w, a.x, a.y, a.z⟩

@[simp] theorem hamilton_re : a.hamilton.re = a.w := rfl
@[simp] theorem hamilton_imI : a.hamilton.imI = a.x := rfl
@[simp] theorem hamilton_imJ : a.hamilton.imJ = a.y := rfl
@[simp] theorem hamilton_imK : a.hamilton.imK = a.z := rfl

/-- The product is that of the quaternion algebra. -/
theorem hamilton_mul : (a * b).hamilton = a.hamilton * b.hamilton := by
  ext <;> simp

/-- Scaling a quaternion scales the quaternion of Mathlib. -/
theorem hamilton_scale : (a.scale c).hamilton = c • a.hamilton := by
  ext <;> simp [scale]

/-- The norm is that of Mathlib. -/
theorem norm_hamilton : ‖a.hamilton‖ = a.norm := by
  have hsq : ‖a.hamilton‖ ^ 2 = a.norm ^ 2 := by
    rw [sq, ← Quaternion.normSq_eq_norm_mul_self, Quaternion.normSq_def', norm_sq_eq]
    simp only [hamilton_re, hamilton_imI, hamilton_imJ, hamilton_imK, normSq, sq]
  exact (sq_eq_sq₀ (norm_nonneg _) (Real.sqrt_nonneg _)).1 hsq

/-- The lengths of quaternions multiply. -/
protected theorem norm_mul : (a * b).norm = a.norm * b.norm := by
  simp only [← norm_hamilton, hamilton_mul, norm_mul]

/-- Scaling a quaternion scales its norm. -/
theorem norm_scale : (a.scale c).norm = |c| * a.norm := by
  simp only [← norm_hamilton, hamilton_scale, norm_smul, Real.norm_eq_abs]

/-! ## Matrices -/

/-- The matrix of a product is the product of the matrices. -/
theorem toMat3_mul : (a * b).toMat3 = a.toMat3 * b.toMat3 := by
  ext <;> simp only [toMat3, mul_w, mul_x, mul_y, mul_z, Mat3.mul_xx, Mat3.mul_xy, Mat3.mul_xz,
    Mat3.mul_yx, Mat3.mul_yy, Mat3.mul_yz, Mat3.mul_zx, Mat3.mul_zy, Mat3.mul_zz,
    Scalar.two_literal] <;> ring

/-- The matrix of a multiple is that of the quaternion, times the square of the factor. -/
theorem toMat3_scale : (a.scale c).toMat3 = (c ^ 2) • a.toMat3 := by
  ext <;> simp only [toMat3, scale, Mat3.smul_def, Mat3.scale_def, Scalar.two_literal] <;> ring

/-! ## Directions -/

/-- The quaternion of length one that has the same direction. -/
noncomputable def direction (a : Quaternion ℝ) : Quaternion ℝ := a.divide a.norm

/-- A quaternion that tells a direction is normalised to that direction. -/
theorem normalized_eq_ok {a : Quaternion ℝ} (h : a.hasDirection = true) :
    a.normalized = .ok a.direction := normalized_eq_ok_iff.2 ⟨h, rfl⟩

/-- Directions multiply, as long as both have one. -/
theorem direction_mul : (a * b).direction = a.direction * b.direction := by
  rw [direction, Quaternion.norm_mul]
  ext <;> simp only [direction, divide, mul_w, mul_x, mul_y, mul_z] <;> ring

/-- The direction of a multiple has the same matrix, also when it is the opposite one. -/
theorem toMat3_direction_scale {c : ℝ} (hc : c ≠ 0) :
    (a.scale c).direction.toMat3 = a.direction.toMat3 := by
  rw [direction, direction, toMat3_divide, toMat3_divide, toMat3_scale, norm_scale, mul_pow, sq_abs,
    smul_smul, mul_inv, mul_right_comm, inv_mul_cancel₀ (pow_ne_zero 2 hc), one_mul]

/-- Normalising a quaternion divides its matrix by the squared norm. -/
theorem toMat3_direction : a.direction.toMat3 = a.normSq⁻¹ • a.toMat3 := by
  rw [direction, toMat3_divide, norm_sq_eq]

/-- The direction of a quaternion has unit length. -/
theorem normSq_direction {a : Quaternion ℝ} (h : a.hasDirection = true) : a.direction.normSq = 1 :=
  a.normSq_divide_norm (a.norm_pos_of_hasDirection h)

end Quaternion

/-! ## Rotations -/

namespace Rotation

variable {a : Quaternion ℝ}

/-- The rotation of a quaternion is the matrix of its direction. -/
theorem ofQuaternion_eq_ok (h : a.hasDirection = true) :
    ofQuaternion a = .ok a.direction.toMat3 := by
  rw [ofQuaternion, Quaternion.normalized_eq_ok h]
  rfl

/-- The rotation of a unit quaternion is its matrix. -/
theorem ofQuaternion_of_unit {u : Quaternion ℝ} (h : u.normSq = 1) :
    ofQuaternion u = .ok u.toMat3 := by
  rw [ofQuaternion, u.normalized_of_unit h]
  rfl

/-- The quaternion that is found for the rotation of a unit quaternion agrees with it up to sign. -/
theorem quaternion_toMat3 {u : Quaternion ℝ} (h : u.normSq = 1) :
    ∃ v, quaternion u.toMat3 = .ok v ∧ (v = u ∨ v = -u) := by
  have hrotation := Quaternion.isRotation_toMat3 h
  exact ⟨_, quaternion_eq_ok hrotation, Quaternion.eq_or_eq_neg_of_toMat3_eq
    (Quaternion.normSq_ofOrthogonal hrotation) h (Quaternion.toMat3_ofOrthogonal hrotation)⟩

end Rotation

/-! ## Poses -/

/-- The four components of a quaternion, real part first, are read as this quaternion. -/
theorem Tensor.toQuaternion_ofList {K : Type} (fault : List Nat → Fault) (a : Quaternion K) :
    (Tensor.ofList a.toList).toQuaternion fault = .ok a := rfl

/-- A pose described by a position and a quaternion is turned by the direction of the quaternion. -/
theorem PoseDescription.build_quaternion (position : Vec3 ℝ) {a : Quaternion ℝ}
    (h : a.hasDirection = true) :
    (quaternion (some (.ofList position.toList)) (.ofList a.toList)).build =
      .ok ⟨position, a.direction.toMat3⟩ := by
  simp only [build, withPosition, positionTensor, Nested.toTensor_ofList,
    Tensor.toQuaternion_ofList, Rotation.ofQuaternion_eq_ok h, bind, Except.bind]
  rfl

/-- Composed poses have the direction of the product, or the opposite one. -/
theorem Pose.quaternion_compose (x y : Vec3 ℝ) {a b : Quaternion ℝ} (ha : a.hasDirection = true)
    (hb : b.hasDirection = true) :
    ∃ u, (compose ⟨x, a.direction.toMat3⟩ ⟨y, b.direction.toMat3⟩).quaternion = .ok u ∧
      (u = (a * b).direction ∨ u = -(a * b).direction) := by
  have hpos : 0 < (a * b).norm := by
    rw [Quaternion.norm_mul]
    exact mul_pos (a.norm_pos_of_hasDirection ha) (b.norm_pos_of_hasDirection hb)
  rw [quaternion, compose_rotation, ← Quaternion.toMat3_mul, ← Quaternion.direction_mul]
  exact Rotation.quaternion_toMat3 ((a * b).normSq_divide_norm hpos)

/-! ## Targets of orientations -/

/-- Of the target that is given, a specification keeps the direction. -/
theorem OrientationDescription.build_withTarget {a b : Quaternion ℝ} (ha : a.hasDirection = true)
    (hb : b.hasDirection = true) (link : String) (tolerances : Nested ℝ) :
    build ⟨link, .ofList b.toList, tolerances⟩ =
      (build ⟨link, .ofList a.toList, tolerances⟩).map ({ · with target := b.direction }) := by
  -- the tolerances are checked before the target is looked at
  cases htensor : tolerances.toTensor with
  | error fault => simp only [build, htensor, bind, Except.bind, Except.map]
  | ok tensor =>
    cases hvector : tensor.toVec3 .tolerancesShape with
    | error fault => simp only [build, htensor, hvector, bind, Except.bind, Except.map]
    | ok vector =>
      simp only [build, htensor, hvector, Nested.toTensor_ofList, Tensor.toQuaternion_ofList,
        Quaternion.normalized_eq_ok ha, Quaternion.normalized_eq_ok hb, bind, Except.bind]
      split_ifs <;> rfl

/-- An orientation constraint knows its target by the matrix only. -/
theorem OrientationConstraint.answers_congr {n : Nat} (link : Link ℝ n)
    {spec spec' : OrientationSpec ℝ} (htarget : spec'.target.toMat3 = spec.target.toMat3)
    (htolerances : spec'.tolerances = spec.tolerances) (q : Vector ℝ n) :
    Leaf.evaluate (.orientation ⟨spec', link⟩) q = Leaf.evaluate (.orientation ⟨spec, link⟩) q ∧
      Leaf.jacobian (.orientation ⟨spec', link⟩) q =
        Leaf.jacobian (.orientation ⟨spec, link⟩) q := by
  simp only [Leaf.evaluate, Leaf.jacobian, Leaf.rawError, Leaf.rawJacobian, Leaf.intervals,
    rawError, rawJacobian, deviation, targetRotation, intervals, htarget, htolerances, and_self]

/-- Two constraints of orientations that aim at the same rotation, whether the quaternions of their
targets are normalised once more or not, and that have the same error and the same gradients
everywhere. -/
def Constraint.AimAlike {n : Nat} (m : Mat3 ℝ) (c c' : Constraint ℝ n) : Prop :=
  ∃ o o' : OrientationConstraint ℝ n, c = .leaf (.orientation o) ∧ c' = .leaf (.orientation o') ∧
    (o.targetRotation = m ∧ Rotation.ofQuaternion o.spec.target = .ok m) ∧
    (o'.targetRotation = m ∧ Rotation.ofQuaternion o'.spec.target = .ok m) ∧
    ∀ q, c'.evaluate q = c.evaluate q ∧ c'.jacobian q = c.jacobian q

/-- Targets of one matrix are aimed at alike. -/
theorem Constraint.aimAlike_of_target {n : Nat} (link : Link ℝ n) {spec spec' : OrientationSpec ℝ}
    {m : Mat3 ℝ} (h : spec.target.toMat3 = m ∧ Rotation.ofQuaternion spec.target = .ok m)
    (h' : spec'.target.toMat3 = m ∧ Rotation.ofQuaternion spec'.target = .ok m)
    (htolerances : spec'.tolerances = spec.tolerances) :
    AimAlike m (.leaf (.orientation ⟨spec, link⟩)) (.leaf (.orientation ⟨spec', link⟩)) := by
  refine ⟨⟨spec, link⟩, ⟨spec', link⟩, rfl, rfl, h, h', fun q => ?_⟩
  simp only [evaluate, jacobian]
  exact OrientationConstraint.answers_congr link (h'.1.trans h.1.symm) htolerances q

/-- Orientations are constrained alike by targets whose directions have the same matrix. -/
theorem OrientationDescription.build_together {n : Nat} (model : Model ℝ n) (link : String)
    (tolerances : Nested ℝ) {a b : Quaternion ℝ} (ha : a.hasDirection = true)
    (hb : b.hasDirection = true) (hsame : b.direction.toMat3 = a.direction.toMat3) :
    Together (Constraint.AimAlike a.direction.toMat3)
      (build ⟨link, .ofList a.toList, tolerances⟩ >>= Constraint.ofOrientation model)
      (build ⟨link, .ofList b.toList, tolerances⟩ >>= Constraint.ofOrientation model) := by
  rw [build_withTarget ha hb]
  cases hbuild : build ⟨link, .ofList a.toList, tolerances⟩ with
  | error fault => exact .error fault
  | ok spec =>
    have htarget : spec.target = a.direction := by
      have hkept := build_withTarget ha ha link tolerances
      rw [hbuild] at hkept
      exact congrArg OrientationSpec.target (Except.ok.inj hkept)
    -- from here on the two differ in the target alone
    refine (Together.refl (model.requireLink spec.link)).bind ?_
    rintro found _ rfl
    refine (Together.refl (Constraint.checkSize n spec.tolerances.toList.length)).bind ?_
    rintro _ _ -
    refine .ok (Constraint.aimAlike_of_target found ?_ ⟨hsame, ?_⟩ rfl)
    · rw [htarget]
      exact ⟨rfl, Rotation.ofQuaternion_of_unit (Quaternion.normSq_direction ha)⟩
    · rw [← hsame]
      exact Rotation.ofQuaternion_of_unit (Quaternion.normSq_direction hb)

/-! ## Quaternions represent rotations -/

/-- Quaternions, real part first, represent rotations, and say no more than the rotation up to a
factor. Exactly those that have a direction are accepted. Such a quaternion has a rotation, every
multiple of it other than zero that is accepted has the same one, and the quaternion that is found
for this rotation is the direction that was given or the opposite one. The rotation of a product is
the product of the rotations, so that composed poses have the direction of the product, again up to
sign. Every rotation is the one of the quaternion that is found for it. And two constraints of an
orientation whose targets are multiples of each other fail alike, or aim at the same rotation and
have the same error and gradients. -/
theorem Rotation.ofQuaternion_faithful :
    (∀ a : Quaternion ℝ, (∃ m, ofQuaternion a = .ok m) ↔ a.hasDirection = true) ∧
    (∀ a : Quaternion ℝ, a.hasDirection = true → ∃ m, ofQuaternion a = .ok m ∧ m.IsRotation ∧
      (∀ c, c ≠ 0 → (a.scale c).hasDirection = true → ofQuaternion (a.scale c) = .ok m) ∧
      ∃ u, quaternion m = .ok u ∧ (u = a.direction ∨ u = -a.direction)) ∧
    (∀ a b : Quaternion ℝ, a.hasDirection = true → b.hasDirection = true →
      ∃ m n, ofQuaternion a = .ok m ∧ ofQuaternion b = .ok n ∧
        ((a * b).hasDirection = true → ofQuaternion (a * b) = .ok (m * n)) ∧
        ∀ x y : Vec3 ℝ, ∃ p p' u,
          (PoseDescription.quaternion (some (.ofList x.toList)) (.ofList a.toList)).build = .ok p ∧
          (PoseDescription.quaternion (some (.ofList y.toList)) (.ofList b.toList)).build = .ok p' ∧
          (p.compose p').rotation = m * n ∧ (p.compose p').quaternion = .ok u ∧
          (u = (a * b).direction ∨ u = -(a * b).direction)) ∧
    (∀ m : Mat3 ℝ, m.IsRotation → ∃ u, quaternion m = .ok u ∧ ofQuaternion u = .ok m) ∧
    ∀ (k : Nat) (model : Model ℝ k) (link : String) (tolerances : Nested ℝ) (a : Quaternion ℝ)
      (c : ℝ), a.hasDirection = true → c ≠ 0 → (a.scale c).hasDirection = true →
      ∃ m, ofQuaternion a = .ok m ∧ Together (Constraint.AimAlike m)
        (OrientationDescription.build ⟨link, .ofList a.toList, tolerances⟩ >>=
          Constraint.ofOrientation model)
        (OrientationDescription.build ⟨link, .ofList (a.scale c).toList, tolerances⟩ >>=
          Constraint.ofOrientation model) := by
  refine ⟨fun a => ⟨?_, fun h => ⟨_, ofQuaternion_eq_ok h⟩⟩, fun a ha => ?_, fun a b ha hb => ?_,
    fun m hm => ?_, fun k model link tolerances a c ha hc hscaled => ?_⟩
  · -- only what can be normalised is read
    rintro ⟨m, hm⟩
    obtain ⟨unit, hunit, -⟩ := bind_eq_ok_iff.1 hm
    exact (Quaternion.normalized_eq_ok_iff.1 hunit).1
  · -- the direction is all that counts, and is found again up to its sign
    have hunit := Quaternion.normSq_direction ha
    refine ⟨_, ofQuaternion_eq_ok ha, Quaternion.isRotation_toMat3 hunit, fun c hc hscaled => ?_,
      quaternion_toMat3 hunit⟩
    rw [ofQuaternion_eq_ok hscaled, a.toMat3_direction_scale hc]
  · refine ⟨_, _, ofQuaternion_eq_ok ha, ofQuaternion_eq_ok hb, fun hab => ?_, fun x y => ?_⟩
    · -- directions multiply as quaternions do
      rw [ofQuaternion_eq_ok hab, Quaternion.direction_mul, Quaternion.toMat3_mul]
    · obtain ⟨u, hu, hsign⟩ := Pose.quaternion_compose x y ha hb
      exact ⟨_, _, u, PoseDescription.build_quaternion x ha, PoseDescription.build_quaternion y hb,
        rfl, hu, hsign⟩
  · refine ⟨_, quaternion_eq_ok hm, ?_⟩
    rw [ofQuaternion_of_unit (Quaternion.normSq_ofOrthogonal hm), Quaternion.toMat3_ofOrthogonal hm]
  · exact ⟨_, ofQuaternion_eq_ok ha, OrientationDescription.build_together model link tolerances ha
      hscaled (a.toMat3_direction_scale hc)⟩

/-- The arm can be kept near every target that has a direction. -/
theorem exists_aimed_arm {a : Quaternion ℝ} (h : a.hasDirection = true) :
    ∃ k, (OrientationDescription.build ⟨"arm", .ofList a.toList, .ofList [0, 0, 1]⟩ >>=
      Constraint.ofOrientation (.chain turnThenSlide)) = .ok k := by
  have hone : (⟨1, 0, 0, 0⟩ : Quaternion ℝ).hasDirection = true :=
    Quaternion.hasDirection_of_one_le _ (by simp [Quaternion.normSq])
  have hbuild : OrientationDescription.build ⟨"arm", .ofList a.toList, .ofList [0, 0, 1]⟩ =
      .ok { armSpec with target := a.direction } := by
    -- another target with a direction is accepted as the one of the example is
    rw [OrientationDescription.build_withTarget hone h]
    exact congrArg (Except.map _) build_armDescription
  rw [hbuild]
  let aimed : OrientationConstraint ℝ 2 :=
    ⟨{ armSpec with target := a.direction }, .ofChain turnThenSlide armLink⟩
  exact ⟨.leaf (.orientation aimed), rfl⟩

/-- A quarter turn about the vertical, whose quaternion is not normalised, after a half turn about
the first axis is a half turn about the diagonal between the first two axes. The arm aims at the
quarter turn, whichever multiple of the quaternion is the target. -/
theorem Rotation.ofQuaternion_faithful_quarterTurn :
    let a : Quaternion ℝ := ⟨1, 0, 0, 1⟩
    let b : Quaternion ℝ := ⟨0, 1, 0, 0⟩
    let quarter : Mat3 ℝ := ⟨0, -1, 0, 1, 0, 0, 0, 0, 1⟩
    let half : Mat3 ℝ := ⟨0, 1, 0, 1, 0, 0, 0, 0, -1⟩
    let aimed (target : Quaternion ℝ) :=
      OrientationDescription.build ⟨"arm", .ofList target.toList, .ofList [0, 0, 1]⟩ >>=
        Constraint.ofOrientation (.chain turnThenSlide)
    a.hasDirection = true ∧ b.hasDirection = true ∧ (a * b).hasDirection = true ∧
    (-3 : ℝ) ≠ 0 ∧ (a.scale (-3)).hasDirection = true ∧
    ofQuaternion a = .ok quarter ∧ ofQuaternion (a.scale (-3)) = .ok quarter ∧
    ofQuaternion (a * b) = .ok half ∧ half.IsRotation ∧
    (∃ u, quaternion half = .ok u ∧ ofQuaternion u = .ok half ∧
      (u = (a * b).direction ∨ u = -(a * b).direction)) ∧
    ∃ k k', aimed a = .ok k ∧ aimed (a.scale (-3)) = .ok k' ∧ Constraint.AimAlike quarter k k' := by
  intro a b quarter half aimed
  have ha : a.hasDirection = true :=
    Quaternion.hasDirection_of_one_le _ (by simp [a, Quaternion.normSq])
  have hb : b.hasDirection = true :=
    Quaternion.hasDirection_of_one_le _ (by simp [b, Quaternion.normSq])
  have hab : (a * b).hasDirection = true :=
    Quaternion.hasDirection_of_one_le _ (by simp [a, b, Quaternion.normSq])
  have hscaled : (a.scale (-3)).hasDirection = true :=
    Quaternion.hasDirection_of_one_le _ (by norm_num [a, Quaternion.scale, Quaternion.normSq])
  have hthree : (-3 : ℝ) ≠ 0 := by norm_num
  -- the first quaternion is a quarter turn, the product half a turn
  have hquarter : ofQuaternion a = .ok quarter := by
    rw [ofQuaternion_eq_ok ha, Quaternion.toMat3_direction]
    congr 1
    ext <;> norm_num [a, quarter, Quaternion.toMat3, Quaternion.normSq, Mat3.smul_def,
      Mat3.scale_def]
  have hhalf : ofQuaternion (a * b) = .ok half := by
    rw [ofQuaternion_eq_ok hab, Quaternion.toMat3_direction]
    congr 1
    ext <;> norm_num [a, b, half, Quaternion.toMat3, Quaternion.normSq, Mat3.smul_def,
      Mat3.scale_def]
  obtain ⟨-, hfaithful, -, hfound, htargets⟩ := ofQuaternion_faithful
  -- the general statement speaks of these matrices
  obtain ⟨m, hm, -, hmultiple, -⟩ := hfaithful a ha
  obtain rfl := Except.ok.inj (hm.symm.trans hquarter)
  obtain ⟨m, hm, hrotation, -, u, hu, hsign⟩ := hfaithful (a * b) hab
  obtain rfl := Except.ok.inj (hm.symm.trans hhalf)
  obtain ⟨v, hv, hback⟩ := hfound half hrotation
  obtain rfl := Except.ok.inj (hu.symm.trans hv)
  obtain ⟨n, hn, htogether⟩ := htargets 2 (.chain turnThenSlide) "arm" (.ofList [0, 0, 1]) a (-3) ha
    hthree hscaled
  obtain rfl := Except.ok.inj (hn.symm.trans hquarter)
  obtain ⟨k, hk⟩ := exists_aimed_arm ha
  obtain ⟨k', hk', halike⟩ := htogether.exists_of_eq_ok hk
  exact ⟨ha, hb, hab, hthree, hscaled, hquarter, hmultiple _ hthree hscaled, hhalf, hrotation,
    ⟨u, hu, hback, hsign⟩, k, k', hk, hk', halike⟩

end KinematicManifold

end
