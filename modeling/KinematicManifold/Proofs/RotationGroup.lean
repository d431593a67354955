import KinematicManifold.Geometry.Rotation
import KinematicManifold.Proofs.Space

/-!
# The rotation group

A rotation is an orthogonal matrix of determinant one. Rotations are closed under products and
transposition and respect lengths and vector products. They are the matrices of the unit
quaternions, and two unit quaternions have one matrix only if they agree up to sign.

## Key results

- `Mat3.IsRotation.mul`, `Mat3.IsRotation.transpose`: rotations make a group
- `Mat3.IsRotation.apply_cross`, `Mat3.IsRotation.mul_skew`: rotations respect the vector product
- `Quaternion.isRotation_toMat3`: the matrix of a unit quaternion is a rotation
- `Quaternion.toMat3_ofOrthogonal`: every rotation is the matrix of the unit quaternion found for it
- `Quaternion.eq_or_eq_neg_of_toMat3_eq`: that quaternion is unique up to sign
- `Rotation.quaternion_eq_ok`: a rotation is right-handed and needs no correction
-/

namespace KinematicManifold

namespace Mat3

variable {m n : Mat3 ℝ}

/-- The determinant, expanded along the first row. -/
theorem det_eq (m : Mat3 ℝ) : m.det =
    m.xx * (m.yy * m.zz - m.yz * m.zy) + m.xy * (m.yz * m.zx - m.yx * m.zz) +
      m.xz * (m.yx * m.zy - m.yy * m.zx) := rfl

/-- Determinants multiply. -/
theorem det_mul (m n : Mat3 ℝ) : (m * n).det = m.det * n.det := by
  simp only [det_eq, mul_xx, mul_xy, mul_xz, mul_yx, mul_yy, mul_yz, mul_zx, mul_zy, mul_zz]
  ring

/-- A transposed matrix has the same determinant. -/
theorem det_transpose (m : Mat3 ℝ) : m.transpose.det = m.det := by
  simp only [det_eq, Mat3.transpose]
  ring

/-- The transposed matrix of cofactors times the matrix is the determinant. -/
theorem cofactors_transpose_mul (m : Mat3 ℝ) : m.cofactors.transpose * m = m.det • 1 := by
  ext <;> simp [det_eq, cofactors, Mat3.transpose, ofRows, row, smul_def, scale_def, one_def] <;>
    ring

/-- The vector product of two images is an image under the matrix of cofactors. -/
theorem apply_cross_apply (m : Mat3 ℝ) (u v : Vec3 ℝ) :
    (m.apply u).cross (m.apply v) = m.cofactors.apply (u.cross v) := by
  ext <;> simp [cofactors, ofRows, row] <;> ring

/-- A matrix whose rows, and whose columns, are orthonormal. -/
structure IsOrthogonal (m : Mat3 ℝ) : Prop where
  mul_transpose : m * m.transpose = 1
  transpose_mul : m.transpose * m = 1

/-- An orthogonal matrix that keeps the handedness of space. -/
structure IsRotation (m : Mat3 ℝ) : Prop extends m.IsOrthogonal where
  det_eq_one : m.det = 1

/-! ## Orthogonal matrices -/

namespace IsOrthogonal

/-- The transpose of an orthogonal matrix is orthogonal. -/
theorem transpose (h : m.IsOrthogonal) : m.transpose.IsOrthogonal :=
  ⟨h.transpose_mul, h.mul_transpose⟩

/-- The transpose undoes an orthogonal matrix. -/
theorem transpose_apply_apply (h : m.IsOrthogonal) (v : Vec3 ℝ) :
    m.transpose.apply (m.apply v) = v := by
  rw [← apply_mul, h.transpose_mul, apply_one]

/-- Orthogonal matrices keep lengths. -/
theorem norm_apply (h : m.IsOrthogonal) (v : Vec3 ℝ) : ‖m.apply v‖ = ‖v‖ := by
  -- a matrix moves to the other side of a scalar product when it is transposed
  have hdot : (m.apply v).dot (m.apply v) = (m.transpose.apply (m.apply v)).dot v := by
    simp only [Vec3.dot, apply_x, apply_y, apply_z, Mat3.transpose]
    ring
  rw [h.transpose_apply_apply, Vec3.dot_self, Vec3.dot_self] at hdot
  exact (sq_eq_sq₀ (norm_nonneg _) (norm_nonneg _)).1 hdot

end IsOrthogonal

/-! ## Rotations -/

namespace IsRotation

/-- The identity is a rotation. -/
theorem one : (1 : Mat3 ℝ).IsRotation where
  mul_transpose := by simp
  transpose_mul := by simp
  det_eq_one := by simp [det_eq, one_def]

/-- Rotations compose to rotations. -/
theorem mul (hm : m.IsRotation) (hn : n.IsRotation) : (m * n).IsRotation where
  mul_transpose := by
    rw [transpose_mul, mul_assoc, ← mul_assoc n, hn.mul_transpose, one_mul, hm.mul_transpose]
  transpose_mul := by
    rw [Mat3.transpose_mul, mul_assoc, ← mul_assoc m.transpose, hm.transpose_mul, one_mul,
      hn.transpose_mul]
  det_eq_one := by rw [det_mul, hm.det_eq_one, hn.det_eq_one, one_mul]

/-- The way back of a rotation is a rotation. -/
theorem transpose (h : m.IsRotation) : m.transpose.IsRotation where
  toIsOrthogonal := h.toIsOrthogonal.transpose
  det_eq_one := by rw [det_transpose, h.det_eq_one]

/-- A rotation is its own matrix of cofactors. -/
theorem cofactors_eq (h : m.IsRotation) : m.cofactors = m := by
  have key : m.cofactors.transpose = m.transpose := by
    calc m.cofactors.transpose
        = m.cofactors.transpose * (m * m.transpose) := by rw [h.mul_transpose, mul_one]
      _ = m.cofactors.transpose * m * m.transpose := by rw [mul_assoc]
      _ = m.transpose := by rw [cofactors_transpose_mul, h.det_eq_one, one_smul, one_mul]
  exact congrArg Mat3.transpose key

/-- Rotations keep vector products. -/
theorem apply_cross (h : m.IsRotation) (u v : Vec3 ℝ) :
    m.apply (u.cross v) = (m.apply u).cross (m.apply v) := by
  rw [apply_cross_apply, h.cofactors_eq]

/-- A rotation moves past the matrix of a vector product by rotating the vector. -/
theorem mul_skew (h : m.IsRotation) (v : Vec3 ℝ) :
    m * Rotation.skew v = Rotation.skew (m.apply v) * m := by
  apply action_injective
  ext1 w
  simp only [action_apply, apply_mul, Rotation.skew_apply, h.apply_cross]

end IsRotation

end Mat3

/-! ## Unit quaternions -/

namespace Quaternion

variable (q : Quaternion ℝ)

/-- Squared norms are not negative. -/
theorem normSq_nonneg : 0 ≤ q.normSq := by
  have hw := mul_self_nonneg q.w
  have hx := mul_self_nonneg q.x
  have hy := mul_self_nonneg q.y
  have hz := mul_self_nonneg q.z
  simp only [normSq]
  linarith

/-- The norm is the root of the squared norm. -/
theorem norm_sq_eq : q.norm ^ 2 = q.normSq := Real.sq_sqrt q.normSq_nonneg

/-- Dividing a quaternion divides its squared norm by the square. -/
theorem normSq_divide (c : ℝ) : (q.divide c).normSq = q.normSq / c ^ 2 := by
  simp only [normSq, divide]
  ring

/-- Over the real numbers only short quaternions have no direction. -/
theorem hasDirection_iff : q.hasDirection = true ↔ shortest ≤ q.norm := by
  simp [hasDirection]

/-- A quaternion that tells a direction is not zero. -/
theorem norm_pos_of_hasDirection (h : q.hasDirection = true) : 0 < q.norm :=
  lt_of_lt_of_le (by norm_num [shortest]) (q.hasDirection_iff.1 h)

/-- A quaternion divided by its length has length one. -/
theorem normSq_divide_norm (h : 0 < q.norm) : (q.divide q.norm).normSq = 1 := by
  rw [normSq_divide, ← norm_sq_eq]
  exact div_self (by positivity)

/-- A quaternion that is not shorter than one tells a direction. -/
theorem hasDirection_of_one_le (h : 1 ≤ q.normSq) : q.hasDirection = true := by
  have hshort : (shortest : ℝ) ≤ 1 := by norm_num [shortest]
  exact q.hasDirection_iff.2 (hshort.trans (Real.one_le_sqrt.2 h))

/-- Normalising a unit quaternion changes nothing. -/
theorem normalized_of_unit (h : q.normSq = 1) : q.normalized = .ok q := by
  have hnorm : q.norm = 1 := by rw [norm, Scalar.sqrt_real, h, Real.sqrt_one]
  refine normalized_eq_ok_iff.2 ⟨q.hasDirection_of_one_le h.ge, ?_⟩
  rw [hnorm]
  simp [divide]

/-- Dividing a quaternion divides its matrix by the square. -/
theorem toMat3_divide (c : ℝ) : (q.divide c).toMat3 = (c ^ 2)⁻¹ • q.toMat3 := by
  ext <;> simp only [toMat3, divide, Mat3.smul_def, Mat3.scale_def, Scalar.two_literal] <;> ring

/-- The matrix of a quaternion is orthogonal up to the squared norm. -/
theorem toMat3_mul_transpose : q.toMat3 * q.toMat3.transpose = (q.normSq ^ 2) • 1 := by
  ext <;> simp only [toMat3, normSq, Mat3.transpose, Mat3.smul_def, Mat3.scale_def, Mat3.one_def,
    Mat3.mul_xx, Mat3.mul_xy, Mat3.mul_xz, Mat3.mul_yx, Mat3.mul_yy, Mat3.mul_yz, Mat3.mul_zx,
    Mat3.mul_zy, Mat3.mul_zz, Scalar.two_literal] <;> ring

@[simp] theorem neg_w : (-q).w = -q.w := rfl
@[simp] theorem neg_x : (-q).x = -q.x := rfl
@[simp] theorem neg_y : (-q).y = -q.y := rfl
@[simp] theorem neg_z : (-q).z = -q.z := rfl

/-- Opposite quaternions have the same norm. -/
theorem normSq_neg : (-q).normSq = q.normSq := by simp [normSq]

/-- Opposite quaternions have the same matrix. -/
theorem toMat3_neg : (-q).toMat3 = q.toMat3 := by ext <;> simp [toMat3]

variable {q}

/-- A quaternion whose squared components add up to zero is zero. -/
private theorem components_eq_zero (h : q.normSq = 0) :
    q.w = 0 ∧ q.x = 0 ∧ q.y = 0 ∧ q.z = 0 := by
  have hw := mul_self_nonneg q.w
  have hx := mul_self_nonneg q.x
  have hy := mul_self_nonneg q.y
  have hz := mul_self_nonneg q.z
  simp only [normSq] at h
  refine ⟨?_, ?_, ?_, ?_⟩ <;> exact mul_self_eq_zero.1 (by linarith)

/-- The matrix of a unit quaternion is a rotation. -/
theorem isRotation_toMat3 (h : q.normSq = 1) : q.toMat3.IsRotation where
  mul_transpose := by rw [toMat3_mul_transpose, h, one_pow, one_smul]
  transpose_mul := by
    -- the transposed matrix is that of the conjugate
    have key := toMat3_mul_transpose ⟨q.w, -q.x, -q.y, -q.z⟩
    have htranspose : q.toMat3.transpose = toMat3 ⟨q.w, -q.x, -q.y, -q.z⟩ := by
      ext <;> simp only [Mat3.transpose, toMat3, Scalar.two_literal] <;> ring
    have hnorm : normSq ⟨q.w, -q.x, -q.y, -q.z⟩ = q.normSq := by simp [normSq]
    rwa [← htranspose, Mat3.transpose_transpose, hnorm, h, one_pow, one_smul] at key
  det_eq_one := by
    have key : q.toMat3.det = q.normSq ^ 3 := by
      simp only [toMat3, normSq, Mat3.det_eq, Scalar.two_literal]
      ring
    rw [key, h, one_pow]

/-- Unit quaternions whose product is one agree. -/
private theorem eq_of_product_eq_one {p : Quaternion ℝ} (hp : p.normSq = 1) (hq : q.normSq = 1)
    (h : p.w * q.w + p.x * q.x + p.y * q.y + p.z * q.z = 1) : p = q := by
  have hdistance : (⟨p.w - q.w, p.x - q.x, p.y - q.y, p.z - q.z⟩ : Quaternion ℝ).normSq = 0 := by
    simp only [normSq] at hp hq ⊢
    linear_combination hp + hq - 2 * h
  obtain ⟨hw, hx, hy, hz⟩ := components_eq_zero hdistance
  exact Quaternion.ext (sub_eq_zero.1 hw) (sub_eq_zero.1 hx) (sub_eq_zero.1 hy) (sub_eq_zero.1 hz)

/-- Unit quaternions of one matrix agree up to sign. -/
theorem eq_or_eq_neg_of_toMat3_eq {p : Quaternion ℝ} (hp : p.normSq = 1) (hq : q.normSq = 1)
    (h : p.toMat3 = q.toMat3) : p = q ∨ p = -q := by
  -- the matrices determine the square of the product
  have hproduct : (p.w * q.w + p.x * q.x + p.y * q.y + p.z * q.z) ^ 2 = 1 := by
    simp only [Mat3.ext_iff, toMat3, Scalar.two_literal] at h
    simp only [normSq] at hp hq
    grind
  -- so that the product is one or minus one
  rcases (sq_eq_sq_iff_eq_or_eq_neg.1 (hproduct.trans (one_pow 2).symm)) with hone | hneg
  · exact .inl (eq_of_product_eq_one hp hq hone)
  · refine .inr (eq_of_product_eq_one hp (q.normSq_neg.trans hq) ?_)
    simp only [neg_w, neg_x, neg_y, neg_z]
    linear_combination -hneg

/-! ## The quaternion of a rotation -/

section
variable {m : Mat3 ℝ}

/-- What the entries of a rotation satisfy: its rows and its columns are orthonormal, and it is its
own matrix of cofactors. -/
private theorem entries_of_isRotation (h : m.IsRotation) :
    (m.xx * m.xx + m.xy * m.xy + m.xz * m.xz = 1 ∧ m.yx * m.yx + m.yy * m.yy + m.yz * m.yz = 1 ∧
      m.zx * m.zx + m.zy * m.zy + m.zz * m.zz = 1 ∧ m.xx * m.yx + m.xy * m.yy + m.xz * m.yz = 0 ∧
      m.yx * m.zx + m.yy * m.zy + m.yz * m.zz = 0 ∧ m.zx * m.xx + m.zy * m.xy + m.zz * m.xz = 0) ∧
    (m.xx * m.xx + m.yx * m.yx + m.zx * m.zx = 1 ∧ m.xy * m.xy + m.yy * m.yy + m.zy * m.zy = 1 ∧
      m.xz * m.xz + m.yz * m.yz + m.zz * m.zz = 1 ∧ m.xx * m.xy + m.yx * m.yy + m.zx * m.zy = 0 ∧
      m.xy * m.xz + m.yy * m.yz + m.zy * m.zz = 0 ∧ m.xz * m.xx + m.yz * m.yx + m.zz * m.zx = 0) ∧
    (m.yy * m.zz - m.yz * m.zy = m.xx ∧ m.yz * m.zx - m.yx * m.zz = m.xy ∧
      m.yx * m.zy - m.yy * m.zx = m.xz ∧ m.zy * m.xz - m.zz * m.xy = m.yx ∧
      m.zz * m.xx - m.zx * m.xz = m.yy ∧ m.zx * m.xy - m.zy * m.xx = m.yz ∧
      m.xy * m.yz - m.xz * m.yy = m.zx ∧ m.xz * m.yx - m.xx * m.yz = m.zy ∧
      m.xx * m.yy - m.xy * m.yx = m.zz) := by
  have rows := Mat3.ext_iff.1 h.mul_transpose
  have cols := Mat3.ext_iff.1 h.transpose_mul
  have cofactors := Mat3.ext_iff.1 h.cofactors_eq
  simp only [Mat3.one_def, Mat3.mul_xx, Mat3.mul_xy, Mat3.mul_xz, Mat3.mul_yx, Mat3.mul_yy,
    Mat3.mul_yz, Mat3.mul_zx, Mat3.mul_zy, Mat3.mul_zz, Mat3.transpose] at rows cols
  obtain ⟨rxx, rxy, -, -, ryy, ryz, rzx, -, rzz⟩ := rows
  obtain ⟨cxx, cxy, -, -, cyy, cyz, czx, -, czz⟩ := cols
  exact ⟨⟨rxx, ryy, rzz, rxy, ryz, rzx⟩, ⟨cxx, cyy, czz, cxy, cyz, czx⟩, cofactors⟩

/-! Each of the four candidates is a multiple of the quaternion, by one of its components. -/

/-- Read by its first part, the quaternion of a rotation has the matrix that was read, up to
scale. -/
theorem toMat3_byX (h : m.IsRotation) : (byX m).toMat3 = (4 * (byX m).x) • m := by
  have := entries_of_isRotation h
  ext <;> simp only [byX, toMat3, Mat3.trace, Mat3.smul_def, Mat3.scale_def, Scalar.two_literal] <;>
    grind

/-- The same by the second part. -/
theorem toMat3_byY (h : m.IsRotation) : (byY m).toMat3 = (4 * (byY m).y) • m := by
  have := entries_of_isRotation h
  ext <;> simp only [byY, toMat3, Mat3.trace, Mat3.smul_def, Mat3.scale_def, Scalar.two_literal] <;>
    grind

/-- The same by the third part. -/
theorem toMat3_byZ (h : m.IsRotation) : (byZ m).toMat3 = (4 * (byZ m).z) • m := by
  have := entries_of_isRotation h
  ext <;> simp only [byZ, toMat3, Mat3.trace, Mat3.smul_def, Mat3.scale_def, Scalar.two_literal] <;>
    grind

/-- The same by the real part. -/
theorem toMat3_byReal (h : m.IsRotation) : (byReal m).toMat3 = (4 * (byReal m).w) • m := by
  have := entries_of_isRotation h
  ext <;> simp only [byReal, toMat3, Mat3.trace, Mat3.smul_def, Mat3.scale_def,
    Scalar.two_literal] <;> grind

/-- The component by which the candidate is chosen is positive: the four add up to four. -/
theorem toMat3_byLargest (h : m.IsRotation) :
    ∃ factor : ℝ, 0 < factor ∧ (byLargest m).toMat3 = factor • m := by
  unfold byLargest
  -- a test that holds bounds its component from below, and tests that fail bound the others
  split_ifs with hx hy hz
  · refine ⟨_, ?_, toMat3_byX h⟩
    simp only [byX, Mat3.trace, Scalar.two_literal] at hx ⊢
    linarith
  · refine ⟨_, ?_, toMat3_byY h⟩
    simp only [byY, Mat3.trace, Scalar.two_literal] at hx hy ⊢
    grind
  · refine ⟨_, ?_, toMat3_byZ h⟩
    simp only [byZ, Mat3.trace, Scalar.two_literal] at hx hy hz ⊢
    grind
  · refine ⟨_, ?_, toMat3_byReal h⟩
    simp only [byReal, Mat3.trace] at hx hy hz ⊢
    grind

/-- A quaternion whose matrix is a positive multiple of a rotation has that number for its squared
length. -/
theorem normSq_of_toMat3_eq {factor : ℝ} (hpos : 0 < factor) (hm : m.IsRotation)
    (h : q.toMat3 = factor • m) : q.normSq = factor := by
  have hsq : q.normSq ^ 2 = factor ^ 2 := by
    -- both are the square of the length of a row
    have key : (q.normSq ^ 2) • (1 : Mat3 ℝ) = (factor ^ 2) • 1 := by
      rw [← toMat3_mul_transpose, h, Mat3.transpose_smul, smul_mul_smul_comm, hm.mul_transpose, sq]
    simpa [Mat3.smul_def, Mat3.scale_def, Mat3.one_def] using congrArg Mat3.xx key
  exact (sq_eq_sq₀ q.normSq_nonneg hpos.le).1 hsq

/-- The quaternion of a rotation has unit length. -/
theorem normSq_ofOrthogonal (h : m.IsRotation) : (ofOrthogonal m).normSq = 1 := by
  obtain ⟨factor, hpos, hfactor⟩ := toMat3_byLargest h
  have hnorm := normSq_of_toMat3_eq hpos h hfactor
  simp only [ofOrthogonal, normSq_divide, norm_sq_eq, hnorm]
  exact div_self hpos.ne'

/-- Every rotation is the matrix of the quaternion that is found for it. -/
theorem toMat3_ofOrthogonal (h : m.IsRotation) : (ofOrthogonal m).toMat3 = m := by
  obtain ⟨factor, hpos, hfactor⟩ := toMat3_byLargest h
  have hnorm := normSq_of_toMat3_eq hpos h hfactor
  simp only [ofOrthogonal, toMat3_divide, norm_sq_eq, hnorm, hfactor]
  rw [smul_smul, inv_mul_cancel₀ hpos.ne', one_smul]

end

/-! ## The sign -/

/-- The canonical quaternion is the given one or its opposite. -/
theorem canonical_eq_or (q : Quaternion ℝ) : q.canonical = q ∨ q.canonical = -q := by
  unfold canonical
  split_ifs
  · exact .inl rfl
  · exact .inr rfl

/-- The choice of a sign keeps the norm. -/
theorem normSq_canonical (q : Quaternion ℝ) : q.canonical.normSq = q.normSq := by
  rcases q.canonical_eq_or with h | h <;> rw [h]
  exact q.normSq_neg

/-- The choice of a sign keeps the matrix. -/
theorem toMat3_canonical (q : Quaternion ℝ) : q.canonical.toMat3 = q.toMat3 := by
  rcases q.canonical_eq_or with h | h <;> rw [h]
  exact q.toMat3_neg

/-- The canonical quaternion has no negative real part. -/
theorem canonical_w_nonneg (q : Quaternion ℝ) : 0 ≤ q.canonical.w := by
  unfold canonical isCanonical
  rcases lt_trichotomy q.w 0 with hneg | hzero | hpos
  · simp [hneg, hneg.le]
  · -- a real part of zero is its own opposite
    split_ifs <;> simp [hzero]
  · have hne : ¬Scalar.isZero q.w = true := fun h => hpos.ne' ((Scalar.isZero_iff _).1 h)
    simp [hpos.not_gt, hne, hpos.le]

end Quaternion

/-! ## Rotations need no correction -/

namespace Mat3

/-- The sizes that rows are divided by are positive, rows of zeros having size one. -/
theorem rowSizes_pos (m : Mat3 ℝ) :
    0 < m.rowSizes.x ∧ 0 < m.rowSizes.y ∧ 0 < m.rowSizes.z := by
  have key (v : Vec3 ℝ) : 0 < if Scalar.isZero v.largest then 1 else v.largest := by
    have hnonneg : 0 ≤ v.largest := by simp [Vec3.largest]
    split_ifs with hzero
    · exact one_pos
    · exact lt_of_le_of_ne hnonneg fun h => hzero ((Scalar.isZero_iff _).2 h.symm)
  exact ⟨key _, key _, key _⟩

/-- A product of positive numbers is positive, in whatever order it is taken. -/
theorem productDescending_pos {v : Vec3 ℝ} (hx : 0 < v.x) (hy : 0 < v.y) (hz : 0 < v.z) :
    0 < v.productDescending := by
  simp only [Vec3.productDescending, Scalar.larger_eq_max, Scalar.smaller_eq_min]
  positivity

/-- Dividing the rows divides the determinant by each size. -/
theorem det_divideRows (m : Mat3 ℝ) (sizes : Vec3 ℝ) :
    (m.divideRows sizes).det = m.det / (sizes.x * sizes.y * sizes.z) := by
  simp only [det_eq, divideRows, ofRows, Vec3.divide, row]
  ring

/-- A matrix of positive determinant is right-handed. -/
theorem isRightHanded_of_det_pos {m : Mat3 ℝ} (h : 0 < m.det) : m.isRightHanded = true := by
  obtain ⟨hx, hy, hz⟩ := m.rowSizes_pos
  -- dividing the rows by positive sizes keeps the sign of the determinant
  have hvolume : 0 < (m.divideRows m.rowSizes).det := by
    rw [det_divideRows]
    positivity
  have hproduct := productDescending_pos hx hy hz
  simp only [isRightHanded, Bool.not_eq_true', Bool.or_eq_false_iff, decide_eq_false_iff_not,
    not_le]
  exact ⟨hvolume, by positivity⟩

end Mat3

namespace Rotation

variable {m : Mat3 ℝ}

/-- A number is near itself. -/
theorem near_self (a : ℝ) : near a a = true := by
  simp only [near, Scalar.abs_eq, sub_self, abs_zero, decide_eq_true_eq]
  positivity

/-- An orthogonal matrix passes the test for one. -/
theorem isOrthogonal_of_isOrthogonal (h : m.IsOrthogonal) : isOrthogonal m = true := by
  simp [isOrthogonal, h.mul_transpose, Mat3.one_def, near_self]

/-- A rotation is right-handed and needs no correction. -/
theorem quaternion_eq_ok (h : m.IsRotation) : quaternion m = .ok (.ofOrthogonal m) := by
  have hdet : 0 < m.det := h.det_eq_one.symm ▸ one_pos
  simp only [quaternion, Mat3.isRightHanded_of_det_pos hdet, isOrthogonal_of_isOrthogonal
    h.toIsOrthogonal, if_true]

end Rotation

end KinematicManifold
