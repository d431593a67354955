import KinematicManifold.Proofs.RotationGroup

/-!
# Rounds towards the nearest orthogonal matrix

A round replaces a matrix by a sum of a multiple of itself and a multiple of its cofactors, since
the transposed inverse is the matrix of cofactors over the determinant. Sizes of rows and columns
that are divided out on the way cancel. The determinant of such a sum is a sum of terms that are
positive when the determinant of the matrix is. So a right-handed matrix stays right-handed, and no
round divides by zero.

## Key results

- `Mat3.isRightHanded_iff`: right-handed matrices have a positive determinant
- `Mat3.inverseTranspose_eq`: the transposed inverse from the cofactors
- `Mat3.det_scale_add_scale_cofactors`: the determinant of the sum
- `Mat3.det_polarRound_pos`: a round keeps a positive determinant
-/

namespace KinematicManifold.Mat3

variable {m : Mat3 ℝ}

/-! ## Determinants -/

/-- Scaling a matrix scales its determinant by the third power. -/
theorem det_scale (c : ℝ) (m : Mat3 ℝ) : (m.scale c).det = c ^ 3 * m.det := by
  simp only [det_eq, scale]
  ring

/-- The cofactors have the squared determinant. -/
theorem det_cofactors (m : Mat3 ℝ) : m.cofactors.det = m.det ^ 2 := by
  simp only [det_eq, cofactors, ofRows, row, Vec3.cross_x, Vec3.cross_y, Vec3.cross_z]
  ring

/-- Dividing the columns divides the determinant by each size. -/
theorem det_divideCols (m : Mat3 ℝ) (sizes : Vec3 ℝ) :
    (m.divideCols sizes).det = m.det / (sizes.x * sizes.y * sizes.z) := by
  have hrows := m.transpose.det_divideRows sizes
  rw [det_transpose] at hrows
  rw [← hrows, ← det_transpose]
  rfl

/-- A matrix is right-handed when its determinant is positive. -/
theorem isRightHanded_iff : m.isRightHanded = true ↔ 0 < m.det := by
  refine ⟨fun h => ?_, isRightHanded_of_det_pos⟩
  obtain ⟨hx, hy, hz⟩ := m.rowSizes_pos
  simp only [isRightHanded, Bool.not_eq_true', Bool.or_eq_false_iff, decide_eq_false_iff_not,
    not_le, det_divideRows] at h
  exact (div_pos_iff_of_pos_right (by positivity)).1 h.1

/-- The product of a matrix with its transpose has the squares of all entries on its diagonal. -/
theorem trace_mul_transpose_nonneg (m : Mat3 ℝ) : 0 ≤ (m * m.transpose).trace := by
  simp only [trace, Mat3.transpose, mul_xx, mul_yy, mul_zz, ← sq]
  positivity

/-- The determinant of a multiple of a matrix and a multiple of its cofactors. -/
theorem det_scale_add_scale_cofactors (m : Mat3 ℝ) (a b : ℝ) :
    (m.scale a + m.cofactors.scale b).det = a ^ 3 * m.det +
      a ^ 2 * b * (m.cofactors * m.cofactors.transpose).trace +
      a * b ^ 2 * m.det * (m * m.transpose).trace + b ^ 3 * m.det ^ 2 := by
  have hadd (u v : Mat3 ℝ) : u + v = ⟨u.xx + v.xx, u.xy + v.xy, u.xz + v.xz, u.yx + v.yx,
    u.yy + v.yy, u.yz + v.yz, u.zx + v.zx, u.zy + v.zy, u.zz + v.zz⟩ := rfl
  simp only [det_eq, trace, cofactors, hadd, scale, ofRows, row, Mat3.transpose, mul_xx, mul_yy,
    mul_zz, Vec3.cross_x, Vec3.cross_y, Vec3.cross_z]
  ring

/-! ## One round -/

/-- The transposed inverse is the matrix of cofactors over the determinant. -/
theorem inverseTranspose_eq (h : m.det ≠ 0) :
    m.inverseTranspose = m.cofactors.scale (1 / m.det) := by
  obtain ⟨hx, hy, hz⟩ := m.rowSizes_pos
  obtain ⟨hx', hy', hz'⟩ := (m.divideRows m.rowSizes).transpose.rowSizes_pos
  simp only [inverseTranspose]
  -- the sizes are any numbers but zero
  generalize (m.divideRows m.rowSizes).transpose.rowSizes = cols at *
  generalize m.rowSizes = rows at *
  rw [det_divideCols, det_divideRows]
  generalize m.det = d at *
  -- each entry is a product of two entries less another one, over all three sizes of both kinds
  ext <;> simp only [divideRows, divideCols, scale, cofactors, ofRows, ofCols, row, col,
    Vec3.divide, Vec3.cross_x, Vec3.cross_y, Vec3.cross_z] <;> field_simp

/-- The determinant of the transposed inverse has the same sign. -/
theorem det_inverseTranspose_pos (h : 0 < m.det) : 0 < m.inverseTranspose.det := by
  rw [inverseTranspose_eq h.ne', det_scale, det_cofactors]
  positivity

/-- A matrix that is not singular has an entry other than zero. -/
theorem largest_pos (h : m.det ≠ 0) : 0 < m.largest := by
  by_contra hnot
  have hfirst : (m.row .x).largest ≤ m.largest := by
    simp only [largest, Vec3.largest, Scalar.larger_eq_max, Scalar.abs_eq]
    exact (le_abs_self _).trans ((le_max_left _ _).trans (le_max_left _ _))
  -- already a first row of zeros makes a matrix singular
  have hrow : (m.row .x).largest ≤ 0 := hfirst.trans (not_lt.1 hnot)
  simp only [Vec3.largest, Scalar.larger_eq_max, Scalar.abs_eq, max_le_iff, abs_nonpos_iff,
    row] at hrow
  obtain ⟨⟨hxx, hxy⟩, hxz⟩ := hrow
  exact h (by rw [det_eq, hxx, hxy, hxz]; ring)

/-- The two matrices of a round can be brought to one size. -/
theorem sqrt_largest_pos (h : 0 < m.det) :
    0 < Scalar.sqrt m.inverseTranspose.largest ∧ 0 < Scalar.sqrt m.largest :=
  ⟨Real.sqrt_pos.2 (largest_pos (det_inverseTranspose_pos h).ne'),
    Real.sqrt_pos.2 (largest_pos h.ne')⟩

/-- A round keeps a positive determinant. -/
theorem det_polarRound_pos (h : 0 < m.det) : 0 < m.polarRound.det := by
  obtain ⟨hinverse, hsize⟩ := sqrt_largest_pos h
  have hfactor := div_pos hinverse hsize
  simp only [polarRound]
  -- the factor matters only for being positive
  generalize Scalar.sqrt m.inverseTranspose.largest / Scalar.sqrt m.largest = a at *
  have hscale : (m.cofactors.scale (1 / m.det)).scale (1 / a) =
      m.cofactors.scale (1 / a * (1 / m.det)) := by
    ext <;> simp only [scale] <;> ring
  have hentries := m.trace_mul_transpose_nonneg
  have hcofactors := m.cofactors.trace_mul_transpose_nonneg
  rw [inverseTranspose_eq h.ne', hscale, det_scale, det_scale_add_scale_cofactors,
    Scalar.half_literal]
  positivity

end KinematicManifold.Mat3
