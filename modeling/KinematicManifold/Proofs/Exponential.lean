import KinematicManifold.Proofs.RotationGroup

/-!
# The exponential of rotation vectors

`Rotation.exp` is the exponential of the matrix of the vector product. Its derivative along a curve
of rotation vectors is an angular velocity: the left Jacobian at the vector, applied to the velocity
of the curve. `Rotation.inverseLeftJacobian` inverts the left Jacobian.

Both the exponential and the left Jacobian are polynomials of degree two in the matrix of the vector
product, since its third power is a multiple of the first (`skew_mul_skew_mul_skew`).

## Key results

- `Rotation.exp_eq`: the formula of Rodrigues
- `Rotation.exp_eq_exp`: it is the exponential series
- `Rotation.hasDerivAt_exp`: the derivative along a curve of rotation vectors
- `Rotation.inverseLeftJacobian_mul_leftJacobian`, `Rotation.leftJacobian_mul_inverseLeftJacobian`:
  the inverse of the left Jacobian
-/

namespace KinematicManifold

open Real

/-- A function that vanishes at a point may be multiplied by one that is only continuous there. -/
theorem hasFDerivAt_smul_of_eq_zero {E F : Type*} [NormedAddCommGroup E] [NormedSpace ℝ E]
    [NormedAddCommGroup F] [NormedSpace ℝ F] {h : E → ℝ} {f : E → F} {f' : E →L[ℝ] F} {x : E}
    (hf : HasFDerivAt f f' x) (hh : ContinuousAt h x) (hzero : f x = 0) :
    HasFDerivAt (fun y => h y • f y) (h x • f') x := by
  rw [hasFDerivAt_iff_isLittleO] at hf ⊢
  -- the factor is bounded near the point, and what it changes by goes to zero
  have hbounded : h =O[nhds x] fun _ => (1 : ℝ) := hh.tendsto.isBigO_one ℝ
  have hvanish : (fun y => h y - h x) =o[nhds x] fun _ => (1 : ℝ) :=
    (Asymptotics.isLittleO_one_iff ℝ).2 (tendsto_sub_nhds_zero_iff.2 hh)
  have hfirst := hbounded.smul_isLittleO hf
  have hsecond := hvanish.smul_isBigO (f'.isBigO_sub (nhds x) x)
  simp only [one_smul] at hfirst hsecond
  refine (hfirst.add hsecond).congr_left fun y => ?_
  simp only [hzero, smul_zero, sub_zero, smul_sub, sub_smul]
  -- what is left over is the difference of the two factors
  exact (sub_add_sub_cancel (h y • f y) (h y • f' (y - x)) (h x • f' (y - x)))

namespace Rotation

/-! ## Sines and cosines of half an angle -/

/-- The cardinal sine is the sine over its argument, at zero too. -/
theorem sinc_mul_self (x : ℝ) : sinc x * x = sin x := by
  by_cases hx : x = 0
  · simp [hx]
  · rw [sinc_of_ne_zero hx, div_mul_cancel₀ _ hx]

/-- The sine in terms of the half angle. -/
theorem sin_eq_half (x : ℝ) : sin x = 2 * sin (x / 2) * cos (x / 2) := by
  rw [← sin_two_mul, mul_div_cancel₀ x (two_ne_zero' ℝ)]

/-- The cosine in terms of the sine of the half angle. -/
theorem cos_eq_half (x : ℝ) : cos x = 1 - 2 * sin (x / 2) ^ 2 := by
  rw [← cos_two_mul_eq_one_sub, mul_div_cancel₀ x (two_ne_zero' ℝ)]

/-- The cardinal sine in terms of the half angle. -/
theorem sinc_eq_half (x : ℝ) : sinc x = sinc (x / 2) * cos (x / 2) := by
  by_cases hx : x = 0
  · simp [hx]
  · rw [sinc_of_ne_zero hx, sinc_of_ne_zero (by positivity), sin_eq_half]
    field_simp

/-! ## The formula of Rodrigues -/

/-- The quaternion of a rotation vector, without a case for the limit at zero. -/
theorem expQuaternion_eq (v : Vec3 ℝ) : expQuaternion v =
    ⟨cos (‖v‖ / 2), v.x * (sinc (‖v‖ / 2) / 2), v.y * (sinc (‖v‖ / 2) / 2),
      v.z * (sinc (‖v‖ / 2) / 2)⟩ := by
  have hangle : (0.5 : ℝ) * v.norm = ‖v‖ / 2 := by
    rw [Vec3.norm_eq]
    ring
  have hfactor : (if 0 < v.norm then Scalar.sin ((0.5 : ℝ) * v.norm) / v.norm else 0.5) =
      sinc (‖v‖ / 2) / 2 := by
    rw [hangle, ← Vec3.norm_eq]
    -- the case for zero takes the value that the quotient tends to
    split_ifs with hpos
    · rw [sinc_of_ne_zero (by positivity), Scalar.sin_real]
      field_simp
    · have hzero : ‖v‖ = 0 := le_antisymm (not_lt.1 hpos) (norm_nonneg v)
      simp [hzero]
  simp only [expQuaternion, hfactor]
  simp only [hangle, Scalar.cos_real]

/-- The exponential makes a quaternion of unit length. -/
theorem normSq_expQuaternion (v : Vec3 ℝ) : (expQuaternion v).normSq = 1 := by
  have hv := v.norm_sq
  have hone := sin_sq_add_cos_sq (‖v‖ / 2)
  rw [← sinc_mul_self] at hone
  rw [expQuaternion_eq]
  simp only [Quaternion.normSq]
  linear_combination hone - sinc (‖v‖ / 2) ^ 2 / 4 * hv

/-- The exponential of any vector is a rotation. -/
theorem isRotation_exp (v : Vec3 ℝ) : (exp v).IsRotation :=
  Quaternion.isRotation_toMat3 (normSq_expQuaternion v)

/-- The formula of Rodrigues. -/
theorem exp_eq (v : Vec3 ℝ) :
    exp v = 1 + sinc ‖v‖ • skew v + (sinc (‖v‖ / 2) ^ 2 / 2) • (skew v * skew v) := by
  have hone : (v.x ^ 2 + v.y ^ 2 + v.z ^ 2) * (sinc (‖v‖ / 2) / 2) ^ 2 + cos (‖v‖ / 2) ^ 2 = 1 := by
    rw [← sin_sq_add_cos_sq (‖v‖ / 2), ← sinc_mul_self (‖v‖ / 2), ← v.norm_sq]
    ring
  rw [exp, expQuaternion_eq, sinc_eq_half ‖v‖]
  ext <;> simp only [Quaternion.toMat3, skew, Mat3.add_def, Mat3.one_def, Mat3.smul_def,
    Mat3.scale_def, Mat3.mul_xx, Mat3.mul_xy, Mat3.mul_xz, Mat3.mul_yx, Mat3.mul_yy, Mat3.mul_yz,
    Mat3.mul_zx, Mat3.mul_zy, Mat3.mul_zz, Scalar.two_literal]
  -- the entries on the diagonal need the quaternion to have length one
  · linear_combination hone
  · ring
  · ring
  · ring
  · linear_combination hone
  · ring
  · ring
  · ring
  · linear_combination hone

/-- Rodrigues' formula: away from zero the exponential has the sine and the cosine of the angle as
its coefficients. -/
theorem exp_eq_of_ne_zero {v : Vec3 ℝ} (hv : v ≠ 0) :
    exp v = 1 + (sin ‖v‖ / ‖v‖) • skew v + ((1 - cos ‖v‖) / ‖v‖ ^ 2) • (skew v * skew v) := by
  have hne : ‖v‖ ≠ 0 := norm_ne_zero_iff.2 hv
  rw [exp_eq, sinc_of_ne_zero hne, sinc_of_ne_zero (by positivity), cos_eq_half]
  congr 2
  field_simp
  ring

/-- The exponential of zero turns nothing. -/
@[simp] theorem exp_zero : exp (0 : Vec3 ℝ) = 1 := by simp [exp_eq]

/-! ## Polynomials in the matrix of the vector product -/

/-- The cross products with `u`, `v` and `u` again are one with `u`. -/
theorem skew_mul_skew_mul_skew (u v : Vec3 ℝ) : skew u * skew v * skew u = -(u.dot v) • skew u := by
  ext <;> simp [skew, Mat3.smul_def, Mat3.scale_def, Vec3.dot] <;> ring

/-- Three cross products with one vector are one, up to the squared length. -/
theorem skew_cube (v : Vec3 ℝ) : skew v * skew v * skew v = -‖v‖ ^ 2 • skew v := by
  rw [skew_mul_skew_mul_skew, Vec3.dot_self]

/-- Two cross products with one vector take away the part along it. -/
theorem skew_skew_apply (v w : Vec3 ℝ) :
    (skew v * skew v).apply w = v.dot w • v - ‖v‖ ^ 2 • w := by
  rw [Mat3.apply_mul, skew_apply, skew_apply, Vec3.cross_cross, Vec3.dot_self]

/-- Polynomials multiply like numbers, and the cube of the matrix lowers the degree. -/
theorem polynomial_mul_polynomial (v : Vec3 ℝ) (a b c d : ℝ) :
    (1 + a • skew v + b • (skew v * skew v)) * (1 + c • skew v + d • (skew v * skew v)) =
      1 + (a + c - (a * d + b * c) * ‖v‖ ^ 2) • skew v +
        (b + d + a * c - b * d * ‖v‖ ^ 2) • (skew v * skew v) := by
  -- the cube is a multiple of the matrix, and the fourth power one of its square
  have hcube := skew_cube v
  have hcube' : skew v * (skew v * skew v) = -‖v‖ ^ 2 • skew v := by rw [← mul_assoc, hcube]
  have hfourth : skew v * skew v * (skew v * skew v) = -‖v‖ ^ 2 • (skew v * skew v) := by
    rw [mul_assoc, hcube', mul_smul_comm]
  simp only [mul_add, add_mul, smul_mul_assoc, mul_smul_comm, mul_one, one_mul, hcube, hcube',
    hfourth]
  module

/-- Polynomials in one matrix commute. -/
theorem polynomial_mul_comm (v : Vec3 ℝ) (a b c d : ℝ) :
    (1 + a • skew v + b • (skew v * skew v)) * (1 + c • skew v + d • (skew v * skew v)) =
      (1 + c • skew v + d • (skew v * skew v)) * (1 + a • skew v + b • (skew v * skew v)) := by
  rw [polynomial_mul_polynomial, polynomial_mul_polynomial]
  congr 3 <;> ring

/-- When two polynomials are inverse to each other. -/
theorem polynomial_mul_eq_one {v : Vec3 ℝ} {a b c d : ℝ}
    (hfirst : a + c - (a * d + b * c) * ‖v‖ ^ 2 = 0)
    (hsecond : b + d + a * c - b * d * ‖v‖ ^ 2 = 0) :
    (1 + a • skew v + b • (skew v * skew v)) * (1 + c • skew v + d • (skew v * skew v)) = 1 := by
  rw [polynomial_mul_polynomial, hfirst, hsecond]
  simp

/-! ## The left Jacobian -/

/-- The left Jacobian of the exponential at a rotation vector. At zero it is the identity, whatever
the coefficients are. -/
noncomputable def leftJacobian (v : Vec3 ℝ) : Mat3 ℝ :=
  1 + ((1 - cos ‖v‖) / ‖v‖ ^ 2) • skew v + ((‖v‖ - sin ‖v‖) / ‖v‖ ^ 3) • (skew v * skew v)

/-- At zero the left Jacobian is the identity. -/
@[simp] theorem leftJacobian_zero : leftJacobian 0 = 1 := by simp [leftJacobian]

/-- The left Jacobian at a vector keeps the direction of the vector. -/
theorem leftJacobian_smul_apply (c : ℝ) (v : Vec3 ℝ) : (leftJacobian (c • v)).apply v = v := by
  have hskew : (skew (c • v)).apply v = 0 := by
    rw [skew_smul, Mat3.smul_apply, skew_apply, Vec3.cross_self, smul_zero]
  simp only [leftJacobian, Mat3.add_apply, Mat3.smul_apply, Mat3.apply_one, Mat3.apply_mul, hskew]
  simp [← Mat3.action_apply]

/-- The left Jacobian applied to a vector, with the parts along the vector, across both and along
the axis. -/
theorem leftJacobian_apply {v : Vec3 ℝ} (hv : v ≠ 0) (w : Vec3 ℝ) :
    (leftJacobian v).apply w = (sin ‖v‖ / ‖v‖) • w + ((1 - cos ‖v‖) / ‖v‖ ^ 2) • v.cross w +
      ((‖v‖ - sin ‖v‖) / ‖v‖ ^ 3 * v.dot w) • v := by
  have hpos : 0 < ‖v‖ := norm_pos_iff.2 hv
  have hcoefficient : 1 - (‖v‖ - sin ‖v‖) / ‖v‖ ^ 3 * ‖v‖ ^ 2 = sin ‖v‖ / ‖v‖ := by
    field_simp
    ring
  simp only [leftJacobian, Mat3.add_apply, Mat3.smul_apply, Mat3.apply_one, skew_skew_apply,
    skew_apply, ← hcoefficient]
  module

/-- The angular velocity that the left Jacobian gives, followed by the rotation: this is the formula
of Rodrigues, differentiated term by term. -/
theorem skew_leftJacobian_mul_exp {v : Vec3 ℝ} (hv : v ≠ 0) (w : Vec3 ℝ) :
    skew ((leftJacobian v).apply w) * exp v =
      (sin ‖v‖ / ‖v‖) • skew w +
        ((cos ‖v‖ * ‖v‖ - sin ‖v‖) / ‖v‖ ^ 2 * (v.dot w / ‖v‖)) • skew v +
        (((1 - cos ‖v‖) / ‖v‖ ^ 2) • (skew w * skew v + skew v * skew w) +
          ((sin ‖v‖ * ‖v‖ - 2 * (1 - cos ‖v‖)) / ‖v‖ ^ 3 * (v.dot w / ‖v‖)) •
            (skew v * skew v)) := by
  have hpos : 0 < ‖v‖ := norm_pos_iff.2 hv
  have hone := sin_sq_add_cos_sq ‖v‖
  rw [leftJacobian_apply hv, exp_eq_of_ne_zero hv, skew_add, skew_add, skew_smul, skew_smul,
    skew_smul, skew_cross]
  -- words of four letters in the two matrices are shortened to words of two
  have hKXK := skew_mul_skew_mul_skew v w
  have hKKK := skew_cube v
  generalize skew v = K at *
  generalize skew w = X at *
  have hKXKK : K * X * (K * K) = -(v.dot w) • (K * K) := by rw [← mul_assoc, hKXK, smul_mul_assoc]
  have hKKK' : K * (K * K) = -‖v‖ ^ 2 • K := by rw [← mul_assoc, hKKK]
  have hXKKK : X * K * (K * K) = -‖v‖ ^ 2 • (X * K) := by rw [mul_assoc, hKKK', mul_smul_comm]
  simp only [mul_add, add_mul, sub_mul, smul_mul_assoc, mul_smul_comm, mul_one, hKXK, hKXKK, hXKKK,
    hKKK', ← mul_assoc X K K]
  generalize sin ‖v‖ = s at *
  generalize cos ‖v‖ = c at *
  generalize ‖v‖ = t at *
  generalize v.dot w = d at *
  -- three coefficients differ, by the theorem of Pythagoras
  have hproduct : (s / t) ^ 2 - (1 - c) / t ^ 2 + ((1 - c) / t ^ 2) ^ 2 * t ^ 2 =
      (1 - c) / t ^ 2 := by
    field_simp
    linear_combination hone
  have hlinear : -(s / t) * ((1 - c) / t ^ 2) * d +
      (t - s) / t ^ 3 * d * (1 - (1 - c) / t ^ 2 * t ^ 2) = (c * t - s) / t ^ 2 * (d / t) := by
    field_simp
    ring
  have hsquare : -((1 - c) / t ^ 2) ^ 2 * d + (t - s) / t ^ 3 * d * (s / t) =
      (s * t - 2 * (1 - c)) / t ^ 3 * (d / t) := by
    field_simp
    linear_combination (-d) * hone
  calc _ = (s / t) • X + ((1 - c) / t ^ 2) • (K * X) +
          ((s / t) ^ 2 - (1 - c) / t ^ 2 + ((1 - c) / t ^ 2) ^ 2 * t ^ 2) • (X * K) +
          (-(s / t) * ((1 - c) / t ^ 2) * d +
            (t - s) / t ^ 3 * d * (1 - (1 - c) / t ^ 2 * t ^ 2)) • K +
          (-((1 - c) / t ^ 2) ^ 2 * d + (t - s) / t ^ 3 * d * (s / t)) • (K * K) := by module
    _ = _ := by
      rw [hproduct, hlinear, hsquare]
      module

/-! ## The derivative of the exponential -/

section
variable {γ : ℝ → Vec3 ℝ} {η : Vec3 ℝ} {t : ℝ}

/-- The length of a moving vector changes by the part of its velocity along it. -/
theorem hasDerivAt_norm_curve (hγ : HasDerivAt γ η t) (hne : γ t ≠ 0) :
    HasDerivAt (fun s => ‖γ s‖) ((γ t).dot η / ‖γ t‖) t := by
  have hnorm : ‖γ t‖ ≠ 0 := norm_ne_zero_iff.2 hne
  have hsqrt := (hγ.norm_sq).sqrt (pow_ne_zero 2 hnorm)
  simp only [Real.sqrt_sq (norm_nonneg _), Vec3.inner_eq] at hsqrt
  convert hsqrt using 1
  field_simp

/-- The matrix of the cross product with a moving vector moves as the vector does. -/
theorem hasDerivAt_skew_curve (hγ : HasDerivAt γ η t) :
    HasDerivAt (fun s => skew (γ s)) (skew η) t := skewMap.hasFDerivAt.comp_hasDerivAt t hγ

/-- Where the curve passes through zero, both coefficients need only be continuous. -/
private theorem hasDerivAt_exp_of_eq_zero (hγ : HasDerivAt γ η t) (hzero : γ t = 0) :
    HasDerivAt (fun s => exp (γ s)) (skew η) t := by
  have hskew := hasDerivAt_skew_curve hγ
  have hskew_zero : skew (γ t) = 0 := by rw [hzero, skew_zero]
  -- both coefficients are continuous, while what they scale vanishes here
  have hfirst : ContinuousAt (fun s => sinc ‖γ s‖) t :=
    continuous_sinc.continuousAt.comp hγ.continuousAt.norm
  have hsecond : ContinuousAt (fun s => sinc (‖γ s‖ / 2) ^ 2 / 2) t :=
    ((continuous_sinc.continuousAt.comp (hγ.continuousAt.norm.div_const 2)).pow 2).div_const 2
  have hlinear := (hasFDerivAt_smul_of_eq_zero hskew.hasFDerivAt hfirst hskew_zero).hasDerivAt
  have hsquare := (hasFDerivAt_smul_of_eq_zero (hskew.mul hskew).hasFDerivAt hsecond
    (by simp [hskew_zero])).hasDerivAt
  -- so only the linear term has a derivative
  have hsum := (hlinear.const_add 1).add hsquare
  simp only [exp_eq]
  refine hsum.congr_deriv ?_
  simp [hzero]

/-- The derivative of the exponential along a curve, away from zero where its coefficients are
quotients. -/
private theorem hasDerivAt_exp_of_ne_zero (hγ : HasDerivAt γ η t) (hne : γ t ≠ 0) :
    HasDerivAt (fun s => exp (γ s)) (skew ((leftJacobian (γ t)).apply η) * exp (γ t)) t := by
  have hnorm : ‖γ t‖ ≠ 0 := norm_ne_zero_iff.2 hne
  have hskew := hasDerivAt_skew_curve hγ
  have hangle := hasDerivAt_norm_curve hγ hne
  have hfirst : HasDerivAt (fun s => sin ‖γ s‖ / ‖γ s‖)
      ((cos ‖γ t‖ * ‖γ t‖ - sin ‖γ t‖) / ‖γ t‖ ^ 2 * ((γ t).dot η / ‖γ t‖)) t :=
    (hangle.sin.div hangle hnorm).congr_deriv (by ring)
  have hsecond : HasDerivAt (fun s => (1 - cos ‖γ s‖) / ‖γ s‖ ^ 2)
      ((sin ‖γ t‖ * ‖γ t‖ - 2 * (1 - cos ‖γ t‖)) / ‖γ t‖ ^ 3 * ((γ t).dot η / ‖γ t‖)) t := by
    refine ((hangle.cos.const_sub 1).div (hangle.pow 2) (pow_ne_zero 2 hnorm)).congr_deriv ?_
    simp only [Pi.pow_apply]
    push_cast
    field_simp
  have hsum := ((hfirst.smul hskew).const_add 1).add (hsecond.smul (hskew.mul hskew))
  -- the quotients hold as long as the curve stays away from zero, which it does for a while
  have hnear : (fun s => exp (γ s)) =ᶠ[nhds t] fun s => 1 + (sin ‖γ s‖ / ‖γ s‖) • skew (γ s) +
      ((1 - cos ‖γ s‖) / ‖γ s‖ ^ 2) • (skew (γ s) * skew (γ s)) :=
    (hγ.continuousAt.eventually_ne hne).mono fun s hs => exp_eq_of_ne_zero hs
  refine (hsum.congr_of_eventuallyEq hnear).congr_deriv ?_
  rw [skew_leftJacobian_mul_exp hne]
  simp only [Pi.mul_apply]

/-- Along a curve of rotation vectors the rotation turns with the angular velocity that the left
Jacobian makes of the velocity of the curve. -/
theorem hasDerivAt_exp (hγ : HasDerivAt γ η t) :
    HasDerivAt (fun s => exp (γ s)) (skew ((leftJacobian (γ t)).apply η) * exp (γ t)) t := by
  by_cases hzero : γ t = 0
  · refine (hasDerivAt_exp_of_eq_zero hγ hzero).congr_deriv ?_
    rw [hzero, leftJacobian_zero, exp_zero, Mat3.apply_one, mul_one]
  · exact hasDerivAt_exp_of_ne_zero hγ hzero

end

/-- About a fixed axis the rotation turns with the velocity along the axis. -/
theorem hasDerivAt_exp_smul (v : Vec3 ℝ) (t : ℝ) :
    HasDerivAt (fun s : ℝ => exp (s • v)) (skew v * exp (t • v)) t := by
  have hline : HasDerivAt (fun s : ℝ => s • v) v t := by
    simpa using (hasDerivAt_id t).smul_const v
  simpa only [leftJacobian_smul_apply] using hasDerivAt_exp hline

/-! ## The exponential series -/

noncomputable local instance : NormedAlgebra ℚ (Mat3 ℝ) :=
  NormedAlgebra.restrictScalars ℚ ℝ (Mat3 ℝ)

/-- The exponential of a rotation vector is the exponential series of the matrix of the vector
product: both turn with the same velocity from the identity on. -/
theorem exp_eq_exp (v : Vec3 ℝ) : exp v = NormedSpace.exp (skew v) := by
  -- undoing the series after the rotation leaves what does not move
  have hderiv (t : ℝ) :
      HasDerivAt (fun s : ℝ => NormedSpace.exp (-(s • skew v)) * exp (s • v)) 0 t := by
    have hseries : HasDerivAt (fun s : ℝ => NormedSpace.exp (s • -skew v))
        (NormedSpace.exp (t • -skew v) * -skew v) t := hasDerivAt_exp_smul_const (-skew v) t
    have hproduct := hseries.mul (hasDerivAt_exp_smul v t)
    simp only [smul_neg] at hproduct
    refine hproduct.congr_deriv ?_
    noncomm_ring
  -- so that it is at one what it is at zero, the identity
  have hconst := is_const_of_deriv_eq_zero (fun s => (hderiv s).differentiableAt)
    (fun s => (hderiv s).deriv) 1 0
  simp only [one_smul, zero_smul, neg_zero, NormedSpace.exp_zero, exp_zero, mul_one] at hconst
  have hinverse : NormedSpace.exp (skew v) * NormedSpace.exp (-skew v) = 1 := by
    rw [← NormedSpace.exp_add_of_commute (Commute.neg_right (Commute.refl _)), add_neg_cancel,
      NormedSpace.exp_zero]
  calc exp v = NormedSpace.exp (skew v) * (NormedSpace.exp (-skew v) * exp v) := by
        rw [← mul_assoc, hinverse, one_mul]
    _ = NormedSpace.exp (skew v) := by rw [hconst, mul_one]

/-! ## The inverse of the left Jacobian -/

/-- Angles below a positive one count as small. -/
theorem smallAngle_pos : (0 : ℝ) < smallAngle := by norm_num [smallAngle]

/-- The inverse left Jacobian has one coefficient that depends on the angle. -/
theorem inverseLeftJacobian_eq (v : Vec3 ℝ) : inverseLeftJacobian v =
    1 + (-1 / 2 : ℝ) • skew v + inverseLeftCoefficient ‖v‖ • (skew v * skew v) := by
  simp only [inverseLeftJacobian, ← Mat3.smul_def, ← Vec3.norm_eq, Scalar.half_literal,
    Mat3.identity_eq]
  module

/-- At zero the inverse left Jacobian is the identity. -/
@[simp] theorem inverseLeftJacobian_zero : inverseLeftJacobian (0 : Vec3 ℝ) = 1 := by
  simp [inverseLeftJacobian_eq]

/-- At an angle that is not small the coefficient in terms of the half angle. -/
theorem inverseLeftCoefficient_of_le {angle : ℝ} (h : smallAngle ≤ angle) :
    inverseLeftCoefficient angle =
      (1 - angle / 2 * cos (angle / 2) / sin (angle / 2)) / angle ^ 2 := by
  have hhalf : (0.5 : ℝ) * angle = angle / 2 := by
    rw [Scalar.half_literal]
    ring
  simp only [inverseLeftCoefficient, h.not_gt, if_false, hhalf, Scalar.tan_real, tan_eq_sin_div_cos,
    div_div_eq_mul_div, sq]

/-- The coefficients by which the product of the left Jacobian and its inverse could differ from the
identity. -/
private theorem coefficients_vanish {t : ℝ} (ht : t ≠ 0) (hsin : sin (t / 2) ≠ 0) :
    let e := (1 - t / 2 * cos (t / 2) / sin (t / 2)) / t ^ 2
    let b := (1 - cos t) / t ^ 2
    let c := (t - sin t) / t ^ 3
    b - 1 / 2 - (e * b - c / 2) * t ^ 2 = 0 ∧ e + c - b / 2 - e * c * t ^ 2 = 0 := by
  intro e b c
  have hone := sin_sq_add_cos_sq (t / 2)
  -- everything is rational in the angle and in the sine and the cosine of its half
  simp only [e, b, c, cos_eq_half t, sin_eq_half t]
  generalize sin (t / 2) = s at *
  generalize cos (t / 2) = k at *
  constructor
  · field_simp
    ring
  · field_simp
    linear_combination -(2 * t * s) * hone

section
variable {v : Vec3 ℝ}

/-- The inverse left Jacobian inverts the left Jacobian, unless the angle is a multiple of a full
turn or so small that the coefficient is taken from its series. -/
theorem inverseLeftJacobian_mul_leftJacobian (hangle : smallAngle ≤ ‖v‖)
    (hturn : sin (‖v‖ / 2) ≠ 0) : inverseLeftJacobian v * leftJacobian v = 1 := by
  have hne : ‖v‖ ≠ 0 := (smallAngle_pos.trans_le hangle).ne'
  obtain ⟨hfirst, hsecond⟩ := coefficients_vanish hne hturn
  rw [inverseLeftJacobian_eq, leftJacobian, inverseLeftCoefficient_of_le hangle]
  apply polynomial_mul_eq_one
  · rw [← hfirst]
    ring
  · rw [← hsecond]
    ring

/-- The two Jacobians are inverse to each other where the angle is not small, except for whole
turns. -/
theorem leftJacobian_mul_inverseLeftJacobian (hangle : smallAngle ≤ ‖v‖)
    (hturn : sin (‖v‖ / 2) ≠ 0) : leftJacobian v * inverseLeftJacobian v = 1 := by
  have hinverse := inverseLeftJacobian_mul_leftJacobian hangle hturn
  rw [inverseLeftJacobian_eq, leftJacobian, polynomial_mul_comm] at hinverse
  rw [inverseLeftJacobian_eq, leftJacobian, hinverse]

end

end Rotation

end KinematicManifold
