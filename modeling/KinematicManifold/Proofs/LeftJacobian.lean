import KinematicManifold.Proofs.Exponential

/-!
# The inverse of the left Jacobian

The inverse left Jacobian inverts the left Jacobian at every rotation vector whose angle is not a
full turn, at a half turn as well: where the tangent of half the angle has its pole, the quotient by
the tangent is zero, as it should be.

Below the small angle the coefficient of the inverse is taken from the series of `x * cot x`. How
far this is from the closed form follows from the series of the sine and the cosine, which bound
both from either side when they are broken off.

## Key results

- `Rotation.cos_le_series`, `Rotation.series_le_cos`, `Rotation.sin_le_series`,
  `Rotation.series_le_sin`: sines and cosines between sums that are broken off
- `Rotation.abs_cos_sub_series_mul_sin_le`, `Rotation.abs_inverseLeftCoefficient_sub_le`: how far
  the series of the cotangent is off
- `Rotation.inverseLeftJacobian_inverts`: the inverse left Jacobian inverts the left Jacobian, and
  its two branches agree
-/

namespace KinematicManifold.Rotation

open Real

/-! ## Series that are broken off -/

/-- Of two functions that start together, the one that grows faster is ahead. -/
private theorem le_of_deriv_le {f g : ℝ → ℝ} (hf : Differentiable ℝ f) (hg : Differentiable ℝ g)
    (hzero : f 0 = g 0) (hslope : ∀ x, 0 ≤ x → deriv f x ≤ deriv g x) {x : ℝ} (hx : 0 ≤ x) :
    f x ≤ g x := by
  -- the difference starts at zero and grows
  have hmonotone : MonotoneOn (g - f) (Set.Ici 0) := by
    have hdiff : Differentiable ℝ (g - f) := hg.sub hf
    refine monotoneOn_of_deriv_nonneg (convex_Ici 0) hdiff.continuous.continuousOn
      hdiff.differentiableOn fun y hy => ?_
    rw [interior_Ici] at hy
    rw [deriv_sub (hg y) (hf y)]
    exact sub_nonneg.2 (hslope y hy.le)
  have hle := hmonotone Set.self_mem_Ici hx hx
  simp only [Pi.sub_apply, hzero, sub_self, sub_nonneg] at hle
  exact hle

section
variable {x : ℝ} (hx : 0 ≤ x)
include hx

/-! Each of the bounds is the slope of the next one. -/

/-- The cosine is at most its series up to the fourth order. -/
theorem cos_le_series : cos x ≤ 1 - x ^ 2 / 2 + x ^ 4 / 24 := by
  refine le_of_deriv_le (f := cos) (g := fun y => 1 - y ^ 2 / 2 + y ^ 4 / 24) (by fun_prop)
    (by fun_prop) (by simp) (fun y hy => ?_) hx
  have hslope : deriv (fun y : ℝ => 1 - y ^ 2 / 2 + y ^ 4 / 24) y = -(y - y ^ 3 / 6) := by
    simp (disch := fun_prop)
    ring
  rw [Real.deriv_cos, hslope]
  exact neg_le_neg (sin_ge_sub_cube hy)

/-- The sine is at most its series up to the fifth order. -/
theorem sin_le_series : sin x ≤ x - x ^ 3 / 6 + x ^ 5 / 120 := by
  refine le_of_deriv_le (f := sin) (g := fun y => y - y ^ 3 / 6 + y ^ 5 / 120) (by fun_prop)
    (by fun_prop) (by simp) (fun y hy => ?_) hx
  have hslope : deriv (fun y : ℝ => y - y ^ 3 / 6 + y ^ 5 / 120) y =
      1 - y ^ 2 / 2 + y ^ 4 / 24 := by
    simp (disch := fun_prop)
    ring
  rw [Real.deriv_sin, hslope]
  exact cos_le_series hy

/-- The cosine is at least its series up to the sixth order. -/
theorem series_le_cos : 1 - x ^ 2 / 2 + x ^ 4 / 24 - x ^ 6 / 720 ≤ cos x := by
  refine le_of_deriv_le (f := fun y => 1 - y ^ 2 / 2 + y ^ 4 / 24 - y ^ 6 / 720) (g := cos)
    (by fun_prop) (by fun_prop) (by simp) (fun y hy => ?_) hx
  have hslope : deriv (fun y : ℝ => 1 - y ^ 2 / 2 + y ^ 4 / 24 - y ^ 6 / 720) y =
      -(y - y ^ 3 / 6 + y ^ 5 / 120) := by
    simp (disch := fun_prop)
    ring
  rw [Real.deriv_cos, hslope]
  exact neg_le_neg (sin_le_series hy)

/-- The sine is at least its series up to the seventh order. -/
theorem series_le_sin : x - x ^ 3 / 6 + x ^ 5 / 120 - x ^ 7 / 5040 ≤ sin x := by
  refine le_of_deriv_le (f := fun y => y - y ^ 3 / 6 + y ^ 5 / 120 - y ^ 7 / 5040) (g := sin)
    (by fun_prop) (by fun_prop) (by simp) (fun y hy => ?_) hx
  have hslope : deriv (fun y : ℝ => y - y ^ 3 / 6 + y ^ 5 / 120 - y ^ 7 / 5040) y =
      1 - y ^ 2 / 2 + y ^ 4 / 24 - y ^ 6 / 720 := by
    simp (disch := fun_prop)
    ring
  rw [Real.deriv_sin, hslope]
  exact series_le_cos hy

end

/-! ## The series of the cotangent -/

section
variable {x : ℝ} (hx : 0 < x) (hone : x ≤ 1)
include hx hone

/-- At the small angles considered the sine is at least half its argument. -/
theorem half_le_sin : x / 2 ≤ sin x := by
  have hcube : x ^ 3 ≤ x := pow_le_of_le_one hx.le hone three_ne_zero
  linarith [sin_ge_sub_cube hx.le]

/-- The series of the cotangent, as far as it is used, is off by a seventh power, once both sides
are multiplied by the sine. -/
theorem abs_cos_sub_series_mul_sin_le :
    |x * cos x - (1 - x ^ 2 / 3 - x ^ 4 / 45) * sin x| ≤ x ^ 7 := by
  have hsq : x ^ 2 ≤ 1 := pow_le_one₀ hx.le hone
  have hfourth : x ^ 4 ≤ 1 := pow_le_one₀ hx.le hone
  have hfactor : 0 ≤ 1 - x ^ 2 / 3 - x ^ 4 / 45 := by linarith
  have hninth : x ^ 9 ≤ x ^ 7 := pow_le_pow_of_le_one hx.le hone (by norm_num)
  have hseventh : 0 ≤ x ^ 7 := by positivity
  have heleventh : 0 ≤ x ^ 11 := by positivity
  rw [abs_le]
  constructor
  · have hcos := mul_le_mul_of_nonneg_left (series_le_cos hx.le) hx.le
    have hsin := mul_le_mul_of_nonneg_left (sin_le_series hx.le) hfactor
    -- all powers up to the sixth cancel
    have hcancel : x * (1 - x ^ 2 / 2 + x ^ 4 / 24 - x ^ 6 / 720) -
        (1 - x ^ 2 / 3 - x ^ 4 / 45) * (x - x ^ 3 / 6 + x ^ 5 / 120) =
          -(x ^ 7 / 432) + x ^ 9 / 5400 := by ring
    have hnonneg : 0 ≤ x ^ 9 := by positivity
    linarith
  · have hcos := mul_le_mul_of_nonneg_left (cos_le_series hx.le) hx.le
    have hsin := mul_le_mul_of_nonneg_left (series_le_sin hx.le) hfactor
    have hcancel : x * (1 - x ^ 2 / 2 + x ^ 4 / 24) -
        (1 - x ^ 2 / 3 - x ^ 4 / 45) * (x - x ^ 3 / 6 + x ^ 5 / 120 - x ^ 7 / 5040) =
          -(11 * x ^ 7 / 15120) + x ^ 9 / 8400 - x ^ 11 / 226800 := by ring
    linarith

end

/-- Below the small angle the coefficient is off by no more than the fourth power of the angle. -/
theorem abs_inverseLeftCoefficient_sub_le {angle : ℝ} (hpos : 0 < angle)
    (hsmall : angle < smallAngle) :
    |inverseLeftCoefficient angle - (1 - angle / 2 / tan (angle / 2)) / angle ^ 2| ≤
      angle ^ 4 := by
  -- in terms of the half angle
  obtain ⟨x, hx, rfl⟩ : ∃ x : ℝ, 0 < x ∧ angle = 2 * x := ⟨angle / 2, by positivity, by ring⟩
  have hone : x ≤ 1 := by
    norm_num [smallAngle] at hsmall
    linarith
  have hseries := abs_cos_sub_series_mul_sin_le hx hone
  have hhalf := half_le_sin hx hone
  have hsin : 0 < sin x := by linarith
  have hcoefficient : inverseLeftCoefficient (2 * x) = 1 / 12 + (2 * x) ^ 2 / 720 := by
    rw [inverseLeftCoefficient, if_pos hsmall]
    norm_num
    ring
  -- the error is a quotient whose numerator the series bound
  have hdifference : inverseLeftCoefficient (2 * x) -
      (1 - 2 * x / 2 / tan (2 * x / 2)) / (2 * x) ^ 2 =
        (x * cos x - (1 - x ^ 2 / 3 - x ^ 4 / 45) * sin x) / ((2 * x) ^ 2 * sin x) := by
    rw [hcoefficient, mul_div_cancel_left₀ x two_ne_zero, tan_eq_sin_div_cos]
    field_simp
    ring
  rw [hdifference, abs_div, abs_of_pos (by positivity : 0 < (2 * x) ^ 2 * sin x),
    div_le_iff₀ (by positivity)]
  calc _ ≤ x ^ 7 := hseries
    _ ≤ (2 * x) ^ 6 * (x / 2) := by
      have hseventh : 0 ≤ x ^ 7 := by positivity
      linarith
    _ ≤ (2 * x) ^ 6 * sin x := mul_le_mul_of_nonneg_left hhalf (by positivity)
    _ = (2 * x) ^ 4 * ((2 * x) ^ 2 * sin x) := by ring

/-! ## The inverse -/

/-- The sine of half an angle vanishes at full turns only. -/
theorem sin_half_ne_zero {angle : ℝ} (h : ∀ k : ℤ, angle ≠ k * (2 * π)) : sin (angle / 2) ≠ 0 := by
  intro hzero
  obtain ⟨k, hk⟩ := sin_eq_zero_iff.1 hzero
  exact h k (by linarith)

/-- The inverse left Jacobian inverts the left Jacobian from both sides, at zero and at every
rotation vector that is not so small that a series is used, unless its angle is a multiple of a full
turn. In particular it is not singular at a half turn. Where the series is used, which is below a
millionth, its coefficient differs from the closed form by no more than the fourth power of the
angle. -/
theorem inverseLeftJacobian_inverts :
    (∀ v : Vec3 ℝ, v = 0 ∨ (smallAngle ≤ ‖v‖ ∧ ∀ k : ℤ, ‖v‖ ≠ k * (2 * π)) →
      inverseLeftJacobian v * leftJacobian v = 1 ∧ leftJacobian v * inverseLeftJacobian v = 1) ∧
    (∀ v : Vec3 ℝ, ‖v‖ = π → (inverseLeftJacobian v).det ≠ 0) ∧
    (∀ angle : ℝ, 0 < angle → angle < smallAngle →
      |inverseLeftCoefficient angle - (1 - angle / 2 / tan (angle / 2)) / angle ^ 2| ≤
        angle ^ 4) ∧
    (smallAngle : ℝ) = 1 / 10 ^ 6 := by
  refine ⟨?_, fun v hv => ?_, fun angle hpos hsmall => ?_, ?_⟩
  · rintro v (rfl | ⟨hangle, hturn⟩)
    · simp
    · have hsin := sin_half_ne_zero hturn
      exact ⟨inverseLeftJacobian_mul_leftJacobian hangle hsin,
        leftJacobian_mul_inverseLeftJacobian hangle hsin⟩
  · -- half a turn is not small, and the sine of a quarter turn is one
    have hangle : smallAngle ≤ ‖v‖ := by
      rw [hv]
      norm_num [smallAngle]
      linarith [pi_gt_three]
    have hsin : sin (‖v‖ / 2) ≠ 0 := by
      rw [hv, sin_pi_div_two]
      exact one_ne_zero
    intro hdet
    have hone := congrArg Mat3.det (inverseLeftJacobian_mul_leftJacobian hangle hsin)
    rw [Mat3.det_mul, hdet, zero_mul, Mat3.IsRotation.one.det_eq_one] at hone
    exact zero_ne_one hone
  · exact abs_inverseLeftCoefficient_sub_le hpos hsmall
  · norm_num [smallAngle]

/-- A half turn about the vertical, and an angle below the threshold. -/
theorem inverseLeftJacobian_inverts_halfTurn :
    (smallAngle ≤ ‖(⟨0, 0, π⟩ : Vec3 ℝ)‖ ∧ ∀ k : ℤ, ‖(⟨0, 0, π⟩ : Vec3 ℝ)‖ ≠ k * (2 * π)) ∧
    inverseLeftJacobian ⟨0, 0, π⟩ * leftJacobian ⟨0, 0, π⟩ = 1 ∧
    (inverseLeftJacobian ⟨0, 0, π⟩).det ≠ 0 ∧
    ((0 : ℝ) < smallAngle / 2 ∧ smallAngle / 2 < (smallAngle : ℝ)) ∧
    |inverseLeftCoefficient (smallAngle / 2) -
        (1 - smallAngle / 2 / 2 / tan (smallAngle / 2 / 2)) / (smallAngle / 2) ^ 2| ≤
      (smallAngle / 2 : ℝ) ^ 4 := by
  have hnorm : ‖(⟨0, 0, π⟩ : Vec3 ℝ)‖ = π := by
    rw [Vec3.norm_eq, Vec3.norm, Scalar.sqrt_real, Vec3.dot]
    simp [pi_pos.le]
  have hangle : smallAngle ≤ ‖(⟨0, 0, π⟩ : Vec3 ℝ)‖ := by
    rw [hnorm]
    norm_num [smallAngle]
    linarith [pi_gt_three]
  have hturn : ∀ k : ℤ, ‖(⟨0, 0, π⟩ : Vec3 ℝ)‖ ≠ k * (2 * π) := by
    intro k hk
    -- a half is no integer
    rw [hnorm] at hk
    have htwo : (2 * k : ℝ) = 1 := by
      have := pi_pos.ne'
      field_simp at hk
      linarith
    have : (2 * k : ℤ) = 1 := by exact_mod_cast htwo
    omega
  have hpos : (0 : ℝ) < smallAngle / 2 := half_pos smallAngle_pos
  have hbelow : smallAngle / 2 < (smallAngle : ℝ) := half_lt_self smallAngle_pos
  obtain ⟨hinverse, hregular, hseries, -⟩ := inverseLeftJacobian_inverts
  exact ⟨⟨hangle, hturn⟩, (hinverse _ (.inr ⟨hangle, hturn⟩)).1, hregular _ hnorm,
    ⟨hpos, hbelow⟩, hseries _ hpos hbelow⟩

end KinematicManifold.Rotation
