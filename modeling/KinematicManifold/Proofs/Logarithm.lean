import KinematicManifold.Proofs.Exponential

/-!
# The logarithm of rotations

A rotation has a rotation vector that is at most a half turn long: `Rotation.log?` finds one for
every rotation, and finds the vector itself again as long as it is shorter than a half turn. The
logarithm of a rotation that moves is differentiable wherever the angle is less than a half turn,
and its derivative is the inverse left Jacobian of the angular velocity.

A unit quaternion with its sign chosen has the logarithm `2 * angleRatio s` times its imaginary
part, where `s` is the length of that part. Near a rotation by less than a half turn the imaginary
part is `halfVector`, which needs no choice among the ways to find a quaternion.

## Key results

- `Rotation.log?_eq_ok`: a rotation has a logarithm
- `Rotation.exp_log`, `Rotation.norm_log_le_pi`: its exponential is the rotation, and it is at most
  a half turn long
- `Rotation.log_exp`: below a half turn it is the only such vector
- `Rotation.log_exp_eq_smul`: it lies along every vector with this exponential, and is no longer
- `Rotation.hasFDerivAt_log`: the derivative of the logarithm of a rotation that moves
-/

namespace KinematicManifold

open Real

/-! ## Real and imaginary part of a quaternion -/

namespace Quaternion

/-- The imaginary part of a quaternion. -/
def vector (q : Quaternion ℝ) : Vec3 ℝ := ⟨q.x, q.y, q.z⟩

/-- A quaternion is given by its real part and its vector. -/
theorem ext_vector {p q : Quaternion ℝ} (hw : p.w = q.w) (hv : p.vector = q.vector) : p = q := by
  simp only [vector, Vec3.mk.injEq] at hv
  exact Quaternion.ext hw hv.1 hv.2.1 hv.2.2

/-- The vector of the opposite quaternion is the opposite vector. -/
@[simp] theorem vector_neg (q : Quaternion ℝ) : (-q).vector = -q.vector := rfl

/-- The squared norm adds up the real part and the vector. -/
theorem normSq_eq (q : Quaternion ℝ) : q.normSq = q.w ^ 2 + ‖q.vector‖ ^ 2 := by
  rw [Vec3.norm_sq]
  simp only [normSq, vector]
  ring

end Quaternion

namespace Rotation

/-! ## The logarithm of a unit quaternion -/

/-- An angle divided by its sine, with its limit at zero, as a function of the sine. -/
noncomputable def angleRatio : ℝ → ℝ := dslope arcsin 0

/-- The ratio of angle and sine is the arc sine over its argument, at zero too. -/
theorem angleRatio_mul_self (s : ℝ) : angleRatio s * s = arcsin s := by
  have key := sub_smul_dslope_of_zero arcsin_zero s
  rw [sub_zero, smul_eq_mul, mul_comm] at key
  exact key

/-- At zero the ratio of angle and sine is one. -/
@[simp] theorem angleRatio_zero : angleRatio 0 = 1 := by
  simp [angleRatio, dslope_same, deriv_arcsin]

/-- Away from zero the ratio of angle and sine is a quotient. -/
theorem angleRatio_of_ne_zero {s : ℝ} (hs : s ≠ 0) : angleRatio s = arcsin s / s :=
  eq_div_of_mul_eq hs (angleRatio_mul_self s)

section
variable {q : Quaternion ℝ}

/-- The quaternion of the exponential has its vector along the rotation vector. -/
theorem vector_expQuaternion (v : Vec3 ℝ) :
    (expQuaternion v).vector = (sinc (‖v‖ / 2) / 2) • v := by
  rw [expQuaternion_eq]
  ext <;> simp [Quaternion.vector] <;> ring

/-- Its real part is the cosine of the half angle. -/
theorem w_expQuaternion (v : Vec3 ℝ) : (expQuaternion v).w = cos (‖v‖ / 2) := by
  rw [expQuaternion_eq]

/-- Its vector is as long as the sine of the half angle. -/
theorem norm_vector_expQuaternion (v : Vec3 ℝ) :
    ‖(expQuaternion v).vector‖ = |sin (‖v‖ / 2)| := by
  rw [vector_expQuaternion, norm_smul, Real.norm_eq_abs, ← sinc_mul_self, abs_mul, abs_div, abs_div,
    abs_norm, abs_two]
  ring

/-- The vector of a unit quaternion is no longer than one. -/
theorem norm_vector_le_one (h : q.normSq = 1) : ‖q.vector‖ ≤ 1 := by
  rw [q.normSq_eq] at h
  nlinarith [sq_nonneg q.w, norm_nonneg q.vector]

/-- The logarithm of a unit quaternion with its sign chosen, without a case for the limit at
zero. -/
theorem logQuaternion_eq (h : q.normSq = 1) (hw : 0 ≤ q.w) :
    logQuaternion q = (2 * angleRatio ‖q.vector‖) • q.vector := by
  have hnorm : ‖(⟨q.w, ‖q.vector‖⟩ : ℂ)‖ = 1 := by
    rw [q.normSq_eq] at h
    rw [← sq_eq_sq₀ (norm_nonneg _) zero_le_one, Complex.sq_norm, Complex.normSq_mk]
    linarith
  -- the point lies on the unit circle and not left of zero: its angle is the arcsine of its height
  have harg : Complex.arg ⟨q.w, ‖q.vector‖⟩ = arcsin ‖q.vector‖ := by
    rw [Complex.arg_of_re_nonneg hw, hnorm, div_one]
  have hsine : sin (arcsin ‖q.vector‖) = ‖q.vector‖ :=
    sin_arcsin ((by norm_num : (-1 : ℝ) ≤ 0).trans (norm_nonneg _)) (norm_vector_le_one h)
  have hangle : (0.5 : ℝ) * (2.0 * arcsin ‖q.vector‖) = arcsin ‖q.vector‖ := by
    rw [Scalar.half_literal, Scalar.two_literal]
    ring
  have hfactor : (if Scalar.isZero ‖q.vector‖ then (2.0 : ℝ)
      else 2.0 * arcsin ‖q.vector‖ / ‖q.vector‖) = 2 * angleRatio ‖q.vector‖ := by
    rw [Scalar.two_literal]
    split_ifs with hzero
    · rw [(Scalar.isZero_iff _).1 hzero, angleRatio_zero, mul_one]
    · rw [angleRatio_of_ne_zero (fun hs => hzero ((Scalar.isZero_iff _).2 hs)), mul_div_assoc]
  have hdef : logQuaternion q = q.vector.scale
      (if Scalar.isZero (sin ((0.5 : ℝ) * (2.0 * Complex.arg ⟨q.w, ‖q.vector‖⟩))) then (2.0 : ℝ)
      else 2.0 * Complex.arg ⟨q.w, ‖q.vector‖⟩ /
        sin ((0.5 : ℝ) * (2.0 * Complex.arg ⟨q.w, ‖q.vector‖⟩))) := rfl
  rw [hdef, harg, hangle, hsine, hfactor, Vec3.smul_def]

/-- The logarithm of a unit quaternion on the near side is twice the arc sine of its vector. -/
theorem norm_logQuaternion (h : q.normSq = 1) (hw : 0 ≤ q.w) :
    ‖logQuaternion q‖ = 2 * arcsin ‖q.vector‖ := by
  have hnonneg : 0 ≤ arcsin ‖q.vector‖ := arcsin_nonneg.2 (norm_nonneg _)
  calc ‖logQuaternion q‖ = ‖(2 * angleRatio ‖q.vector‖ * ‖q.vector‖ : ℝ)‖ := by
        rw [logQuaternion_eq h hw, norm_smul, norm_mul _ ‖q.vector‖, norm_norm]
    _ = 2 * arcsin ‖q.vector‖ := by
        rw [mul_assoc, angleRatio_mul_self, Real.norm_of_nonneg (by positivity)]

/-- The quaternion of the logarithm of a unit quaternion is that quaternion. -/
theorem expQuaternion_logQuaternion (h : q.normSq = 1) (hw : 0 ≤ q.w) :
    expQuaternion (logQuaternion q) = q := by
  have hhalf : ‖logQuaternion q‖ / 2 = arcsin ‖q.vector‖ := by
    rw [norm_logQuaternion h hw, mul_div_cancel_left₀ _ (two_ne_zero' ℝ)]
  have hsine : sin (arcsin ‖q.vector‖) = ‖q.vector‖ :=
    sin_arcsin ((by norm_num : (-1 : ℝ) ≤ 0).trans (norm_nonneg _)) (norm_vector_le_one h)
  apply Quaternion.ext_vector
  · -- the real part is not negative, so that it is the root that the cosine takes
    rw [w_expQuaternion, hhalf, cos_arcsin]
    have hsq : 1 - ‖q.vector‖ ^ 2 = q.w ^ 2 := by rw [← h, q.normSq_eq, add_sub_cancel_right]
    rw [hsq, sqrt_sq hw]
  · rw [vector_expQuaternion, hhalf, logQuaternion_eq h hw, smul_smul]
    by_cases hzero : q.vector = 0
    · rw [hzero, smul_zero]
    · have hne : ‖q.vector‖ ≠ 0 := norm_ne_zero_iff.2 hzero
      have harcsin : arcsin ‖q.vector‖ ≠ 0 := by simpa using hne
      have hone : sinc (arcsin ‖q.vector‖) / 2 * (2 * angleRatio ‖q.vector‖) = 1 := by
        rw [sinc_of_ne_zero harcsin, angleRatio_of_ne_zero hne, hsine]
        field_simp
      rw [hone, one_smul]

end

/-! ## The logarithm of a rotation -/

/-- The rotation vector that is found for a rotation. -/
noncomputable def log (m : Mat3 ℝ) : Vec3 ℝ := logQuaternion (Quaternion.ofOrthogonal m).canonical

section
variable {m : Mat3 ℝ}

/-- The quaternion read from a rotation has unit length. -/
private theorem normSq_quaternion (h : m.IsRotation) :
    (Quaternion.ofOrthogonal m).canonical.normSq = 1 := by
  rw [Quaternion.normSq_canonical, Quaternion.normSq_ofOrthogonal h]

/-- A rotation is never refused by the logarithm. -/
theorem log?_eq_ok (h : m.IsRotation) : log? m = .ok (log m) := by
  simp only [log?, quaternion_eq_ok h]
  rfl

/-- A rotation is the exponential of its logarithm. -/
theorem exp_log (h : m.IsRotation) : exp (log m) = m := by
  rw [exp, log, expQuaternion_logQuaternion (normSq_quaternion h) (Quaternion.canonical_w_nonneg _),
    Quaternion.toMat3_canonical, Quaternion.toMat3_ofOrthogonal h]

/-- The logarithm takes the short way round, by at most half a turn. -/
theorem norm_log_le_pi (h : m.IsRotation) : ‖log m‖ ≤ π := by
  rw [log, norm_logQuaternion (normSq_quaternion h) (Quaternion.canonical_w_nonneg _)]
  linarith [arcsin_le_pi_div_two ‖(Quaternion.ofOrthogonal m).canonical.vector‖]

/-- The arc sine undoes the sine or falls short of the angle. -/
theorem arcsin_abs_sin_le {x : ℝ} (hx : 0 ≤ x) : arcsin |sin x| ≤ x := by
  rcases le_or_gt x (π / 2) with hsmall | hlarge
  · rw [abs_of_nonneg (sin_nonneg_of_nonneg_of_le_pi hx (by linarith)),
      arcsin_sin (by linarith) hsmall]
  · -- no arcsine exceeds a quarter turn
    exact (arcsin_le_pi_div_two _).trans hlarge.le

/-- The quaternion that is found for the exponential is that of the vector, up to sign. -/
private theorem canonical_exp (v : Vec3 ℝ) :
    (Quaternion.ofOrthogonal (exp v)).canonical = expQuaternion v ∨
      (Quaternion.ofOrthogonal (exp v)).canonical = -expQuaternion v := by
  have hrotation := isRotation_exp v
  apply Quaternion.eq_or_eq_neg_of_toMat3_eq (normSq_quaternion hrotation)
    (normSq_expQuaternion v)
  rw [Quaternion.toMat3_canonical, Quaternion.toMat3_ofOrthogonal hrotation, exp]

/-- Taking the exponential and the logarithm never makes a vector longer. -/
theorem norm_log_exp_le (v : Vec3 ℝ) : ‖log (exp v)‖ ≤ ‖v‖ := by
  have hsine : ‖(Quaternion.ofOrthogonal (exp v)).canonical.vector‖ = |sin (‖v‖ / 2)| := by
    rw [← norm_vector_expQuaternion]
    rcases canonical_exp v with h | h <;> rw [h]
    rw [Quaternion.vector_neg, norm_neg]
  rw [log, norm_logQuaternion (normSq_quaternion (isRotation_exp v))
    (Quaternion.canonical_w_nonneg _), hsine]
  linarith [arcsin_abs_sin_le (div_nonneg (norm_nonneg v) zero_le_two)]

/-- The logarithm of a rotation lies along every rotation vector of it, and is no longer. -/
theorem log_exp_eq_smul (v : Vec3 ℝ) : ∃ c : ℝ, |c| ≤ 1 ∧ log (exp v) = c • v := by
  have hvector : ∃ a : ℝ, (Quaternion.ofOrthogonal (exp v)).canonical.vector = a • v := by
    rcases canonical_exp v with h | h
    · exact ⟨_, h ▸ vector_expQuaternion v⟩
    · refine ⟨-(sinc (‖v‖ / 2) / 2), ?_⟩
      rw [h, Quaternion.vector_neg, vector_expQuaternion, neg_smul]
  obtain ⟨a, ha⟩ := hvector
  -- the factor is at most one in magnitude, because the logarithm is no longer than the vector
  have hlog := logQuaternion_eq (normSq_quaternion (isRotation_exp v))
    (Quaternion.canonical_w_nonneg _)
  rw [ha, smul_smul] at hlog
  by_cases hzero : v = 0
  · refine ⟨0, by norm_num, ?_⟩
    rw [log, hlog, hzero, smul_zero, smul_zero]
  · refine ⟨_, ?_, hlog⟩
    have hle := norm_log_exp_le v
    rw [log, hlog, norm_smul, Real.norm_eq_abs] at hle
    exact le_of_mul_le_mul_right (by rwa [one_mul]) (norm_pos_iff.2 hzero)

/-- Up to a half turn, the logarithm of the quaternion of a vector is that vector. -/
theorem logQuaternion_expQuaternion {v : Vec3 ℝ} (h : ‖v‖ ≤ π) :
    logQuaternion (expQuaternion v) = v := by
  -- up to half a turn the cosine of the half angle is not negative
  have hnonneg : 0 ≤ (expQuaternion v).w := by
    rw [w_expQuaternion]
    exact cos_nonneg_of_mem_Icc ⟨by linarith [norm_nonneg v, pi_pos], by linarith⟩
  by_cases hzero : v = 0
  · rw [logQuaternion_eq (normSq_expQuaternion v) hnonneg, vector_expQuaternion, hzero]
    simp
  · -- and the arc sine undoes the sine of the half angle
    have hpos : 0 < ‖v‖ / 2 := half_pos (norm_pos_iff.2 hzero)
    have hsine : 0 < sin (‖v‖ / 2) := sin_pos_of_pos_of_lt_pi hpos (by linarith)
    have hangle : arcsin (sin (‖v‖ / 2)) = ‖v‖ / 2 := arcsin_sin (by linarith) (by linarith)
    rw [logQuaternion_eq (normSq_expQuaternion v) hnonneg, norm_vector_expQuaternion,
      abs_of_pos hsine, vector_expQuaternion, smul_smul, angleRatio_of_ne_zero hsine.ne', hangle,
      sinc_of_ne_zero hpos.ne']
    have hone : 2 * (‖v‖ / 2 / sin (‖v‖ / 2)) * (sin (‖v‖ / 2) / (‖v‖ / 2) / 2) = 1 := by
      have hne : ‖v‖ ≠ 0 := norm_ne_zero_iff.2 hzero
      field_simp
    rw [hone, one_smul]

/-- A rotation vector of less than a half turn is the logarithm of its exponential. -/
theorem log_exp {v : Vec3 ℝ} (h : ‖v‖ < π) : log (exp v) = v := by
  have hpos : 0 < (expQuaternion v).w := by
    rw [w_expQuaternion]
    exact cos_pos_of_mem_Ioo ⟨by linarith [norm_nonneg v, pi_pos], by linarith⟩
  rcases canonical_exp v with hsame | hopposite
  · rw [log, hsame, logQuaternion_expQuaternion h.le]
  · -- the opposite quaternion has a negative real part, and is not the one with its sign chosen
    have hnonneg := Quaternion.canonical_w_nonneg (Quaternion.ofOrthogonal (exp v))
    rw [hopposite, Quaternion.neg_w] at hnonneg
    linarith

end

/-! ## The derivative of the logarithm -/

section
variable {m : Mat3 ℝ}

/-- The trace of a rotation in terms of the real part of its quaternion. -/
theorem traceMap_toMat3 {q : Quaternion ℝ} (h : q.normSq = 1) :
    traceMap q.toMat3 = 4 * q.w ^ 2 - 1 := by
  have key : traceMap q.toMat3 = q.toMat3.trace := rfl
  rw [key]
  simp only [Quaternion.toMat3, Mat3.trace, Quaternion.normSq, Scalar.two_literal] at h ⊢
  linear_combination -h

/-- The axial vector of a rotation is along the vector of its quaternion. -/
theorem axialMap_toMat3 (q : Quaternion ℝ) : axialMap q.toMat3 = (4 * q.w) • q.vector := by
  have key : axialMap q.toMat3 = ⟨q.toMat3.zy - q.toMat3.yz, q.toMat3.xz - q.toMat3.zx,
    q.toMat3.yx - q.toMat3.xy⟩ := rfl
  rw [key]
  ext <;> simp only [Quaternion.toMat3, Quaternion.vector, Vec3.smul_x, Vec3.smul_y, Vec3.smul_z,
    Scalar.two_literal] <;> ring

/-- The real part of the quaternion, by the trace. -/
private theorem one_add_traceMap (h : m.IsRotation) :
    1 + traceMap m = (2 * (Quaternion.ofOrthogonal m).canonical.w) ^ 2 := by
  have htrace := traceMap_toMat3 (normSq_quaternion h)
  rw [Quaternion.toMat3_canonical, Quaternion.toMat3_ofOrthogonal h] at htrace
  rw [htrace]
  ring

/-- The angle is less than a half turn exactly when the trace exceeds minus one. -/
theorem norm_log_lt_pi_iff (h : m.IsRotation) : ‖log m‖ < π ↔ 0 < 1 + traceMap m := by
  have hone := normSq_quaternion h
  rw [one_add_traceMap h, log, norm_logQuaternion hone (Quaternion.canonical_w_nonneg _)]
  generalize (Quaternion.ofOrthogonal m).canonical = q at *
  rw [Quaternion.normSq_eq] at hone
  -- both say that the real part is not zero
  have hangle : 2 * arcsin ‖q.vector‖ < π ↔ ‖q.vector‖ < 1 := by
    rw [← arcsin_lt_pi_div_two]
    constructor <;> intro h <;> linarith
  rw [hangle]
  constructor <;> intro h <;> nlinarith [norm_nonneg q.vector]

/-- The imaginary part of the quaternion of a rotation by less than a half turn, without a choice of
the largest component. -/
noncomputable def halfVector (m : Mat3 ℝ) : Vec3 ℝ := (2 * √(1 + traceMap m))⁻¹ • axialMap m

/-- Below half a turn the vector of the quaternion can be read from the trace and the axial
vector. -/
theorem halfVector_eq (h : m.IsRotation) (hpos : 0 < 1 + traceMap m) :
    halfVector m = (Quaternion.ofOrthogonal m).canonical.vector := by
  have hnonneg := Quaternion.canonical_w_nonneg (Quaternion.ofOrthogonal m)
  have htrace := one_add_traceMap h
  have haxial := axialMap_toMat3 (Quaternion.ofOrthogonal m).canonical
  rw [Quaternion.toMat3_canonical, Quaternion.toMat3_ofOrthogonal h] at haxial
  generalize (Quaternion.ofOrthogonal m).canonical = q at *
  -- below half a turn the real part can be divided by
  have hw : q.w ≠ 0 := by
    intro hzero
    rw [htrace, hzero] at hpos
    norm_num at hpos
  have hscale : (2 * (2 * q.w))⁻¹ * (4 * q.w) = 1 := by
    field_simp
    norm_num
  rw [halfVector, htrace, sqrt_sq (by positivity), haxial, smul_smul, hscale, one_smul]

/-- So can the logarithm, by an expression that is differentiable in the matrix. -/
theorem log_eq_of_trace (h : m.IsRotation) (hpos : 0 < 1 + traceMap m) :
    log m = (2 * angleRatio ‖halfVector m‖) • halfVector m := by
  rw [halfVector_eq h hpos, log,
    logQuaternion_eq (normSq_quaternion h) (Quaternion.canonical_w_nonneg _)]

/-- Below half a turn the vector of the quaternion is shorter than one. -/
theorem norm_halfVector_lt_one (h : m.IsRotation) (hpos : 0 < 1 + traceMap m) :
    ‖halfVector m‖ < 1 := by
  have hone := normSq_quaternion h
  rw [Quaternion.normSq_eq, ← halfVector_eq h hpos] at hone
  rw [one_add_traceMap h] at hpos
  nlinarith [norm_nonneg (halfVector m)]

variable {E : Type*} [NormedAddCommGroup E] [NormedSpace ℝ E] {D : E → Mat3 ℝ} {x : E}

/-- The vector of the quaternion of a moving rotation is differentiable below half a turn. -/
theorem differentiableAt_halfVector (hD : DifferentiableAt ℝ D x) (hpos : 0 < 1 + traceMap (D x)) :
    DifferentiableAt ℝ (fun y => halfVector (D y)) x := by
  have htrace : DifferentiableAt ℝ (fun y => 1 + traceMap (D y)) x :=
    (traceMap.differentiableAt.comp x hD).const_add 1
  have haxial : DifferentiableAt ℝ (fun y => axialMap (D y)) x :=
    axialMap.differentiableAt.comp x hD
  have hsqrt := htrace.sqrt hpos.ne'
  have hne : 2 * √(1 + traceMap (D x)) ≠ 0 := by positivity
  exact ((hsqrt.const_mul 2).inv hne).smul haxial

/-- The ratio of angle and sine is continuous at zero. -/
theorem continuousAt_angleRatio_zero : ContinuousAt angleRatio 0 :=
  continuousAt_dslope_same.2 (differentiableAt_arcsin.2 (by norm_num))

/-- The logarithm of a rotation that moves is differentiable below a half turn. -/
theorem differentiableAt_log (hrotation : ∀ y, (D y).IsRotation) (hD : DifferentiableAt ℝ D x)
    (hangle : ‖log (D x)‖ < π) : DifferentiableAt ℝ (fun y => log (D y)) x := by
  have hpos := (norm_log_lt_pi_iff (hrotation x)).1 hangle
  have hvector := differentiableAt_halfVector hD hpos
  -- the trace exceeds minus one nearby as well, so that no component has to be chosen there
  have hnear : (fun y => log (D y)) =ᶠ[nhds x]
      fun y => (2 * angleRatio ‖halfVector (D y)‖) • halfVector (D y) := by
    have hcontinuous : ContinuousAt (fun y => 1 + traceMap (D y)) x :=
      ((traceMap.differentiableAt.comp x hD).const_add 1).continuousAt
    filter_upwards [hcontinuous.eventually (lt_mem_nhds hpos)] with y hy
    exact log_eq_of_trace (hrotation y) hy
  refine DifferentiableAt.congr_of_eventuallyEq ?_ hnear
  by_cases hzero : halfVector (D x) = 0
  · -- the length has a kink where the vector vanishes, but there the ratio need only be continuous
    have hratio : ContinuousAt (fun y => 2 * angleRatio ‖halfVector (D y)‖) x := by
      have hnorm : ContinuousAt (fun y => ‖halfVector (D y)‖) x := hvector.continuousAt.norm
      have hlimit : ContinuousAt angleRatio ‖halfVector (D x)‖ := by
        rw [hzero, norm_zero]
        exact continuousAt_angleRatio_zero
      exact (ContinuousAt.comp (f := fun y => ‖halfVector (D y)‖) hlimit hnorm).const_mul 2
    exact (hasFDerivAt_smul_of_eq_zero hvector.hasFDerivAt hratio hzero).differentiableAt
  · have hnorm : DifferentiableAt ℝ (fun y => ‖halfVector (D y)‖) x := hvector.norm ℝ hzero
    have hratio : DifferentiableAt ℝ angleRatio ‖halfVector (D x)‖ := by
      have hlt := norm_halfVector_lt_one (hrotation x) hpos
      have hnonneg := norm_nonneg (halfVector (D x))
      exact (differentiableAt_dslope_of_ne (norm_ne_zero_iff.2 hzero)).2
        (differentiableAt_arcsin.2 ⟨by linarith, hlt.ne⟩)
    exact ((hratio.comp x hnorm).const_mul 2).smul hvector

/-- An angular velocity of a rotation is determined by the velocity. -/
theorem angular_eq_of_mul_eq (h : m.IsRotation) {u v : Vec3 ℝ} (huv : skew u * m = skew v * m) :
    u = v := by
  apply skew_injective
  calc skew u = skew u * m * m.transpose := by rw [mul_assoc, h.mul_transpose, mul_one]
    _ = skew v * m * m.transpose := by rw [huv]
    _ = skew v := by rw [mul_assoc, h.mul_transpose, mul_one]

/-- The derivative of the logarithm of a rotation that moves is its angular velocity under the
inverse left Jacobian. -/
theorem hasFDerivAt_log {D' : E →L[ℝ] Mat3 ℝ} {ω : E →L[ℝ] Vec3 ℝ}
    (hrotation : ∀ y, (D y).IsRotation) (hD : HasFDerivAt D D' x)
    (hω : ∀ ξ, D' ξ = skew (ω ξ) * D x)
    (hsmall : log (D x) = 0 ∨ smallAngle ≤ ‖log (D x)‖) (hangle : ‖log (D x)‖ < π) :
    HasFDerivAt (fun y => log (D y))
      ((Mat3.action (inverseLeftJacobian (log (D x)))).comp ω) x := by
  have hlog := (differentiableAt_log hrotation hD.differentiableAt hangle).hasFDerivAt
  generalize fderiv ℝ (fun y => log (D y)) x = L at hlog
  -- the exponential of the logarithm moves with `D`, along every line through `x`
  have hvelocity (ξ : E) : (leftJacobian (log (D x))).apply (L ξ) = ω ξ := by
    have hline : HasDerivAt (fun t : ℝ => x + t • ξ) ξ 0 := by
      simpa using ((hasDerivAt_id (0 : ℝ)).smul_const ξ).const_add x
    have hstart : x + (0 : ℝ) • ξ = x := by rw [zero_smul, add_zero]
    rw [← hstart] at hlog hD
    have hturn := hasDerivAt_exp (hlog.comp_hasDerivAt 0 hline)
    have hmove := hD.comp_hasDerivAt 0 hline
    simp only [Function.comp_apply, exp_log (hrotation _), hstart] at hturn
    rw [hω] at hmove
    exact angular_eq_of_mul_eq (hrotation x) (hturn.unique hmove)
  -- below a half turn the left Jacobian can be inverted
  have hinverse : inverseLeftJacobian (log (D x)) * leftJacobian (log (D x)) = 1 := by
    rcases hsmall with hzero | hlarge
    · rw [hzero, inverseLeftJacobian_zero, leftJacobian_zero, one_mul]
    · refine inverseLeftJacobian_mul_leftJacobian hlarge (sin_pos_of_pos_of_lt_pi ?_ ?_).ne'
      · linarith [smallAngle_pos]
      · linarith [pi_pos]
  refine hlog.congr_fderiv ?_
  ext1 ξ
  rw [ContinuousLinearMap.comp_apply, Mat3.action_apply, ← hvelocity ξ, ← Mat3.apply_mul, hinverse,
    Mat3.apply_one]

end

end Rotation

end KinematicManifold
