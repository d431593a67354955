import KinematicManifold.Proofs.FirstAccepted
import KinematicManifold.Proofs.Retraction

/-!
# Within the limits

Three computations know the limits of the joints: the test whether a configuration is within them,
the move into them, and the constraint that they are. They agree. The error of the constraint is the
way from where the configuration is moved, a tolerance of the test is a bound on every row of the
error, and the gradients are unit vectors exactly for the rows that are not zero.

The limits are a box, and the move is the projection onto it. From a value outside, the way to the
nearest value of an interval and the way on from there to any other one do not turn back. So the
squares of the two ways add up to no more than the square of the straight one, and the place that a
configuration is moved to is the only nearest one.

## Key results

- `Interval.slope_eq`: the slope is one exactly where there is an excess
- `Interval.abs_clamp_sub_clamp_le`: moving two values into an interval does not take them apart
- `JointLimits.sub_nearest_eq_zero_iff`, `JointLimits.nearest_eq_self_iff`: nothing is moved within
  the limits, and only there
- `JointLimits.norm_sub_nearest_sq_add_le`: the detour by the nearest configuration
- `JointLimits.norm_nearest_sub_nearest_le`: moving configurations does not take them apart
- `JointLimits.evaluate_agrees`: the test, the move and the constraint agree
-/

namespace KinematicManifold

/-! ## One value -/

namespace Interval

variable {interval : Interval ℝ}

/-- The slope is one exactly where there is an excess. -/
theorem slope_eq (hordered : interval.lower ≤ interval.upper) (value : ℝ) :
    interval.slope value = if interval.excess value = 0 then 0 else 1 := by
  split_ifs with hzero
  · exact slope_of_contains ((excess_eq_zero_iff hordered).1 hzero)
  · have hkept := slope_mul_excess hordered value
    exact mul_right_cancel₀ hzero (hkept.trans (one_mul _).symm)

/-- From the nearest value of an interval, the way on to another one does not turn back. -/
theorem excess_mul_clamp_sub_nonneg {other : ℝ} (hother : interval.Contains other) (value : ℝ) :
    0 ≤ interval.excess value *
      (Scalar.clamp value interval.lower interval.upper - other) := by
  obtain ⟨hlower, hupper⟩ := hother
  have hordered : interval.lower ≤ interval.upper := hlower.trans hupper
  have hclamp := excess_eq_sub_clamp hordered value
  rcases excess_cases hordered value with ⟨hbelow, hexcess⟩ | ⟨-, hexcess⟩ | ⟨habove, hexcess⟩
  · -- below, the nearest value is the lower bound, and every other one lies above it
    exact mul_nonneg_of_nonpos_of_nonpos (by linarith) (by linarith)
  · rw [hexcess, zero_mul]
  · exact mul_nonneg (by linarith) (by linarith)

/-- Moving two values into an interval does not take them apart. -/
theorem abs_clamp_sub_clamp_le (a b lower upper : ℝ) :
    |Scalar.clamp a lower upper - Scalar.clamp b lower upper| ≤ |a - b| := by
  rw [Scalar.clamp_eq, Scalar.clamp_eq]
  calc |min upper (max a lower) - min upper (max b lower)|
      ≤ max |upper - upper| |max a lower - max b lower| := abs_min_sub_min_le_max _ _ _ _
    _ = |max a lower - max b lower| := by rw [sub_self, abs_zero, max_eq_right (abs_nonneg _)]
    _ ≤ |a - b| := abs_max_sub_max_le_abs a b lower

end Interval

/-! ## Configurations -/

variable {n : Nat}

open Linear Matrix

/-- A vector whose entries are no larger is no longer. -/
theorem Linear.norm_le_norm_of_abs_le {u v : Vector ℝ n} (h : ∀ i, |u.get i| ≤ |v.get i|) :
    norm u ≤ norm v := by
  refine (sq_le_sq₀ (zero_le_norm u) (zero_le_norm v)).1 ?_
  rw [norm_sq, norm_sq]
  exact Finset.sum_le_sum fun i _ => abs_le_iff_mul_self_le.1 (h i)

namespace JointLimits

variable {limits : JointLimits ℝ n}

/-- Holds of the configurations whose joint values are all between their limits. -/
def Contains (limits : JointLimits ℝ n) (q : Vector ℝ n) : Prop :=
  ∀ i, (limits.interval i).Contains (q.get i)

/-- A configuration within limits passes the test without a tolerance. -/
theorem withinBounds_zero_iff {q : Vector ℝ n} :
    (Tensor.ofConfiguration q).withinBounds (.ofConfiguration limits.lower)
      (.ofConfiguration limits.upper) 0 = .ok true ↔ limits.Contains q := by
  rw [Tensor.withinBounds_ofConfiguration_iff]
  refine forall_congr' fun i => ?_
  rw [sub_zero, add_zero]
  rfl

/-- The detour from a configuration to another one within the limits by way of the nearest one: the
squares of its two parts add up to no more than the square of the straight way. -/
theorem norm_sub_nearest_sq_add_le {p : Vector ℝ n} (hp : limits.Contains p) (q : Vector ℝ n) :
    norm (q - limits.nearest q) ^ 2 + norm (limits.nearest q - p) ^ 2 ≤ norm (q - p) ^ 2 := by
  have hordered (i : Fin n) : limits.lower.get i ≤ limits.upper.get i := (hp i).1.trans (hp i).2
  have hsplit : (q - p).get = (q - limits.nearest q).get + (limits.nearest q - p).get := by
    simp only [Linear.get_sub, sub_add_sub_cancel]
  -- joint by joint, the second part does not turn back from the first
  have honward : 0 ≤ (q - limits.nearest q).get ⬝ᵥ (limits.nearest q - p).get := by
    refine Finset.sum_nonneg fun i _ => ?_
    rw [limits.get_sub_nearest q hordered, Linear.get_sub, Pi.sub_apply, limits.get_nearest]
    exact Interval.excess_mul_clamp_sub_nonneg (hp i) (q.get i)
  rw [norm_sq, norm_sq, norm_sq, hsplit, add_dotProduct, dotProduct_add, dotProduct_add,
    dotProduct_comm (limits.nearest q - p).get (q - limits.nearest q).get]
  linarith

/-- Every other configuration within the limits is farther away than the nearest one. -/
theorem norm_sub_nearest_lt {p q : Vector ℝ n} (hp : limits.Contains p)
    (hne : p ≠ limits.nearest q) : norm (q - limits.nearest q) < norm (q - p) := by
  have hpart : 0 < norm (limits.nearest q - p) := norm_sub_pos_of_ne hne.symm
  refine lt_of_pow_lt_pow_left₀ 2 (zero_le_norm _) ?_
  exact (lt_add_of_pos_right _ (pow_pos hpart 2)).trans_le (norm_sub_nearest_sq_add_le hp q)

/-- Moving configurations into the limits does not take them apart. -/
theorem norm_nearest_sub_nearest_le (limits : JointLimits ℝ n) (p q : Vector ℝ n) :
    norm (limits.nearest p - limits.nearest q) ≤ norm (p - q) := by
  refine norm_le_norm_of_abs_le fun i => ?_
  simp only [Linear.get_sub, Pi.sub_apply, get_nearest]
  exact Interval.abs_clamp_sub_clamp_le _ _ _ _

variable (hordered : ∀ i, limits.lower.get i ≤ limits.upper.get i) (q : Vector ℝ n)
include hordered

/-- The error is zero exactly within the limits. -/
theorem sub_nearest_eq_zero_iff : q - limits.nearest q = 0 ↔ limits.Contains q := by
  rw [← get_eq_zero_iff, funext_iff]
  refine forall_congr' fun i => ?_
  rw [Pi.zero_apply, limits.get_sub_nearest q hordered, Interval.excess_eq_zero_iff (hordered i)]

/-- A configuration stays where it is exactly within the limits. -/
theorem nearest_eq_self_iff : limits.nearest q = q ↔ limits.Contains q := by
  rw [← sub_nearest_eq_zero_iff hordered, sub_eq_zero_iff, eq_comm]

/-- The gradients are the unit vectors of the joints whose error is not zero. -/
theorem jacobian_eq_rows_error : Leaf.jacobian (.jointLimits limits) q =
    .ok (rows (.diagonal fun i => if (q - limits.nearest q).get i = 0 then 0 else 1)) := by
  have hslope (i : Fin n) : (limits.interval i).slope (q.get i) =
      if (q - limits.nearest q).get i = 0 then 0 else 1 := by
    rw [limits.get_sub_nearest q hordered, Interval.slope_eq (hordered i)]
  simp only [jacobian_eq_rows, hslope]

/-- The test, the move and the constraint agree about the limits. The error of the constraint is the
way from where the configuration is moved, and its gradients are the rows of a diagonal matrix with
a one exactly where the error is not zero. The test always has an answer. Without a tolerance it is
passed exactly where the error is zero, which is where nothing is moved, and with one, where no row
of the error exceeds it. What was moved is within the limits and not moved again, every other
configuration within them is farther away, and two configurations are not moved apart. -/
theorem evaluate_agrees :
    let lower : Tensor ℝ := .ofConfiguration limits.lower
    let upper : Tensor ℝ := .ofConfiguration limits.upper
    let within (tolerance : ℝ) : Except Fault Bool :=
      (Tensor.ofConfiguration q).withinBounds lower upper tolerance
    let moved := limits.nearest q
    let error := q - moved
    (Tensor.ofConfiguration q).enforceBounds lower upper = .ok (.ofConfiguration moved) ∧
    (Constraint.ofJointLimits limits).evaluate q = .ok error.toList ∧
    (Constraint.ofJointLimits limits).jacobian q =
      .ok (rows (.diagonal fun i => if error.get i = 0 then 0 else 1)) ∧
    (∀ tolerance, ∃ answer, within tolerance = .ok answer) ∧
    (error = 0 ↔ within 0 = .ok true) ∧ (within 0 = .ok true ↔ moved = q) ∧
    (∀ tolerance, 0 ≤ tolerance →
      (within tolerance = .ok true ↔ ∀ i, |error.get i| ≤ tolerance)) ∧
    (Tensor.ofConfiguration moved).enforceBounds lower upper = .ok (.ofConfiguration moved) ∧
    limits.Contains moved ∧ (∀ p, limits.Contains p → p ≠ moved → norm error < norm (q - p)) ∧
    ∀ p, norm (moved - limits.nearest p) ≤ norm (q - p) := by
  intro lower upper within moved error
  have hinside : limits.Contains moved := limits.contains_nearest q hordered
  -- bounds and configuration have one shape
  have hfits (bound : Vector ℝ n) :
      (Tensor.ofConfiguration bound).FitsInto (Tensor.ofConfiguration q).shape := by
    rw [Tensor.FitsInto, Tensor.shape_ofConfiguration, Tensor.shape_ofConfiguration]
    exact Fits.refl _
  refine ⟨limits.enforceBounds_eq_nearest q, limits.evaluate_eq_sub_nearest q hordered,
    jacobian_eq_rows_error hordered q,
    fun tolerance => Tensor.exists_withinBounds_eq_ok (hfits _) (hfits _) tolerance,
    (sub_nearest_eq_zero_iff hordered q).trans withinBounds_zero_iff.symm,
    withinBounds_zero_iff.trans (nearest_eq_self_iff hordered q).symm,
    fun tolerance htolerance => limits.withinBounds_iff_abs_le q hordered htolerance,
    ?_, hinside, fun p hp hne => norm_sub_nearest_lt hp hne,
    fun p => limits.norm_nearest_sub_nearest_le q p⟩
  rw [limits.enforceBounds_eq_nearest moved, (nearest_eq_self_iff hordered moved).2 hinside]

end JointLimits

/-- The first joint is locked and stands below its only value, the second is one too far, and the
third stands at its upper limit. -/
theorem JointLimits.evaluate_agrees_lockedBelow :
    let limits : JointLimits ℝ 3 := ⟨.ofFn ![0, 0, 0], .ofFn ![0, 1, 1]⟩
    let q : Vector ℝ 3 := .ofFn ![-1, 1 + 1, 1]
    let lower : Tensor ℝ := .ofConfiguration limits.lower
    let upper : Tensor ℝ := .ofConfiguration limits.upper
    (∀ i, limits.lower.get i ≤ limits.upper.get i) ∧
    (Tensor.ofConfiguration q).enforceBounds lower upper =
      .ok (.ofConfiguration (.ofFn ![0, 1, 1])) ∧
    (Constraint.ofJointLimits limits).evaluate q = .ok [-1, 1, 0] ∧
    (Constraint.ofJointLimits limits).jacobian q = .ok (rows (.diagonal ![1, 1, 0])) ∧
    (Tensor.ofConfiguration q).withinBounds lower upper 0 ≠ .ok true ∧
    (Tensor.ofConfiguration q).withinBounds lower upper 1 = .ok true ∧
    ∀ p, limits.Contains p → p ≠ .ofFn ![0, 1, 1] →
      norm (q - .ofFn ![0, 1, 1]) < norm (q - p) := by
  intro limits q lower upper
  have hordered : ∀ i, limits.lower.get i ≤ limits.upper.get i := by
    intro i
    fin_cases i <;> simp [limits]
  -- below a locked joint, above a limit, and on one
  have hnearest : limits.nearest q = .ofFn ![0, 1, 1] := by
    apply ext_get
    funext i
    fin_cases i <;> norm_num [nearest, limits, q]
  have herror : q - limits.nearest q = .ofFn ![-1, 1, 0] := by
    rw [hnearest]
    apply ext_get
    funext i
    fin_cases i <;> simp [q]
  obtain ⟨hmoved, hevaluate, hjacobian, -, hzero, -, hwithin, -, -, hfarther, -⟩ :=
    evaluate_agrees hordered q
  rw [hnearest] at hmoved hfarther
  rw [herror] at hevaluate hjacobian hzero hwithin
  refine ⟨hordered, hmoved, ?_, ?_, fun hinside => ?_, ?_, hfarther⟩
  · rw [hevaluate]
    rfl
  · have hslopes : (fun i : Fin 3 => if (Vector.ofFn ![-1, 1, 0] : Vector ℝ 3).get i = 0 then 0
        else 1) = (![1, 1, 0] : Fin 3 → ℝ) := by
      funext i
      fin_cases i <;> simp
    rw [hjacobian, hslopes]
  · -- the first joint is not within its limits
    have hfirst := congrFun (congrArg Vector.get (hzero.2 hinside)) 0
    simp at hfirst
  · refine (hwithin 1 zero_le_one).2 fun i => ?_
    fin_cases i <;> simp

end KinematicManifold
