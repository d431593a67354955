import KinematicManifold.Proofs.Clamping
import KinematicManifold.Proofs.Iterates
import KinematicManifold.Proofs.Locality

/-!
# Projection onto joint limits

A configuration that is projected onto joint limits alone moves on a straight line to the nearest
configuration within them. The gradients are the unit vectors of the joints outside, so that a step
goes a fixed share of what is left of the way, the whole of it without a damping, or as far as the
longest step. Until nothing is left, the same joints are outside on the same side, and the nearest
configuration stays the same.

## Key results

- `Interval.clamp_onWay`, `JointLimits.nearest_onWay`: the nearest value stays the same on the way
- `JointLimits.isStep_towards`, `JointLimits.next_eq`: the step goes towards the nearest
  configuration
- `JointLimits.find_onWay`: what an iteration finds on the way
- `JointLimits.run_onWay`: a run from a configuration on the way
- `JointLimits.project_eq_onWay`: the projection in closed form
-/

namespace KinematicManifold

/-! ## One value -/

namespace Interval

variable {interval : Interval ℝ} (hordered : interval.lower ≤ interval.upper) (value : ℝ)
include hordered

/-- The slope tells the values that have an excess from those that have none. -/
theorem slope_mul_excess :
    interval.slope value * interval.excess value = interval.excess value := by
  rcases excess_cases hordered value with ⟨hbelow, -⟩ | ⟨-, hexcess⟩ | ⟨habove, -⟩
  · rw [slope, if_pos (.inr hbelow), one_mul]
  · rw [hexcess, mul_zero]
  · rw [slope, if_pos (.inl habove), one_mul]

/-- On the way to the nearest value of the interval that value stays the nearest. -/
theorem clamp_onWay {left : ℝ} (hleft : 0 ≤ left) :
    Scalar.clamp (Scalar.clamp value interval.lower interval.upper +
      left * (value - Scalar.clamp value interval.lower interval.upper))
        interval.lower interval.upper = Scalar.clamp value interval.lower interval.upper := by
  obtain ⟨hlower, hupper⟩ := contains_clamp hordered value
  have hway := excess_eq_sub_clamp hordered value
  generalize Scalar.clamp value interval.lower interval.upper = c at *
  rw [← hway, Scalar.clamp_eq]
  rcases excess_cases hordered value with ⟨hbelow, hexcess⟩ | ⟨-, hexcess⟩ | ⟨habove, hexcess⟩
  · -- from below, the nearest value is the lower bound
    have hc : c = interval.lower := by linarith
    have hway : left * interval.excess value ≤ 0 :=
      mul_nonpos_of_nonneg_of_nonpos hleft (by linarith)
    rw [max_eq_right (by linarith), min_eq_right hordered, hc]
  · rw [hexcess, mul_zero, add_zero, max_eq_left hlower, min_eq_right hupper]
  · -- and from above the upper one
    have hc : c = interval.upper := by linarith
    have hway : 0 ≤ left * interval.excess value := mul_nonneg hleft (by linarith)
    rw [max_eq_left (by linarith), min_eq_left (by linarith), hc]

/-- A value goes from `before` to `after` towards the bound of an interval that is nearer to the
value at the start, and does not cross it; it rests, if it was in the interval. -/
structure Approaches (interval : Interval ℝ) (start before after : ℝ) : Prop where
  below : start < interval.lower → before ≤ after ∧ after ≤ interval.lower
  inside : interval.Contains start → before = start ∧ after = start
  above : interval.upper < start → interval.upper ≤ after ∧ after ≤ before

/-- The less of the way to the nearest value is left, the nearer is the bound. -/
theorem approaches_onWay {more less : ℝ} (hless : 0 ≤ less) (hle : less ≤ more) :
    let nearest := Scalar.clamp value interval.lower interval.upper
    interval.Approaches value (nearest + more * (value - nearest))
      (nearest + less * (value - nearest)) := by
  intro nearest
  have hway : interval.excess value = value - nearest := excess_eq_sub_clamp hordered value
  rw [← hway]
  constructor
  · intro hbelow
    -- the excess is negative, so that less of it is nearer
    have hexcess := excess_of_lt hordered hbelow
    have hnegative : interval.excess value ≤ 0 := by linarith
    have hshort := mul_le_mul_of_nonpos_right hle hnegative
    have hend := mul_nonpos_of_nonneg_of_nonpos hless hnegative
    constructor <;> linarith
  · intro hinside
    -- there is no way to go
    have hexcess := excess_of_contains hinside
    rw [hexcess, mul_zero, mul_zero]
    constructor <;> linarith
  · intro habove
    -- the excess is positive
    have hexcess := excess_of_gt hordered habove
    have hpositive : 0 ≤ interval.excess value := by linarith
    have hshort := mul_le_mul_of_nonneg_right hle hpositive
    have hend := mul_nonneg hless hpositive
    constructor <;> linarith

end Interval

/-! ## Lengths -/

variable {n : Nat}

namespace Linear

/-- Scaling by a number that is not negative scales the norm. -/
theorem rowsNorm_toList_scale {c : ℝ} (hc : 0 ≤ c) (v : Vector ℝ n) :
    rowsNorm (scale c v).toList = c * norm v := by
  rw [rowsNorm_toList_eq_norm, norm_scale hc]

end Linear

open Linear Matrix

/-- A step against a vector goes as much of its length as the longest step allows. -/
theorem capStep_scale {maxStep : Option ℝ} {v : Vector ℝ n} (hv : 0 < norm v) {share : ℝ}
    (hshare : 0 < share) : capStep maxStep (scale (-share) v) =
      scale (-(maxStep.elim share fun longest => min share (longest / norm v))) v := by
  cases maxStep with
  | none => rfl
  | some longest =>
    have hlength : norm (scale (-share) v) = share * norm v := by
      rw [show scale (-share) v = -scale share v from ext_get (by simp), Linear.norm_neg,
        norm_scale hshare.le]
    simp only [capStep, hlength, Option.elim_some]
    split_ifs with hlong
    · -- the step is shortened, and what remains does not depend on how long it was
      have hrest : longest / (share * norm v) * -share = -(longest / norm v) := by
        field_simp
      rw [min_eq_right ((div_le_iff₀ hv).2 hlong.le)]
      exact ext_get (by rw [get_scale, get_scale, get_scale, smul_smul, hrest])
    · rw [min_eq_left ((le_div_iff₀ hv).2 (not_lt.1 hlong))]

/-! ## What is left of the way -/

namespace Settings

/-- The part of a way of the given length that a step goes, when some part of it is left. The
damping holds back a share of what is left, and the longest step bounds the length that is gone. -/
noncomputable def stride (s : Settings ℝ) (length left : ℝ) : ℝ :=
  let held := s.damping ^ 2 / (1 + s.damping ^ 2)
  s.maxStep.elim ((1 - held) * left) fun longest => min ((1 - held) * left) (longest / length)

/-- The part of a way of the given length that is left after some steps. -/
noncomputable def left (s : Settings ℝ) (length : ℝ) : Nat → ℝ
  | 0 => 1
  | k + 1 => s.left length k - s.stride length (s.left length k)

variable {s : Settings ℝ} {length part : ℝ}

/-- What the damping does not hold back. -/
theorem one_sub_held (damping : ℝ) :
    1 - damping ^ 2 / (1 + damping ^ 2) = 1 / (1 + damping ^ 2) := by
  have hne : 1 + damping ^ 2 ≠ 0 := by positivity
  field_simp
  ring

/-- A stride is the damped share of what is left, or what the longest step allows. -/
theorem stride_eq (s : Settings ℝ) (length part : ℝ) : s.stride length part =
    s.maxStep.elim (1 / (1 + s.damping ^ 2) * part) fun longest =>
      min (1 / (1 + s.damping ^ 2) * part) (longest / length) := by
  rw [stride, one_sub_held]

/-- No step goes further than to the end of the way. -/
theorem stride_le (s : Settings ℝ) (length : ℝ) (hpart : 0 ≤ part) :
    s.stride length part ≤ part := by
  have hshare : 1 / (1 + s.damping ^ 2) ≤ 1 := by
    rw [div_le_one (by positivity)]
    exact le_add_of_nonneg_right (sq_nonneg _)
  have hle : 1 / (1 + s.damping ^ 2) * part ≤ part := mul_le_of_le_one_left hpart hshare
  -- a longest step only takes away from what the damping allows
  rw [stride_eq]
  cases s.maxStep with
  | none => exact hle
  | some longest => exact (min_le_left _ _).trans hle

variable (hs : s.Valid)
include hs

/-- A step goes some way, as long as anything is left. -/
theorem stride_pos (hlength : 0 < length) (hpart : 0 < part) : 0 < s.stride length part := by
  have hwhole : 0 < 1 / (1 + s.damping ^ 2) * part := by positivity
  rw [stride_eq]
  cases hlongest : s.maxStep with
  | none => exact hwhole
  | some longest => exact lt_min hwhole (div_pos (hs.maxStep_pos longest hlongest) hlength)

/-- A stride does not go backwards. -/
theorem stride_nonneg (hlength : 0 ≤ length) (hpart : 0 ≤ part) : 0 ≤ s.stride length part := by
  have hwhole : 0 ≤ 1 / (1 + s.damping ^ 2) * part := by positivity
  rw [stride_eq]
  cases hlongest : s.maxStep with
  | none => exact hwhole
  | some longest => exact le_min hwhole (div_nonneg (hs.maxStep_pos longest hlongest).le hlength)

omit hs in
/-- What is left is never negative, so that no stride goes too far. -/
theorem left_nonneg (s : Settings ℝ) (length : ℝ) (k : Nat) : 0 ≤ s.left length k := by
  induction k with
  | zero => exact zero_le_one
  | succ k ih => exact sub_nonneg.2 (stride_le s length ih)

omit hs in
/-- Without a damping and a longest step nothing is left after one step. -/
theorem left_one_of_undamped (hdamping : s.damping = 0) (hlongest : s.maxStep = none)
    (length : ℝ) : s.left length 1 = 0 := by
  rw [left, left, stride_eq, hdamping, hlongest]
  norm_num

/-- Where an error is long, there is a way, and some of it is left. -/
theorem pos_of_tolerance_le (hlength : 0 ≤ length) {k : Nat}
    (hlong : s.tolerance ≤ s.left length k * length) : 0 < s.left length k ∧ 0 < length := by
  have hpos : 0 < s.left length k * length := hs.tolerance_pos.trans_le hlong
  exact ⟨pos_of_mul_pos_left hpos hlength, pos_of_mul_pos_right hpos (left_nonneg s length k)⟩

/-- What is left never grows. -/
theorem left_succ_le (hlength : 0 ≤ length) (k : Nat) : s.left length (k + 1) ≤ s.left length k :=
  sub_le_self _ (stride_nonneg hs hlength (left_nonneg s length k))

/-- As long as anything is left, it becomes less. -/
theorem left_succ_lt (hlength : 0 < length) {k : Nat} (hleft : 0 < s.left length k) :
    s.left length (k + 1) < s.left length k :=
  sub_lt_self _ (stride_pos hs hlength hleft)

end Settings

/-! ## The step -/

/-- A damping that is not negative is squared as it is. -/
theorem dampingSquare_of_nonneg {damping : ℝ} (h : 0 ≤ damping) :
    dampingSquare damping = damping ^ 2 := by
  unfold dampingSquare
  split_ifs with hpos
  · rfl
  · rw [le_antisymm (not_lt.1 hpos) h, zero_pow two_ne_zero]

namespace JointLimits

variable {limits : JointLimits ℝ n}
  (hordered : ∀ i, limits.lower.get i ≤ limits.upper.get i) (q : Vector ℝ n)

/-- The gradients of joint limits are the rows of a diagonal matrix. -/
theorem jacobian_eq_rows (limits : JointLimits ℝ n) (q : Vector ℝ n) :
    Leaf.jacobian (.jointLimits limits) q = .ok (rows (.diagonal fun i =>
      (limits.interval i).slope (q.get i))) := by
  rw [jacobian_eq_ok, rows, List.ofFn_eq_map]
  refine congrArg Except.ok (List.map_congr_left fun i _ => ext_get (funext fun k => ?_))
  simp [diagonal_apply, interval]

include hordered

/-- The step goes towards the nearest configuration, all the way without a damping. -/
theorem isStep_towards {square : ℝ} (hsquare : 0 ≤ square) :
    IsStep square (rows (.diagonal fun i => (limits.interval i).slope (q.get i)))
      (q - limits.nearest q).toList (scale (-(1 / (1 + square))) (q - limits.nearest q)) := by
  set e := q - limits.nearest q with he
  set J : Matrix (Fin n) (Fin n) ℝ :=
    .diagonal fun i => (limits.interval i).slope (q.get i) with hJ
  have hsymmetric : Jᵀ = J := diagonal_transpose _
  -- the gradients keep the error as it is
  have hkeep : J *ᵥ e.get = e.get := by
    funext i
    rw [hJ, mulVec_diagonal, he, limits.get_sub_nearest q hordered,
      Interval.slope_mul_excess (hordered i)]
  constructor
  · -- what the gradients keep lies in their span
    rw [mem_span_rows_iff]
    exact ⟨-(1 / (1 + square)) • e.get, by rw [hsymmetric, mulVec_smul, hkeep, get_scale]⟩
  · have htoList : e.toList = List.ofFn e.get := by
      rw [← Vector.toList_ofFn, ofFn_get]
    have hwhole : -(1 / (1 + square)) + square * -(1 / (1 + square)) = -1 := by
      field_simp
      ring
    rw [htoList, normalMatrix_rows, get_pullback_rows, hsymmetric, hkeep, get_scale, mulVec_smul,
      ← mulVec_mulVec, hkeep, hkeep, smul_smul, ← add_smul, hwhole, neg_one_smul]

/-- The Newton step of joint limits. -/
theorem next_eq {s : Settings ℝ} (hs : s.Valid) :
    (Constraint.ofJointLimits limits).residual.next s q (q - limits.nearest q).toList =
      .ok (some (q + capStep s.maxStep
        (scale (-(1 / (1 + s.damping ^ 2))) (q - limits.nearest q)))) := by
  have hjacobian : (Constraint.ofJointLimits limits).residual.jacobian q = _ :=
    jacobian_eq_rows limits q
  have hlength : (rows (.diagonal fun i => (limits.interval i).slope (q.get i))).length =
      (q - limits.nearest q).toList.length := by simp
  -- the step that is computed solves the same normal equations, and they have one solution
  obtain ⟨step, hstep, hsolves⟩ := exists_newtonStep s.damping hlength
  rw [dampingSquare_of_nonneg hs.damping_nonneg] at hsolves
  obtain rfl := hsolves.unique (isStep_towards hordered q (sq_nonneg _)) (sq_nonneg _) rfl rfl
  simp only [Residual.next, hjacobian, hstep, bind, Except.bind]
  rfl

end JointLimits

/-! ## The way to the nearest configuration -/

namespace JointLimits

/-- The configuration on the straight way to the nearest one within limits where a part of the way
is left. -/
noncomputable def onWay (limits : JointLimits ℝ n) (q : Vector ℝ n) (left : ℝ) : Vector ℝ n :=
  limits.nearest q + scale left (q - limits.nearest q)

section
variable (limits : JointLimits ℝ n) (q : Vector ℝ n)

/-- On the way each joint has its share of the distance to the nearest configuration left. -/
theorem get_onWay (left : ℝ) (i : Fin n) : (limits.onWay q left).get i =
    (limits.nearest q).get i + left * (q.get i - (limits.nearest q).get i) := by
  simp [onWay]

/-- The way starts at the configuration. -/
@[simp] theorem onWay_one : limits.onWay q 1 = q := by
  apply ext_get
  funext i
  rw [get_onWay, one_mul, add_sub_cancel]

/-- It ends at the nearest configuration within the limits. -/
@[simp] theorem onWay_zero : limits.onWay q 0 = limits.nearest q := by
  apply ext_get
  funext i
  rw [get_onWay, zero_mul, add_zero]

end

variable {limits : JointLimits ℝ n}
  (hordered : ∀ i, limits.lower.get i ≤ limits.upper.get i) (q : Vector ℝ n) {left : ℝ}
include hordered

/-- On the way the nearest configuration stays the same. -/
theorem nearest_onWay (hleft : 0 ≤ left) :
    limits.nearest (limits.onWay q left) = limits.nearest q := by
  apply ext_get
  funext i
  rw [get_nearest, get_onWay, get_nearest]
  exact Interval.clamp_onWay (hordered i) (q.get i) hleft

/-- The error on the way is what is left of it. -/
theorem onWay_sub_nearest (hleft : 0 ≤ left) :
    limits.onWay q left - limits.nearest (limits.onWay q left) =
      scale left (q - limits.nearest q) := by
  rw [nearest_onWay hordered q hleft]
  apply ext_get
  rw [onWay, get_sub, get_add, add_sub_cancel_left]

/-- The error on the way is the share that is left of the error at its start. -/
theorem evaluate_onWay (hleft : 0 ≤ left) :
    (Constraint.ofJointLimits limits).residual.evaluate (limits.onWay q left) =
      .ok (scale left (q - limits.nearest q)).toList := by
  rw [← onWay_sub_nearest hordered q hleft]
  exact evaluate_eq_sub_nearest limits _ hordered

/-- What an iteration finds on the way: the length of what is left, and a configuration further on,
which is nearer by the stride. -/
theorem find_onWay {s : Settings ℝ} (hs : s.Valid) (hlength : 0 < norm (q - limits.nearest q))
    (hleft : 0 < left) :
    (Constraint.ofJointLimits limits).residual.find s (limits.onWay q left) =
      .ok ⟨left * norm (q - limits.nearest q), .ok (some
        (limits.onWay q (left - s.stride (norm (q - limits.nearest q)) left)))⟩ := by
  rw [Residual.find_eq_ok (evaluate_onWay hordered q hleft.le),
    ← onWay_sub_nearest hordered q hleft.le, next_eq hordered _ hs,
    onWay_sub_nearest hordered q hleft.le, rowsNorm_toList_scale hleft.le]
  -- the capped step is a stride
  have hstride : capStep s.maxStep (scale (-(1 / (1 + s.damping ^ 2)))
      (scale left (q - limits.nearest q))) =
        scale (-s.stride (norm (q - limits.nearest q)) left) (q - limits.nearest q) := by
    have hshare : 0 < 1 / (1 + s.damping ^ 2) * left := by positivity
    have hscale : scale (-(1 / (1 + s.damping ^ 2))) (scale left (q - limits.nearest q)) =
        scale (-(1 / (1 + s.damping ^ 2) * left)) (q - limits.nearest q) :=
      ext_get (by rw [get_scale, get_scale, get_scale, smul_smul, neg_mul])
    rw [hscale, capStep_scale hlength hshare, Settings.stride_eq]
  -- and a stride further there is less of the way left
  have hmoved : limits.onWay q left + scale (-s.stride (norm (q - limits.nearest q)) left)
      (q - limits.nearest q) =
        limits.onWay q (left - s.stride (norm (q - limits.nearest q)) left) := by
    apply ext_get
    simp only [onWay, get_add, get_scale, add_assoc, ← add_smul, ← sub_eq_add_neg]
  rw [hstride, hmoved]

/-! ## Runs -/

/-- A run from a configuration on the way stops at the first one where what is left is shorter than
the tolerance, or when no budget is left. -/
theorem run_onWay {s : Settings ℝ} (hs : s.Valid) (budget k : Nat) :
    let length := norm (q - limits.nearest q)
    ∃ last, k ≤ last ∧ last ≤ k + budget ∧
      (∀ j, k ≤ j → j < last → s.tolerance ≤ s.left length j * length) ∧
      (last = k + budget ∨ s.left length last * length < s.tolerance) ∧
      (Constraint.ofJointLimits limits).residual.run s budget
          (limits.onWay q (s.left length k)) k =
        .ok (Residual.finish s (limits.onWay q (s.left length last))
          (s.left length last * length) last) := by
  intro length
  have herror (k : Nat) := evaluate_onWay hordered q (s.left_nonneg length k)
  have hnorm (k : Nat) := rowsNorm_toList_scale (s.left_nonneg length k) (q - limits.nearest q)
  -- the number of steps taken determines where on the way the run is
  induction budget generalizing k with
  | zero =>
    refine ⟨k, le_rfl, le_rfl, fun j hk hj => absurd hk (not_le.2 hj), .inl rfl, ?_⟩
    rw [Residual.run_zero k (herror k), hnorm]
  | succ budget ih =>
    by_cases hlong : s.tolerance ≤ s.left length k * length
    · obtain ⟨hleft, hlength⟩ := Settings.pos_of_tolerance_le hs (zero_le_norm _) hlong
      obtain ⟨last, hk, hlast, hbefore, hend, hrun⟩ := ih (k + 1)
      refine ⟨last, by omega, by omega, fun j hj hjlast => ?_, ?_, ?_⟩
      · obtain rfl | hlater := Nat.eq_or_lt_of_le hj
        · exact hlong
        · exact hbefore j hlater hjlast
      · exact hend.imp_left fun h => by omega
      · rw [Residual.run_succ_of_find (find_onWay hordered q hs hlength hleft) _ _ hlong]
        exact hrun
    · refine ⟨k, le_rfl, by omega, fun j hk hj => absurd hk (not_le.2 hj),
        .inr (not_le.1 hlong), ?_⟩
      rw [← hnorm k] at hlong
      rw [Residual.run_of_not_le _ k (herror k) hlong, hnorm]

/-- Without a damping and a longest step, a single step leads to the nearest configuration. -/
theorem project_undamped {s : Settings ℝ} (hs : s.Valid) (hdamping : s.damping = 0)
    (hlongest : s.maxStep = none) (hfar : s.tolerance ≤ norm (q - limits.nearest q)) :
    (Constraint.ofJointLimits limits).residual.project s q =
      .ok ⟨.success, limits.nearest q, 0, 1⟩ := by
  obtain ⟨last, -, hlast, hbefore, hend, hrun⟩ := run_onWay hordered q hs s.maxIterations 0
  have htolerance := hs.tolerance_pos
  have hpositive := hs.maxIterations_pos
  have hdone : s.left (norm (q - limits.nearest q)) 1 = 0 :=
    Settings.left_one_of_undamped hdamping hlongest _
  -- at the start the error is long, and after one step it is zero
  have hnonzero : last ≠ 0 := by
    rintro rfl
    rw [Settings.left, one_mul] at hend
    obtain hend | hend := hend
    · omega
    · exact absurd hend (not_lt.2 hfar)
  have hone : ¬1 < last := by
    intro hlt
    have hlong := hbefore 1 (Nat.zero_le 1) hlt
    rw [hdone, zero_mul] at hlong
    linarith
  obtain rfl : last = 1 := by omega
  rw [hdone, onWay_zero, zero_mul, Settings.left, onWay_one] at hrun
  rw [Residual.project, hrun, Residual.finish, if_pos htolerance]

/-- The projection of a configuration onto joint limits in closed form. Its iterates lie on the
straight way to the configuration within the limits that is nearest, which is where it would be
moved. What is left of the way is the length of the error, and gets shorter until nothing is left,
while each joint approaches the bound that is nearer, and a joint within its limits rests. The
projection ends at the first iterate that is nearer than the tolerance or when the budget is spent;
without a damping and a longest step, one step leads to the nearest configuration. -/
theorem project_eq_onWay {s : Settings ℝ} (hs : s.Valid) :
    let r := (Constraint.ofJointLimits limits).residual
    let length := norm (q - limits.nearest q)
    let left := s.left length
    let iterate (k : Nat) := limits.onWay q (left k)
    (Tensor.ofConfiguration q).enforceBounds (.ofConfiguration limits.lower)
        (.ofConfiguration limits.upper) = .ok (.ofConfiguration (limits.nearest q)) ∧
    iterate 0 = q ∧
    (∀ k, s.tolerance ≤ left k * length →
      r.find s (iterate k) = .ok ⟨left k * length, .ok (some (iterate (k + 1)))⟩) ∧
    (∃ last ≤ s.maxIterations, (∀ k < last, s.tolerance ≤ left k * length) ∧
      (last = s.maxIterations ∨ left last * length < s.tolerance) ∧
      r.project s q = .ok (Residual.finish s (iterate last) (left last * length) last)) ∧
    (∀ k, 0 ≤ left k * length ∧
      (0 < left k * length → left (k + 1) * length < left k * length)) ∧
    (∀ k i, (limits.interval i).Approaches (q.get i) ((iterate k).get i)
      ((iterate (k + 1)).get i)) ∧
    (s.damping = 0 → s.maxStep = none → s.tolerance ≤ length →
      r.project s q = .ok ⟨.success, limits.nearest q, 0, 1⟩) := by
  intro r length left iterate
  have hlength : 0 ≤ length := zero_le_norm _
  have hleft (k : Nat) : 0 ≤ left k := s.left_nonneg length k
  refine ⟨limits.enforceBounds_eq_nearest q, limits.onWay_one q, fun k hlong => ?_, ?_,
    fun k => ⟨mul_nonneg (hleft k) hlength, fun hpos => ?_⟩, fun k i => ?_,
    project_undamped hordered q hs⟩
  · -- where the error is long there is a way left to go
    obtain ⟨hpos, hway⟩ := Settings.pos_of_tolerance_le hs hlength hlong
    exact find_onWay hordered q hs hway hpos
  · -- the run starts with all of the way
    obtain ⟨last, -, hlast, hbefore, hend, hrun⟩ := run_onWay hordered q hs s.maxIterations 0
    rw [Nat.zero_add] at hlast hend
    rw [Settings.left, onWay_one] at hrun
    exact ⟨last, hlast, fun k hk => hbefore k (Nat.zero_le k) hk, hend, hrun⟩
  · -- each stride leaves less
    have hway : 0 < length := pos_of_mul_pos_right hpos (hleft k)
    exact mul_lt_mul_of_pos_right
      (Settings.left_succ_lt hs hway (pos_of_mul_pos_left hpos hlength)) hway
  · simp only [iterate, get_onWay, get_nearest]
    exact Interval.approaches_onWay (hordered i) (q.get i) (hleft (k + 1))
      (Settings.left_succ_le hs hlength k)

end JointLimits

/-- A joint that is one too far is moved back by one, in one step. -/
theorem JointLimits.project_eq_onWay_range :
    let s : Settings ℝ := { Settings.standard with damping := 0 }
    (∀ i, rangeLimits.lower.get i ≤ rangeLimits.upper.get i) ∧ s.Valid ∧
    (Constraint.ofJointLimits rangeLimits).residual.project s (.ofFn ![1 + 1, 0]) =
      .ok ⟨.success, .ofFn ![1, 0], 0, 1⟩ := by
  intro s
  have hordered : ∀ i, rangeLimits.lower.get i ≤ rangeLimits.upper.get i := by
    intro i
    fin_cases i <;> simp [rangeLimits]
  have hvalid : s.Valid := { Settings.valid_standard with damping_nonneg := le_rfl }
  have hnearest : rangeLimits.nearest (.ofFn ![1 + 1, 0]) = .ofFn ![1, 0] := by
    apply ext_get
    funext i
    fin_cases i <;> norm_num [nearest, rangeLimits]
  -- the first joint is one beyond its limit
  have hfar : s.tolerance ≤ norm (.ofFn ![1 + 1, 0] - rangeLimits.nearest (.ofFn ![1 + 1, 0])) := by
    have hentry := abs_get_le_norm
      (.ofFn ![1 + 1, 0] - rangeLimits.nearest (.ofFn ![1 + 1, 0])) 0
    rw [hnearest] at hentry ⊢
    refine le_trans ?_ hentry
    norm_num [s, Settings.standard]
  obtain ⟨-, -, -, -, -, -, hundamped⟩ := project_eq_onWay hordered (.ofFn ![1 + 1, 0]) hvalid
  refine ⟨hordered, hvalid, ?_⟩
  rw [hundamped rfl rfl hfar, hnearest]

end KinematicManifold
