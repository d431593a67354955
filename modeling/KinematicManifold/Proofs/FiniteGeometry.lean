import KinematicManifold.Kinematics.Chain
import KinematicManifold.Linear.Basic
import KinematicManifold.Proofs.ExtendedReals
import KinematicManifold.Proofs.PolarRounds

/-!
# Geometry of finite numbers

Vectors, matrices and quaternions of finite numbers are computed with as those of real numbers are,
and are finite again. Only quotients need a word. What is divided by is never zero: the nearest
orthogonal matrix is sought of right-handed matrices alone, the quaternion of a matrix is no shorter
than one, and an axis that is accepted is not all but zero.

So a link of a chain stands at a finite pose, and a finite matrix that has a rotation vector has a
finite one.

## Key results

- `Vec3.extended`, `Mat3.extended`, `Quaternion.extended`: finite numbers in place of real ones
- `Mat3.extended_nearestOrthogonal`: all rounds towards the nearest orthogonal matrix
- `Rotation.extended_log?`, `Rotation.extended_exp`: rotation vectors
- `Chain.isFinite_linkPose`: the links of a chain
-/

namespace KinematicManifold

open Extended (real)

/-! ## Vectors -/

namespace Vec3

/-- A vector of finite numbers. -/
def extended (v : Vec3 ℝ) : Vec3 Extended := ⟨real v.x, real v.y, real v.z⟩

variable (u v : Vec3 ℝ) (c : ℝ)

@[simp] theorem extended_add : u.extended + v.extended = (u + v).extended := rfl
@[simp] theorem extended_sub : u.extended - v.extended = (u - v).extended := rfl
@[simp] theorem extended_scale : scale (real c) v.extended = (scale c v).extended := rfl
@[simp] theorem extended_cross : u.extended.cross v.extended = (u.cross v).extended := rfl
@[simp] theorem extended_dot : u.extended.dot v.extended = real (u.dot v) := rfl

@[simp] theorem extended_norm : v.extended.norm = real v.norm := by
  have hnonneg : 0 ≤ v.dot v :=
    add_nonneg (add_nonneg (mul_self_nonneg v.x) (mul_self_nonneg v.y)) (mul_self_nonneg v.z)
  rw [norm, extended_dot, Extended.sqrt_real _ hnonneg]
  rfl

/-- Division by a number that is not zero stays among the finite vectors. -/
theorem extended_divide {c : ℝ} (h : c ≠ 0) :
    v.extended.divide (real c) = (v.divide c).extended := by
  simp only [divide, extended, Extended.real_div _ _ h]

@[simp] theorem extended_largest : v.extended.largest = real v.largest := by
  simp only [largest, extended, Extended.abs_real, Extended.larger_real]

@[simp] theorem extended_productDescending :
    v.extended.productDescending = real v.productDescending := by
  simp only [productDescending, extended, Extended.larger_real, Extended.smaller_real,
    Extended.real_mul]

end Vec3

/-! ## Matrices -/

namespace Mat3

/-- A matrix of finite numbers. -/
def extended (m : Mat3 ℝ) : Mat3 Extended :=
  ⟨real m.xx, real m.xy, real m.xz, real m.yx, real m.yy, real m.yz, real m.zx, real m.zy,
    real m.zz⟩

variable (m n : Mat3 ℝ) (v : Vec3 ℝ) (c : ℝ)

@[simp] theorem extended_mul : m.extended * n.extended = (m * n).extended := rfl
@[simp] theorem extended_add : m.extended + n.extended = (m + n).extended := rfl
@[simp] theorem extended_scale : scale (real c) m.extended = (scale c m).extended := rfl
@[simp] theorem extended_transpose : m.extended.transpose = m.transpose.extended := rfl
@[simp] theorem extended_apply : m.extended.apply v.extended = (m.apply v).extended := rfl
@[simp] theorem extended_cofactors : m.extended.cofactors = m.cofactors.extended := rfl
@[simp] theorem extended_det : m.extended.det = real m.det := rfl
@[simp] theorem extended_trace : m.extended.trace = real m.trace := rfl

/-- The rows of a finite matrix are finite. -/
theorem extended_row (a : Axis) : m.extended.row a = (m.row a).extended := by cases a <;> rfl

@[simp] theorem extended_largest : m.extended.largest = real m.largest := by
  simp only [largest, extended_row, Vec3.extended_largest]
  exact Vec3.extended_largest ⟨(m.row .x).largest, (m.row .y).largest, (m.row .z).largest⟩

@[simp] theorem extended_rowSizes : m.extended.rowSizes = m.rowSizes.extended := by
  simp only [rowSizes, extended_row, Vec3.extended_largest]
  simp only [Vec3.map, Vec3.extended, Extended.isZero_real, Extended.real_one, apply_ite real]

/-- Dividing the rows by sizes that are not zero keeps a matrix finite. -/
theorem extended_divideRows {sizes : Vec3 ℝ} (hx : sizes.x ≠ 0) (hy : sizes.y ≠ 0)
    (hz : sizes.z ≠ 0) : m.extended.divideRows sizes.extended = (m.divideRows sizes).extended := by
  simp only [divideRows, extended_row, Vec3.extended, Extended.real_div _ _ hx,
    Extended.real_div _ _ hy, Extended.real_div _ _ hz, Vec3.divide]
  rfl

/-- Dividing the columns by sizes that are not zero keeps a matrix finite. -/
theorem extended_divideCols {sizes : Vec3 ℝ} (hx : sizes.x ≠ 0) (hy : sizes.y ≠ 0)
    (hz : sizes.z ≠ 0) : m.extended.divideCols sizes.extended = (m.divideCols sizes).extended := by
  have h := m.transpose.extended_divideRows hx hy hz
  exact congrArg transpose h

/-- Finite matrices are right-handed or not as real ones are. -/
@[simp] theorem extended_isRightHanded : m.extended.isRightHanded = m.isRightHanded := by
  -- the sizes of the rows are positive, so that they can be divided out
  obtain ⟨hx, hy, hz⟩ := m.rowSizes_pos
  simp only [isRightHanded, extended_rowSizes, m.extended_divideRows hx.ne' hy.ne' hz.ne',
    extended_det, Vec3.extended_productDescending, Extended.real_mul, Extended.real_zero,
    Extended.real_le]

/-! ### The nearest orthogonal matrix -/

variable {m}

/-- A finite matrix of positive determinant has a finite inverse. -/
theorem extended_inverseTranspose (h : 0 < m.det) :
    m.extended.inverseTranspose = m.inverseTranspose.extended := by
  obtain ⟨hx, hy, hz⟩ := m.rowSizes_pos
  obtain ⟨hx', hy', hz'⟩ := (m.divideRows m.rowSizes).transpose.rowSizes_pos
  -- a positive determinant stays positive when the sizes are divided out
  have hdet : ((m.divideRows m.rowSizes).divideCols
      (m.divideRows m.rowSizes).transpose.rowSizes).det ≠ 0 := by
    rw [det_divideCols, det_divideRows]
    positivity
  simp only [inverseTranspose, extended_rowSizes, extended_divideRows _ hx.ne' hy.ne' hz.ne',
    extended_transpose, extended_divideCols _ hx'.ne' hy'.ne' hz'.ne', extended_cofactors,
    extended_det, Extended.real_one, Extended.real_div _ _ hdet, extended_scale]

/-- A round of a right-handed matrix divides by nothing that is zero. -/
theorem extended_polarRound (h : 0 < m.det) : m.extended.polarRound = m.polarRound.extended := by
  obtain ⟨hinverse, hsize⟩ := sqrt_largest_pos h
  have hfactor := div_pos hinverse hsize
  have hsqrt (n : Mat3 ℝ) (hn : 0 < Scalar.sqrt n.largest) :
      Scalar.sqrt (real n.largest) = real (Scalar.sqrt n.largest) :=
    Extended.sqrt_real _ (Real.sqrt_pos.1 hn).le
  -- no quotient has a zero below, so that all stay real
  simp only [polarRound, extended_inverseTranspose h, extended_largest, hsqrt _ hinverse,
    hsqrt _ hsize, Extended.real_div _ _ hsize.ne', Extended.real_one,
    Extended.real_div _ _ hfactor.ne', extended_scale, extended_add]
  rfl

/-- The iteration for the nearest orthogonal matrix stays among the finite matrices. -/
theorem extended_nearestOrthogonal (h : 0 < m.det) :
    m.extended.nearestOrthogonal = m.nearestOrthogonal.extended := by
  -- the determinant stays positive through all rounds
  have hrounds (count : Nat) : Nat.repeat polarRound count m.extended =
      (Nat.repeat polarRound count m).extended ∧ 0 < (Nat.repeat polarRound count m).det := by
    induction count with
    | zero => exact ⟨rfl, h⟩
    | succ count ih =>
      refine ⟨?_, det_polarRound_pos ih.2⟩
      rw [Nat.repeat, ih.1, extended_polarRound ih.2, Nat.repeat]
  exact (hrounds 30).1

end Mat3

/-! ## Quaternions -/

namespace Quaternion

/-- A quaternion of finite numbers. -/
def extended (q : Quaternion ℝ) : Quaternion Extended := ⟨real q.w, real q.x, real q.y, real q.z⟩

variable (q : Quaternion ℝ) (m : Mat3 ℝ)

@[simp] theorem extended_neg : -q.extended = (-q).extended := rfl
@[simp] theorem extended_normSq : q.extended.normSq = real q.normSq := rfl
@[simp] theorem extended_toMat3 : q.extended.toMat3 = q.toMat3.extended := rfl

@[simp] theorem extended_norm : q.extended.norm = real q.norm := by
  rw [norm, extended_normSq, Extended.sqrt_real _ q.normSq_nonneg]
  rfl

variable {q} in
/-- Division by a number that is not zero stays among the finite quaternions. -/
theorem extended_divide {c : ℝ} (h : c ≠ 0) :
    q.extended.divide (real c) = (q.divide c).extended := by
  simp only [divide, extended, Extended.real_div _ _ h]

@[simp] theorem extended_byLargest : byLargest m.extended = (byLargest m).extended := by
  simp only [byLargest, Mat3.extended_trace, apply_ite extended]
  simp only [Mat3.extended, Extended.real_le]
  rfl

/-- The entry that a quaternion is found by is no less than the others and the trace. -/
theorem byLargest_cases :
    (m.yy ≤ m.xx ∧ m.zz ≤ m.xx ∧ m.trace ≤ m.xx) ∧ byLargest m = byX m ∨
    (m.xx ≤ m.yy ∧ m.zz ≤ m.yy ∧ m.trace ≤ m.yy) ∧ byLargest m = byY m ∨
    (m.xx ≤ m.zz ∧ m.yy ≤ m.zz ∧ m.trace ≤ m.zz) ∧ byLargest m = byZ m ∨
    (m.xx ≤ m.trace ∧ m.yy ≤ m.trace ∧ m.zz ≤ m.trace) ∧ byLargest m = byReal m := by
  unfold byLargest
  generalize m.trace = trace
  split_ifs with hx hy hz
  · exact .inl ⟨hx, rfl⟩
  · exact .inr (.inl ⟨by grind, rfl⟩)
  · exact .inr (.inr (.inl ⟨by grind, rfl⟩))
  · exact .inr (.inr (.inr ⟨by grind, rfl⟩))

/-- One component of the quaternion is one at least, so that it has a length to be divided by. -/
theorem one_le_normSq_byLargest : 1 ≤ (byLargest m).normSq := by
  -- in every case the entry that leads is no less than the others add up to
  have hlead : 1 ≤ (byLargest m).w ∨ 1 ≤ (byLargest m).x ∨ 1 ≤ (byLargest m).y ∨
      1 ≤ (byLargest m).z := by
    rcases byLargest_cases m with ⟨h, heq⟩ | ⟨h, heq⟩ | ⟨h, heq⟩ | ⟨h, heq⟩ <;>
      simp only [heq, byX, byY, byZ, byReal, Mat3.trace, Scalar.two_literal] at h ⊢
    · exact .inr (.inl (by linarith))
    · exact .inr (.inr (.inl (by linarith)))
    · exact .inr (.inr (.inr (by linarith)))
    · exact .inl (by linarith)
  have hw := mul_self_nonneg (byLargest m).w
  have hx := mul_self_nonneg (byLargest m).x
  have hy := mul_self_nonneg (byLargest m).y
  have hz := mul_self_nonneg (byLargest m).z
  have hsquare {a : ℝ} (ha : 1 ≤ a) : 1 ≤ a * a := one_le_mul_of_one_le_of_one_le ha ha
  rw [normSq]
  rcases hlead with h | h | h | h <;> linarith [hsquare h]

/-- The quaternion read from a matrix is not zero, whatever the matrix is. -/
theorem norm_byLargest_pos : 0 < (byLargest m).norm :=
  Real.sqrt_pos.2 (one_pos.trans_le (one_le_normSq_byLargest m))

/-- Every finite matrix has a finite quaternion, orthogonal or not. -/
@[simp] theorem extended_ofOrthogonal : ofOrthogonal m.extended = (ofOrthogonal m).extended := by
  simp only [ofOrthogonal, extended_byLargest, extended_norm,
    extended_divide (norm_byLargest_pos m).ne']

@[simp] theorem extended_canonical : q.extended.canonical = q.canonical.extended := by
  have hcanonical : q.extended.isCanonical = q.isCanonical := by
    simp only [isCanonical, extended, Extended.real_zero, Extended.real_lt, Extended.isZero_real]
  simp only [canonical, hcanonical, extended_neg, apply_ite extended]

end Quaternion

/-! ## Rotations -/

namespace Rotation

variable (m : Mat3 ℝ) (q : Quaternion ℝ) (v : Vec3 ℝ)

/-- Whether a finite matrix counts as orthogonal is decided as over the reals. -/
theorem extended_isOrthogonal : isOrthogonal m.extended = isOrthogonal m := by
  have hnear (target a : ℝ) : near (real target) (real a) = near target a := by
    simp only [near, Extended.real_sub, Extended.abs_real]
    exact decide_eq_decide.2 (Extended.real_le _ _)
  simp only [isOrthogonal, Mat3.extended_transpose, Mat3.extended_mul]
  simp only [Mat3.extended, Extended.real_one, Extended.real_zero, hnear, List.all_cons,
    List.all_nil]

/-- The quaternion of a finite matrix is that over the reals, faults included. -/
theorem extended_quaternion :
    quaternion m.extended = (quaternion m).map Quaternion.extended := by
  simp only [quaternion, Mat3.extended_isRightHanded, extended_isOrthogonal]
  split_ifs with hright horthogonal
  · rw [Quaternion.extended_ofOrthogonal]
    rfl
  · rw [Mat3.extended_nearestOrthogonal (Mat3.isRightHanded_iff.1 hright),
      Quaternion.extended_ofOrthogonal]
    rfl
  · rfl

/-- The logarithm of a finite quaternion is that over the reals. -/
theorem extended_logQuaternion : logQuaternion q.extended = (logQuaternion q).extended := by
  let axis : Vec3 ℝ := ⟨q.x, q.y, q.z⟩
  let angle : ℝ := 2.0 * Scalar.atan2 axis.norm q.w
  let sine : ℝ := Scalar.sin (0.5 * angle)
  -- angle and sine are real numbers
  have hangle : 2.0 * Scalar.atan2 axis.extended.norm (real q.w) = real angle := by
    rw [Vec3.extended_norm]
    rfl
  have hsine : Scalar.sin (0.5 * real angle) = real sine := rfl
  have hlog : logQuaternion q =
      axis.scale (if Scalar.isZero sine then 2.0 else angle / sine) := rfl
  have hfinite : logQuaternion q.extended =
      axis.extended.scale (if Scalar.isZero (real sine) then 2.0 else real angle / real sine) := by
    rw [← hsine, ← hangle]
    rfl
  rw [hlog, hfinite, Extended.isZero_real]
  split_ifs with hzero
  · rfl
  · -- the quotient is taken only where the sine is not zero
    have hne : sine ≠ 0 := fun h => hzero ((Scalar.isZero_iff _).2 h)
    rw [Extended.real_div _ _ hne, Vec3.extended_scale]

/-- The logarithm of a finite matrix is that over the reals, faults included. -/
theorem extended_log? : log? m.extended = (log? m).map Vec3.extended := by
  simp only [log?, extended_quaternion]
  cases quaternion m with
  | error fault => rfl
  | ok q =>
    simp only [Except.map, bind, Except.bind, Quaternion.extended_canonical, extended_logQuaternion]
    rfl

/-- The exponential of a finite vector is that over the reals. -/
theorem extended_exp : exp v.extended = (exp v).extended := by
  -- the quotient is taken only where the length is positive
  have hfactor : (if 0 < v.extended.norm then
      Scalar.sin (0.5 * v.extended.norm) / v.extended.norm else 0.5) =
      real (if 0 < v.norm then Scalar.sin (0.5 * v.norm) / v.norm else 0.5) := by
    rw [Vec3.extended_norm]
    simp only [Extended.real_zero, Extended.real_lt]
    split_ifs with hpos
    · exact Extended.real_div _ _ hpos.ne'
    · rfl
  have hquaternion : expQuaternion v.extended = (expQuaternion v).extended := by
    simp only [expQuaternion, hfactor]
    rw [Vec3.extended_norm]
    rfl
  rw [exp, hquaternion, Quaternion.extended_toMat3, exp]

end Rotation

/-! ## Finite vectors, poses and configurations -/

/-- A vector passes the test if its components are real numbers. -/
theorem Vec3.isFinite_iff_extended {v : Vec3 Extended} :
    v.isFinite = true ↔ ∃ u : Vec3 ℝ, v = u.extended := by
  simp only [isFinite, toList, List.all_cons, List.all_nil, Bool.and_true, Bool.and_eq_true,
    Extended.isFinite_iff]
  constructor
  · rintro ⟨⟨x, hx⟩, ⟨y, hy⟩, z, hz⟩
    exact ⟨⟨x, y, z⟩, Vec3.ext hx hy hz⟩
  · rintro ⟨u, rfl⟩
    exact ⟨⟨u.x, rfl⟩, ⟨u.y, rfl⟩, u.z, rfl⟩

/-- The parts of a finite vector are real numbers. -/
theorem Vec3.exists_real_along {v : Vec3 Extended} (h : v.isFinite = true) (a : Axis) :
    ∃ x, v.along a = real x := by
  obtain ⟨u, rfl⟩ := isFinite_iff_extended.1 h
  cases a
  · exact ⟨u.x, rfl⟩
  · exact ⟨u.y, rfl⟩
  · exact ⟨u.z, rfl⟩

/-- A configuration passes the test if its entries are real numbers. -/
theorem Linear.isFinite_iff_real {n : Nat} {q : Vector Extended n} :
    Linear.isFinite q = true ↔ ∀ value ∈ q.toList, ∃ x, value = real x := by
  simp only [isFinite, List.all_eq_true, Extended.isFinite_iff]

/-- A configuration is finite exactly when each of its entries is a real number. -/
theorem Linear.isFinite_iff_get {n : Nat} {q : Vector Extended n} :
    Linear.isFinite q = true ↔ ∀ i, ∃ x, q.get i = real x := by
  rw [isFinite_iff_real]
  constructor
  · exact fun h i => h _ (by simp [Vector.get_eq_getElem])
  · intro h value hvalue
    obtain ⟨i, hi, rfl⟩ := List.mem_iff_getElem.1 hvalue
    simpa [Vector.get_eq_getElem] using h ⟨i, by simpa using hi⟩

/-- A quaternion that is normalised is made of finite numbers. -/
theorem Quaternion.exists_extended_of_normalized {q u : Quaternion Extended}
    (h : q.normalized = .ok u) : ∃ u' : Quaternion ℝ, u = u'.extended := by
  obtain ⟨hdirection, rfl⟩ := normalized_eq_ok_iff.1 h
  simp only [hasDirection, Bool.and_eq_true, Bool.not_eq_true', decide_eq_false_iff_not]
    at hdirection
  obtain ⟨hfinite, hlong⟩ := hdirection
  -- a finite length is that of finite components
  obtain ⟨length, hlength⟩ := Extended.isFinite_iff.1 hfinite
  obtain ⟨square, hsquare⟩ := Extended.exists_real_of_sqrt hlength
  obtain ⟨⟨_, hsum⟩, _, hz⟩ := Extended.exists_real_of_add hsquare
  obtain ⟨⟨_, hsum⟩, _, hy⟩ := Extended.exists_real_of_add hsum
  obtain ⟨⟨_, hw⟩, _, hx⟩ := Extended.exists_real_of_add hsum
  obtain ⟨w, hw⟩ := Extended.exists_real_of_mul_self hw
  obtain ⟨x, hx⟩ := Extended.exists_real_of_mul_self hx
  obtain ⟨y, hy⟩ := Extended.exists_real_of_mul_self hy
  obtain ⟨z, hz⟩ := Extended.exists_real_of_mul_self hz
  obtain rfl : q = (⟨w, x, y, z⟩ : Quaternion ℝ).extended := Quaternion.ext hw hx hy hz
  rw [extended_norm] at hlong ⊢
  refine ⟨_, extended_divide fun hzero => hlong ?_⟩
  rw [hzero]
  exact (Extended.real_lt 0 shortest).2 (by norm_num [shortest])

namespace Pose

/-- A pose of finite numbers. -/
def extended (p : Pose ℝ) : Pose Extended := ⟨p.position.extended, p.rotation.extended⟩

/-- A pose that is made of finite numbers. -/
def IsFinite (p : Pose Extended) : Prop := ∃ p' : Pose ℝ, p = p'.extended

/-- The identity is a finite pose. -/
theorem isFinite_identity : (Pose.identity : Pose Extended).IsFinite := ⟨.identity, rfl⟩

end Pose

/-! ## Following joints -/

/-- A joint whose origin and axis are made of finite numbers. -/
structure Joint.IsFinite (j : Joint Extended) : Prop where
  origin : j.origin.IsFinite
  axis : j.axis.isFinite = true

/-- The norm of an array of three real numbers is that of the vector they make. -/
theorem Tensor.norm_of_extended {t : Tensor Extended} {u : Vec3 ℝ}
    (h : t.data = [real u.x, real u.y, real u.z]) : t.norm = u.extended.norm := by
  have hsum : (t.data.map Scalar.square).sum = real (u.dot u) := by
    rw [h, Vec3.dot, add_assoc, ← add_zero (u.z * u.z)]
    rfl
  rw [norm, hsum, Vec3.norm, Vec3.extended_dot]

/-- A joint that is moved to a finite value takes a finite frame to a finite frame. -/
theorem Joint.IsFinite.move {j : Joint Extended} (h : j.IsFinite)
    (hlong : ¬j.axis.norm < shortestAxis) {parent : Pose Extended} (hparent : parent.IsFinite)
    (value : ℝ) : (j.move parent (real value)).IsFinite := by
  obtain ⟨origin, horigin⟩ := h.origin
  obtain ⟨axis, haxis⟩ := Vec3.isFinite_iff_extended.1 h.axis
  obtain ⟨frame, rfl⟩ := hparent
  -- the axis is long enough to be divided by its length
  have hnorm : axis.norm ≠ 0 := by
    intro hzero
    rw [haxis, Vec3.extended_norm, hzero] at hlong
    exact hlong ((Extended.real_lt 0 shortestAxis).2 (by norm_num [shortestAxis]))
  have hdirection : j.direction = (axis.divide axis.norm).extended := by
    rw [direction, haxis, Vec3.unit, Vec3.extended_norm, Vec3.extended_divide _ hnorm]
  have hmount : j.mount frame.extended = (frame.compose origin).extended := by
    rw [mount, horigin]
    rfl
  simp only [Joint.move, hmount, hdirection]
  cases j.kind with
  | revolute =>
    refine ⟨⟨(frame.compose origin).position, (frame.compose origin).rotation *
      Rotation.exp ((axis.divide axis.norm).scale value)⟩, ?_⟩
    simp only [Vec3.extended_scale, Rotation.extended_exp]
    rfl
  | prismatic =>
    exact ⟨⟨(frame.compose origin).position +
      ((frame.compose origin).rotation.apply (axis.divide axis.norm)).scale value,
      (frame.compose origin).rotation⟩, rfl⟩

/-- Following joints, a finite frame is reached. -/
theorem isFinite_placeAlong {start : Pose Extended} (hstart : start.IsFinite)
    {joints : List (Joint Extended × Extended)}
    (h : ∀ entry ∈ joints, (entry.1.IsFinite ∧ ¬entry.1.axis.norm < shortestAxis) ∧
      ∃ value, entry.2 = real value) : (placeAlong start joints).IsFinite := by
  induction joints generalizing start with
  | nil => exact hstart
  | cons entry rest ih =>
    obtain ⟨joint, value⟩ := entry
    rw [List.forall_mem_cons] at h
    obtain ⟨⟨⟨hjoint, hlong⟩, value, rfl⟩, hrest⟩ := h
    exact ih (hjoint.move hlong hstart value) hrest

/-- A link of a chain stands at a finite pose. -/
theorem Chain.isFinite_linkPose {n : Nat} {c : Chain Extended n}
    (h : ∀ j ∈ c.joints.toList, j.IsFinite ∧ ¬j.axis.norm < shortestAxis) {q : Vector Extended n}
    (hq : Linear.isFinite q = true) (link : Fin (n + 1)) : (c.linkPose q link).IsFinite := by
  refine isFinite_placeAlong Pose.isFinite_identity fun entry hentry => ?_
  -- what is followed up to the link are joints of the chain, with their values
  have hmem : entry ∈ c.joints.toList.zip q.toList := by
    rw [← Vector.toList_zip]
    exact List.mem_of_mem_take hentry
  obtain ⟨hjoint, hvalue⟩ := List.of_mem_zip hmem
  exact ⟨h _ hjoint, Linear.isFinite_iff_real.1 hq _ hvalue⟩

end KinematicManifold
