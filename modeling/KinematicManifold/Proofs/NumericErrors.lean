import KinematicManifold.Proofs.AcceptedInput
import KinematicManifold.Proofs.FiniteGeometry
import KinematicManifold.Proofs.Iterations
import KinematicManifold.Proofs.Satisfaction

/-!
# Errors that are numbers

A projection whose error is no number ends at once and says that its budget is spent. So it matters
which of the numbers that a caller gives may turn an error into what is no number. The constructors
refuse half extents, tolerances and targets that are not finite. They do not look at the offset of a
point, at the pose of a box and at the origins of joints: an offset with a component that is no
number leaves no row a number. If all these and the axes of the joints are finite, everything that
is measured at a finite configuration is finite.

What is left are joint limits. They are refused where the lower one lies above the upper one, which
a limit that is no number never does. Its row is then no number, wherever the joint stands. Infinite
limits do no harm: they are never exceeded, or always.

All of this is over `Extended`, where nothing is rounded and nothing overflows.

## Key results

- `Interval.isNumber_excess_iff`: when the excess over an interval is a number
- `Linear.isNumber_rowsNorm_iff`: when the length of an error is one
- `Link.isFinite_pose`: links on finite joints stand at finite poses
- `BoxConstraint.eq_nan_of_mem_evaluate`: offsets and boxes that are not checked
- `Constraint.Accepted.isNumber_iff`: an error is made of numbers unless a joint limit is none
- `Residual.Visits.isFinite`: a projection stays at finite configurations
- `Constraint.Accepted.numbers_or_ends_at_once`: what this means for projections
-/

namespace KinematicManifold

open Extended (real nan infinite)
open Scalar (IsNumber)

variable {n : Nat}

/-! ## Rows -/

namespace Interval

/-- Between bounds that are not crossed, the excess of a finite value is a number if both bounds
are. An infinite bound is never exceeded, or always. -/
theorem isNumber_excess_iff {i : Interval Extended} (h : ¬i.upper < i.lower) (value : ℝ) :
    IsNumber (i.excess (real value)) ↔ IsNumber i.lower ∧ IsNumber i.upper := by
  obtain ⟨lower, upper⟩ := i
  simp only at h
  simp only [excess, Extended.isNumber_iff, Extended.real_zero]
  rcases lower with _ | ⟨_ | _⟩ | l <;> rcases upper with _ | ⟨_ | _⟩ | u <;> simp
  -- infinities of both signs come from bounds that are crossed
  simp [Extended.lt_iff, Extended.place] at h

/-- Between finite bounds, crossed or not, the excess of a finite value is finite. -/
theorem isNumber_excess_real (lower upper value : ℝ) :
    IsNumber ((Interval.mk (real lower) (real upper)).excess (real value)) := by
  rw [excess, Extended.real_sub, Extended.real_sub, Extended.real_zero, Extended.larger_real,
    Extended.smaller_real, Extended.real_add]
  exact Extended.isNumber_real _

end Interval

/-- Finite values between finite bounds have rows that are numbers. -/
theorem isNumber_of_mem_excesses {intervals : List (Interval Extended)} {raw : List Extended}
    (hintervals : ∀ i ∈ intervals, ∃ lower upper : ℝ, i = ⟨real lower, real upper⟩)
    (hraw : ∀ value ∈ raw, ∃ x, value = real x) :
    ∀ row ∈ List.zipWith Interval.excess intervals raw, IsNumber row := by
  intro row hrow
  obtain ⟨i, value, hmem, rfl⟩ := mem_zipWith_iff.1 hrow
  obtain ⟨hi, hvalue⟩ := List.of_mem_zip hmem
  obtain ⟨lower, upper, rfl⟩ := hintervals i hi
  obtain ⟨x, rfl⟩ := hraw value hvalue
  exact Interval.isNumber_excess_real lower upper x

/-- The interval around zero with a finite end has finite bounds. -/
theorem Interval.exists_real_symmetric {bound : Extended} (h : ∃ x, bound = real x) :
    ∃ lower upper : ℝ, symmetric bound = ⟨real lower, real upper⟩ := by
  obtain ⟨x, rfl⟩ := h
  exact ⟨-x, x, rfl⟩

/-- A length is a number if all rows are. -/
theorem Linear.isNumber_rowsNorm_iff {rows : List Extended} :
    IsNumber (rowsNorm rows) ↔ ∀ row ∈ rows, IsNumber row := by
  constructor
  · intro h row hrow
    rw [Extended.isNumber_iff]
    rintro rfl
    rw [rowsNorm, Extended.sum_squares_eq_nan hrow] at h
    exact Extended.not_isNumber_nan h
  · intro h
    exact Extended.isNumber_of_nonneg (Extended.sqrt_nonneg (Extended.sum_squares_nonneg h))

/-! ## Links -/

/-- An axis that was accepted, if it is finite, has a direction. -/
theorem Joint.IsAccepted.not_norm_lt {j : Joint Extended} (h : j.IsAccepted)
    (hfinite : j.axis.isFinite = true) : ¬j.axis.norm < shortestAxis := by
  obtain ⟨spec, hlong, hjoint⟩ := h
  unfold JointSpec.joint? at hjoint
  split at hjoint
  · next x y z _ hdata =>
    obtain rfl := Option.some.inj hjoint
    -- the axis of the joint has the three numbers that were checked
    obtain ⟨u, hu⟩ := Vec3.isFinite_iff_extended.1 hfinite
    cases hu
    rwa [Tensor.norm_of_extended hdata] at hlong
  · cases hjoint

/-- A link that is carried by finite joints, if joints of a chain carry it. -/
def Link.HasFiniteJoints (link : Link Extended n) : Prop :=
  ∀ (c : Chain Extended n) (k : Fin (n + 1)), link = .ofChain c k →
    ∀ j ∈ c.joints.toList, j.IsFinite

/-- An accepted link on finite joints stands at a finite pose, if it stands anywhere. -/
theorem Link.isFinite_pose {link : Link Extended n} (h : link.IsAccepted)
    (hfinite : link.HasFiniteJoints) {q : Vector Extended n} (hq : Linear.isFinite q = true)
    {state : LinkState Extended n} (hstate : link.state q = .ok state) : state.pose.IsFinite := by
  cases link with
  | ofChain c k =>
    obtain rfl := Except.ok.inj hstate
    refine c.isFinite_linkPose (fun j hj => ?_) hq k
    -- the joints on the way have finite origins and axes that are not too short
    have hjoint := hfinite c k rfl j hj
    exact ⟨hjoint, (h j hj).not_norm_lt hjoint.axis⟩
  | ofTree t frame => exact h.elim
  | still =>
    obtain rfl := Except.ok.inj hstate
    exact Pose.isFinite_identity
  | immovable => cases hstate

/-! ## Single constraints -/

/-- Where a box stands, the offset of its point and the joints of its link are finite. -/
def Leaf.HasFinitePlaces : Leaf Extended n → Prop
  | .box c => c.spec.linkOffset.isFinite = true ∧ c.spec.box.IsFinite ∧ c.link.HasFiniteJoints
  | .orientation c => c.link.HasFiniteJoints
  | .jointLimits _ | .affine _ => True

/-- Joint limits, if the constraint is that, are numbers, finite or not. -/
def Leaf.HasNumericLimits : Leaf Extended n → Prop
  | .jointLimits l => ∀ i, IsNumber (l.lower.get i) ∧ IsNumber (l.upper.get i)
  | .box _ | .orientation _ | .affine _ => True

/-- Each component of a product takes part in all sums. -/
theorem Mat3.apply_eq_nan {v : Vec3 Extended} (h : nan ∈ v.toList) (m : Mat3 Extended) :
    m.apply v = ⟨nan, nan, nan⟩ := by
  simp only [Vec3.toList, List.mem_cons, List.not_mem_nil, or_false] at h
  ext <;> rcases h with h | h | h <;> simp [← h]

namespace BoxConstraint

/-- The point stands at a finite place in the box. -/
theorem isFinite_pointInBox {c : BoxConstraint Extended n}
    (hoffset : c.spec.linkOffset.isFinite = true) (hbox : c.spec.box.IsFinite)
    {pose : Pose Extended} (hpose : pose.IsFinite) : (c.pointInBox pose).isFinite = true := by
  obtain ⟨offset, hoffset⟩ := Vec3.isFinite_iff_extended.1 hoffset
  obtain ⟨box, hbox⟩ := hbox
  obtain ⟨pose, rfl⟩ := hpose
  refine Vec3.isFinite_iff_extended.2 ⟨box.rotation.transpose.apply
    (pose.position + pose.rotation.apply offset - box.position), ?_⟩
  rw [pointInBox, offsetOf, hoffset, hbox]
  rfl

/-- The rows of a box are numbers. -/
theorem isNumber_of_mem_evaluate {d : PositionDescription Extended} {c : BoxConstraint Extended n}
    (hspec : d.build = .ok c.spec) (hlink : c.link.IsAccepted)
    (hplaces : (Leaf.box c).HasFinitePlaces) {q : Vector Extended n}
    (hq : Linear.isFinite q = true) {rows : List Extended}
    (hrows : (Leaf.box c).evaluate q = .ok rows) : ∀ row ∈ rows, IsNumber row := by
  obtain ⟨hoffset, hbox, hjoints⟩ := hplaces
  obtain ⟨raw, hraw, hrows⟩ := bind_eq_ok_iff.1 hrows
  obtain ⟨state, hstate, hraw⟩ := bind_eq_ok_iff.1 hraw
  obtain rfl := Except.ok.inj hraw
  obtain rfl := Except.ok.inj hrows
  have hpoint := isFinite_pointInBox hoffset hbox (c.link.isFinite_pose hlink hjoints hq hstate)
  -- half extents are checked to be finite, so that the rows depend on the point alone
  have hextents := (PositionDescription.isChecked_of_build hspec).isFinite
  refine isNumber_of_mem_excesses (fun i hi => ?_) fun value hvalue => ?_
  · obtain ⟨axis, -, rfl⟩ := List.mem_map.1 hi
    exact Interval.exists_real_symmetric (Vec3.exists_real_along hextents axis)
  · obtain ⟨axis, -, rfl⟩ := List.mem_map.1 hvalue
    exact Vec3.exists_real_along hpoint axis

/-- A component that is no number, of the offset or of the place of the box, is in every row. -/
theorem eq_nan_of_mem_evaluate {c : BoxConstraint Extended n}
    (h : nan ∈ c.spec.linkOffset.toList ∨ nan ∈ c.spec.box.position.toList)
    {q : Vector Extended n} {rows : List Extended} (hrows : (Leaf.box c).evaluate q = .ok rows) :
    ∀ row ∈ rows, row = nan := by
  obtain ⟨raw, hraw, hrows⟩ := bind_eq_ok_iff.1 hrows
  obtain ⟨state, -, hraw⟩ := bind_eq_ok_iff.1 hraw
  obtain rfl := Except.ok.inj hraw
  obtain rfl := Except.ok.inj hrows
  -- either way the point has a component that is no number, which rotations spread to all
  have hpoint : c.pointInBox state.pose = ⟨nan, nan, nan⟩ := by
    refine Mat3.apply_eq_nan ?_ _
    rcases h with hoffset | hbox
    · simp [offsetOf, Mat3.apply_eq_nan hoffset, Vec3.toList]
    · simp only [Vec3.toList, List.mem_cons, List.not_mem_nil, or_false] at hbox ⊢
      rcases hbox with h | h | h <;> simp [← h]
  intro row hrow
  obtain ⟨i, value, hmem, rfl⟩ := mem_zipWith_iff.1 hrow
  obtain ⟨axis, -, rfl⟩ := List.mem_map.1 (List.of_mem_zip hmem).2
  have halong : (c.pointInBox state.pose).along axis = nan := by
    rw [hpoint]
    cases axis <;> rfl
  simp [halong, Interval.excess]

end BoxConstraint

namespace OrientationConstraint

/-- A finite matrix has a finite rotation vector, or none. -/
theorem isFinite_deviation {c : OrientationConstraint Extended n} {target : Quaternion ℝ}
    (htarget : c.spec.target = target.extended) {pose : Pose Extended} (hpose : pose.IsFinite)
    {deviation : Vec3 Extended} (h : c.deviation pose = .ok deviation) :
    deviation.isFinite = true := by
  obtain ⟨pose, rfl⟩ := hpose
  have hlog : Rotation.log? (pose.rotation * target.toMat3.transpose).extended = .ok deviation := by
    rw [← h, OrientationConstraint.deviation, targetRotation, htarget]
    rfl
  rw [Rotation.extended_log?] at hlog
  obtain ⟨v, -, rfl⟩ := map_eq_ok_iff.1 hlog
  exact Vec3.isFinite_iff_extended.2 ⟨v, rfl⟩

/-- The rows of an orientation are numbers. -/
theorem isNumber_of_mem_evaluate {d : OrientationDescription Extended}
    {c : OrientationConstraint Extended n} (hspec : d.build = .ok c.spec)
    (hlink : c.link.IsAccepted) (hplaces : (Leaf.orientation c).HasFinitePlaces)
    {q : Vector Extended n} (hq : Linear.isFinite q = true) {rows : List Extended}
    (hrows : (Leaf.orientation c).evaluate q = .ok rows) : ∀ row ∈ rows, IsNumber row := by
  obtain ⟨raw, hraw, hrows⟩ := bind_eq_ok_iff.1 hrows
  obtain ⟨state, hstate, hraw⟩ := bind_eq_ok_iff.1 hraw
  obtain ⟨deviation, hdeviation, hraw⟩ := bind_eq_ok_iff.1 hraw
  obtain rfl := Except.ok.inj hraw
  obtain rfl := Except.ok.inj hrows
  have hchecked := OrientationDescription.isChecked_of_build hspec
  obtain ⟨given, hgiven⟩ := hchecked.exists_normalized
  obtain ⟨target, htarget⟩ := Quaternion.exists_extended_of_normalized hgiven
  -- neither the deviation nor the tolerances leave the finite numbers
  have hfinite := isFinite_deviation htarget (c.link.isFinite_pose hlink hplaces hq hstate)
    hdeviation
  have hreal {v : Vec3 Extended} (hv : v.isFinite = true) : ∀ a ∈ v.toList, ∃ x, a = real x :=
    fun a ha => Extended.isFinite_iff.1 (List.all_eq_true.1 hv a ha)
  refine isNumber_of_mem_excesses (fun i hi => ?_) (hreal hfinite)
  obtain ⟨bound, hbound, rfl⟩ := List.mem_map.1 hi
  exact Interval.exists_real_symmetric (hreal hchecked.isFinite bound hbound)

end OrientationConstraint

/-- The rows of limits that are not crossed are numbers if the limits are. -/
theorem JointLimits.isNumber_evaluate_iff {limits : JointLimits Extended n}
    (hcrossed : limits.crossed = []) {q : Vector Extended n} (hq : Linear.isFinite q = true)
    {rows : List Extended} (hrows : (Leaf.jointLimits limits).evaluate q = .ok rows) :
    (∀ row ∈ rows, IsNumber row) ↔ (Leaf.jointLimits limits).HasNumericLimits := by
  rw [evaluate_eq_ok, Except.ok.injEq] at hrows
  subst hrows
  rw [Leaf.HasNumericLimits, List.forall_mem_map]
  simp only [List.mem_finRange, true_implies]
  refine forall_congr' fun i => ?_
  obtain ⟨value, hvalue⟩ := Linear.isFinite_iff_get.1 hq i
  rw [hvalue]
  exact Interval.isNumber_excess_iff (crossed_eq_nil_iff.1 hcrossed i) value

/-- The rows of an accepted constraint with finite places are numbers at a finite configuration,
unless a joint limit is none. -/
theorem Leaf.Accepted.isNumber_iff {l : Leaf Extended n} (h : l.Accepted)
    (hplaces : l.HasFinitePlaces) {q : Vector Extended n} (hq : Linear.isFinite q = true)
    {rows : List Extended} (hrows : l.evaluate q = .ok rows) :
    (∀ row ∈ rows, IsNumber row) ↔ l.HasNumericLimits := by
  -- only joint limits may have bounds that are no numbers
  cases h with
  | @box d spec link hspec hlink =>
    have hnumbers := BoxConstraint.isNumber_of_mem_evaluate (c := ⟨spec, link⟩) hspec hlink
      hplaces hq hrows
    exact iff_of_true hnumbers trivial
  | @orientation d spec link hspec hlink =>
    have hnumbers := OrientationConstraint.isNumber_of_mem_evaluate (c := ⟨spec, link⟩) hspec hlink
      hplaces hq hrows
    exact iff_of_true hnumbers trivial
  | jointLimits hcheck =>
    obtain ⟨⟨-, hcrossed⟩, rfl⟩ := JointLimits.check_eq_ok_iff.1 hcheck
    exact JointLimits.isNumber_evaluate_iff hcrossed hq hrows

/-! ## Constraints -/

namespace Constraint

/-- Every single constraint has finite places. -/
def HasFinitePlaces (c : Constraint Extended n) : Prop := ∀ l ∈ c.leaves, l.HasFinitePlaces

/-- All joint limits are numbers. -/
def HasNumericLimits (c : Constraint Extended n) : Prop := ∀ l ∈ c.leaves, l.HasNumericLimits

/-- However constraints are nested, the error is made of numbers unless a joint limit is none. -/
theorem Accepted.isNumber_iff {c : Constraint Extended n} (h : c.Accepted)
    (hplaces : c.HasFinitePlaces) {q : Vector Extended n} (hq : Linear.isFinite q = true)
    {error : List Extended} (herror : c.evaluate q = .ok error) :
    (∀ row ∈ error, IsNumber row) ↔ c.HasNumericLimits := by
  constructor
  · intro hnumbers l hl
    -- the rows of a leaf are among those of the constraint
    obtain ⟨rows, hrows, hsubset⟩ := exists_evaluate_eq_ok herror hl
    exact ((h.leaves l hl).isNumber_iff (hplaces l hl) hq hrows).1 fun row hrow =>
      hnumbers row (hsubset hrow)
  · intro hlimits row hrow
    -- and each row of the constraint is one of a leaf
    obtain ⟨pieces, hpieces, rfl⟩ := evaluate_eq_ok_iff.1 herror
    obtain ⟨rows, hmem, hrow⟩ := List.mem_flatten.1 hrow
    obtain ⟨l, hl, hrows⟩ := forall₂_exists_mem hpieces.flip hmem
    exact ((h.leaves l hl).isNumber_iff (hplaces l hl) hq hrows).2 (hlimits l hl) row hrow

end Constraint

/-! ## Iterates -/

/-- A step that is taken is finite. -/
theorem isFinite_of_newtonStep {K : Type} [Scalar K] {damping : K} {gradients : List (Vector K n)}
    {error : List K} {step : Vector K n}
    (h : newtonStep damping gradients error = .ok (some step)) : Linear.isFinite step = true := by
  have hfilter {found : Option (Vector K n)}
      (h : Except.ok (found.filter Linear.isFinite) = Except.ok (ε := Fault) (some step)) :
      Linear.isFinite step = true := (Option.filter_eq_some_iff.1 (Except.ok.inj h)).2
  -- the step is damped or not, and is filtered in the end
  unfold newtonStep at h
  split_ifs at h
  · obtain ⟨square, -, h⟩ := bind_eq_ok_iff.1 h
    exact hfilter h
  · exact hfilter h

/-- Capping keeps a finite step finite, when the longest step is positive. -/
theorem isFinite_capStep {maxStep : Option Extended} (hpos : ∀ longest ∈ maxStep, 0 < longest)
    {step : Vector Extended n} (h : Linear.isFinite step = true) :
    Linear.isFinite (capStep maxStep step) = true := by
  cases maxStep with
  | none => exact h
  | some longest =>
    unfold capStep
    simp only
    split_ifs with hlong
    · -- the factor is finite, whatever the longest step is
      obtain ⟨factor, hfactor⟩ := Extended.exists_real_of_div (hpos longest rfl) hlong
      rw [Linear.isFinite_iff_get] at h ⊢
      intro i
      obtain ⟨x, hx⟩ := h i
      refine ⟨factor * x, ?_⟩
      rw [Vector.get_eq_getElem] at hx ⊢
      rw [Linear.getElem_scale, hfactor, hx, Extended.real_mul]
    · exact h

/-- Finite configurations and finite steps have finite sums, for the numbers here do not
overflow. -/
theorem Linear.isFinite_add {q step : Vector Extended n} (hq : Linear.isFinite q = true)
    (hstep : Linear.isFinite step = true) : Linear.isFinite (q + step) = true := by
  rw [Linear.isFinite_iff_get] at hq hstep ⊢
  intro i
  obtain ⟨x, hx⟩ := hq i
  obtain ⟨y, hy⟩ := hstep i
  refine ⟨x + y, ?_⟩
  rw [Vector.get_eq_getElem] at hx hy ⊢
  rw [Vector.getElem_add, hx, hy, Extended.real_add]

namespace Residual

variable {r : Residual Extended n} {s : Settings Extended} {q last : Vector Extended n}

/-- From a finite configuration only finite ones are visited. -/
theorem Visits.isFinite {budget : Nat} (h : r.Visits s budget q last) (hs : s.Valid)
    (hq : Linear.isFinite q = true) : Linear.isFinite last = true := by
  refine h.invariant (P := fun q => Linear.isFinite q = true) hq ?_
  intro q f p hq hfind hnext
  obtain ⟨error, -, rfl⟩ := find_eq_ok_iff.1 hfind
  obtain ⟨gradients, -, hnext⟩ := bind_eq_ok_iff.1 hnext
  obtain ⟨step, hstep, hnext⟩ := bind_eq_ok_iff.1 hnext
  obtain ⟨d, rfl, rfl⟩ := Option.map_eq_some_iff.1 (Except.ok.inj hnext)
  exact Linear.isFinite_add hq (isFinite_capStep hs.maxStep_pos (isFinite_of_newtonStep hstep))

/-- A projection whose error is no number ends at once, as if its budget were spent. -/
theorem project_of_not_isNumber {error : List Extended} (herror : r.evaluate q = .ok error)
    (hnone : ¬∀ row ∈ error, IsNumber row) :
    r.project s q = .ok ⟨.budgetSpent, q, nan, 0⟩ := by
  have hnorm : Linear.rowsNorm error = nan := by
    by_contra hne
    exact hnone (Linear.isNumber_rowsNorm_iff.1 (Extended.isNumber_iff.2 hne))
  rw [project, run_of_not_le _ _ herror (by simp [hnorm]), hnorm, finish,
    if_neg (Extended.not_nan_lt _)]

end Residual

/-! ## Accepted constraints -/

namespace Constraint

/-- At finite configurations the error is made of numbers. -/
def ErrorsAreNumbers {K : Type} [Scalar K] (c : Constraint K n) : Prop :=
  ∀ q : Vector K n, Linear.isFinite q = true → ∀ error, c.evaluate q = .ok error →
    ∀ row ∈ error, IsNumber row

/-- Projections from finite configurations end with their budget spent only when it is. -/
def SpendsWholeBudget {K : Type} [Scalar K] (c : Constraint K n) : Prop :=
  ∀ (s : Settings K) (q : Vector K n) (o : Outcome K n), s.Valid → Linear.isFinite q = true →
    c.residual.project s q = .ok o → o.status = .budgetSpent → o.iterations = s.maxIterations

variable {c : Constraint Extended n}

/-- If all joint limits of an accepted constraint are numbers, so are its errors, and projections
spend their budget before they say so. If one is none, so is an error at every finite configuration,
and every projection from there ends at once. -/
theorem Accepted.numbers_or_ends_at_once (h : c.Accepted) (hplaces : c.HasFinitePlaces) :
    (c.HasNumericLimits → c.ErrorsAreNumbers ∧ c.SpendsWholeBudget) ∧
    (¬c.HasNumericLimits → ∀ (s : Settings Extended) (q : Vector Extended n),
      Linear.isFinite q = true → ∀ error, c.evaluate q = .ok error →
        (¬∀ row ∈ error, IsNumber row) ∧
        c.residual.project s q = .ok ⟨.budgetSpent, q, nan, 0⟩) := by
  refine ⟨fun hlimits => ⟨?_, ?_⟩, fun hlimits s q hq error herror => ?_⟩
  · exact fun q hq error herror => (h.isNumber_iff hplaces hq herror).2 hlimits
  · intro s q o hs hq ho hspent
    -- where a projection ends the error is a number, and a number has used the budget up
    have haccounts := Residual.project_accounts hs ho
    obtain ⟨error, herror, hnorm⟩ := haccounts.errorNorm_eq
    have hlast := (Residual.run_visits ho).isFinite hs hq
    have hnumber : IsNumber o.errorNorm := by
      rw [hnorm, Linear.isNumber_rowsNorm_iff]
      exact (h.isNumber_iff hplaces hlast herror).2 hlimits
    exact ((haccounts.budgetSpent_iff hnumber).1 hspent).2
  · have hnone := mt (h.isNumber_iff hplaces hq herror).1 hlimits
    exact ⟨hnone, Residual.project_of_not_isNumber herror hnone⟩

end Constraint

/-! ## Limits that are no numbers -/

/-- A joint whose lower limit is no number, which is not above the upper one. -/
noncomputable def halfUnlimited : JointLimits Extended 1 := ⟨.ofFn fun _ => nan, .ofFn fun _ => 0⟩

/-- The same limits as floating-point numbers. -/
def halfUnlimitedFloat : JointLimits Float 1 := ⟨.ofFn fun _ => 0 / 0, .ofFn fun _ => 0⟩

/-- Limits of which one is `NaN` are accepted. -/
theorem accepted_halfUnlimited : (Constraint.ofJointLimits halfUnlimited).Accepted :=
  Constraint.accepted_ofJointLimits one_ne_zero fun i => by
    simp [halfUnlimited, Vector.get_eq_getElem]

/-- They are accepted over floating-point numbers as well. -/
theorem accepted_halfUnlimitedFloat : (Constraint.ofJointLimits halfUnlimitedFloat).Accepted :=
  Constraint.accepted_ofJointLimits one_ne_zero fun i => by
    obtain rfl := Subsingleton.elim i 0
    decide +kernel

/-- The standard settings are accepted. -/
theorem Settings.valid_standard_extended : (Settings.standard : Settings Extended).Valid where
  tolerance_pos := (Extended.real_lt 0 _).2 Settings.valid_standard.tolerance_pos
  maxIterations_pos := by decide
  damping_nonneg := (Extended.real_le 0 _).2 Settings.valid_standard.damping_nonneg
  maxStep_pos := nofun

/-- They are the only leaf. -/
theorem leaves_halfUnlimited :
    (Constraint.ofJointLimits halfUnlimited).leaves = [.jointLimits halfUnlimited] := by
  rw [Constraint.ofJointLimits, Constraint.leaves]

/-- Limits place nothing in space. -/
theorem hasFinitePlaces_halfUnlimited :
    (Constraint.ofJointLimits halfUnlimited).HasFinitePlaces := by
  rw [Constraint.HasFinitePlaces, leaves_halfUnlimited, List.forall_mem_singleton]
  trivial

/-- One of them is no number. -/
theorem not_hasNumericLimits_halfUnlimited :
    ¬(Constraint.ofJointLimits halfUnlimited).HasNumericLimits := by
  rw [Constraint.HasNumericLimits, leaves_halfUnlimited, List.forall_mem_singleton]
  intro h
  have hlower : halfUnlimited.lower.get 0 = nan := by
    simp [halfUnlimited, Vector.get_eq_getElem]
  exact Extended.not_isNumber_nan (hlower ▸ (h 0).1)

/-- The configuration they are asked about is finite. -/
theorem isFinite_zero : Linear.isFinite (.ofFn fun _ => 0 : Vector Extended 1) = true :=
  Linear.isFinite_iff_get.2 fun i => ⟨0, by simp [Vector.get_eq_getElem]⟩

/-- The error there is `NaN`. -/
theorem evaluate_halfUnlimited :
    (Constraint.ofJointLimits halfUnlimited).evaluate (.ofFn fun _ => 0) = .ok [nan] := by
  rw [Constraint.ofJointLimits, Constraint.evaluate, JointLimits.evaluate_eq_ok]
  simp [halfUnlimited, Interval.excess, Vector.get_eq_getElem]

/-- Not every accepted constraint has errors that are numbers, and not every one spends its budget,
neither in exact arithmetic nor in floating-point arithmetic. -/
theorem not_forall_errorsAreNumbers :
    (¬∀ (n : Nat) (c : Constraint Extended n), c.Accepted → c.ErrorsAreNumbers) ∧
    (¬∀ (n : Nat) (c : Constraint Extended n), c.Accepted → c.SpendsWholeBudget) ∧
    (¬∀ (n : Nat) (c : Constraint Float n), c.Accepted → c.ErrorsAreNumbers) ∧
    ¬∀ (n : Nat) (c : Constraint Float n), c.Accepted → c.SpendsWholeBudget := by
  refine ⟨fun h => ?_, fun h => ?_, fun h => ?_, fun h => ?_⟩
  -- the lower limit compares with nothing, and the row of the joint is no number
  · have hnumber := h 1 _ accepted_halfUnlimited _ isFinite_zero _ evaluate_halfUnlimited nan
      List.mem_cons_self
    exact Extended.not_isNumber_nan hnumber
  · have hrun := Residual.project_of_not_isNumber (s := .standard)
      (r := (Constraint.ofJointLimits halfUnlimited).residual) evaluate_halfUnlimited
      (by simpa using Extended.not_isNumber_nan)
    have hall := h 1 _ accepted_halfUnlimited _ _ _ Settings.valid_standard_extended isFinite_zero
      hrun rfl
    cases hall
  · have hrow := h 1 _ accepted_halfUnlimitedFloat (.ofFn fun _ => 0) (by decide +kernel) _ rfl
    revert hrow
    unfold IsNumber
    decide +kernel
  -- in floating-point arithmetic the projection ends without a step as well
  · have hrun : ((Constraint.ofJointLimits halfUnlimitedFloat).residual.project .standard
        (.ofFn fun _ => 0)).toOption.any (fun o => o.status = .budgetSpent ∧ o.iterations = 0) =
        true := by
      decide +kernel
    cases ho : (Constraint.ofJointLimits halfUnlimitedFloat).residual.project .standard
        (.ofFn fun _ => 0) with
    | error fault => simp [ho, Except.toOption] at hrun
    | ok o =>
      obtain ⟨hspent, hnone⟩ : o.status = .budgetSpent ∧ o.iterations = 0 := by
        simpa [ho, Except.toOption] using hrun
      have hall := h 1 _ accepted_halfUnlimitedFloat _ _ _ Settings.valid_standard_float
        (by decide +kernel) ho hspent
      cases hnone.symm.trans hall

/-! ## A hand on an unlimited joint -/

/-- A joint without limits. -/
noncomputable def spinDescription : JointDescription Extended :=
  ⟨"spin", "hand", .identity, .ofList [real 0, real 0, real 1], infinite true, infinite false, none⟩

noncomputable def spinChain : Chain Extended 1 where
  base := "base"
  joints := .ofFn fun _ => ⟨"spin", "hand", .identity, ⟨real 0, real 0, real 1⟩, infinite true,
    infinite false, .revolute⟩
  joints_pos := one_pos
  linkNames_nodup := by decide

/-- The example chain is built from a description. -/
theorem isDescribed_spinChain : (Model.chain spinChain).IsDescribed := by
  -- the axis is long enough to be accepted
  have haxis : readAxis "spin" (.ofList [real 0, real 0, real 1]) =
      .ok (.ofList [real 0, real 0, real 1]) := by
    refine readAxis_ofList "spin" ?_
    rw [Tensor.norm_of_extended (u := ⟨0, 0, 1⟩) rfl, Vec3.extended_norm]
    refine mt (Extended.real_lt _ shortestAxis).1 ?_
    norm_num [shortestAxis, Vec3.norm, Vec3.dot]
  -- infinite limits are not crossed
  have hrange : ¬infinite false < infinite true := by simp [Extended.lt_iff, Extended.place]
  have hbuild : spinDescription.build = .ok ⟨"spin", "hand", .identity,
      .ofList [real 0, real 0, real 1], infinite true, infinite false, .revolute⟩ := by
    simp only [spinDescription, JointDescription.build, PoseDescription.build_identity, haxis, bind,
      Except.bind]
    exact if_neg hrange
  exact ⟨"base", [spinDescription], _, mapM_eq_ok_iff.2 (.cons hbuild .nil), rfl⟩

/-- A point ahead of the hand is kept between two planes. -/
noncomputable def tipDescription : PositionDescription Extended where
  link := "hand"
  halfExtents := .ofList [real 1, real (-1), real (-1)]
  box := .identity
  linkOffset := some (.ofList [real 1, real 0, real 0])

noncomputable def tipConstraint : BoxConstraint Extended 1 where
  spec := ⟨"hand", (⟨1, -1, -1⟩ : Vec3 ℝ).extended, .identity, (⟨1, 0, 0⟩ : Vec3 ℝ).extended⟩
  link := .ofChain spinChain (.last 1)

/-- The description of the example box is accepted. -/
theorem build_tipDescription : tipDescription.build = .ok tipConstraint.spec := by
  have hfinite : (⟨1, -1, -1⟩ : Vec3 ℝ).extended.isFinite = true :=
    Vec3.isFinite_iff_extended.2 ⟨_, rfl⟩
  have hbounded : (⟨1, -1, -1⟩ : Vec3 ℝ).extended.toList.all (decide <| · < 0) = false := by
    simp [Vec3.toList, Vec3.extended]
  -- all but the two checks of the half extents is reading
  simp only [tipDescription, PositionDescription.build, PoseDescription.build_identity,
    Nested.toTensor_ofList, PoseDescription.positionTensor, bind, Except.bind]
  change (if (!(⟨1, -1, -1⟩ : Vec3 ℝ).extended.isFinite) = true then _ else if
    (⟨1, -1, -1⟩ : Vec3 ℝ).extended.toList.all (decide <| · < 0) = true then _ else _) = _
  rw [hfinite, hbounded]
  rfl

/-- The example box makes a constraint on the tip of the chain. -/
theorem ofPosition_tip : Constraint.ofPosition (.chain spinChain) tipConstraint.spec =
    .ok (.leaf (.box tipConstraint)) := by
  have haxes : tipConstraint.spec.constrainedAxes = [.x] := by
    simp [PositionSpec.constrainedAxes, tipConstraint, Axis.all, Vec3.along, Vec3.extended]
  have hlink : (Model.chain spinChain).requireLink tipConstraint.spec.link =
      .ok tipConstraint.link := rfl
  simp only [Constraint.ofPosition, hlink, haxes, bind, Except.bind]
  rfl

/-- The limits of the joint, which are infinite. -/
noncomputable def spinRange : JointLimits Extended 1 := ⟨spinChain.lower, spinChain.upper⟩

/-- The example chain turns without limits. -/
theorem get_spinRange (i : Fin 1) :
    spinRange.lower.get i = infinite true ∧ spinRange.upper.get i = infinite false := by
  simp [spinRange, Chain.lower, Chain.upper, spinChain, Vector.get_eq_getElem]

/-- Its limits make a constraint all the same. -/
theorem ofModelLimits_spinChain :
    Constraint.ofModelLimits (.chain spinChain) = .ok (.ofJointLimits spinRange) := by
  have hcrossed : spinRange.crossed = [] := by
    rw [JointLimits.crossed_eq_nil_iff]
    intro i
    -- the infinities are in order
    rw [(get_spinRange i).1, (get_spinRange i).2]
    simp [Extended.lt_iff, Extended.place]
  have hcheck : JointLimits.ofModel (.chain spinChain) = .ok spinRange :=
    JointLimits.check_eq_ok_iff.2 ⟨⟨one_ne_zero, hcrossed⟩, rfl⟩
  rw [Constraint.ofModelLimits, hcheck]
  rfl

/-- The point between its planes, and the limits of the joint in an intersection of their own. -/
noncomputable def tipAndRange : Constraint Extended 1 :=
  .intersection [.leaf (.box tipConstraint), .intersection [.ofJointLimits spinRange]]

/-- The task of the example is accepted. -/
theorem accepted_tipAndRange : tipAndRange.Accepted := by
  have htip : (Constraint.leaf (.box tipConstraint)).Accepted :=
    .position isDescribed_spinChain build_tipDescription ofPosition_tip
  have hrange : (Constraint.intersection [.ofJointLimits spinRange]).Accepted :=
    .together (by simp) (List.forall_mem_singleton.2
      (.modelLimits isDescribed_spinChain ofModelLimits_spinChain))
  exact .together (by simp) (List.forall_mem_cons.2 ⟨htip, List.forall_mem_singleton.2 hrange⟩)

/-- It is the box and the limits. -/
theorem leaves_tipAndRange : tipAndRange.leaves = [.box tipConstraint, .jointLimits spinRange] := by
  simp [tipAndRange, Constraint.leaves, Constraint.leavesAll, Constraint.ofJointLimits]

/-- All its places are finite. -/
theorem hasFinitePlaces_tipAndRange : tipAndRange.HasFinitePlaces := by
  have hjoints : tipConstraint.link.HasFiniteJoints := by
    intro c k hlink j hj
    cases hlink
    -- the chain has a single joint
    obtain rfl : j = ⟨"spin", "hand", .identity, ⟨real 0, real 0, real 1⟩, infinite true,
        infinite false, .revolute⟩ := by
      simpa [spinChain, eq_comm] using hj
    exact ⟨Pose.isFinite_identity, Vec3.isFinite_iff_extended.2 ⟨⟨0, 0, 1⟩, rfl⟩⟩
  rw [Constraint.HasFinitePlaces, leaves_tipAndRange, List.forall_mem_cons,
    List.forall_mem_singleton]
  exact ⟨⟨Vec3.isFinite_iff_extended.2 ⟨_, rfl⟩, Pose.isFinite_identity, hjoints⟩, trivial⟩

/-- All its limits are numbers, infinities though they are. -/
theorem hasNumericLimits_tipAndRange : tipAndRange.HasNumericLimits := by
  rw [Constraint.HasNumericLimits, leaves_tipAndRange, List.forall_mem_cons,
    List.forall_mem_singleton]
  refine ⟨trivial, fun i => ?_⟩
  rw [(get_spinRange i).1, (get_spinRange i).2, Extended.isNumber_iff, Extended.isNumber_iff]
  exact ⟨nofun, nofun⟩

/-- It has an error everywhere. -/
theorem exists_evaluate_tipAndRange (q : Vector Extended 1) :
    ∃ error, tipAndRange.evaluate q = .ok error :=
  ⟨_, rfl⟩

/-- The tip of a hand on a joint with infinite limits, and a joint with a limit that is no
number. -/
theorem numbers_or_ends_at_once_tipAndRange :
    (tipAndRange.Accepted ∧ tipAndRange.HasFinitePlaces ∧ tipAndRange.HasNumericLimits ∧
      (∀ q, ∃ error, tipAndRange.evaluate q = .ok error) ∧
      tipAndRange.ErrorsAreNumbers ∧ tipAndRange.SpendsWholeBudget) ∧
    (Constraint.ofJointLimits halfUnlimited).residual.project .standard (.ofFn fun _ => 0) =
      .ok ⟨.budgetSpent, .ofFn fun _ => 0, nan, 0⟩ := by
  have htip := accepted_tipAndRange.numbers_or_ends_at_once hasFinitePlaces_tipAndRange
  have hlimit := accepted_halfUnlimited.numbers_or_ends_at_once hasFinitePlaces_halfUnlimited
  exact ⟨⟨accepted_tipAndRange, hasFinitePlaces_tipAndRange, hasNumericLimits_tipAndRange,
    exists_evaluate_tipAndRange, htip.1 hasNumericLimits_tipAndRange⟩,
    (hlimit.2 not_hasNumericLimits_halfUnlimited _ _ isFinite_zero _ evaluate_halfUnlimited).2⟩

end KinematicManifold
