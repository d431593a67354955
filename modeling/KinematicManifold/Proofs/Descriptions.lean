import KinematicManifold.Constraint.Spec
import KinematicManifold.Proofs.Fallible

/-!
# What descriptions are checked for

Joints, specifications and limits are made from descriptions that were read and checked. Here it is
said once what has been checked when there is one, over any scalars: among those that have
infinities, or a value which is no number, it is all that is known. No other proof has to look at
how a description is read.

## Key results

- `not_norm_lt_of_readAxis`, `JointDescription.exists_of_mem_joints`: the joints of a chain have
  axes that are not too short
- `PositionDescription.isChecked_of_build`, `OrientationDescription.isChecked_of_build`: what holds
  of the specifications that are accepted
- `JointLimits.check_eq_ok_iff`, `JointLimits.crossed_eq_nil_iff`: when limits are accepted
- `JointLimitsDescription.exists_check_eq_ok`: limits that are read are checked
-/

namespace KinematicManifold

variable {K : Type} [Scalar K] {n : Nat}

/-! ## Joints -/

/-- An axis that is read is not all but zero. -/
theorem not_norm_lt_of_readAxis {joint : String} {given : Nested K} {axis : Tensor K}
    (h : readAxis joint given = .ok axis) : ¬axis.norm < shortestAxis := by
  cases given with
  | leaf value => cases h
  | node entries =>
    by_cases hlength : entries.length ≠ 3
    · -- what does not have three entries is refused
      rw [readAxis, if_pos hlength] at h
      cases h
    · rw [readAxis, if_neg hlength] at h
      obtain ⟨t, -, h⟩ := bind_eq_ok_iff.1 h
      -- and what is too short
      split at h
      · cases h
      · next hlong =>
        cases h
        exact hlong

/-- The axis of an accepted joint is the one that was read from its description. -/
theorem JointDescription.readAxis_of_build {d : JointDescription K} {spec : JointSpec K}
    (h : d.build = .ok spec) : readAxis d.name d.axis = .ok spec.axis := by
  -- whether a kind is given or not, the axis is read next but one
  cases hkind : d.kind
  all_goals
    simp only [build, hkind] at h
    obtain ⟨kind, -, h⟩ := bind_eq_ok_iff.1 h
    obtain ⟨origin, -, h⟩ := bind_eq_ok_iff.1 h
    obtain ⟨axis, haxis, h⟩ := bind_eq_ok_iff.1 h
    split at h
    · cases h
    · cases h
      exact haxis

/-- Every joint of a chain comes from a description that was accepted. -/
theorem JointDescription.exists_of_mem_joints {descriptions : List (JointDescription K)}
    {specs : List (JointSpec K)} (hspecs : descriptions.mapM (·.build) = .ok specs) {base : String}
    {c : Chain K n} (hchain : Model.ofJoints base specs = .ok ⟨n, .chain c⟩) {j : Joint K}
    (hj : j ∈ c.joints.toList) :
    ∃ (d : JointDescription K) (spec : JointSpec K), d.build = .ok spec ∧ spec.joint? = some j := by
  unfold Model.ofJoints at hchain
  split at hchain
  · next joints hjoints =>
    obtain ⟨⟨n, c⟩, hc, hsame⟩ := map_eq_ok_iff.1 hchain
    cases hsame
    unfold Chain.ofJoints at hc
    split_ifs at hc
    cases hc
    obtain ⟨spec, hspec, hjoint⟩ := forall₂_exists_mem (forall₂_of_mapM_eq_some hjoints).flip hj
    obtain ⟨d, -, hd⟩ := forall₂_exists_mem (mapM_eq_ok_iff.1 hspecs).flip hspec
    exact ⟨d, spec, hd, hjoint⟩
  · -- joints whose axes are nested make no chain
    obtain ⟨c, -, hsame⟩ := map_eq_ok_iff.1 hchain
    cases hsame

/-! ## Positions -/

/-- What a box is checked for: its half extents are finite, and not all of them are negative.
Neither its pose nor the offset of the point is looked at. -/
structure PositionSpec.IsChecked (s : PositionSpec K) : Prop where
  isFinite : s.halfExtents.isFinite = true
  exists_not_neg : ∃ axis, ¬s.halfExtents.along axis < 0

/-- A position that is accepted has been checked. -/
theorem PositionDescription.isChecked_of_build {d : PositionDescription K} {spec : PositionSpec K}
    (h : d.build = .ok spec) : spec.IsChecked := by
  obtain ⟨box, -, h⟩ := bind_eq_ok_iff.1 h
  obtain ⟨_, -, h⟩ := bind_eq_ok_iff.1 h
  obtain ⟨_, -, h⟩ := bind_eq_ok_iff.1 h
  obtain ⟨halfExtents, -, h⟩ := bind_eq_ok_iff.1 h
  obtain ⟨linkOffset, -, h⟩ := bind_eq_ok_iff.1 h
  split_ifs at h with hfinite hfree
  cases h
  refine ⟨by simpa using hfinite, ?_⟩
  -- a box that is free along every axis was refused
  by_contra hall
  push Not at hall
  refine hfree (List.all_eq_true.2 fun value hvalue => ?_)
  obtain ⟨axis, rfl⟩ := Vec3.mem_toList_iff.1 hvalue
  exact decide_eq_true (hall axis)

/-! ## Orientations -/

/-- What an orientation is checked for: its tolerances are finite and not negative, and its target
comes from a quaternion that has a direction. -/
structure OrientationSpec.IsChecked (s : OrientationSpec K) : Prop where
  isFinite : s.tolerances.isFinite = true
  not_neg : ∀ axis, ¬s.tolerances.along axis < 0
  exists_normalized : ∃ given : Quaternion K, given.normalized = .ok s.target

/-- An orientation that is accepted has been checked. -/
theorem OrientationDescription.isChecked_of_build {d : OrientationDescription K}
    {spec : OrientationSpec K} (h : d.build = .ok spec) : spec.IsChecked := by
  obtain ⟨_, -, h⟩ := bind_eq_ok_iff.1 h
  obtain ⟨tolerances, -, h⟩ := bind_eq_ok_iff.1 h
  split_ifs at h with hrange
  obtain ⟨_, -, h⟩ := bind_eq_ok_iff.1 h
  obtain ⟨given, -, h⟩ := bind_eq_ok_iff.1 h
  obtain ⟨target, htarget, h⟩ := bind_eq_ok_iff.1 h
  cases h
  -- the test has refused what is negative, and what is not finite
  simp only [Bool.or_eq_true, Bool.not_eq_true', not_or, Bool.not_eq_false] at hrange
  obtain ⟨hnonneg, hfinite⟩ := hrange
  refine ⟨hfinite, fun axis hneg => hnonneg (List.any_eq_true.2 ?_), given, htarget⟩
  exact ⟨_, Vec3.mem_toList_iff.2 ⟨axis, rfl⟩, decide_eq_true hneg⟩

/-! ## Joint limits -/

namespace JointLimits

omit [Scalar K] in
/-- The interval of a joint is at its place. -/
theorem getElem?_intervals (l : JointLimits K n) (i : Fin n) :
    l.intervals[i.val]? = some ⟨l.lower.get i, l.upper.get i⟩ := by
  rw [intervals, Vector.getElem?_toList, Vector.getElem?_eq_getElem i.isLt, Vector.getElem_zipWith]
  rfl

omit [Scalar K] in
/-- An interval of the limits is that of a joint. -/
theorem exists_getElem?_intervals {l : JointLimits K n} {place : Nat} {interval : Interval K}
    (h : l.intervals[place]? = some interval) :
    ∃ i : Fin n, i.val = place ∧ interval = ⟨l.lower.get i, l.upper.get i⟩ := by
  have hplace : place < n := by simpa [intervals] using (List.getElem?_eq_some_iff.1 h).1
  rw [l.getElem?_intervals ⟨place, hplace⟩] at h
  exact ⟨⟨place, hplace⟩, rfl, (Option.some.inj h).symm⟩

/-- A joint is listed as crossed exactly when its upper limit is below its lower one. -/
theorem mem_crossed_iff {l : JointLimits K n} {joint : Nat} :
    joint ∈ l.crossed ↔ ∃ i : Fin n, i.val = joint ∧ l.upper.get i < l.lower.get i := by
  simp only [crossed, List.mem_filterMap, Prod.exists, List.mem_zipIdx_iff_getElem?]
  constructor
  · -- a listed number is the place of a crossed interval
    rintro ⟨interval, place, hget, hcrossed⟩
    obtain ⟨i, rfl, rfl⟩ := exists_getElem?_intervals hget
    split_ifs at hcrossed with hlt
    exact ⟨i, Option.some.inj hcrossed, of_decide_eq_true hlt⟩
  · -- and a joint with crossed limits is at its own place
    rintro ⟨i, rfl, hlt⟩
    exact ⟨_, i, l.getElem?_intervals i, if_pos (decide_eq_true hlt)⟩

/-- No joint is listed exactly when no upper limit is below its lower one. -/
theorem crossed_eq_nil_iff {l : JointLimits K n} :
    l.crossed = [] ↔ ∀ i, ¬l.upper.get i < l.lower.get i := by
  rw [List.eq_nil_iff_forall_not_mem]
  simp only [mem_crossed_iff, not_exists, not_and]
  exact ⟨fun h i => h i i rfl, fun h _ i _ => h i⟩

/-- Some joint is listed when its limits are crossed. -/
theorem crossed_ne_nil_iff {l : JointLimits K n} :
    l.crossed ≠ [] ↔ ∃ i, l.upper.get i < l.lower.get i := by
  rw [ne_eq, crossed_eq_nil_iff]
  push Not
  rfl

/-- When no joint is listed, no interval of the limits is crossed. -/
theorem isCrossed_of_crossed_eq_nil {l : JointLimits K n} (h : l.crossed = []) :
    ∀ interval ∈ l.intervals, interval.isCrossed = false := by
  intro interval hmem
  obtain ⟨place, hplace⟩ := List.mem_iff_getElem?.1 hmem
  obtain ⟨i, -, rfl⟩ := exists_getElem?_intervals hplace
  exact decide_eq_false (crossed_eq_nil_iff.1 h i)

/-- Limits are accepted, as they are, exactly when there is a joint and none is crossed. -/
theorem check_eq_ok_iff {l accepted : JointLimits K n} :
    l.check = .ok accepted ↔ (n ≠ 0 ∧ l.crossed = []) ∧ l = accepted := by
  unfold check
  split_ifs with hn hcrossed <;> simp_all

end JointLimits

/-- Limits that are read are limits that were checked. -/
theorem JointLimitsDescription.exists_check_eq_ok {d : JointLimitsDescription K}
    {limits : JointLimits K n} (h : d.build = .ok ⟨n, limits⟩) :
    ∃ given : JointLimits K n, given.check = .ok limits := by
  obtain ⟨lower, -, h⟩ := bind_eq_ok_iff.1 h
  obtain ⟨upper, -, h⟩ := bind_eq_ok_iff.1 h
  split at h
  · -- only two lists of one length go on to the check
    split_ifs at h
    obtain ⟨lower, -, h⟩ := bind_eq_ok_iff.1 h
    obtain ⟨upper, -, h⟩ := bind_eq_ok_iff.1 h
    obtain ⟨accepted, haccepted, h⟩ := bind_eq_ok_iff.1 h
    cases h
    exact ⟨_, haccepted⟩
  · cases h

end KinematicManifold
