import KinematicManifold.Proofs.Rows
import KinematicManifold.Proofs.Satisfaction

/-!
# Moving joints into their limits

Every joint value that lies outside its limits has a nearest one inside. A configuration is moved
into the limits joint by joint, and what the limits ask for is the difference that this makes: the
error of joint limits is the way to the nearest configuration within them. So three notions agree.
The error is short, the nearest configuration is near, and every joint is near its limits; the first
two are the same, and the third is the same row by row.

## Key results

- `JointLimits.nearest`: the nearest configuration within limits
- `JointLimits.evaluate_eq_sub_nearest`: the error is the way from there
- `JointLimits.enforceBounds_eq_nearest`, `JointLimits.withinBounds_nearest`: it is where a
  configuration is moved, and it lies within
- `JointLimits.withinBounds_iff_abs_le`: a tolerance of the test bounds the rows of the error
- `Constraint.norm_sub_nearest_lt`: limits at any depth of a constraint whose error is short
-/

namespace KinematicManifold

/-! ## Entry by entry -/

namespace Tensor

section
variable {K : Type} {n : Nat}

/-- An array of one axis, given entry by entry. -/
theorem generate_singleton (n : Nat) (entry : List Nat → K) :
    generate [n] entry = ofConfiguration (Vector.ofFn fun i : Fin n => entry [i.val]) := by
  simp only [generate, ofConfiguration, ofList, indices_singleton, List.map_map, mk.injEq]
  refine ⟨by simp, ?_⟩
  simp [Vector.toList_ofFn, List.ofFn_eq_map, Function.comp_def]

variable [Zero K]

/-- Two configurations are combined entry by entry. -/
theorem map₂_ofConfiguration (f : K → K → K) (a b : Vector K n) :
    map₂ f (ofConfiguration a) (ofConfiguration b) =
      .ok (ofConfiguration (.ofFn fun i => f (a.get i) (b.get i))) := by
  simp only [map₂, shape_ofConfiguration, joinShapes?_self, generate_singleton,
    entryAt_ofConfiguration]

end

/-- A configuration is moved into bounds entry by entry. -/
theorem enforceBounds_ofConfiguration {K : Type} [Scalar K] {n : Nat}
    (q lower upper : Vector K n) :
    (ofConfiguration q).enforceBounds (ofConfiguration lower) (ofConfiguration upper) =
      .ok (ofConfiguration
        (.ofFn fun i => Scalar.clamp (q.get i) (lower.get i) (upper.get i))) := by
  have hshape (a b : Vector K n) : (ofConfiguration a).shape = (ofConfiguration b).shape := by
    rw [shape_ofConfiguration, shape_ofConfiguration]
  rw [enforceBounds_of_shape_eq (hshape _ _) (hshape _ _), shape_ofConfiguration,
    generate_singleton]
  simp only [entryAt_ofConfiguration]

end Tensor

/-! ## One value -/

namespace Interval

variable {interval : Interval ℝ}

/-- The excess is the way from the nearest value of the interval. -/
theorem excess_eq_sub_clamp (hordered : interval.lower ≤ interval.upper) (value : ℝ) :
    interval.excess value = value - Scalar.clamp value interval.lower interval.upper := by
  rw [Scalar.clamp_eq]
  rcases excess_cases hordered value with ⟨hbelow, hexcess⟩ | ⟨⟨hlower, hupper⟩, hexcess⟩ |
    ⟨habove, hexcess⟩
  · rw [hexcess, max_eq_right hbelow.le, min_eq_right hordered]
  · rw [hexcess, max_eq_left hlower, min_eq_right hupper, sub_self]
  · rw [hexcess, max_eq_left (hordered.trans habove.le), min_eq_left habove.le]

/-- A clamped value lies in its interval. -/
theorem contains_clamp (hordered : interval.lower ≤ interval.upper) (value : ℝ) :
    interval.Contains (Scalar.clamp value interval.lower interval.upper) := by
  have hinside := contains_sub_excess hordered value
  rwa [excess_eq_sub_clamp hordered, sub_sub_cancel] at hinside

end Interval

/-! ## Configurations -/

variable {n : Nat}

namespace JointLimits

/-- The interval of a joint. -/
def interval (limits : JointLimits ℝ n) (i : Fin n) : Interval ℝ :=
  ⟨limits.lower.get i, limits.upper.get i⟩

/-- The configuration within limits that is nearest. -/
noncomputable def nearest (limits : JointLimits ℝ n) (q : Vector ℝ n) : Vector ℝ n :=
  .ofFn fun i => Scalar.clamp (q.get i) (limits.lower.get i) (limits.upper.get i)

variable (limits : JointLimits ℝ n) (q : Vector ℝ n)

/-- The nearest configuration has each joint clamped to its own limits. -/
theorem get_nearest (i : Fin n) : (limits.nearest q).get i =
    Scalar.clamp (q.get i) (limits.interval i).lower (limits.interval i).upper := by
  rw [nearest, Linear.get_ofFn]
  rfl

/-- A configuration is moved into the limits where it is nearest. -/
theorem enforceBounds_eq_nearest :
    (Tensor.ofConfiguration q).enforceBounds (.ofConfiguration limits.lower)
      (.ofConfiguration limits.upper) = .ok (.ofConfiguration (limits.nearest q)) :=
  Tensor.enforceBounds_ofConfiguration q limits.lower limits.upper

variable (hordered : ∀ i, limits.lower.get i ≤ limits.upper.get i)
include hordered

/-- What a configuration is away from the nearest one is the excess of each joint. -/
theorem get_sub_nearest (i : Fin n) :
    (q - limits.nearest q).get i = (limits.interval i).excess (q.get i) := by
  rw [Interval.excess_eq_sub_clamp (hordered i), ← get_nearest, Linear.get_sub]
  rfl

/-- The nearest configuration keeps every limit. -/
theorem contains_nearest (i : Fin n) :
    (limits.interval i).Contains ((limits.nearest q).get i) := by
  rw [get_nearest]
  exact Interval.contains_clamp (hordered i) (q.get i)

/-- The error of joint limits is the way from the nearest configuration within them. -/
theorem evaluate_eq_sub_nearest :
    Leaf.evaluate (.jointLimits limits) q = .ok (q - limits.nearest q).toList := by
  have hentries (v : Vector ℝ n) : v.toList = (List.finRange n).map v.get := by
    rw [← List.ofFn_eq_map, ← Vector.toList_ofFn, ofFn_get]
  rw [evaluate_eq_ok, hentries]
  exact congrArg Except.ok
    (List.map_congr_left fun i _ => (limits.get_sub_nearest q hordered i).symm)

/-- The nearest configuration lies within the limits. -/
theorem withinBounds_nearest :
    (Tensor.ofConfiguration (limits.nearest q)).withinBounds (.ofConfiguration limits.lower)
      (.ofConfiguration limits.upper) 0 = .ok true := by
  refine Tensor.withinBounds_ofConfiguration_iff.2 fun i => ?_
  rw [sub_zero, add_zero]
  exact contains_nearest limits q hordered i

/-- Every joint keeps its limits up to a tolerance that bounds the way from the nearest
configuration. -/
theorem withinBounds_iff_abs_le {tolerance : ℝ} (htolerance : 0 ≤ tolerance) :
    (Tensor.ofConfiguration q).withinBounds (.ofConfiguration limits.lower)
      (.ofConfiguration limits.upper) tolerance = .ok true ↔
      ∀ i, |(q - limits.nearest q).get i| ≤ tolerance := by
  rw [Tensor.withinBounds_ofConfiguration_iff]
  refine forall_congr' fun i => ?_
  rw [get_sub_nearest limits q hordered, Interval.abs_excess_le_iff (hordered i) htolerance]
  rfl

/-- Every joint is as near its limits as the nearest configuration is. -/
theorem withinBounds_of_norm_sub_nearest_le {ε : ℝ} (h : Linear.norm (q - limits.nearest q) ≤ ε) :
    (Tensor.ofConfiguration q).withinBounds (.ofConfiguration limits.lower)
      (.ofConfiguration limits.upper) ε = .ok true := by
  have hε : 0 ≤ ε := (Real.sqrt_nonneg _).trans h
  exact (withinBounds_iff_abs_le limits q hordered hε).2 fun i =>
    (Linear.abs_get_le_norm _ i).trans h

end JointLimits

/-- Where the error of a constraint is short, the nearest configuration within its limits, at
whatever depth they are, is as near. -/
theorem Constraint.norm_sub_nearest_lt {c : Constraint ℝ n} {limits : JointLimits ℝ n}
    (hmem : .jointLimits limits ∈ c.leaves)
    (hordered : ∀ i, limits.lower.get i ≤ limits.upper.get i) {q : Vector ℝ n} {error : List ℝ}
    (herror : c.evaluate q = .ok error) {ε : ℝ} (hε : Linear.rowsNorm error < ε) :
    Linear.norm (q - limits.nearest q) < ε := by
  obtain ⟨rows, hrows, rfl⟩ := evaluate_eq_ok_iff.1 herror
  -- the error of the limits is a piece of the stack, wherever they are
  obtain ⟨row, hpiece, hrow⟩ := forall₂_exists_mem hrows hmem
  rw [limits.evaluate_eq_sub_nearest q hordered, Except.ok.injEq] at hrow
  rw [← Linear.rowsNorm_toList_eq_norm, hrow]
  exact (Linear.rowsNorm_le_rowsNorm_flatten hpiece).trans_lt hε

end KinematicManifold
