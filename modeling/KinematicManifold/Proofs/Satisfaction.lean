import KinematicManifold.Proofs.Bounds
import KinematicManifold.Proofs.Deviation
import KinematicManifold.Proofs.Outcome

/-!
# Success is satisfaction

A projection that reports success has met every single constraint of what it projected onto, up to
the tolerance: each point is that near its box, each deviation that near its tolerances, and each
joint value that near its limits. Where every single constraint is met at the start, the projection
succeeds without a step.

The length of an error bounds the length of the piece that each single constraint has in it. That
piece is the distance from the box, or from the tolerances; for joint limits it bounds the distance
of each joint value.

## Key results

- `Leaf.HoldsWithin`, `Leaf.Holds`: what it means that a single constraint is met
- `BoxConstraint.exists_mem_region`, `BoxConstraint.abs_excess_le`: the error is the distance from
  the box
- `Leaf.holdsWithin_of_rowsNorm_lt`, `Leaf.HoldsWithin.exists_rows_le`: the error of a single
  constraint against its distance
- `Constraint.project_success`: success is satisfaction, and satisfaction is success
-/

namespace KinematicManifold

variable {n : Nat}

namespace BoxConstraint

/-- The point that is kept in the box, in the reference frame. -/
noncomputable def point (c : BoxConstraint ℝ n) (pose : Pose ℝ) : Vec3 ℝ :=
  pose.position + pose.rotation.apply c.spec.linkOffset

/-- The points of the box, in the reference frame: along each axis of the box that is not free they
are no further from its centre than the half extent. -/
def region (c : BoxConstraint ℝ n) : Set (Vec3 ℝ) :=
  {z | ∀ axis, 0 ≤ c.spec.halfExtents.along axis →
    |(c.spec.box.rotation.transpose.apply (z - c.spec.box.position)).along axis| ≤
      c.spec.halfExtents.along axis}

/-- The error: along each constrained axis, how far the point stands outside the box. -/
theorem evaluate_of_state {c : BoxConstraint ℝ n} {q : Vector ℝ n} {state : LinkState ℝ n}
    (hstate : c.link.state q = .ok state) :
    Leaf.evaluate (.box c) q = .ok (c.spec.constrainedAxes.map fun axis =>
      (Interval.symmetric (c.spec.halfExtents.along axis)).excess
        ((c.pointInBox state.pose).along axis)) := by
  simp only [Leaf.evaluate, Leaf.rawError, rawError, hstate, Leaf.intervals, intervals, placeInBox,
    bind, Except.bind, pure, Except.pure, List.zipWith_map, List.zipWith_self]

/-- The error of a point of a link of a chain. -/
theorem evaluate_eq_ok {chain : Chain ℝ n} {link : Fin (n + 1)} {c : BoxConstraint ℝ n}
    (hlink : c.link = .ofChain chain link) (q : Vector ℝ n) :
    Leaf.evaluate (.box c) q = .ok (c.spec.constrainedAxes.map fun axis =>
      (Interval.symmetric (c.spec.halfExtents.along axis)).excess
        ((c.pointInBox (chain.linkPose q link)).along axis)) := by
  have hstate : c.link.state q = .ok (chain.linkState q link) := by rw [hlink, Link.state_ofChain]
  rw [evaluate_of_state hstate, Chain.linkState_pose]

/-- A point of the box is as near as the error is long. It is reached by taking the excess away,
along the axes of the box. -/
theorem exists_mem_region {c : BoxConstraint ℝ n} (hbox : c.spec.box.rotation.IsOrthogonal)
    (pose : Pose ℝ) :
    ∃ z ∈ c.region, ‖c.point pose - z‖ = Linear.rowsNorm (c.spec.constrainedAxes.map fun axis =>
      (Interval.symmetric (c.spec.halfExtents.along axis)).excess
        ((c.pointInBox pose).along axis)) := by
  -- the excess along each constrained axis of the box, and nothing along the others
  set v : Vec3 ℝ := Vec3.ofAlong fun axis =>
    if decide (0 ≤ c.spec.halfExtents.along axis) then
      (Interval.symmetric (c.spec.halfExtents.along axis)).excess ((c.pointInBox pose).along axis)
    else 0 with hv
  have hplace : c.spec.box.rotation.transpose.apply (c.point pose - c.spec.box.position) =
      c.pointInBox pose := rfl
  refine ⟨c.point pose - c.spec.box.rotation.apply v, fun axis haxis => ?_, ?_⟩
  · have hshift : c.spec.box.rotation.transpose.apply
        (c.point pose - c.spec.box.rotation.apply v - c.spec.box.position) =
          c.pointInBox pose - v := by
      rw [sub_right_comm, Mat3.apply_sub, hplace, hbox.transpose_apply_apply]
    have hcomponent : v.along axis = (Interval.symmetric (c.spec.halfExtents.along axis)).excess
        ((c.pointInBox pose).along axis) := by
      rw [hv, Vec3.along_ofAlong, if_pos (decide_eq_true haxis)]
    rw [hshift, Vec3.sub_along, hcomponent]
    exact Interval.contains_symmetric_iff.1 (Interval.contains_sub_excess (neg_le_self haxis) _)
  · rw [sub_sub_cancel, hbox.norm_apply, PositionSpec.constrainedAxes, Linear.rowsNorm_filter_axes]

/-- No point of the box is nearer than the error is long, along any constrained axis. -/
theorem abs_excess_le {c : BoxConstraint ℝ n} (hbox : c.spec.box.rotation.IsOrthogonal)
    {pose : Pose ℝ} {z : Vec3 ℝ} (hz : z ∈ c.region) {axis : Axis}
    (haxis : 0 ≤ c.spec.halfExtents.along axis) :
    |(Interval.symmetric (c.spec.halfExtents.along axis)).excess ((c.pointInBox pose).along axis)| ≤
      ‖c.point pose - z‖ := by
  have hcontains := Interval.contains_symmetric_iff.2 (hz axis haxis)
  -- a difference of points does not depend on where the box stands
  have hdifference : c.spec.box.rotation.transpose.apply (c.point pose - z) =
      c.pointInBox pose - c.spec.box.rotation.transpose.apply (z - c.spec.box.position) := by
    rw [pointInBox, ← Mat3.apply_sub, sub_sub_sub_cancel_right]
    rfl
  calc _ ≤ |(c.pointInBox pose).along axis -
        (c.spec.box.rotation.transpose.apply (z - c.spec.box.position)).along axis| :=
        Interval.abs_excess_le hcontains _
    _ = |(c.spec.box.rotation.transpose.apply (c.point pose - z)).along axis| := by
        rw [hdifference, Vec3.sub_along]
    _ ≤ ‖c.spec.box.rotation.transpose.apply (c.point pose - z)‖ := Vec3.abs_along_le_norm _ _
    _ = ‖c.point pose - z‖ := hbox.transpose.norm_apply _

end BoxConstraint

namespace OrientationConstraint

/-- How far a deviation stands outside the tolerances. -/
noncomputable def excess (c : OrientationConstraint ℝ n) (φ : Vec3 ℝ) : Vec3 ℝ :=
  Vec3.ofAlong fun axis => (Interval.symmetric (c.spec.tolerances.along axis)).excess (φ.along axis)

/-- The error: how far the deviation stands outside the tolerances. -/
theorem evaluate_of_deviation {c : OrientationConstraint ℝ n} {q : Vector ℝ n}
    {state : LinkState ℝ n} {φ : Vec3 ℝ} (hstate : c.link.state q = .ok state)
    (hφ : c.deviation state.pose = .ok φ) :
    Leaf.evaluate (.orientation c) q = .ok (c.excess φ).toList := by
  simp only [Leaf.evaluate, Leaf.rawError, rawError, hstate, hφ, bind, Except.bind, pure,
    Except.pure]
  rfl

/-- The error of the deviation of a link of a chain. -/
theorem evaluate_eq_ok {chain : Chain ℝ n} {link : Fin (n + 1)} {c : OrientationConstraint ℝ n}
    (hrigid : chain.IsRigid) (hlink : c.link = .ofChain chain link)
    (htarget : c.spec.target.normSq = 1) (q : Vector ℝ n) :
    Leaf.evaluate (.orientation c) q = .ok (c.excess (Rotation.log
      ((chain.linkPose q link).rotation * c.targetRotation.transpose))).toList := by
  simp only [Leaf.evaluate, Leaf.rawError, rawError_eq_ok hrigid hlink htarget]
  rfl

end OrientationConstraint

/-- The error of joint limits: how far each joint value stands outside its limits. -/
theorem JointLimits.evaluate_eq_ok {K : Type} [Scalar K] (limits : JointLimits K n)
    (q : Vector K n) :
    Leaf.evaluate (.jointLimits limits) q = .ok ((List.finRange n).map fun i =>
      (Interval.mk (limits.lower.get i) (limits.upper.get i)).excess (q.get i)) := by
  -- intervals and values are matched joint by joint
  have hrows : List.zipWith Interval.excess limits.intervals q.toList =
      (List.finRange n).map fun i =>
        (Interval.mk (limits.lower.get i) (limits.upper.get i)).excess (q.get i) := by
    apply List.ext_getElem
    · simp [intervals]
    · intro i hi hi'
      simp [intervals, Vector.get_eq_getElem]
  rw [← hrows]
  rfl

namespace Leaf

/-- Holds where a single constraint is met up to a distance: of the point from the box, or of the
deviation from the tolerances, or of each joint value from its limits, or of each affine form from
its interval. -/
def HoldsWithin (ε : ℝ) (q : Vector ℝ n) : Leaf ℝ n → Prop
  | box c => ∃ state, c.link.state q = .ok state ∧ ∃ z ∈ c.region, ‖c.point state.pose - z‖ < ε
  | orientation c => ∃ state, c.link.state q = .ok state ∧ ∃ φ ψ : Vec3 ℝ,
      Rotation.exp φ * c.targetRotation = state.pose.rotation ∧
      (∀ axis, |ψ.along axis| ≤ c.spec.tolerances.along axis) ∧ ‖φ - ψ‖ < ε
  | jointLimits l => (Tensor.ofConfiguration q).withinBounds (.ofConfiguration l.lower)
      (.ofConfiguration l.upper) ε = .ok true
  | affine c => ∀ row ∈ c.rows, |row.interval.excess (row.valueAt q)| < ε

/-- Holds where a single constraint is met. -/
def Holds (q : Vector ℝ n) : Leaf ℝ n → Prop
  | box c => ∃ state, c.link.state q = .ok state ∧ c.point state.pose ∈ c.region
  | orientation c => ∃ state, c.link.state q = .ok state ∧ ∃ φ : Vec3 ℝ,
      Rotation.exp φ * c.targetRotation = state.pose.rotation ∧
      ∀ axis, |φ.along axis| ≤ c.spec.tolerances.along axis
  | jointLimits l => (Tensor.ofConfiguration q).withinBounds (.ofConfiguration l.lower)
      (.ofConfiguration l.upper) 0 = .ok true
  | affine c => ∀ row ∈ c.rows, row.interval.Contains (row.valueAt q)

/-- What is met is met up to every distance. -/
theorem Holds.holdsWithin {q : Vector ℝ n} {l : Leaf ℝ n} (h : l.Holds q) {ε : ℝ} (hε : 0 < ε) :
    l.HoldsWithin ε q := by
  cases l with
  | box c =>
    -- the place itself is the one that is near
    obtain ⟨state, hstate, hmem⟩ := h
    exact ⟨state, hstate, _, hmem, by rwa [sub_self, norm_zero]⟩
  | orientation c =>
    obtain ⟨state, hstate, φ, hφ, htolerance⟩ := h
    exact ⟨state, hstate, φ, φ, hφ, htolerance, by rwa [sub_self, norm_zero]⟩
  | jointLimits limits =>
    -- bounds that hold hold with some room
    have hexact := Tensor.withinBounds_ofConfiguration_iff.1 h
    refine Tensor.withinBounds_ofConfiguration_iff.2 fun i => ?_
    obtain ⟨hlower, hupper⟩ := hexact i
    constructor <;> linarith
  | affine c =>
    intro row hrow
    rwa [Interval.excess_of_contains (h row hrow), abs_zero]

/-- A box whose axes are orthonormal; other single constraints have no box. -/
def HasRigidBox : Leaf ℝ n → Prop
  | box c => c.spec.box.rotation.IsOrthogonal
  | _ => True

variable {chain : Chain ℝ n} {q : Vector ℝ n} {l : Leaf ℝ n}

/-- A single constraint whose error is short is met up to that length. -/
theorem holdsWithin_of_rowsNorm_lt (hrigid : chain.IsRigid) (haccepted : l.IsAccepted chain)
    (hbox : l.HasRigidBox) {error : List ℝ} (herror : l.evaluate q = .ok error) {ε : ℝ}
    (hε : Linear.rowsNorm error < ε) : l.HoldsWithin ε q := by
  cases l with
  | box c =>
    obtain ⟨link, -, hlink⟩ := haccepted
    rw [BoxConstraint.evaluate_eq_ok hlink, Except.ok.injEq] at herror
    obtain ⟨z, hz, hdistance⟩ := BoxConstraint.exists_mem_region hbox (chain.linkPose q link)
    refine ⟨chain.linkState q link, by rw [hlink, Link.state_ofChain], z, hz, ?_⟩
    rwa [Chain.linkState_pose, hdistance, herror]
  | orientation c =>
    obtain ⟨⟨link, -, hlink⟩, htarget, htolerances⟩ := haccepted
    rw [OrientationConstraint.evaluate_eq_ok hrigid hlink htarget, Except.ok.injEq] at herror
    set φ := Rotation.log ((chain.linkPose q link).rotation * c.targetRotation.transpose)
    -- the vector within the tolerances is what the excess leaves of the deviation
    refine ⟨chain.linkState q link, by rw [hlink, Link.state_ofChain], φ, φ - c.excess φ, ?_,
      fun axis => ?_, ?_⟩
    · have hrotation : c.targetRotation.IsRotation := Quaternion.isRotation_toMat3 htarget
      rw [Rotation.exp_log (OrientationConstraint.isRotation_deviation hrigid htarget q), mul_assoc,
        hrotation.transpose_mul, mul_one, Chain.linkState_pose]
    · rw [Vec3.sub_along, OrientationConstraint.excess, Vec3.along_ofAlong]
      exact Interval.contains_symmetric_iff.1
        (Interval.contains_sub_excess (neg_le_self (htolerances axis)) _)
    · rwa [sub_sub_cancel, ← Linear.rowsNorm_toList, herror]
  | jointLimits limits =>
    rw [JointLimits.evaluate_eq_ok, Except.ok.injEq] at herror
    refine Tensor.withinBounds_ofConfiguration_iff.2 fun i => ?_
    have hpos : 0 ≤ ε := (Linear.rowsNorm_nonneg error).trans hε.le
    have hmem :
        (Interval.mk (limits.lower.get i) (limits.upper.get i)).excess (q.get i) ∈ error := by
      rw [← herror]
      exact List.mem_map_of_mem (List.mem_finRange i)
    exact (Interval.abs_excess_le_iff (haccepted i) hpos).1
      ((Linear.abs_le_rowsNorm hmem).trans hε.le)
  | affine c => exact haccepted.elim

/-- The rows of the error of a single constraint that is met up to a distance are no longer than
that. -/
theorem HoldsWithin.exists_rows_le {ε : ℝ} (h : l.HoldsWithin ε q) (hε : 0 ≤ ε)
    (hrigid : chain.IsRigid) (haccepted : l.IsAccepted chain) (hbox : l.HasRigidBox) :
    ∃ error, l.evaluate q = .ok error ∧ ∀ row ∈ error, |row| ≤ ε := by
  cases l with
  | box c =>
    obtain ⟨link, -, hlink⟩ := haccepted
    obtain ⟨state, hstate, z, hz, hdistance⟩ := h
    rw [hlink, Link.state_ofChain, Except.ok.injEq] at hstate
    refine ⟨_, BoxConstraint.evaluate_eq_ok hlink q, ?_⟩
    simp only [List.mem_map, PositionSpec.constrainedAxes, List.mem_filter, decide_eq_true_eq]
    rintro row ⟨axis, ⟨-, haxis⟩, rfl⟩
    rw [← hstate, Chain.linkState_pose] at hdistance
    exact (BoxConstraint.abs_excess_le hbox hz haxis).trans hdistance.le
  | orientation c =>
    obtain ⟨⟨link, -, hlink⟩, htarget, -⟩ := haccepted
    obtain ⟨state, hstate, φ, ψ, hφ, hψ, hdistance⟩ := h
    rw [hlink, Link.state_ofChain, Except.ok.injEq] at hstate
    have hrotation : c.targetRotation.IsRotation := Quaternion.isRotation_toMat3 htarget
    obtain ⟨factor, hfactor, hlog⟩ := Rotation.log_exp_eq_smul φ
    refine ⟨_, OrientationConstraint.evaluate_eq_ok hrigid hlink htarget q, ?_⟩
    rw [← Chain.linkState_pose, hstate, ← hφ, mul_assoc, hrotation.mul_transpose, mul_one, hlog]
    -- the deviation may be shorter than `φ`; shortened as much, `ψ` is still within the tolerances
    have key (axis : Axis) : |(c.excess (factor • φ)).along axis| ≤ ε := by
      have hcontains : (Interval.symmetric (c.spec.tolerances.along axis)).Contains
          (factor * ψ.along axis) := by
        rw [Interval.contains_symmetric_iff, abs_mul]
        nlinarith [hψ axis, abs_nonneg (ψ.along axis), abs_nonneg factor]
      calc |(c.excess (factor • φ)).along axis|
          ≤ |factor * φ.along axis - factor * ψ.along axis| := by
            rw [OrientationConstraint.excess, Vec3.along_ofAlong, Vec3.smul_along]
            exact Interval.abs_excess_le hcontains _
        _ = |factor| * |(φ - ψ).along axis| := by
            rw [← mul_sub, abs_mul, Vec3.sub_along]
        _ ≤ 1 * ‖φ - ψ‖ :=
            mul_le_mul hfactor (Vec3.abs_along_le_norm _ _) (abs_nonneg _) zero_le_one
        _ ≤ ε := by
            rw [one_mul]
            exact hdistance.le
    simp only [Vec3.toList, List.forall_mem_cons]
    exact ⟨key .x, key .y, key .z, List.forall_mem_nil _⟩
  | jointLimits limits =>
    refine ⟨_, JointLimits.evaluate_eq_ok limits q, ?_⟩
    simp only [List.mem_map]
    rintro row ⟨i, -, rfl⟩
    exact (Interval.abs_excess_le_iff (haccepted i) hε).2
      (Tensor.withinBounds_ofConfiguration_iff.1 h i)
  | affine c => exact haccepted.elim

end Leaf

namespace Constraint

variable {chain : Chain ℝ n} {c : Constraint ℝ n} {q : Vector ℝ n}

section
variable (hrigid : chain.IsRigid) (hbuilt : c.BuiltOn (.chain chain))
  (hbox : ∀ l ∈ c.leaves, l.HasRigidBox)

include hrigid hbuilt hbox

/-- Where the error of a constraint is short, every single constraint is met up to its length. -/
theorem holdsWithin_of_rowsNorm_lt {error : List ℝ} (herror : c.evaluate q = .ok error) {ε : ℝ}
    (hε : Linear.rowsNorm error < ε) : ∀ l ∈ c.leaves, l.HoldsWithin ε q := by
  obtain ⟨rows, hrows, rfl⟩ := evaluate_eq_ok_iff.1 herror
  intro l hl
  obtain ⟨row, hmem, hrow⟩ := forall₂_exists_mem hrows hl
  exact Leaf.holdsWithin_of_rowsNorm_lt hrigid (hbuilt.isAccepted l hl) (hbox l hl) hrow
    ((Linear.rowsNorm_le_rowsNorm_flatten hmem).trans_lt hε)

/-- The rows of the error of a constraint whose single constraints are met up to a distance are no
longer than that. -/
theorem exists_rows_le {δ : ℝ} (hδ : 0 ≤ δ) (h : ∀ l ∈ c.leaves, l.HoldsWithin δ q) :
    ∃ error, c.evaluate q = .ok error ∧ ∀ row ∈ error, |row| ≤ δ := by
  have hall : ∀ l ∈ c.leaves, ∃ error, l.evaluate q = .ok error ∧ ∀ row ∈ error, |row| ≤ δ :=
    fun l hl => (h l hl).exists_rows_le hδ hrigid (hbuilt.isAccepted l hl) (hbox l hl)
  -- every single constraint has its rows, and the constraint stacks them
  obtain ⟨rows, hrows⟩ := exists_forall₂ hall
  refine ⟨rows.flatten, evaluate_eq_ok_iff.2 ⟨rows, hrows.imp fun _ _ h => h.1, rfl⟩, ?_⟩
  intro row hrow
  obtain ⟨piece, hpiece, hrow⟩ := List.mem_flatten.1 hrow
  obtain ⟨l, -, -, hle⟩ := forall₂_exists_mem hrows.flip hpiece
  exact hle row hrow

end

/-- Where the error is shorter than the tolerance at the start, the projection takes no step. -/
theorem project_of_rowsNorm_lt {s : Settings ℝ} {error : List ℝ} (h : c.evaluate q = .ok error)
    (hlt : Linear.rowsNorm error < s.tolerance) :
    c.residual.project s q = .ok ⟨.success, q, Linear.rowsNorm error, 0⟩ := by
  rw [Residual.project, Residual.run_of_not_le _ _ h (not_le.2 hlt), Residual.finish, if_pos hlt]

/-- Where every single constraint is met at the start, the error is zero and the projection takes no
step. -/
theorem project_of_holds (hrigid : chain.IsRigid) (hbuilt : c.BuiltOn (.chain chain))
    (hbox : ∀ l ∈ c.leaves, l.HasRigidBox) {s : Settings ℝ} (hs : s.Valid)
    (h : ∀ l ∈ c.leaves, l.Holds q) : c.residual.project s q = .ok ⟨.success, q, 0, 0⟩ := by
  obtain ⟨error, herror, -⟩ := exists_rows_le hrigid hbuilt hbox zero_le_one
    fun l hl => (h l hl).holdsWithin one_pos
  -- the rows are no longer than any distance
  have hzero : ∀ row ∈ error, |row| ≤ 0 := by
    intro row hrow
    refine le_of_forall_gt_imp_ge_of_dense fun δ hδ => ?_
    obtain ⟨same, hsame, hrows⟩ := exists_rows_le hrigid hbuilt hbox (le_of_lt hδ)
      fun l hl => (h l hl).holdsWithin hδ
    obtain rfl := Except.ok.inj (herror.symm.trans hsame)
    exact hrows row hrow
  have hnorm : Linear.rowsNorm error = 0 := by
    have hsq := Linear.rowsNorm_sq_le hzero
    rw [zero_pow two_ne_zero, mul_zero] at hsq
    exact pow_eq_zero_iff two_ne_zero |>.1 (le_antisymm hsq (sq_nonneg _))
  rw [project_of_rowsNorm_lt herror (hnorm ▸ hs.tolerance_pos), hnorm]

/-- Success is satisfaction. Where a projection succeeds, every single constraint is met up to the
tolerance, at whatever depth. Conversely, a projection succeeds without a step where every single
constraint is met up to a distance that is small enough for the number of rows, and its error is
zero where every single constraint is met. -/
theorem project_success (hrigid : chain.IsRigid) (hbuilt : c.BuiltOn (.chain chain))
    (hbox : ∀ l ∈ c.leaves, l.HasRigidBox) {s : Settings ℝ} (hs : s.Valid) (q : Vector ℝ n) :
    (∀ o, c.residual.project s q = .ok o → o.status = .success →
      ∀ l ∈ c.leaves, l.HoldsWithin s.tolerance o.configuration) ∧
    (∀ δ, 0 ≤ δ → c.dimension * δ ^ 2 < s.tolerance ^ 2 → (∀ l ∈ c.leaves, l.HoldsWithin δ q) →
      ∃ norm < s.tolerance, c.residual.project s q = .ok ⟨.success, q, norm, 0⟩) ∧
    ((∀ l ∈ c.leaves, l.Holds q) → c.residual.project s q = .ok ⟨.success, q, 0, 0⟩) := by
  refine ⟨fun o ho hsuccess => ?_, fun δ hδ hsmall h => ?_,
    project_of_holds hrigid hbuilt hbox hs⟩
  · -- a success has found the error short where it ends
    obtain ⟨error, herror, -, hshort⟩ := Residual.run_reports ho
    exact holdsWithin_of_rowsNorm_lt hrigid hbuilt hbox herror (hshort hsuccess)
  · -- no row is longer than the distance
    obtain ⟨error, herror, hrows⟩ := exists_rows_le hrigid hbuilt hbox hδ h
    have hlt : Linear.rowsNorm error < s.tolerance := by
      refine lt_of_pow_lt_pow_left₀ 2 hs.tolerance_pos.le ?_
      calc Linear.rowsNorm error ^ 2 ≤ error.length * δ ^ 2 := Linear.rowsNorm_sq_le hrows
        _ = c.dimension * δ ^ 2 := by rw [length_evaluate herror]
        _ < s.tolerance ^ 2 := hsmall
    exact ⟨_, hlt, project_of_rowsNorm_lt herror hlt⟩

end Constraint

/-! ## A hand that stands in its box -/

/-- The hand in a box that is wide enough for it at rest, and the joints in their limits. -/
noncomputable def wideConstraint : BoxConstraint ℝ 2 :=
  ⟨{ handSpec with halfExtents := ⟨1 + 1, 1, -1⟩ }, .ofChain turnThenSlide (.last 2)⟩

noncomputable def wideTask : Constraint ℝ 2 :=
  .intersection [.intersection [.leaf (.box wideConstraint)], .ofJointLimits rangeLimits]

/-- The task of the example is the wide box and the limits. -/
theorem leaves_wideTask : wideTask.leaves = [.box wideConstraint, .jointLimits rangeLimits] := by
  simp [wideTask, Constraint.leaves, Constraint.leavesAll, Constraint.ofJointLimits]

/-- It is built on the example chain. -/
theorem builtOn_wideTask : wideTask.BuiltOn (.chain turnThenSlide) := by
  have hspec := PositionDescription.build_inReference "hand" ⟨1 + 1, 1, -1⟩ ⟨1, 0, 0⟩ .y zero_le_one
  -- the last axis of the box is free
  have haxes : wideConstraint.spec.constrainedAxes = [.x, .y] := by
    norm_num [PositionSpec.constrainedAxes, Axis.all, wideConstraint, Vec3.along, List.filter_cons]
  have hrows : wideConstraint.spec.constrainedAxes ≠ [] := by simp [haxes]
  have hhand : (Constraint.leaf (.box wideConstraint)).BuiltOn (.chain turnThenSlide) :=
    .position hspec (ofPosition_hand rfl hrows)
  have hinner : (Constraint.intersection [.leaf (.box wideConstraint)]).BuiltOn
      (.chain turnThenSlide) :=
    .intersection (Constraint.intersect_map_mk (by simp)) (by simpa using hhand)
  have hlimits := Constraint.BuiltOn.modelLimits ofModelLimits_turnThenSlide
  exact .intersection (Constraint.intersect_map_mk (by simp)) (by simpa using ⟨hinner, hlimits⟩)

/-- The point ahead of the hand touches a side of the box, and both joints are at zero. -/
theorem holds_wideTask : ∀ l ∈ wideTask.leaves, l.Holds atRest := by
  rw [leaves_wideTask]
  simp only [List.forall_mem_cons]
  refine ⟨⟨_, Link.state_ofChain _ _ _, ?_⟩, ?_, List.forall_mem_nil _⟩
  · -- the hand stands in its box
    rw [Chain.linkState_pose, linkPose_hand]
    intro axis haxis
    cases axis with
    | x => norm_num [wideConstraint, handSpec, BoxConstraint.point, Pose.identity, Vec3.along]
    | y => norm_num [wideConstraint, handSpec, BoxConstraint.point, Pose.identity, Vec3.along]
    | z => norm_num [wideConstraint, Vec3.along] at haxis
  · -- and the joints between their limits
    refine Tensor.withinBounds_ofConfiguration_iff.2 fun i => ?_
    fin_cases i <;> norm_num [rangeLimits, atRest, Vector.get_eq_getElem]

/-- Its box is placed by a rotation. -/
theorem hasRigidBox_wideTask : ∀ l ∈ wideTask.leaves, l.HasRigidBox := by
  rw [leaves_wideTask]
  simp only [List.forall_mem_cons]
  exact ⟨Mat3.IsRotation.one.toIsOrthogonal, trivial, List.forall_mem_nil _⟩

/-- The hand stands in its box, and its joints within their limits. So the projection succeeds at
once, and its success says that they do. -/
theorem project_success_wideTask :
    turnThenSlide.IsRigid ∧ wideTask.BuiltOn (.chain turnThenSlide) ∧
    (∀ l ∈ wideTask.leaves, l.HasRigidBox) ∧ (Settings.standard : Settings ℝ).Valid ∧
    (∀ l ∈ wideTask.leaves, l.Holds atRest) ∧
    wideTask.residual.project .standard atRest = .ok ⟨.success, atRest, 0, 0⟩ ∧
    (∀ l ∈ wideTask.leaves,
      l.HoldsWithin (Settings.standard : Settings ℝ).tolerance atRest) ∧
    ∀ δ : ℝ, 0 < δ → wideTask.dimension * δ ^ 2 < (Settings.standard : Settings ℝ).tolerance ^ 2 →
      ∃ norm < (Settings.standard : Settings ℝ).tolerance,
        wideTask.residual.project .standard atRest = .ok ⟨.success, atRest, norm, 0⟩ := by
  obtain ⟨hsuccess, hnear, hmet⟩ := Constraint.project_success isRigid_turnThenSlide
    builtOn_wideTask hasRigidBox_wideTask Settings.valid_standard atRest
  have hproject := hmet holds_wideTask
  exact ⟨isRigid_turnThenSlide, builtOn_wideTask, hasRigidBox_wideTask, Settings.valid_standard,
    holds_wideTask, hproject, hsuccess _ hproject rfl,
    fun δ hδ hsmall => hnear δ hδ.le hsmall fun l hl => (holds_wideTask l hl).holdsWithin hδ⟩

end KinematicManifold
