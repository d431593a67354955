import KinematicManifold.Proofs.ChainMotion
import KinematicManifold.Proofs.Excess
import KinematicManifold.Proofs.Leaves

/-!
# Gradients

The gradients that a constraint gives are the derivative of its error, away from the bounds where
the error has a kink. The two are computed apart from one another, so that this is shown row by row:
for the raw error of each kind of single constraint, for the excess over an interval, and for the
rows that intersections stack.

`HasGradientsAt` relates rows that may fail to a list of gradients, and it is kept by stacking.

## Key results

- `Interval.hasDerivAt_excess`: the slope is the derivative of the excess
- `BoxConstraint.hasGradientsAt_rawError`, `hasGradientsAt_unitRows`: the gradients of raw errors
- `Leaf.exists_gradients`, `Constraint.exists_gradients`: from raw errors to errors, and from single
  constraints to all
- `Constraint.hasGradientsAt_evaluate`: the gradients of positions and joint limits, however nested
-/

namespace KinematicManifold

variable {n : Nat}

/-! ## Rows and their gradients -/

/-- The linear form of a gradient. -/
noncomputable def gradientMap (gradient : Vector ℝ n) : (Fin n → ℝ) →L[ℝ] ℝ :=
  ∑ i, gradient.get i • ContinuousLinearMap.proj i

/-- A gradient takes a velocity to their inner product. -/
@[simp] theorem gradientMap_apply (gradient : Vector ℝ n) (ξ : Fin n → ℝ) :
    gradientMap gradient ξ = ∑ i, gradient.get i * ξ i := by
  simp [gradientMap]

/-- A scaled gradient makes a scaled linear map. -/
theorem gradientMap_scale (c : ℝ) (gradient : Vector ℝ n) :
    gradientMap (Linear.scale c gradient) = c • gradientMap gradient := by
  ext ξ
  simp [Finset.mul_sum, mul_assoc, Vector.get_eq_getElem]

/-- A list of gradients is the derivative, at a configuration, of rows that may fail: the rows can
be had at every configuration, and each of them is differentiable with the gradient at its place. -/
def HasGradientsAt (f : Vector ℝ n → Except Fault (List ℝ)) (gradients : List (Vector ℝ n))
    (q : Vector ℝ n) : Prop :=
  ∃ rows : List ((Fin n → ℝ) → ℝ), (∀ x, f (Vector.ofFn x) = .ok (rows.map (· x))) ∧
    List.Forall₂ (fun row gradient => HasFDerivAt row (gradientMap gradient) q.get) rows gradients

/-- Rows that are stacked have the gradients stacked. -/
theorem HasGradientsAt.append {f g : Vector ℝ n → Except Fault (List ℝ)}
    {first second : List (Vector ℝ n)} {q : Vector ℝ n} (hf : HasGradientsAt f first q)
    (hg : HasGradientsAt g second q) :
    HasGradientsAt (fun p => do let rows ← f p; let others ← g p; return rows ++ others)
      (first ++ second) q := by
  obtain ⟨rows, hrows, hfirst⟩ := hf
  obtain ⟨others, hothers, hsecond⟩ := hg
  refine ⟨rows ++ others, fun x => ?_, List.rel_append hfirst hsecond⟩
  simp only [hrows, hothers, List.map_append]
  rfl

/-! ## The excess over an interval -/

/-- Away from the bounds, the slope is the derivative of the excess. -/
theorem Interval.hasDerivAt_excess {interval : Interval ℝ} {value : ℝ}
    (hordered : interval.lower ≤ interval.upper) (hlower : value ≠ interval.lower)
    (hupper : value ≠ interval.upper) :
    HasDerivAt interval.excess (interval.slope value) value := by
  -- off the bounds, all nearby values lie on the same side of them
  rcases lt_or_gt_of_ne hlower with hbelow | habove
  · have hslope : interval.slope value = 1 := if_pos (.inr hbelow)
    have hnear : interval.excess =ᶠ[nhds value] fun v => v - interval.lower := by
      filter_upwards [Iio_mem_nhds hbelow] with v hv
      exact excess_of_lt hordered hv
    rw [hslope]
    exact ((hasDerivAt_id value).sub_const interval.lower).congr_of_eventuallyEq hnear
  · rcases lt_or_gt_of_ne hupper with hinside | houtside
    · have hslope : interval.slope value = 0 := by
        refine if_neg ?_
        rintro (h | h) <;> linarith
      have hnear : interval.excess =ᶠ[nhds value] fun _ => 0 := by
        filter_upwards [Ioo_mem_nhds habove hinside] with v hv
        exact excess_of_contains ⟨hv.1.le, hv.2.le⟩
      rw [hslope]
      exact (hasDerivAt_const value 0).congr_of_eventuallyEq hnear
    · have hslope : interval.slope value = 1 := if_pos (.inl houtside)
      have hnear : interval.excess =ᶠ[nhds value] fun v => v - interval.upper := by
        filter_upwards [Ioi_mem_nhds houtside] with v hv
        exact excess_of_gt hordered hv
      rw [hslope]
      exact ((hasDerivAt_id value).sub_const interval.upper).congr_of_eventuallyEq hnear

/-! ## Raw errors -/

variable {chain : Chain ℝ n} {link : Fin (n + 1)}

section
variable {c : BoxConstraint ℝ n} (hlink : c.link = .ofChain chain link) (q : Vector ℝ n)
include hlink

/-- A point of a link of a chain has a place in a box. -/
theorem BoxConstraint.rawError_eq_ok :
    c.rawError q = .ok (c.placeInBox (chain.linkPose q link)) := by
  rw [rawError, hlink, Link.state_ofChain]
  rfl

/-- On a chain the raw Jacobian of a box is answered, and consists of velocities in the box. -/
theorem BoxConstraint.rawJacobian_eq_ok :
    c.rawJacobian q = .ok (c.velocitiesInBox (chain.linkState q link)) := by
  rw [rawJacobian, hlink, Link.state_ofChain]
  rfl

end

/-- The place of a point of a link in a box moves with the gradients that are given for it. -/
theorem BoxConstraint.hasGradientsAt_rawError {c : BoxConstraint ℝ n} (hrigid : chain.IsRigid)
    (hlink : c.link = .ofChain chain link) (q : Vector ℝ n) :
    HasGradientsAt c.rawError (c.velocitiesInBox (chain.linkState q link)) q := by
  refine ⟨c.spec.constrainedAxes.map fun axis x =>
    (c.pointInBox (chain.linkPose (Vector.ofFn x) link)).along axis, fun x => ?_, ?_⟩
  · rw [rawError_eq_ok hlink, List.map_map]
    rfl
  · rw [velocitiesInBox, List.forall₂_map_left_iff, List.forall₂_map_right_iff, List.forall₂_same]
    intro axis _
    -- the point is carried by the link, and its place is read in the frame of the box
    have hmoves := Chain.movesAt_linkPose hrigid q.get link
    have hpoint := (hmoves.hasFDerivAt_point c.spec.linkOffset).sub_const c.spec.box.position
    have hplace := (Vec3.alongMap axis ∘L
      Mat3.action c.spec.box.rotation.transpose).hasFDerivAt.comp _ hpoint
    refine hplace.congr_fderiv ?_
    ext1 ξ
    have hmotion := chain.velocityMap_motion q.get link ξ
    simp only [ofFn_get] at hmotion
    rw [ContinuousLinearMap.comp_apply, LinearMap.coe_toContinuousLinearMap', LinearMap.comp_apply,
      ofFn_get, hmotion, map_sum, gradientMap_apply]
    -- both sides are sums over the joints, and agree joint by joint
    refine Finset.sum_congr rfl fun i _ => ?_
    rw [map_smul, smul_eq_mul, mul_comm]
    congr 1
    simp [offsetOf, Chain.linkState_pose, -Mat3.apply_x]

/-- The rows of the identity matrix are the gradients of the joint values. -/
theorem hasGradientsAt_unitRows (q : Vector ℝ n) :
    HasGradientsAt (fun p => .ok p.toList) (unitRows n) q := by
  refine ⟨(List.finRange n).map fun i x => x i, fun x => ?_, ?_⟩
  · simp only [Vector.toList_ofFn, List.ofFn_eq_map, List.map_map]
    rfl
  · rw [unitRows, List.forall₂_map_left_iff, List.forall₂_map_right_iff, List.forall₂_same]
    intro i _
    -- each value is a projection, which is its own derivative
    have hvalue := (ContinuousLinearMap.proj (R := ℝ) (φ := fun _ : Fin n => ℝ) i).hasFDerivAt
      (x := q.get)
    refine hvalue.congr_fderiv ?_
    ext1 ξ
    simp

/-! ## Errors -/

namespace Leaf

/-- Holds where no row of the raw error lies on a bound of its interval. -/
def IsOffBounds (l : Leaf ℝ n) (q : Vector ℝ n) : Prop :=
  ∀ raw, l.rawError q = .ok raw →
    ∀ entry ∈ l.intervals.zip raw, entry.2 ≠ entry.1.lower ∧ entry.2 ≠ entry.1.upper

/-- The intervals of an accepted constraint are not crossed. -/
theorem IsAccepted.lower_le_upper {l : Leaf ℝ n} (h : l.IsAccepted chain) :
    ∀ interval ∈ l.intervals, interval.lower ≤ interval.upper := by
  cases l with
  | box c =>
    -- only axes with an extent that is not negative are constrained
    simp only [intervals, BoxConstraint.intervals, PositionSpec.constrainedAxes, List.mem_map,
      List.mem_filter, decide_eq_true_eq]
    rintro interval ⟨axis, ⟨-, hextent⟩, rfl⟩
    exact neg_le_self hextent
  | orientation c =>
    obtain ⟨-, -, htolerances⟩ := h
    simp only [intervals, OrientationConstraint.intervals, Vec3.toList, List.map_cons, List.map_nil,
      List.forall_mem_cons]
    exact ⟨neg_le_self (htolerances .x), neg_le_self (htolerances .y), neg_le_self (htolerances .z),
      List.forall_mem_nil _⟩
  | jointLimits limits =>
    intro interval hmem
    obtain ⟨i, hi, rfl⟩ := List.getElem_of_mem hmem
    have hlt : i < n := by simpa [intervals, JointLimits.intervals] using hi
    simpa [intervals, JointLimits.intervals, Vector.get_eq_getElem] using h ⟨i, hlt⟩
  | affine c => exact h.elim

/-- Rows with gradients have an excess with the gradients scaled, as long as no row lies on a
bound. -/
private theorem forall₂_excess {x : Fin n → ℝ} {intervals : List (Interval ℝ)}
    {rows : List ((Fin n → ℝ) → ℝ)} {gradients : List (Vector ℝ n)}
    (hrows : List.Forall₂ (fun row gradient => HasFDerivAt row (gradientMap gradient) x)
      rows gradients)
    (hordered : ∀ interval ∈ intervals, interval.lower ≤ interval.upper)
    (hoff : ∀ entry ∈ intervals.zip (rows.map (· x)),
      entry.2 ≠ entry.1.lower ∧ entry.2 ≠ entry.1.upper) :
    List.Forall₂ (fun row gradient => HasFDerivAt row (gradientMap gradient) x)
      (List.zipWith (fun interval row y => interval.excess (row y)) intervals rows)
      (List.zipWith Linear.scale (List.zipWith Interval.slope intervals (rows.map (· x)))
        gradients) := by
  induction hrows generalizing intervals with
  | nil => simp
  | cons hrow _ ih =>
    cases intervals with
    | nil => simp
    | cons interval intervals =>
      simp only [List.map_cons, List.zip_cons_cons, List.forall_mem_cons] at hoff hordered
      simp only [List.map_cons, List.zipWith_cons_cons]
      refine .cons ?_ (ih hordered.2 hoff.2)
      -- the chain rule, with the slope of the excess
      rw [gradientMap_scale]
      exact (Interval.hasDerivAt_excess hordered.1 hoff.1.1 hoff.1.2).comp_hasFDerivAt x hrow

/-- An accepted constraint has gradients where its raw error has, off the bounds. -/
theorem exists_gradients {l : Leaf ℝ n} {q : Vector ℝ n} {gradients : List (Vector ℝ n)}
    (h : l.IsAccepted chain) (hjacobian : l.rawJacobian q = .ok gradients)
    (hraw : HasGradientsAt l.rawError gradients q) (hoff : l.IsOffBounds q) :
    ∃ gradients, l.jacobian q = .ok gradients ∧ HasGradientsAt l.evaluate gradients q := by
  obtain ⟨rows, hrows, hderiv⟩ := hraw
  -- the gradients are scaled by the raw error at this configuration, which is known
  have hhere : l.rawError q = .ok (rows.map (· q.get)) := by
    rw [← hrows, ofFn_get]
  refine ⟨_, ?_, _, fun x => ?_, forall₂_excess hderiv h.lower_le_upper (hoff _ hhere)⟩
  · simp only [jacobian, hhere, hjacobian]
    rfl
  · simp only [evaluate, hrows, List.map_zipWith]
    exact congrArg Except.ok List.zipWith_map_right

end Leaf

/-! ## A hand in a box -/

/-- The hand is kept in a box that is free along its third axis, by a point ahead of the hand. -/
noncomputable def handDescription : PositionDescription ℝ where
  link := "hand"
  halfExtents := .ofList [1, 1, -1]
  box := .identity
  linkOffset := some (.ofList [1, 0, 0])

noncomputable def handSpec : PositionSpec ℝ := ⟨"hand", ⟨1, 1, -1⟩, .identity, ⟨1, 0, 0⟩⟩

/-- A box in the frame of reference is accepted if one of its axes is bounded. -/
theorem PositionDescription.build_inReference (link : String) (extents offset : Vec3 ℝ)
    (axis : Axis) (h : 0 ≤ extents.along axis) :
    build ⟨link, .ofList extents.toList, .identity, some (.ofList offset.toList)⟩ =
      .ok ⟨link, extents, .identity, offset⟩ := by
  -- some axis is bounded, so that the box is accepted
  have hbounded : extents.x < 0 → extents.y < 0 → 0 ≤ extents.z := by
    intro hx hy
    cases axis with
    | x => exact absurd h (not_le.2 hx)
    | y => exact absurd h (not_le.2 hy)
    | z => exact h
  simp only [build, PoseDescription.build_identity, Nested.toTensor_ofList,
    PoseDescription.positionTensor, bind, Except.bind, Tensor.ofList, Vec3.toList, Tensor.toVec3,
    List.length_cons, List.length_nil, zero_add, Nat.reduceAdd]
  simpa [Vec3.isFinite, pure, Except.pure] using hbounded

/-- The description of the example box is accepted. -/
theorem build_handDescription : handDescription.build = .ok handSpec :=
  PositionDescription.build_inReference "hand" ⟨1, 1, -1⟩ ⟨1, 0, 0⟩ .x zero_le_one

/-- The example box is unbounded along the third axis. -/
theorem constrainedAxes_handSpec : handSpec.constrainedAxes = [.x, .y] := by
  norm_num [PositionSpec.constrainedAxes, Axis.all, handSpec, Vec3.along, List.filter_cons]

noncomputable def handConstraint : BoxConstraint ℝ 2 := ⟨handSpec, .ofChain turnThenSlide (.last 2)⟩

/-- Every specification of the hand that has a row makes a constraint. -/
theorem ofPosition_hand {spec : PositionSpec ℝ} (hname : spec.link = "hand")
    (haxes : spec.constrainedAxes ≠ []) : Constraint.ofPosition (.chain turnThenSlide) spec =
      .ok (.leaf (.box ⟨spec, .ofChain turnThenSlide (.last 2)⟩)) := by
  have hfound : turnThenSlide.link? spec.link = some (.last 2) := by
    rw [hname]
    rfl
  have hlink := Model.requireLink_eq_ok_iff.2 ⟨.last 2, hfound, rfl⟩
  simp [Constraint.ofPosition, hlink, Constraint.checkSize, haxes, bind, Except.bind, pure,
    Except.pure]

/-- The example box makes a constraint on the hand of the chain. -/
theorem ofPosition_handSpec :
    Constraint.ofPosition (.chain turnThenSlide) handSpec = .ok (.leaf (.box handConstraint)) :=
  ofPosition_hand rfl (by simp [constrainedAxes_handSpec])

noncomputable def rangeLimits : JointLimits ℝ 2 := ⟨.ofFn ![-1, -1], .ofFn ![1, 1]⟩

/-- The limits of the example chain make a constraint. -/
theorem ofModelLimits_turnThenSlide :
    Constraint.ofModelLimits (.chain turnThenSlide) = .ok (.ofJointLimits rangeLimits) := by
  have hlower : (Model.chain turnThenSlide).lower = .ofFn ![-1, -1] := by
    simp only [Model.lower, Chain.lower, turnThenSlide, Vector.map_ofFn]
    congr 1
    ext i
    fin_cases i <;> rfl
  have hupper : (Model.chain turnThenSlide).upper = .ofFn ![1, 1] := by
    simp only [Model.upper, Chain.upper, turnThenSlide, Vector.map_ofFn]
    congr 1
    ext i
    fin_cases i <;> rfl
  -- no joint of the chain has crossed limits
  have hcrossed : rangeLimits.crossed = [] := by
    simp [JointLimits.crossed, JointLimits.intervals, rangeLimits, Interval.isCrossed,
      Vector.toList_ofFn, List.ofFn_succ, List.zipIdx, -List.filterMap_eq_nil_iff]
  have hcheck : JointLimits.ofModel (.chain turnThenSlide) = .ok rangeLimits := by
    rw [JointLimits.ofModel, hlower, hupper]
    change rangeLimits.check = _
    rw [JointLimits.check, hcrossed]
    rfl
  rw [Constraint.ofModelLimits, hcheck]
  rfl

/-- The hand is kept in its box, by an intersection of its own, and the joints in their limits. -/
noncomputable def handTask : Constraint ℝ 2 :=
  .intersection [.intersection [.leaf (.box handConstraint)], .ofJointLimits rangeLimits]

/-- The task of the example is the box and the limits. -/
theorem leaves_handTask : handTask.leaves = [.box handConstraint, .jointLimits rangeLimits] := by
  simp [handTask, Constraint.leaves, Constraint.leavesAll, Constraint.ofJointLimits]

/-- It is built on the example chain. -/
theorem builtOn_handTask : handTask.BuiltOn (.chain turnThenSlide) := by
  have hhand : (Constraint.leaf (.box handConstraint)).BuiltOn (.chain turnThenSlide) :=
    .position build_handDescription ofPosition_handSpec
  have hinner : (Constraint.intersection [.leaf (.box handConstraint)]).BuiltOn
      (.chain turnThenSlide) :=
    .intersection (Constraint.intersect_map_mk (by simp)) (by simpa using hhand)
  have hlimits := Constraint.BuiltOn.modelLimits ofModelLimits_turnThenSlide
  exact .intersection (Constraint.intersect_map_mk (by simp)) (by simpa using ⟨hinner, hlimits⟩)

noncomputable def atRest : Vector ℝ 2 := .ofFn ![0, 0]

/-- On the way to the hand are both joints. -/
theorem jointsTo_hand :
    turnThenSlide.jointsTo atRest (.last 2) = [(turnJoint, 0), (slideJoint, 0)] := by
  simp [Chain.jointsTo, turnThenSlide, atRest, Vector.toList_ofFn]

/-- At rest the hand is out by one and up by one, and turned by a quarter. -/
theorem linkPose_hand : turnThenSlide.linkPose atRest (.last 2) =
    ⟨⟨1, 0, 1⟩, ⟨1, 0, 0, 0, 0, -1, 0, 1, 0⟩⟩ := by
  rw [Chain.linkPose, jointsTo_hand]
  simp [placeAlong, turnJoint, slideJoint, Joint.move, Joint.mount, Pose.compose, Pose.identity,
    ← Vec3.smul_def]
  ext <;> simp

/-- The point ahead of the hand stands outside the box along the first axis, and inside along the
second. -/
theorem isOffBounds_handTask : ∀ l ∈ handTask.leaves, l.IsOffBounds atRest := by
  rw [leaves_handTask]
  simp only [List.forall_mem_cons]
  refine ⟨fun raw hraw => ?_, fun raw hraw => ?_, List.forall_mem_nil _⟩
  · have hintervals : (Leaf.box handConstraint).intervals = [⟨-1, 1⟩, ⟨-1, 1⟩] := by
      simp only [Leaf.intervals, BoxConstraint.intervals, handConstraint, constrainedAxes_handSpec]
      rfl
    -- the hand is beyond its box along one axis, and inside along the other
    have hplace : raw = [1 + 1, 0] := by
      simp only [Leaf.rawError, BoxConstraint.rawError, handConstraint, Link.state_ofChain, bind,
        Except.bind, pure, Except.pure, Except.ok.injEq, BoxConstraint.placeInBox,
        constrainedAxes_handSpec, Chain.linkState_pose, linkPose_hand, BoxConstraint.pointInBox,
        BoxConstraint.offsetOf] at hraw
      rw [← hraw]
      simp [handSpec, Pose.identity, Vec3.along]
    rw [hintervals, hplace]
    simp only [List.zip_cons_cons, List.zip_nil_left, List.forall_mem_cons]
    norm_num
  · -- both joints are inside their limits
    have hvalues : raw = [0, 0] := by
      rw [← Except.ok.inj hraw]
      simp [atRest, Vector.toList_ofFn]
    have hintervals : (Leaf.jointLimits rangeLimits).intervals = [⟨-1, 1⟩, ⟨-1, 1⟩] := by
      simp [Leaf.intervals, JointLimits.intervals, rangeLimits, Vector.toList_ofFn]
    rw [hintervals, hvalues]
    simp only [List.zip_cons_cons, List.zip_nil_left, List.forall_mem_cons]
    norm_num

/-! ## Constraints -/

namespace Constraint

variable {c : Constraint ℝ n} {q : Vector ℝ n}

/-- A constraint has gradients where all its single constraints have. -/
theorem exists_gradients
    (h : ∀ l ∈ c.leaves, ∃ gradients, l.jacobian q = .ok gradients ∧
      HasGradientsAt l.evaluate gradients q) :
    ∃ gradients, c.jacobian q = .ok gradients ∧ HasGradientsAt c.evaluate gradients q := by
  have heval : c.evaluate = fun p => (c.leaves.mapM (Leaf.evaluate · p)).map List.flatten := by
    ext1 p
    exact evaluate_eq_leaves c p
  -- both the error and the gradients are stacked over one list, on which the induction is
  rw [jacobian_eq_leaves, heval]
  generalize c.leaves = ls at h
  induction ls with
  | nil => exact ⟨[], rfl, [], fun _ => rfl, .nil⟩
  | cons l rest ih =>
    rw [List.forall_mem_cons] at h
    obtain ⟨⟨first, hfirst, hfirst'⟩, hrest⟩ := h
    obtain ⟨others, hothers, hothers'⟩ := ih hrest
    refine ⟨first ++ others, ?_, ?_⟩
    · rw [mapM_flatten_cons, hfirst, hothers]
      rfl
    · simp only [mapM_flatten_cons]
      exact hfirst'.append hothers'

/-- The gradients of positions and joint limits, however they are nested, are the derivative of the
error wherever no raw error lies on a bound. -/
theorem hasGradientsAt_evaluate (hrigid : chain.IsRigid) (hbuilt : c.BuiltOn (.chain chain))
    (hkind : ∀ o, Leaf.orientation o ∉ c.leaves) (hoff : ∀ l ∈ c.leaves, l.IsOffBounds q) :
    ∃ gradients, c.jacobian q = .ok gradients ∧ HasGradientsAt c.evaluate gradients q := by
  refine exists_gradients fun l hl => ?_
  have haccepted := hbuilt.isAccepted l hl
  -- off the bounds each leaf has its gradients, whatever it is
  cases l with
  | box b =>
    obtain ⟨link, -, hlink⟩ := haccepted
    exact Leaf.exists_gradients (hbuilt.isAccepted _ hl) (BoxConstraint.rawJacobian_eq_ok hlink q)
      (BoxConstraint.hasGradientsAt_rawError hrigid hlink q) (hoff _ hl)
  | orientation o => exact absurd hl (hkind o)
  | jointLimits limits =>
    exact Leaf.exists_gradients haccepted rfl (hasGradientsAt_unitRows q) (hoff _ hl)
  | affine a => exact haccepted.elim

end Constraint

/-- The hand in its box, away from the sides of the box and from the limits. -/
theorem hasGradientsAt_evaluate_handTask :
    turnThenSlide.IsRigid ∧ handTask.BuiltOn (.chain turnThenSlide) ∧
    (∀ o, Leaf.orientation o ∉ handTask.leaves) ∧
    (∀ l ∈ handTask.leaves, l.IsOffBounds atRest) ∧
    ∃ gradients, handTask.jacobian atRest = .ok gradients ∧
      HasGradientsAt handTask.evaluate gradients atRest := by
  have hkind : ∀ o, Leaf.orientation o ∉ handTask.leaves := by simp [leaves_handTask]
  exact ⟨isRigid_turnThenSlide, builtOn_handTask, hkind, isOffBounds_handTask,
    Constraint.hasGradientsAt_evaluate isRigid_turnThenSlide builtOn_handTask hkind
      isOffBounds_handTask⟩

end KinematicManifold
