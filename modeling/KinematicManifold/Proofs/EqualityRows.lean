import KinematicManifold.Proofs.Articulations
import KinematicManifold.Proofs.Gradients
import KinematicManifold.Proofs.Stacks

/-!
# Equality rows

A row whose two bounds agree keeps its raw error at one value. Its excess is the difference from
that value, which is differentiable wherever the raw error is: between equal bounds there is no
kink. Off the value the slope is one, and the gradient of the row is that of the raw error, as it
should be. At the value itself the slope is zero, as at every bound, and the gradient is lost: the
row looks as if no joint could move it.

## Key results

- `Interval.excess_of_equal`, `Interval.slope_of_equal`: the excess and the slope between equal
  bounds
- `Leaf.hasEntry_evaluate_of_equal`, `Leaf.hasEntry_jacobian_of_equal`: the row and its gradient
- `Leaf.gradient_of_equal_bounds`: the row is differentiable, and where the gradient is its
  derivative
- `not_forall_gradient_of_equal_bounds`: a hand in a plane, whose gradient is lost
-/

namespace KinematicManifold

open Linear

variable {n : Nat}

/-! ## Equal bounds -/

/-- Between coinciding bounds the excess is the difference to the bound. -/
theorem Interval.excess_of_equal (bound value : ℝ) :
    (⟨bound, bound⟩ : Interval ℝ).excess value = value - bound := by
  rcases lt_trichotomy value bound with hbelow | rfl | habove
  · exact excess_of_lt le_rfl hbelow
  · rw [excess_of_contains ⟨le_rfl, le_rfl⟩, sub_self]
  · exact excess_of_gt le_rfl habove

/-- Between coinciding bounds the slope is zero on the bound itself and one elsewhere. -/
theorem Interval.slope_of_equal (bound value : ℝ) :
    (⟨bound, bound⟩ : Interval ℝ).slope value = if value = bound then 0 else 1 := by
  rcases lt_trichotomy value bound with hbelow | rfl | habove
  · rw [if_neg hbelow.ne]
    exact if_pos (.inr hbelow)
  · rw [if_pos rfl, slope_of_contains ⟨le_rfl, le_rfl⟩]
  · rw [if_neg habove.ne']
    exact if_pos (.inl habove)

/-- A linear form has one gradient. -/
theorem gradientMap_injective : Function.Injective (gradientMap (n := n)) := by
  intro g g' h
  -- its values on the unit vectors are the entries
  apply ext_get
  funext i
  have hentry := DFunLike.congr_fun h (Pi.single i 1)
  simpa [Pi.single_apply] using hentry

/-! ## Rows -/

/-- Rows that may fail can be had, and have an entry at a place. -/
def HasEntry {α : Type} (rows : Except Fault (List α)) (i : Nat) (entry : α) : Prop :=
  ∃ list, rows = .ok list ∧ list[i]? = some entry

/-- An answer has one entry at each place. -/
theorem HasEntry.unique {α : Type} {rows : Except Fault (List α)} {i : Nat} {first second : α}
    (h : HasEntry rows i first) (h' : HasEntry rows i second) : first = second := by
  obtain ⟨list, hlist, hfirst⟩ := h
  obtain ⟨list', hlist', hsecond⟩ := h'
  obtain rfl := Except.ok.inj (hlist.symm.trans hlist')
  exact Option.some.inj (hfirst.symm.trans hsecond)

namespace Leaf

section
variable {l : Leaf ℝ n} {i : Nat} {q : Vector ℝ n} {value : ℝ}

/-- A row of the raw error has a gradient. -/
theorem exists_hasEntry_rawJacobian (h : HasEntry (l.rawError q) i value) :
    ∃ gradient, HasEntry (l.rawJacobian q) i gradient := by
  obtain ⟨raw, hraw, hvalue⟩ := h
  obtain ⟨gradients, hgradients⟩ := exists_rawJacobian_eq_ok hraw
  have hi : i < gradients.length := by
    rw [length_rawJacobian hraw hgradients]
    exact (List.getElem?_eq_some_iff.1 hvalue).1
  exact ⟨gradients[i], gradients, hgradients, List.getElem?_eq_getElem hi⟩

variable {bound : ℝ} (h : l.intervals[i]? = some ⟨bound, bound⟩)
include h

/-- Wherever the raw error can be had, it has the row. -/
theorem exists_hasEntry_rawError {raw : List ℝ} (hraw : l.rawError q = .ok raw) :
    ∃ value, HasEntry (l.rawError q) i value := by
  have hi : i < raw.length := by
    rw [length_rawError hraw, dimension]
    exact (List.getElem?_eq_some_iff.1 h).1
  exact ⟨raw[i], raw, hraw, List.getElem?_eq_getElem hi⟩

variable (hvalue : HasEntry (l.rawError q) i value)
include hvalue

/-- The row is the difference of the raw error from the value of both bounds. -/
theorem hasEntry_evaluate_of_equal : HasEntry (l.evaluate q) i (value - bound) := by
  obtain ⟨raw, hraw, hvalue⟩ := hvalue
  refine ⟨_, bind_eq_ok_iff.2 ⟨raw, hraw, rfl⟩, ?_⟩
  rw [List.getElem?_zipWith, h, hvalue, ← Interval.excess_of_equal]

/-- The gradient of the row is that of the raw error, unless the row is satisfied. -/
theorem hasEntry_jacobian_of_equal {gradient : Vector ℝ n}
    (hgradient : HasEntry (l.rawJacobian q) i gradient) :
    HasEntry (l.jacobian q) i (if value = bound then 0 else gradient) := by
  obtain ⟨raw, hraw, hvalue⟩ := hvalue
  obtain ⟨gradients, hgradients, hgradient⟩ := hgradient
  -- the slope between coinciding bounds is one, except at the bound itself
  have hscale : scale ((⟨bound, bound⟩ : Interval ℝ).slope value) gradient =
      if value = bound then 0 else gradient := by
    apply ext_get
    rw [Interval.slope_of_equal, get_scale]
    split_ifs <;> simp
  refine ⟨_, bind_eq_ok_iff.2 ⟨raw, hraw, bind_eq_ok_iff.2 ⟨gradients, hgradients, rfl⟩⟩, ?_⟩
  rw [List.getElem?_zipWith, List.getElem?_zipWith, h, hvalue, hgradient, ← hscale]

end

/-- Between equal bounds, the row is the raw error less the value of the bounds, and differentiable
with the gradient of the raw error. But the gradient that is given for the row is zero where the row
is satisfied. So it is the derivative of the row where the row is not satisfied, and beyond that
only where no joint moves the raw error. -/
theorem gradient_of_equal_bounds {l : Leaf ℝ n} {i : Nat} {bound : ℝ}
    (h : l.intervals[i]? = some ⟨bound, bound⟩) :
    (∀ q raw, l.rawError q = .ok raw → ∃ value gradient,
      HasEntry (l.rawError q) i value ∧ HasEntry (l.rawJacobian q) i gradient ∧
      HasEntry (l.evaluate q) i (value - bound) ∧
      HasEntry (l.jacobian q) i (if value = bound then 0 else gradient)) ∧
    ∀ q gradients, l.rawJacobian q = .ok gradients → HasGradientsAt l.rawError gradients q →
      ∃ row gradient computed, (∀ x, HasEntry (l.evaluate (.ofFn x)) i (row x)) ∧
        HasEntry (l.rawJacobian q) i gradient ∧ HasEntry (l.jacobian q) i computed ∧
        HasFDerivAt row (gradientMap gradient) q.get ∧
        (HasFDerivAt row (gradientMap computed) q.get ↔ row q.get ≠ 0 ∨ gradient = 0) := by
  constructor
  · intro q raw hraw
    obtain ⟨value, hvalue⟩ := exists_hasEntry_rawError h hraw
    obtain ⟨gradient, hgradient⟩ := exists_hasEntry_rawJacobian hvalue
    exact ⟨value, gradient, hvalue, hgradient, hasEntry_evaluate_of_equal h hvalue,
      hasEntry_jacobian_of_equal h hvalue hgradient⟩
  · rintro q gradients hgradients ⟨rows, hrows, hderiv⟩
    -- the row is one of those that the raw error has everywhere
    have hi : i < rows.length := by
      obtain ⟨value, raw, hraw, hvalue⟩ := exists_hasEntry_rawError h (hrows q.get)
      obtain rfl := Except.ok.inj ((hrows q.get).symm.trans hraw)
      simpa using (List.getElem?_eq_some_iff.1 hvalue).1
    have hi' : i < gradients.length := hderiv.length_eq ▸ hi
    have hrow (x : Fin n → ℝ) : HasEntry (l.rawError (.ofFn x)) i (rows[i] x) :=
      ⟨_, hrows x, by rw [List.getElem?_map, List.getElem?_eq_getElem hi, Option.map_some]⟩
    have hvalue : HasEntry (l.rawError q) i (rows[i] q.get) := by
      have hhere := hrow q.get
      rwa [ofFn_get] at hhere
    have hgradient : HasEntry (l.rawJacobian q) i gradients[i] :=
      ⟨gradients, hgradients, List.getElem?_eq_getElem hi'⟩
    -- a difference from a constant has the derivative of the raw error
    have hdiff : HasFDerivAt (fun x => rows[i] x - bound) (gradientMap gradients[i]) q.get :=
      (hderiv.get hi hi').sub_const bound
    refine ⟨_, gradients[i], _, fun x => hasEntry_evaluate_of_equal h (hrow x), hgradient,
      hasEntry_jacobian_of_equal h hvalue hgradient, hdiff, ?_⟩
    rw [sub_ne_zero]
    by_cases hsatisfied : rows[i] q.get = bound
    · rw [if_pos hsatisfied]
      constructor
      · exact fun hzero => .inr (gradientMap_injective (hdiff.unique hzero))
      · rintro (hne | hzero)
        · exact absurd hsatisfied hne
        · rwa [← hzero]
    · rw [if_neg hsatisfied]
      exact iff_of_true hdiff (.inl hsatisfied)

end Leaf

/-! ## A hand in a plane -/

/-- The hand is kept in the plane of the first and the third axis. -/
noncomputable def planeDescription : PositionDescription ℝ where
  link := "hand"
  halfExtents := .ofList [-1, 0, -1]
  box := .identity
  linkOffset := some (.ofList [0, 0, 0])

noncomputable def planeSpec : PositionSpec ℝ := ⟨"hand", ⟨-1, 0, -1⟩, .identity, ⟨0, 0, 0⟩⟩

/-- The description of the example plane is accepted. -/
theorem build_planeDescription : planeDescription.build = .ok planeSpec :=
  PositionDescription.build_inReference "hand" ⟨-1, 0, -1⟩ ⟨0, 0, 0⟩ .y le_rfl

/-- The example plane constrains one axis. -/
theorem constrainedAxes_planeSpec : planeSpec.constrainedAxes = [.y] := by
  norm_num [PositionSpec.constrainedAxes, Axis.all, planeSpec, Vec3.along, List.filter_cons]

noncomputable def planeConstraint : BoxConstraint ℝ 2 :=
  ⟨planeSpec, .ofChain turnThenSlide (.last 2)⟩

/-- The example plane is built on the example chain. -/
theorem builtOn_planeConstraint :
    (Constraint.leaf (.box planeConstraint)).BuiltOn (.chain turnThenSlide) :=
  .position build_planeDescription (ofPosition_hand rfl (by simp [constrainedAxes_planeSpec]))

/-- Its only interval has both bounds at zero. -/
theorem intervals_planeConstraint : (Leaf.box planeConstraint).intervals[0]? = some ⟨0, 0⟩ := by
  simp only [Leaf.intervals, BoxConstraint.intervals, planeConstraint, constrainedAxes_planeSpec]
  simp [Interval.symmetric, planeSpec, Vec3.along]

/-- At rest the hand is a step ahead of the axis that it turns about, and slides across. -/
theorem linkState_hand : turnThenSlide.linkState atRest (.last 2) =
    ⟨⟨⟨1, 0, 1⟩, ⟨1, 0, 0, 0, 0, -1, 0, 1, 0⟩⟩,
      .ofFn ![⟨⟨0, 1, 0⟩, ⟨0, 0, 1⟩⟩, ⟨⟨0, -1, 0⟩, 0⟩]⟩ := by
  have hunit : (⟨0, 0, 1⟩ : Vec3 ℝ).unit = ⟨0, 0, 1⟩ :=
    Vec3.unit_of_norm_eq_one (Axis.norm_vector .z)
  -- the arm is not turned, and carries the frame of the slide
  have harm : turnJoint.move .identity 0 = ⟨⟨0, 0, 1⟩, 1⟩ := by
    simp [turnJoint, Joint.move, Joint.mount, Pose.compose, Pose.identity, ← Vec3.smul_def]
  have hturn : turnJoint.screw .identity = ⟨.revolute, ⟨0, 0, 1⟩, ⟨0, 0, 1⟩⟩ := by
    simp [turnJoint, Joint.screw, Joint.mount, Joint.direction, Pose.compose, Pose.identity, hunit]
  have hslide : slideJoint.screw ⟨⟨0, 0, 1⟩, 1⟩ = ⟨.prismatic, ⟨1, 0, 1⟩, ⟨0, -1, 0⟩⟩ := by
    simp only [slideJoint, Joint.screw, Joint.mount, Joint.direction, Pose.compose, hunit]
    congr 1 <;> ext <;> simp
  have hacross : (⟨0, 0, 1⟩ : Vec3 ℝ).cross (⟨1, 0, 1⟩ - ⟨0, 0, 1⟩) = ⟨0, 1, 0⟩ := by
    ext <;> simp
  rw [Chain.linkState, linkPose_hand, jointsTo_hand]
  simp only [screwsAlong, harm, hturn, hslide, twistsAt]
  refine congrArg (LinkState.mk _) (congrArg Vector.ofFn (funext fun i => ?_))
  fin_cases i
  · simp [Screw.twistAt, hacross]
  · simp [Screw.twistAt]

/-- The link it is about is the hand of the chain. -/
theorem state_hand : planeConstraint.link.state atRest =
    .ok (turnThenSlide.linkState atRest (.last 2)) :=
  Link.state_ofChain _ _ _

/-- Its frame has no offset in any pose. -/
theorem offsetOf_planeConstraint (pose : Pose ℝ) : planeConstraint.offsetOf pose = 0 := by
  ext <;> simp [BoxConstraint.offsetOf, planeConstraint, planeSpec]

/-- At rest the hand is in the plane. -/
theorem hasEntry_rawError_atRest : HasEntry ((Leaf.box planeConstraint).rawError atRest) 0 0 := by
  refine ⟨_, bind_eq_ok_iff.2 ⟨_, state_hand, rfl⟩, ?_⟩
  have haxes : planeConstraint.spec.constrainedAxes = [.y] := constrainedAxes_planeSpec
  rw [linkState_hand, BoxConstraint.placeInBox, haxes, List.map_singleton,
    BoxConstraint.pointInBox, offsetOf_planeConstraint]
  simp [planeConstraint, planeSpec, Pose.identity, Vec3.along]

/-- Turning takes the hand out of it to one side, and sliding to the other. -/
theorem hasEntry_rawJacobian_atRest :
    HasEntry ((Leaf.box planeConstraint).rawJacobian atRest) 0 (.ofFn ![1, -1]) := by
  refine ⟨_, bind_eq_ok_iff.2 ⟨_, state_hand, rfl⟩, ?_⟩
  have haxes : planeConstraint.spec.constrainedAxes = [.y] := constrainedAxes_planeSpec
  rw [linkState_hand, BoxConstraint.velocitiesInBox, haxes, offsetOf_planeConstraint]
  have hlinear (twist : Twist ℝ) : twist.velocityAt 0 = twist.linear := by
    ext <;> simp [Twist.velocityAt, Rotation.skew]
  refine congrArg some (ext_get (funext fun i => ?_))
  fin_cases i <;> simp [planeConstraint, planeSpec, Pose.identity, Vec3.along, hlinear]

/-- The distance of the hand from the plane does change with the joints. -/
theorem handGradient_ne_zero : (.ofFn ![1, -1] : Vector ℝ 2) ≠ 0 := by
  intro hzero
  have hentry := congrArg (Vector.get · 0) hzero
  simp at hentry

/-- The hand is in its plane at rest, and there the gradient that is given for its row is not the
derivative of the row. -/
theorem gradient_of_equal_bounds_plane :
    (Leaf.box planeConstraint).intervals[0]? = some ⟨0, 0⟩ ∧
    HasEntry ((Leaf.box planeConstraint).evaluate atRest) 0 0 ∧
    HasEntry ((Leaf.box planeConstraint).rawJacobian atRest) 0 (.ofFn ![1, -1]) ∧
    HasEntry ((Leaf.box planeConstraint).jacobian atRest) 0 0 ∧
    ∃ row : (Fin 2 → ℝ) → ℝ,
      (∀ x, HasEntry ((Leaf.box planeConstraint).evaluate (.ofFn x)) 0 (row x)) ∧
      HasFDerivAt row (gradientMap (.ofFn ![1, -1])) atRest.get ∧
      ¬HasFDerivAt row (gradientMap 0) atRest.get := by
  obtain ⟨hrow, hderiv⟩ := Leaf.gradient_of_equal_bounds intervals_planeConstraint
  -- the row and its gradient at rest
  obtain ⟨raw, hraw, -⟩ := hasEntry_rawError_atRest
  obtain ⟨value, gradient, hvalue, -, herror, hjacobian⟩ := hrow atRest raw hraw
  obtain rfl := hasEntry_rawError_atRest.unique hvalue
  rw [sub_zero] at herror
  rw [if_pos rfl] at hjacobian
  -- the row and its derivative around it
  have hgradients : HasGradientsAt (Leaf.box planeConstraint).rawError
      (planeConstraint.velocitiesInBox (turnThenSlide.linkState atRest (.last 2))) atRest :=
    BoxConstraint.hasGradientsAt_rawError isRigid_turnThenSlide rfl atRest
  obtain ⟨row, gradient, computed, hrow, hgradient, hcomputed, hdiff, hiff⟩ :=
    hderiv atRest _ (bind_eq_ok_iff.2 ⟨_, state_hand, rfl⟩) hgradients
  obtain rfl := hasEntry_rawJacobian_atRest.unique hgradient
  obtain rfl := hjacobian.unique hcomputed
  have hsatisfied : row atRest.get = 0 := by
    have hhere := hrow atRest.get
    rw [ofFn_get] at hhere
    exact hhere.unique herror
  refine ⟨intervals_planeConstraint, herror, hasEntry_rawJacobian_atRest, hjacobian, row, hrow,
    hdiff, fun hzero => ?_⟩
  rcases hiff.1 hzero with hne | hgone
  · exact hne hsatisfied
  · exact handGradient_ne_zero hgone

/-- The gradients of rows between equal bounds are not always those of the raw error. -/
theorem not_forall_gradient_of_equal_bounds :
    ¬∀ (n : Nat) (chain : Chain ℝ n) (l : Leaf ℝ n), chain.IsRigid →
      (Constraint.leaf l).BuiltOn (.chain chain) →
      ∀ (i : Nat) (bound : ℝ), l.intervals[i]? = some ⟨bound, bound⟩ →
      ∀ (q : Vector ℝ n) (gradient : Vector ℝ n), HasEntry (l.rawJacobian q) i gradient →
        HasEntry (l.jacobian q) i gradient := by
  intro h
  -- the gradient would have to be both that of the raw error and zero
  have hkept := h 2 turnThenSlide (.box planeConstraint) isRigid_turnThenSlide
    builtOn_planeConstraint 0 0 intervals_planeConstraint atRest _ hasEntry_rawJacobian_atRest
  have hlost := Leaf.hasEntry_jacobian_of_equal intervals_planeConstraint hasEntry_rawError_atRest
    hasEntry_rawJacobian_atRest
  rw [if_pos rfl] at hlost
  exact handGradient_ne_zero (hkept.unique hlost)

end KinematicManifold
