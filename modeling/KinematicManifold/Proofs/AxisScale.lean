import KinematicManifold.Proofs.BundleEntries
import KinematicManifold.Proofs.Clamping
import KinematicManifold.Proofs.Reversal

/-!
# The length and the sense of an axis

The axis of a joint is brought to unit length, so that its own length does not matter. An axis that
points the other way makes the opposite of the joint value the new one: the joint is reversed. The
links are where they were, and move the other way with this joint.

A constraint is carried over when its positions and orientations are put on the links of the new
chain, and the limits of a reversed joint are exchanged and change sign. Then every row of a limit
that is reversed is the opposite of what it was, which no step notices.

## Key results

- `Interval.excess_opposite`, `Interval.slope_opposite`: the two sides of an interval are alike
- `JointLimits.mirrored_reverse`: the rows of limits that are reversed
- `Chain.rescale`, `Chain.reverses_rescale`: a chain with a multiple of an axis
- `Constraint.mapLeaves`, `Constraint.BuiltOn.mapLeaves_reverse`: carrying a constraint over
- `Constraint.project_rescale`: axes are mere coordinates
-/

namespace KinematicManifold

open Linear

variable {n : Nat}

/-! ## Limits that are reversed -/

namespace Interval

/-- The opposites of the values of an interval. -/
def opposite (interval : Interval ℝ) : Interval ℝ := ⟨-interval.upper, -interval.lower⟩

/-- Both sides of an interval count alike. -/
theorem excess_opposite (interval : Interval ℝ) (value : ℝ) :
    interval.opposite.excess (-value) = -interval.excess value := by
  have hupper : -value - -interval.lower = -(value - interval.lower) := by ring
  have hlower : -value - -interval.upper = -(value - interval.upper) := by ring
  have hmax := max_neg_neg (value - interval.lower) 0
  have hmin := min_neg_neg (value - interval.upper) 0
  rw [neg_zero] at hmax hmin
  rw [excess_eq, excess_eq, opposite, hupper, hlower, hmax, hmin]
  ring

/-- Seen from the other side, an interval has the same slope. -/
theorem slope_opposite (interval : Interval ℝ) (value : ℝ) :
    interval.opposite.slope (-value) = interval.slope value := by
  have houtside : (-interval.lower < -value ∨ -value < -interval.upper) ↔
      (interval.upper < value ∨ value < interval.lower) := by
    rw [neg_lt_neg_iff, neg_lt_neg_iff, or_comm]
  exact if_congr houtside rfl rfl

end Interval

namespace JointLimits

/-- The limits of joints some of which are reversed. -/
noncomputable def reverse (reversed : Finset (Fin n)) (limits : JointLimits ℝ n) :
    JointLimits ℝ n where
  lower := .ofFn fun i => if i ∈ reversed then -limits.upper.get i else limits.lower.get i
  upper := .ofFn fun i => if i ∈ reversed then -limits.lower.get i else limits.upper.get i

variable (reversed : Finset (Fin n)) (limits : JointLimits ℝ n)

/-- Reversing joints turns round the intervals of those joints and no other. -/
theorem interval_reverse (i : Fin n) : (limits.reverse reversed).interval i =
    if i ∈ reversed then (limits.interval i).opposite else limits.interval i := by
  rw [interval, reverse, get_ofFn, get_ofFn]
  split_ifs
  · rfl
  · rfl

/-- The excess of a joint changes with its sense. -/
theorem excess_reverse (i : Fin n) (value : ℝ) :
    ((limits.reverse reversed).interval i).excess (sense reversed i * value) =
      sense reversed i * (limits.interval i).excess value := by
  rw [interval_reverse, sense]
  split_ifs
  · rw [neg_one_mul, neg_one_mul, Interval.excess_opposite]
  · rw [one_mul, one_mul]

/-- At a value whose sign is changed with its joint the slope stays as it is. -/
theorem slope_reverse (i : Fin n) (value : ℝ) :
    ((limits.reverse reversed).interval i).slope (sense reversed i * value) =
      (limits.interval i).slope value := by
  rw [interval_reverse, sense]
  split_ifs
  · rw [neg_one_mul, Interval.slope_opposite]
  · rw [one_mul]

/-- The rows of joints that are reversed change sign. -/
theorem mirrored_reverse (q : Vector ℝ n) :
    Mirrored (reversal reversed) (Leaf.evaluate (.jointLimits limits) q)
      (Leaf.evaluate (.jointLimits (limits.reverse reversed)) (Linear.reverse reversed q))
      (Leaf.jacobian (.jointLimits limits) q)
      (Leaf.jacobian (.jointLimits (limits.reverse reversed)) (Linear.reverse reversed q)) := by
  rw [evaluate_eq_ok, evaluate_eq_ok, jacobian_eq_ok, jacobian_eq_ok]
  refine ⟨(List.finRange n).map (sense reversed), ?_, fun rows hrows => ?_, fun rows hrows => ?_,
    congrArg Except.ok ?_, congrArg Except.ok ?_⟩
  · simp [sense_mul_self]
  · simp [← Except.ok.inj hrows]
  · simp [← Except.ok.inj hrows]
  · rw [List.zipWith_map, List.zipWith_self]
    refine List.map_congr_left fun i _ => ?_
    rw [get_reverse]
    exact excess_reverse reversed limits i (q.get i)
  · change _ = List.zipWith _ _ (List.map _ (List.map _ _))
    rw [List.map_map, List.zipWith_map, List.zipWith_self]
    refine List.map_congr_left fun i _ => ext_get (funext fun k => ?_)
    have hslope : (Interval.mk ((limits.reverse reversed).lower.get i)
        ((limits.reverse reversed).upper.get i)).slope (sense reversed i * q.get i) =
          (Interval.mk (limits.lower.get i) (limits.upper.get i)).slope (q.get i) :=
      slope_reverse reversed limits i (q.get i)
    simp only [Function.comp_apply, reversal_embed, get_scale, Pi.smul_apply, get_reverse, get_ofFn,
      hslope, smul_eq_mul]
    split_ifs with hik
    · -- the sign of the row and that of its one entry cancel
      rw [← hik, ← mul_assoc, sense_mul_self, one_mul]
    · simp only [mul_zero]

end JointLimits

/-! ## Multiples of an axis -/

/-- The unit vector of a multiple points the same way, or the other way. -/
theorem Vec3.unit_smul {c : ℝ} (hc : c ≠ 0) (v : Vec3 ℝ) :
    (c • v).unit = (if c < 0 then -1 else 1 : ℝ) • v.unit := by
  have hsign : |c|⁻¹ * c = if c < 0 then -1 else 1 := by
    split_ifs with hneg
    · rw [abs_of_neg hneg, inv_neg, neg_mul, inv_mul_cancel₀ hc]
    · rw [abs_of_nonneg (not_lt.1 hneg), inv_mul_cancel₀ hc]
  rw [unit_eq, unit_eq, norm_smul, Real.norm_eq_abs, mul_inv, smul_smul, smul_smul, ← hsign]
  congr 1
  ring

namespace Joint

/-- The joint with a multiple of its axis. -/
noncomputable def rescale (j : Joint ℝ) (factor : ℝ) : Joint ℝ := { j with axis := factor • j.axis }

variable {j j' : Joint ℝ} {s : ℝ} (hkind : j'.kind = j.kind) (horigin : j'.origin = j.origin)
  (hdirection : j'.direction = s • j.direction)
include hkind horigin hdirection

/-- A joint that is reversed moves as before for the opposite value. -/
theorem move_of_direction (hs : s * s = 1) (parent : Pose ℝ) (value : ℝ) :
    j'.move parent (s * value) = j.move parent value := by
  have hvalue (v : Vec3 ℝ) : (s • v).scale (s * value) = v.scale value := by
    rw [← Vec3.smul_def, ← Vec3.smul_def, smul_smul, mul_right_comm, hs, one_mul]
  rw [move, move, mount, mount, hkind, horigin, hdirection]
  cases j.kind with
  | revolute => simp only [hvalue]
  | prismatic => simp only [Mat3.apply_smul, hvalue]

/-- The screw of a joint with a scaled direction is the scaled screw. -/
theorem screw_of_direction (parent : Pose ℝ) :
    j'.screw parent = (j.screw parent).scaled s := by
  rw [screw, screw, mount, mount, hkind, horigin, hdirection, Mat3.apply_smul, Screw.scaled]

end Joint

namespace Chain

variable (c : Chain ℝ n) (j : Fin n) (factor : ℝ)

/-- The joints of a chain, of which one has a multiple of its axis. -/
noncomputable def jointsRescaled : Vector (Joint ℝ) n :=
  .ofFn fun i => if i = j then (c.joints.get i).rescale factor else c.joints.get i

/-- Only the chosen joint is rescaled. -/
theorem jointsRescaled_get (i : Fin n) : (c.jointsRescaled j factor).get i =
    if i = j then (c.joints.get i).rescale factor else c.joints.get i := by
  simp [jointsRescaled, Vector.get_eq_getElem]

/-- A joint keeps whatever does not depend on its axis. -/
theorem apply_jointsRescaled_get {β : Type} {f : Joint ℝ → β}
    (hf : ∀ joint, f (joint.rescale factor) = f joint) (i : Fin n) :
    f ((c.jointsRescaled j factor).get i) = f (c.joints.get i) := by
  rw [jointsRescaled_get]
  split_ifs
  · exact hf _
  · rfl

/-- Rescaling a joint renames no link. -/
theorem childLinks_jointsRescaled : (c.jointsRescaled j factor).toList.map (·.childLink) =
    c.joints.toList.map (·.childLink) :=
  childLinks_congr (c.apply_jointsRescaled_get j factor fun _ => rfl)

/-- The links of a rescaled chain have different names, since those of the chain have. -/
theorem nodup_jointsRescaled :
    (c.base :: (c.jointsRescaled j factor).toList.map (·.childLink)).Nodup := by
  rw [childLinks_jointsRescaled]
  exact c.linkNames_nodup

/-- The chain with a multiple of the axis of a joint. -/
noncomputable def rescale : Chain ℝ n :=
  ⟨c.base, c.jointsRescaled j factor, c.joints_pos, c.nodup_jointsRescaled j factor⟩

variable {factor}

/-- A joint is reversed by a negative multiple of its axis, and no other joint is. -/
theorem direction_rescale (hfactor : factor ≠ 0) (i : Fin n) :
    ((c.rescale j factor).joints.get i).direction =
      sense (if factor < 0 then {j} else ∅) i • (c.joints.get i).direction := by
  have hjoint : (c.rescale j factor).joints.get i =
      if i = j then (c.joints.get i).rescale factor else c.joints.get i :=
    c.jointsRescaled_get j factor i
  rw [hjoint]
  split_ifs with hi hneg hneg
  · -- a negative factor turns the direction round
    rw [Joint.direction, Joint.rescale, Vec3.unit_smul hfactor, if_pos hneg, sense, if_pos]
    · rfl
    · rw [hi, Finset.mem_singleton]
  · -- a positive one keeps it
    rw [Joint.direction, Joint.rescale, Vec3.unit_smul hfactor, if_neg hneg, sense_empty]
    rfl
  · -- other joints are not touched
    rw [sense, if_neg, one_smul]
    rwa [Finset.mem_singleton]
  · rw [sense_empty, one_smul]

/-- A multiple of an axis moves the same links, the other way if it is negative. -/
theorem reverses_rescale (hfactor : factor ≠ 0) :
    c.Reverses (if factor < 0 then {j} else ∅) (Linear.reverse (if factor < 0 then {j} else ∅))
      (c.rescale j factor) where
  linkNames := congrArg (List.cons c.base) (c.childLinks_jointsRescaled j factor)
  place_add := Linear.reverse_add _
  move q i parent := by
    rw [get_reverse]
    exact Joint.move_of_direction (c.apply_jointsRescaled_get j factor (fun _ => rfl) i)
      (c.apply_jointsRescaled_get j factor (fun _ => rfl) i) (c.direction_rescale j hfactor i)
      (sense_mul_self _ i) parent (q.get i)
  screw i parent :=
    Joint.screw_of_direction (c.apply_jointsRescaled_get j factor (fun _ => rfl) i)
      (c.apply_jointsRescaled_get j factor (fun _ => rfl) i) (c.direction_rescale j hfactor i)
      parent

end Chain

/-! ## Carrying constraints over -/

namespace Constraint

variable {K : Type}

mutual

/-- A constraint whose single constraints are replaced. -/
def mapLeaves (f : Leaf K n → Leaf K n) : Constraint K n → Constraint K n
  | leaf l => leaf (f l)
  | intersection members => intersection (mapLeavesAll f members)

/-- Constraints whose single constraints are replaced. -/
def mapLeavesAll (f : Leaf K n → Leaf K n) : List (Constraint K n) → List (Constraint K n)
  | [] => []
  | c :: rest => mapLeaves f c :: mapLeavesAll f rest

end

mutual

/-- Changing each leaf of a constraint changes each entry of its list of leaves. -/
theorem leaves_mapLeaves (f : Leaf K n → Leaf K n) :
    (c : Constraint K n) → (c.mapLeaves f).leaves = c.leaves.map f
  | leaf l => by rw [mapLeaves, leaves, leaves, List.map_singleton]
  | intersection members => by
    rw [mapLeaves, leaves, leaves, leavesAll_mapLeavesAll f members]

/-- The same for the members of an intersection. -/
private theorem leavesAll_mapLeavesAll (f : Leaf K n → Leaf K n) :
    (members : List (Constraint K n)) →
      leavesAll (mapLeavesAll f members) = (leavesAll members).map f
  | [] => rfl
  | c :: rest => by
    rw [mapLeavesAll, leavesAll, leavesAll, List.map_append, leaves_mapLeaves f c,
      leavesAll_mapLeavesAll f rest]

end

/-- The members of an intersection are changed one by one. -/
theorem mapLeavesAll_eq_map (f : Leaf K n → Leaf K n) (members : List (Constraint K n)) :
    mapLeavesAll f members = members.map (mapLeaves f) := by
  induction members with
  | nil => rfl
  | cons c rest ih => rw [mapLeavesAll, ih, List.map_cons]

end Constraint

/-- A single constraint on a chain some of whose joints are reversed. -/
noncomputable def Leaf.reverse (chain : Chain ℝ n) (reversed : Finset (Fin n)) : Leaf ℝ n → Leaf ℝ n
  | jointLimits limits => jointLimits (limits.reverse reversed)
  | l => l.onChain chain

/-- A single constraint is mirrored on a chain some of whose joints are reversed. -/
theorem Chain.Reverses.mirrored_reverse {reversed : Finset (Fin n)} {c c' : Chain ℝ n}
    (h : c.Reverses reversed (Linear.reverse reversed) c') {l : Leaf ℝ n} (hl : l.IsAccepted c)
    (q : Vector ℝ n) :
    Mirrored (reversal reversed) (l.evaluate q)
      ((l.reverse c' reversed).evaluate (Linear.reverse reversed q)) (l.jacobian q)
      ((l.reverse c' reversed).jacobian (Linear.reverse reversed q)) := by
  cases l with
  | box b => exact h.mirrored_onChain hl (fun _ hsame => by cases hsame) q
  | orientation o => exact h.mirrored_onChain hl (fun _ hsame => by cases hsame) q
  | jointLimits limits => exact limits.mirrored_reverse reversed q
  | affine a => exact hl.elim

/-- Limits that are accepted are accepted when joints are reversed. -/
theorem JointLimits.check_reverse {given limits : JointLimits ℝ n} (h : given.check = .ok limits)
    (reversed : Finset (Fin n)) :
    (limits.reverse reversed).check = .ok (limits.reverse reversed) := by
  obtain ⟨⟨hpos, -⟩, -⟩ := check_eq_ok_iff.1 h
  refine check_eq_ok_iff.2 ⟨⟨hpos, crossed_eq_nil_iff.2 fun i hi => ?_⟩, rfl⟩
  -- limits that are crossed when they are exchanged and negated were crossed
  have hordered := of_check_eq_ok h i
  rw [reverse, get_ofFn, get_ofFn] at hi
  split_ifs at hi
  · exact hordered.not_gt (neg_lt_neg_iff.1 hi)
  · exact hordered.not_gt hi

/-- What the constructors build on a chain, they build on a chain some of whose joints are
reversed. -/
theorem Constraint.BuiltOn.mapLeaves_reverse {chain chain' : Chain ℝ n} {c : Constraint ℝ n}
    (hbuilt : c.BuiltOn (.chain chain)) (hnames : chain'.linkNames = chain.linkNames)
    (reversed : Finset (Fin n)) :
    (c.mapLeaves (Leaf.reverse chain' reversed)).BuiltOn (.chain chain') := by
  have hlink {name : String} {k : Fin (n + 1)} (hk : chain.link? name = some k) :
      (Model.chain chain').requireLink name = .ok (.ofChain chain' k) :=
    Model.requireLink_eq_ok_iff.2 ⟨k, (Chain.link?_congr hnames name).trans hk, rfl⟩
  have hlimits {given limits : JointLimits ℝ n} (h : given.check = .ok limits) :
      ((ofJointLimits limits).mapLeaves (Leaf.reverse chain' reversed)).BuiltOn
        (.chain chain') := by
    rw [ofJointLimits, mapLeaves]
    refine .jointLimits (d := ⟨.ofConfiguration (limits.reverse reversed).lower,
      .ofConfiguration (limits.reverse reversed).upper⟩) ?_
    rw [JointLimitsDescription.build_ofConfiguration, JointLimits.check_reverse h]
    rfl
  -- along the constructors: what they check does not depend on the chain but for its link names
  induction hbuilt with
  | position hspec hposition =>
    obtain ⟨link, hfound, hsize, rfl⟩ := ofPosition_eq_ok_iff.1 hposition
    obtain ⟨k, hk, rfl⟩ := Model.requireLink_eq_ok_iff.1 hfound
    rw [mapLeaves]
    exact .position hspec (ofPosition_eq_ok_iff.2 ⟨_, hlink hk, hsize, rfl⟩)
  | orientation hspec horientation =>
    obtain ⟨link, hfound, hsize, rfl⟩ := ofOrientation_eq_ok_iff.1 horientation
    obtain ⟨k, hk, rfl⟩ := Model.requireLink_eq_ok_iff.1 hfound
    rw [mapLeaves]
    exact .orientation hspec (ofOrientation_eq_ok_iff.2 ⟨_, hlink hk, hsize, rfl⟩)
  | jointLimits hdescribed =>
    obtain ⟨given, hchecked⟩ := JointLimitsDescription.exists_check_eq_ok hdescribed
    exact hlimits hchecked
  | modelLimits hmodel =>
    obtain ⟨limits, hchecked, rfl⟩ := ofModelLimits_eq_ok_iff.1 hmodel
    exact hlimits hchecked
  | @intersection members c hmembers _ ih =>
    obtain ⟨hne, rfl⟩ := intersect_map_mk_eq_ok_iff.1 hmembers
    rw [mapLeaves, mapLeavesAll_eq_map]
    refine .intersection (intersect_map_mk (by simpa using hne)) ?_
    rw [List.forall_mem_map]
    exact ih

/-! ## Projections -/

/-- The length and the sense of an axis are mere coordinates. Let the axis of a joint of a chain be
multiplied by a number other than zero, and let the joint be reversed if this number is negative.
Then forward kinematics of the new chain finds every link in the same pose, and its Jacobian with
the column of a reversed joint negated. A constraint is carried over by putting its positions and
orientations on the new chain and by exchanging and negating the limits of a reversed joint. It is
one that the constructors build, and it is projected in the same way; over rigid origins there is an
outcome. -/
theorem Constraint.project_rescale (chain : Chain ℝ n) (j : Fin n) {factor : ℝ}
    (hfactor : factor ≠ 0) :
    let chain' := chain.rescale j factor
    let reversed : Finset (Fin n) := if factor < 0 then {j} else ∅
    (∀ (q : Vector ℝ n) (name : String),
      (Model.chain chain').linkState (.ofConfiguration (Linear.reverse reversed q)) name =
        ((Model.chain chain).linkState (.ofConfiguration q) name).map
          (LinkState.reverse reversed) ∧
      (name ∈ chain.linkNames →
        ∃ state, (Model.chain chain).linkState (.ofConfiguration q) name = .ok state)) ∧
    ∀ c : Constraint ℝ n, c.BuiltOn (.chain chain) →
      let c' := c.mapLeaves (Leaf.reverse chain' reversed)
      c'.BuiltOn (.chain chain') ∧ ∀ s q,
        c'.residual.project s (Linear.reverse reversed q) =
          (c.residual.project s q).map (Outcome.map (Linear.reverse reversed)) ∧
        (chain.IsRigid → ∃ o, c.residual.project s q = .ok o ∧
          c'.residual.project s (Linear.reverse reversed q) =
            .ok ⟨o.status, Linear.reverse reversed o.configuration, o.errorNorm,
              o.iterations⟩) := by
  intro chain' reversed
  have hreverses : chain.Reverses reversed (Linear.reverse reversed) chain' :=
    chain.reverses_rescale j hfactor
  refine ⟨fun q name => ⟨hreverses.model_linkState q name,
    fun hname => Model.exists_linkState_chain hname q⟩, fun c hbuilt => ?_⟩
  intro c'
  refine ⟨hbuilt.mapLeaves_reverse hreverses.linkNames reversed, fun s q => ?_⟩
  have hmirrors : c.residual.Mirrors (reversal reversed) (Linear.reverse reversed) c'.residual := by
    refine mirrors (fun q step => ?_) ?_
    · rw [reversal_embed, hreverses.place_add]
    · -- the single constraints are carried over one by one
      rw [leaves_mapLeaves, List.forall₂_map_right_iff, List.forall₂_same]
      exact fun l hl q => hreverses.mirrored_reverse (hbuilt.isAccepted l hl) q
  exact ⟨hmirrors.project s q, fun hrigid => hmirrors.exists_project (hbuilt.isTotal hrigid) s q⟩

/-- The hand, where the slide points the other way and its axis is given twice as long. -/
theorem project_rescale_slide :
    ((-2 : ℝ) ≠ 0) ∧ "hand" ∈ turnThenSlide.linkNames ∧ handTask.BuiltOn (.chain turnThenSlide) ∧
    turnThenSlide.IsRigid ∧
    (∃ state,
      (Model.chain turnThenSlide).linkState (.ofConfiguration (.ofFn ![0, 1])) "hand" = .ok state ∧
      (Model.chain (turnThenSlide.rescale 1 (-2))).linkState (.ofConfiguration (.ofFn ![0, -1]))
        "hand" = .ok (state.reverse {1})) ∧
    ∃ o, handTask.residual.project .standard (.ofFn ![0, 1]) = .ok o ∧
      (handTask.mapLeaves (Leaf.reverse (turnThenSlide.rescale 1 (-2)) {1})).residual.project
          .standard (.ofFn ![0, -1]) =
        .ok ⟨o.status, Linear.reverse {1} o.configuration, o.errorNorm, o.iterations⟩ := by
  have hfactor : (-2 : ℝ) ≠ 0 := by norm_num
  have hneg : (-2 : ℝ) < 0 := by norm_num
  have hplace : Linear.reverse {1} (.ofFn ![0, 1] : Vector ℝ 2) = .ofFn ![0, -1] := by
    apply ext_get
    funext i
    fin_cases i <;> simp [sense]
  -- a negative factor, so that the slide is reversed
  have hrescaled := Constraint.project_rescale turnThenSlide 1 hfactor
  simp only [if_pos hneg] at hrescaled
  obtain ⟨hstates, hprojects⟩ := hrescaled
  obtain ⟨hstate, hanswers⟩ := hstates (.ofFn ![0, 1]) "hand"
  obtain ⟨state, hok⟩ := hanswers hand_mem_linkNames
  have hproject := ((hprojects handTask builtOn_handTask).2 .standard (.ofFn ![0, 1])).2
    isRigid_turnThenSlide
  rw [hplace, hok] at hstate
  rw [hplace] at hproject
  exact ⟨hfactor, hand_mem_linkNames, builtOn_handTask, isRigid_turnThenSlide,
    ⟨state, hok, hstate⟩, hproject⟩

end KinematicManifold
