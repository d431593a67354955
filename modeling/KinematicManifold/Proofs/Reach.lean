import KinematicManifold.Proofs.Sampling

/-!
# The reach of a chain

A joint that turns leaves the origin of its link where the joint frame stands. Since the frames of a
rigid chain are placed by rotations, a link that only turning joints carry is no farther from the
base than the lengths of the joint origins add up to. A box beyond that distance is missed by every
configuration, so that no projection onto it succeeds, and a search for a sample tries all draws.

## Key results

- `norm_placeAlong_le`, `Chain.norm_linkPose_le`: the distance of a link from the base
- `BoxConstraint.norm_sub_le_of_mem_region`: the distance of the points of a box from its centre
- `BoxConstraint.exists_le_rowsNorm`: the error of a box beyond reach
- `Residual.project_of_long`, `Residual.sample_of_long`: errors that are never short
- `Constraint.project_beyondReach`: targets beyond reach are never reported as reached
-/

namespace KinematicManifold

variable {n : Nat}

/-! ## Links -/

/-- Following joints that turn leads no farther from the frame of reference than the lengths of
their origins. -/
theorem norm_placeAlong_le {joints : List (Joint ℝ × ℝ)} {start : Pose ℝ}
    (hstart : start.rotation.IsRotation)
    (horigin : ∀ entry ∈ joints, entry.1.origin.rotation.IsRotation)
    (hrevolute : ∀ entry ∈ joints, entry.1.kind = .revolute) :
    ‖(placeAlong start joints).position‖ ≤
      ‖start.position‖ + (joints.map fun entry => ‖entry.1.origin.position‖).sum := by
  induction joints generalizing start with
  | nil => simp [placeAlong]
  | cons head rest ih =>
    rw [List.forall_mem_cons] at horigin hrevolute
    obtain ⟨joint, value⟩ := head
    -- the joint turns in place
    have hmove : (joint.move start value).position =
        start.position + start.rotation.apply joint.origin.position := by
      have hkind : joint.kind = .revolute := hrevolute.1
      rw [Joint.move, hkind]
      rfl
    have hstep : ‖(joint.move start value).position‖ ≤
        ‖start.position‖ + ‖joint.origin.position‖ := by
      rw [hmove, ← hstart.norm_apply joint.origin.position]
      exact norm_add_le _ _
    rw [List.map_cons, List.sum_cons, ← add_assoc]
    exact (ih (isRotation_move value hstart horigin.1) horigin.2 hrevolute.2).trans
      (add_le_add_left hstep _)

namespace Chain

/-- The lengths of the joint origins up to a link, taken together. -/
noncomputable def reach (c : Chain ℝ n) (link : Fin (n + 1)) : ℝ :=
  ((c.joints.toList.take link).map fun joint => ‖joint.origin.position‖).sum

/-- The joints up to a link all turn. -/
def IsRevoluteTo (c : Chain ℝ n) (link : Fin (n + 1)) : Prop :=
  ∀ i : Fin n, i.castSucc < link → (c.joints.get i).kind = .revolute

/-- The joints up to a link are those with a smaller number. -/
theorem exists_of_mem_jointsTo {c : Chain ℝ n} {q : Vector ℝ n} {link : Fin (n + 1)}
    {entry : Joint ℝ × ℝ} (h : entry ∈ c.jointsTo q link) :
    ∃ i : Fin n, i.castSucc < link ∧ entry = (c.joints.get i, q.get i) := by
  rw [← ofFn_get q, jointsTo_ofFn, valuesAt, List.mem_map] at h
  obtain ⟨i, hi, rfl⟩ := h
  obtain ⟨k, hk, rfl⟩ := List.mem_take_iff_getElem.1 hi
  refine ⟨_, ?_, rfl⟩
  rw [Fin.lt_def, List.getElem_finRange]
  exact (lt_min_iff.1 hk).1

/-- A link that only turning joints carry is within reach. -/
theorem norm_linkPose_le {c : Chain ℝ n} (hrigid : c.IsRigid) {link : Fin (n + 1)}
    (hrevolute : c.IsRevoluteTo link) (q : Vector ℝ n) :
    ‖(c.linkPose q link).position‖ ≤ c.reach link := by
  have hjoints : (c.jointsTo q link).map Prod.fst = c.joints.toList.take link := by
    rw [jointsTo, List.map_take, Vector.toList_zip, List.map_fst_zip (by simp)]
  calc ‖(c.linkPose q link).position‖
      ≤ ‖(Pose.identity : Pose ℝ).position‖ +
          ((c.jointsTo q link).map fun entry => ‖entry.1.origin.position‖).sum := by
        refine norm_placeAlong_le Mat3.IsRotation.one (fun entry hentry => ?_)
          fun entry hentry => ?_
        · -- every joint on the way is rigid, and turns
          obtain ⟨i, -, rfl⟩ := exists_of_mem_jointsTo hentry
          exact hrigid i
        · obtain ⟨i, hi, rfl⟩ := exists_of_mem_jointsTo hentry
          exact hrevolute i hi
    _ = c.reach link := by
        rw [reach, ← hjoints, List.map_map]
        simp [Pose.identity, Function.comp_def]

end Chain

/-! ## Boxes -/

namespace BoxConstraint

variable {b : BoxConstraint ℝ n} (hbox : b.spec.box.rotation.IsOrthogonal)
  (hextents : ∀ axis, 0 ≤ b.spec.halfExtents.along axis)
include hbox hextents

/-- The points of a bounded box are no farther from its centre than its corners. -/
theorem norm_sub_le_of_mem_region {z : Vec3 ℝ} (hz : z ∈ b.region) :
    ‖z - b.spec.box.position‖ ≤ ‖b.spec.halfExtents‖ := by
  rw [← hbox.transpose.norm_apply]
  refine le_of_sq_le_sq ?_ (norm_nonneg _)
  have hsq (axis : Axis) :
      (b.spec.box.rotation.transpose.apply (z - b.spec.box.position)).along axis ^ 2 ≤
        b.spec.halfExtents.along axis ^ 2 :=
    sq_le_sq.2 ((hz axis (hextents axis)).trans (le_abs_self _))
  rw [Vec3.norm_sq, Vec3.norm_sq]
  exact add_le_add (add_le_add (hsq .x) (hsq .y)) (hsq .z)

/-- The error is at least the distance by which the box lies beyond the reach of the point. -/
theorem exists_le_rowsNorm {chain : Chain ℝ n} (hrigid : chain.IsRigid) {link : Fin (n + 1)}
    (hlink : b.link = .ofChain chain link) (hrevolute : chain.IsRevoluteTo link) (q : Vector ℝ n) :
    ∃ error, Leaf.evaluate (.box b) q = .ok error ∧
      ‖b.spec.box.position‖ - ‖b.spec.halfExtents‖ - ‖b.spec.linkOffset‖ - chain.reach link ≤
        Linear.rowsNorm error := by
  set pose := chain.linkPose q link with hpose
  have hrotation : pose.rotation.IsRotation := Chain.isRotation_linkPose hrigid q link
  have hpoint : ‖b.point pose‖ ≤ chain.reach link + ‖b.spec.linkOffset‖ := by
    rw [← hrotation.norm_apply b.spec.linkOffset]
    exact (norm_add_le _ _).trans (add_le_add (Chain.norm_linkPose_le hrigid hrevolute q) le_rfl)
  -- from the point to the nearest point of the box, and on to the centre of the box
  obtain ⟨z, hz, hdistance⟩ := exists_mem_region hbox pose
  have hcentre : ‖b.spec.box.position‖ ≤ ‖z‖ + ‖z - b.spec.box.position‖ :=
    norm_le_norm_add_norm_sub _ _
  have hnearest : ‖z‖ ≤ ‖b.point pose‖ + ‖b.point pose - z‖ := norm_le_norm_add_norm_sub _ _
  refine ⟨_, evaluate_eq_ok hlink q, ?_⟩
  rw [← hpose, ← hdistance]
  linarith [norm_sub_le_of_mem_region hbox hextents hz]

end BoxConstraint

/-! ## Errors that are never short -/

namespace Residual

variable {r : Residual ℝ n} {s : Settings ℝ}
  (hlong : ∀ q error, r.evaluate q = .ok error → s.tolerance ≤ Linear.rowsNorm error)
include hlong

/-- Where no error is short, no projection succeeds. -/
theorem project_of_long {q : Vector ℝ n} {o : Outcome ℝ n} (h : r.project s q = .ok o) :
    o.status ≠ .success ∧ s.tolerance ≤ o.errorNorm := by
  obtain ⟨error, herror, hnorm, hshort⟩ := run_reports h
  have hle := hlong _ _ herror
  exact ⟨fun hsuccess => absurd (hshort hsuccess) (not_lt.2 hle), hnorm ▸ hle⟩

/-- Where no error is short, no outcome is accepted by a search. -/
theorem acceptWithin_of_long (lower upper : Tensor ℝ) {q : Vector ℝ n} {o : Outcome ℝ n}
    (h : r.project s q = .ok o) : acceptWithin lower upper s.tolerance o = .ok false := by
  have hfail : o.success = false := by simpa [Outcome.success] using (project_of_long hlong h).1
  rw [acceptWithin, hfail]
  rfl

/-- Where no error is short, a search uses all attempts, and its last projection has not
succeeded. -/
theorem sample_of_long {lower upper : Nested ℝ} {maxAttempts : Budget} {attempts : Nat}
    (hattempts : maxAttempts.toAttempts = .ok attempts) {fractions : Nat → Nested ℝ}
    {sample : Sample ℝ n} (h : r.sample s lower upper maxAttempts fractions = .ok sample) :
    sample.draws = attempts ∧ sample.outcome.status ≠ .success ∧
      s.tolerance ≤ sample.outcome.errorNorm := by
  unfold Residual.sample at h
  split_ifs at h with hone
  obtain ⟨lower, -, h⟩ := bind_eq_ok_iff.1 h
  obtain ⟨upper, -, h⟩ := bind_eq_ok_iff.1 h
  obtain ⟨same, hsame, h⟩ := bind_eq_ok_iff.1 h
  obtain rfl := Except.ok.inj (hattempts.symm.trans hsame)
  have hpos := Budget.pos_of_toAttempts_eq_ok (Bool.eq_false_iff.2 hone) hattempts
  -- what is drawn is projected
  have hdraw (k : Nat) (o : Outcome ℝ n)
      (ho : r.projectDraw s lower upper (fractions k) = .ok o) : ∃ q, r.project s q = .ok o := by
    obtain ⟨_, -, ho⟩ := bind_eq_ok_iff.1 ho
    obtain ⟨_, -, ho⟩ := bind_eq_ok_iff.1 ho
    obtain ⟨q, -, ho⟩ := bind_eq_ok_iff.1 ho
    exact ⟨q, ho⟩
  -- every draw is refused, so that the last one ends the search
  obtain ⟨hdraws, hlast⟩ := search_of_refused (fun k o ho => by
    obtain ⟨q, hq⟩ := hdraw k o ho
    exact acceptWithin_of_long hlong lower upper hq) h
  obtain ⟨q, hq⟩ := hdraw _ _ hlast
  exact ⟨by omega, project_of_long hlong hq⟩

end Residual

/-! ## Targets beyond reach -/

/-- A target beyond reach is never reported as reached. Let a point of a link that only turning
joints carry be kept in a bounded box which lies beyond the reach of the point by the tolerance at
least. Then the error is nowhere shorter than the tolerance, every projection ends without success,
and a search for a sample, whatever it draws, uses all attempts and ends without success. -/
theorem Constraint.project_beyondReach {chain : Chain ℝ n} (hrigid : chain.IsRigid)
    {spec : PositionSpec ℝ} {link : Fin (n + 1)} (hlink : chain.link? spec.link = some link)
    (hrevolute : chain.IsRevoluteTo link) (hbox : spec.box.rotation.IsOrthogonal)
    (hextents : ∀ axis, 0 ≤ spec.halfExtents.along axis) {tolerance : ℝ}
    (hfar : tolerance ≤
      ‖spec.box.position‖ - ‖spec.halfExtents‖ - ‖spec.linkOffset‖ - chain.reach link) :
    ∃ c, ofPosition (.chain chain) spec = .ok c ∧
      (∀ q, ∃ error, c.evaluate q = .ok error ∧ tolerance ≤ Linear.rowsNorm error) ∧
      (∀ s q, s.tolerance = tolerance →
        ∃ o, c.residual.project s q = .ok o ∧ o.status ≠ .success) ∧
      ∀ members settings given, (given.getD settings).tolerance = tolerance →
        ∀ maxAttempts attempts, maxAttempts.isBelowOne = false →
          maxAttempts.toAttempts = .ok attempts →
          let o : Object ℝ := ⟨n, c, members, settings⟩
          (∀ lower upper fractions sample,
            o.sample given lower upper maxAttempts fractions = .ok sample →
            sample.draws = attempts ∧ sample.outcome.status ≠ .success ∧
              tolerance ≤ sample.outcome.errorNorm) ∧
          ∀ (limits : JointLimits ℝ n) (fractions : Nat → Vector ℝ n), ∃ sample,
            o.sample given (.ofConfiguration limits.lower) (.ofConfiguration limits.upper)
              maxAttempts (fun k => .ofConfiguration (fractions k)) = .ok sample := by
  have hrequired := Model.requireLink_eq_ok_iff.2 ⟨link, hlink, rfl⟩
  have haxes : 1 ≤ spec.constrainedAxes.length := by
    rw [PositionSpec.constrainedAxes,
      List.filter_eq_self.2 fun axis _ => decide_eq_true (hextents axis)]
    decide
  let b : BoxConstraint ℝ n := ⟨spec, .ofChain chain link⟩
  let c : Constraint ℝ n := leaf (.box b)
  -- the error is long everywhere, hence in every run and every draw
  have herror (q : Vector ℝ n) :
      ∃ error, c.evaluate q = .ok error ∧ tolerance ≤ Linear.rowsNorm error := by
    obtain ⟨error, herror, hle⟩ :=
      BoxConstraint.exists_le_rowsNorm (b := b) hbox hextents hrigid rfl hrevolute q
    exact ⟨error, by rwa [evaluate], hfar.trans hle⟩
  -- on a chain every run has an outcome
  have hends (s : Settings ℝ) (q : Vector ℝ n) : ∃ o, c.residual.project s q = .ok o :=
    (BoxConstraint.isTotal_residual rfl).exists_project s q
  have hlong (s : Settings ℝ) (hs : s.tolerance = tolerance) (q : Vector ℝ n) (error : List ℝ)
      (h : c.residual.evaluate q = .ok error) : s.tolerance ≤ Linear.rowsNorm error := by
    obtain ⟨same, hsame, hle⟩ := herror q
    obtain rfl := Except.ok.inj (h.symm.trans hsame)
    rwa [hs]
  refine ⟨c, ofPosition_eq_ok_iff.2 ⟨_, hrequired, ⟨chain.joints_pos, haxes⟩, rfl⟩, herror,
    fun s q hs => ?_, ?_⟩
  · obtain ⟨o, ho⟩ := hends s q
    exact ⟨o, ho, (Residual.project_of_long (hlong s hs) ho).1⟩
  · intro members settings given hs maxAttempts attempts hone hattempts o
    refine ⟨fun lower upper fractions sample hsample => ?_, fun limits fractions => ?_⟩
    · rw [← hs]
      exact Residual.sample_of_long (hlong _ hs) hattempts hsample
    · rw [o.sample_eq_search given limits hone hattempts]
      refine exists_search_eq_ok (fun k => ?_) _ _
      obtain ⟨p, hp⟩ := hends (given.getD settings) (limits.between (fractions k))
      exact ⟨p, hp, false, Residual.acceptWithin_of_long (hlong _ hs) _ _ hp⟩

/-- A point ahead of the arm is to be in a box far above it. -/
noncomputable def farSpec : PositionSpec ℝ :=
  ⟨"arm", ⟨1, 0, 0⟩, ⟨⟨0, 0, 1 + 1 + 1 + 1⟩, 1⟩, ⟨1, 0, 0⟩⟩

/-- Only a turning joint carries the arm of the example. -/
theorem isRevoluteTo_arm : turnThenSlide.IsRevoluteTo armLink := by
  intro i hi
  fin_cases i
  · rfl
  · exact absurd hi (by decide)

/-- The arm reaches out by one. -/
theorem reach_arm : turnThenSlide.reach armLink = 1 := by
  have hjoints : turnThenSlide.joints.toList.take armLink = [turnJoint] := by
    simp [turnThenSlide, armLink, Vector.toList_ofFn]
  have hnorm : ‖turnJoint.origin.position‖ = 1 := by
    rw [← Real.sqrt_sq (norm_nonneg _), Vec3.norm_sq]
    simp [turnJoint]
  rw [Chain.reach, hjoints, List.map_singleton, List.sum_singleton, hnorm]

/-- The box of the example lies beyond that, by one at least. -/
theorem far_farSpec : 1 ≤ ‖farSpec.box.position‖ - ‖farSpec.halfExtents‖ - ‖farSpec.linkOffset‖ -
    turnThenSlide.reach armLink := by
  have hposition : ‖farSpec.box.position‖ = 4 := by
    rw [← Real.sqrt_sq (norm_nonneg _), Vec3.norm_sq, Real.sqrt_eq_iff_mul_self_eq_of_pos]
    all_goals norm_num [farSpec]
  have hunit : ‖(⟨1, 0, 0⟩ : Vec3 ℝ)‖ = 1 := by
    rw [← Real.sqrt_sq (norm_nonneg _), Vec3.norm_sq]
    simp
  rw [hposition, reach_arm, farSpec, hunit]
  norm_num

/-- The settings of a search that is content with a distance of less than one. -/
noncomputable def roughSettings : Settings ℝ := { Settings.standard with tolerance := 1 }

/-- The arm is never reported to be in the box above it, and three draws are used up in vain. -/
theorem project_beyondReach_farSpec :
    turnThenSlide.IsRigid ∧ turnThenSlide.link? farSpec.link = some armLink ∧
    turnThenSlide.IsRevoluteTo armLink ∧ farSpec.box.rotation.IsOrthogonal ∧
    (∀ axis, 0 ≤ farSpec.halfExtents.along axis) ∧
    1 ≤ ‖farSpec.box.position‖ - ‖farSpec.halfExtents‖ - ‖farSpec.linkOffset‖ -
      turnThenSlide.reach armLink ∧
    ∃ c, Constraint.ofPosition (.chain turnThenSlide) farSpec = .ok c ∧
      (∃ o, c.residual.project roughSettings atRest = .ok o ∧ o.status ≠ .success) ∧
      ∃ sample, Object.sample (⟨2, c, [], roughSettings⟩ : Object ℝ) none
          (.ofConfiguration rangeLimits.lower) (.ofConfiguration rangeLimits.upper) (.integer 3)
          (fun _ => .ofConfiguration (.ofFn ![1, 0])) = .ok sample ∧
        sample.draws = 3 ∧ sample.outcome.status ≠ .success := by
  have hlink : turnThenSlide.link? farSpec.link = some armLink := rfl
  have hbox : farSpec.box.rotation.IsOrthogonal := Mat3.IsRotation.one.toIsOrthogonal
  have hextents : ∀ axis, 0 ≤ farSpec.halfExtents.along axis := by
    intro axis
    cases axis <;> norm_num [farSpec, Vec3.along]
  refine ⟨isRigid_turnThenSlide, hlink, isRevoluteTo_arm, hbox, hextents, far_farSpec, ?_⟩
  -- the box is built, and neither projected nor sampled onto
  obtain ⟨c, hc, -, hproject, hsample⟩ := Constraint.project_beyondReach isRigid_turnThenSlide
    hlink isRevoluteTo_arm hbox hextents far_farSpec
  obtain ⟨hends, hexists⟩ := hsample [] roughSettings none rfl (.integer 3) 3 rfl rfl
  obtain ⟨sample, hok⟩ := hexists rangeLimits fun _ => .ofFn ![1, 0]
  obtain ⟨hdraws, hstatus, -⟩ := hends _ _ _ _ hok
  exact ⟨c, hc, hproject roughSettings atRest rfl, sample, hok, hdraws, hstatus⟩

end KinematicManifold
