import KinematicManifold.Proofs.Deviation
import KinematicManifold.Proofs.Reversal

/-!
# Full turns

A rotation about an axis by a full turn is no rotation. So a joint that turns stands where it stood
when its value changes by full turns, and moves as it moved. A configuration with full turns added
is one and the same task for positions and orientations: the joints are none of them reversed, and
the configuration has another place.

## Key results

- `Rotation.exp_add_turns`, `Joint.move_add_turns`: full turns about an axis, and of a joint
- `Chain.reverses_add_turns`: a chain to which full turns are added
- `Constraint.project_add_turns`: forward kinematics and projections do not notice full turns
-/

namespace KinematicManifold

open Real

/-- Full turns about an axis are no rotation. -/
theorem Rotation.exp_add_turns {direction : Vec3 ℝ} (h : ‖direction‖ = 1) (angle : ℝ)
    (turns : ℤ) : exp ((angle + turns * (2 * π)) • direction) = exp (angle • direction) := by
  rw [← aboutUnit_eq h, ← aboutUnit_eq h]
  simp only [aboutUnit, Scalar.cos_real, Scalar.sin_real, cos_add_int_mul_two_pi,
    sin_add_int_mul_two_pi]

/-- A vector divided by its length has length one, unless it has none. -/
theorem Vec3.unit_eq_zero_or (v : Vec3 ℝ) : v.unit = 0 ∨ ‖v.unit‖ = 1 := by
  rcases eq_or_ne v 0 with rfl | hv
  · left
    rw [unit_eq, smul_zero]
  · right
    exact norm_unit (norm_pos_iff.2 hv)

/-- A joint that turns does not notice full turns. -/
theorem Joint.move_add_turns {j : Joint ℝ} {turns : ℤ} (h : j.kind = .prismatic → turns = 0)
    (parent : Pose ℝ) (value : ℝ) :
    j.move parent (value + turns * (2 * π)) = j.move parent value := by
  cases hkind : j.kind with
  | prismatic => rw [h hkind, Int.cast_zero, zero_mul, add_zero]
  | revolute =>
    have hturn : Rotation.exp ((value + turns * (2 * π)) • j.direction) =
        Rotation.exp (value • j.direction) := by
      -- about an axis without a direction nothing turns at all
      rcases j.axis.unit_eq_zero_or with hzero | hone
      · rw [direction, hzero, smul_zero, smul_zero]
      · exact Rotation.exp_add_turns hone value turns
    simp only [move, hkind, ← Vec3.smul_def, hturn]

variable {n : Nat}

/-- A chain to which full turns are added is the chain, at another place. -/
theorem Chain.reverses_add_turns {c : Chain ℝ n} {turns : Fin n → ℤ}
    (h : ∀ i, (c.joints.get i).kind = .prismatic → turns i = 0) :
    c.Reverses ∅ (· + .ofFn fun i => turns i * (2 * π)) c where
  linkNames := rfl
  place_add q step := by
    apply Linear.ext_get
    funext i
    simp [add_right_comm]
  move q i parent := by
    rw [Linear.get_add, Linear.get_ofFn, Pi.add_apply]
    exact Joint.move_add_turns (h i) parent (q.get i)
  screw i parent := by rw [sense_empty, Screw.scaled_one]

/-- Full turns do not matter. When whole turns are added to the values of joints that turn, forward
kinematics finds every link in the same pose with the same Jacobian. A constraint that is made of
positions and orientations is projected in the same way, and the last configuration differs by the
same turns; over rigid origins there is an outcome. -/
theorem Constraint.project_add_turns {chain : Chain ℝ n} {turns : Fin n → ℤ}
    (hturns : ∀ i, (chain.joints.get i).kind = .prismatic → turns i = 0) :
    let shift : Vector ℝ n := .ofFn fun i => turns i * (2 * π)
    (∀ (q : Vector ℝ n) (name : String),
      (Model.chain chain).linkState (.ofConfiguration (q + shift)) name =
        (Model.chain chain).linkState (.ofConfiguration q) name ∧
      (name ∈ chain.linkNames →
        ∃ state, (Model.chain chain).linkState (.ofConfiguration q) name = .ok state)) ∧
    ∀ c : Constraint ℝ n, c.BuiltOn (.chain chain) → (∀ limits, .jointLimits limits ∉ c.leaves) →
      ∀ s q, c.residual.project s (q + shift) =
          (c.residual.project s q).map (Outcome.map (· + shift)) ∧
        (chain.IsRigid → ∃ o, c.residual.project s q = .ok o ∧
          c.residual.project s (q + shift) =
            .ok ⟨o.status, o.configuration + shift, o.errorNorm, o.iterations⟩) := by
  intro shift
  -- a shift by whole turns is a change of coordinates that reverses no joint
  have hreverses : chain.Reverses ∅ (· + shift) chain := Chain.reverses_add_turns hturns
  refine ⟨fun q name => ⟨?_, fun hname => Model.exists_linkState_chain hname q⟩,
    fun c hbuilt hkind s q => ?_⟩
  · have hstate := hreverses.model_linkState q name
    rwa [LinkState.reverse_empty, Except.map_id] at hstate
  · -- limits are the only leaves that tell the shifted configuration from the other
    have hmirrors : c.residual.Mirrors (Linear.reversal ∅) (· + shift) c.residual := by
      refine mirrors (fun q step => ?_) (List.forall₂_same.2 fun l hl q => ?_)
      · rw [Linear.reversal_embed, hreverses.place_add]
      · have haccepted := hbuilt.isAccepted l hl
        have hrows := hreverses.mirrored_onChain haccepted
          (fun limits h => hkind limits (h ▸ hl)) q
        rwa [Leaf.onChain_of_isAccepted haccepted] at hrows
    exact ⟨hmirrors.project s q, fun hrigid => hmirrors.exists_project (hbuilt.isTotal hrigid) s q⟩

/-- The hand is kept in its box, and the arm near its target. -/
noncomputable def handAndArm : Constraint ℝ 2 :=
  .intersection [.leaf (.box handConstraint), .leaf (.orientation armConstraint)]

/-- The task of the example is built on the example chain. -/
theorem builtOn_handAndArm : handAndArm.BuiltOn (.chain turnThenSlide) := by
  have hhand : (Constraint.leaf (.box handConstraint)).BuiltOn (.chain turnThenSlide) :=
    .position build_handDescription ofPosition_handSpec
  refine .intersection (Constraint.intersect_map_mk (by simp)) fun member hmember => ?_
  rcases List.mem_cons.1 hmember with rfl | hmember
  · exact hhand
  · rw [List.mem_singleton.1 hmember]
    exact builtOn_armConstraint

/-- It has no limits, which a turn would leave. -/
theorem jointLimits_notMem_handAndArm (limits : JointLimits ℝ 2) :
    .jointLimits limits ∉ handAndArm.leaves := by
  simp [handAndArm, Constraint.leaves, Constraint.leavesAll]

/-- The arm, turned once the other way round. -/
theorem project_add_turns_arm :
    (∀ i, (turnThenSlide.joints.get i).kind = .prismatic → (![-1, 0] : Fin 2 → ℤ) i = 0) ∧
    handAndArm.BuiltOn (.chain turnThenSlide) ∧
    (∀ limits, .jointLimits limits ∉ handAndArm.leaves) ∧ turnThenSlide.IsRigid ∧
    "hand" ∈ turnThenSlide.linkNames ∧
    (∃ state, (Model.chain turnThenSlide).linkState (.ofConfiguration atRest) "hand" = .ok state ∧
      (Model.chain turnThenSlide).linkState (.ofConfiguration
        (atRest + .ofFn fun i => (![-1, 0] : Fin 2 → ℤ) i * (2 * π))) "hand" = .ok state) ∧
    ∃ o, handAndArm.residual.project .standard atRest = .ok o ∧
      handAndArm.residual.project .standard
          (atRest + .ofFn fun i => (![-1, 0] : Fin 2 → ℤ) i * (2 * π)) =
        .ok ⟨o.status, o.configuration + .ofFn fun i => (![-1, 0] : Fin 2 → ℤ) i * (2 * π),
          o.errorNorm, o.iterations⟩ := by
  have hturns : ∀ i, (turnThenSlide.joints.get i).kind = .prismatic →
      (![-1, 0] : Fin 2 → ℤ) i = 0 := by
    intro i hkind
    -- the slide is not shifted
    fin_cases i
    · cases hkind
    · rfl
  obtain ⟨hstates, hprojects⟩ := Constraint.project_add_turns hturns
  obtain ⟨hstate, hanswers⟩ := hstates atRest "hand"
  obtain ⟨state, hok⟩ := hanswers hand_mem_linkNames
  have hproject := hprojects handAndArm builtOn_handAndArm jointLimits_notMem_handAndArm .standard
    atRest
  exact ⟨hturns, builtOn_handAndArm, jointLimits_notMem_handAndArm, isRigid_turnThenSlide,
    hand_mem_linkNames, ⟨state, hok, hstate.trans hok⟩, hproject.2 isRigid_turnThenSlide⟩

end KinematicManifold
