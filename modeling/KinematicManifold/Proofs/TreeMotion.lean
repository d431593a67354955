import KinematicManifold.Kinematics.Model
import KinematicManifold.Proofs.Articulations
import KinematicManifold.Proofs.ChainMotion
import KinematicManifold.Proofs.TreeLayout

/-!
# Trees that move

A branch moves with the sum of the screws on it, each at the rate of its joint. The values of the
joints depend on a configuration: a joint has the last value that is chosen for it, and stays at
rest if it is not chosen. So the column of a choice is the derivative of the pose, unless the same
joint is chosen again later: then the pose does not depend on this value, though the column is that
of the joint all the same. The frames of a tree with a single velocity have no columns, whatever
moves them.

The induction is over the joints of the tree: a branch that grows gets one screw more.

## Key results

- `Branch.Moves.grow`: a joint moves what the branch of its parent carries
- `JointTree.moves_branch`: how the branches of a tree move
- `ControlledTree.motion_single`: the motion while a single value changes
- `Model.hasDerivAt_linkState_tree`: the geometric Jacobian and the derivative of the pose
-/

namespace KinematicManifold

open Rotation

/-! ## The motion of a branch -/

/-- The twist of what a branch carries, at the root, when one joint moves in all its ways at unit
speed. A joint that is not on the branch does not move it. -/
noncomputable def Branch.twistBy (b : Branch ℝ) (number : Nat) : Twist ℝ :=
  (b.screws.lookup number).elim 0 fun screws => (screws.map Screw.twistAtRoot).sum

/-- One joint more on a branch. -/
theorem Branch.twistBy_of_screws {b b' : Branch ℝ} {number : Nat} {screw : Screw ℝ}
    (h : b'.screws = (number, [screw]) :: b.screws) (other : Nat) :
    b'.twistBy other = if other = number then screw.twistAtRoot else b.twistBy other := by
  rw [twistBy, h, List.lookup_cons]
  by_cases hsame : other = number
  · simp [hsame]
  · rw [if_neg hsame, beq_false_of_ne hsame]
    rfl

section
variable {E : Type*} [NormedAddCommGroup E] [NormedSpace ℝ E]

instance Twist.isScalarTower : IsScalarTower ℝ ℝ (Twist ℝ) := IsScalarTower.left ℝ

/-- The motion of what a branch carries: the screws of each joint, at the rate of its value. -/
noncomputable def Branch.motion (rate : Nat → E →L[ℝ] ℝ) (b : Branch ℝ) : E →ₗ[ℝ] Twist ℝ :=
  (b.screws.map fun (number, screws) =>
    (rate number : E →ₗ[ℝ] ℝ).smulRight (screws.map (·.twistAtRoot)).sum).sum

variable {x : E} {rate : Nat → E →L[ℝ] ℝ}

/-- A motion at unit rate of one joint alone. -/
theorem Branch.motion_apply_of_single {b : Branch ℝ} (hnodup : (b.screws.map Prod.fst).Nodup)
    {ξ : E} {number : Nat} (hone : rate number ξ = 1)
    (hother : ∀ other, other ≠ number → rate other ξ = 0) :
    b.motion rate ξ = b.twistBy number := by
  obtain ⟨pose, screws⟩ := b
  simp only [motion, twistBy] at hnodup ⊢
  induction screws with
  | nil => rfl
  | cons entry rest ih =>
    obtain ⟨owner, own⟩ := entry
    rw [List.map_cons, List.nodup_cons] at hnodup
    rw [List.map_cons, List.sum_cons, LinearMap.add_apply, ih hnodup.2, List.lookup_cons]
    by_cases howner : number = owner
    · -- the number owns no later entry, since numbers are listed once
      have hnone : rest.lookup number = none := by
        rw [List.lookup_eq_none_iff]
        intro entry hentry
        simp only [bne_iff_ne]
        rintro heq
        exact hnodup.1 (List.mem_map.2 ⟨entry, hentry, by rw [← heq, howner]⟩)
      subst howner
      simp [hnone, hone]
    · simp [hother owner (Ne.symm howner), beq_false_of_ne howner]

/-- Without any rate there is no motion. -/
theorem Branch.motion_apply_of_rest (b : Branch ℝ) {ξ : E} (h : ∀ number, rate number ξ = 0) :
    b.motion rate ξ = 0 := by
  obtain ⟨pose, screws⟩ := b
  simp only [motion]
  induction screws with
  | nil => rfl
  | cons entry rest ih => simp [h, ih]

variable [FiniteDimensional ℝ E]

/-- What a branch carries is placed by a rotation, and moves with the screws of the branch. -/
structure Branch.Moves (x : E) (rate : Nat → E →L[ℝ] ℝ) (b : E → Branch ℝ) : Prop where
  isRotation : (b x).pose.rotation.IsRotation
  movesAt : Pose.MovesAt (fun y => (b y).pose) x ((b x).motion rate)

/-- The root stays where it is. -/
theorem Branch.Moves.root : Branch.Moves x rate fun _ => .root where
  isRotation := Mat3.IsRotation.one
  movesAt := .const .identity x

/-- A joint with a single coordinate adds its screw, and any other joint carries rigidly. -/
theorem Branch.Moves.grow {b : E → Branch ℝ} (h : Branch.Moves x rate b) {joint : TreeJoint ℝ}
    (hroot : joint.parent = 0 → b = fun _ => .root)
    (hplacement : joint.placement.rotation.IsRotation) (hunit : joint.articulation.IsUnit)
    {number : Nat} {value : E → ℝ} (hvalue : HasFDerivAt value (rate number) x)
    (hrest : joint.articulation.way? = none → rate number = 0) :
    Branch.Moves x rate fun y => (b y).grow number joint (value y) := by
  have hparent (y : E) : joint.parent = 0 → (b y).pose = .identity := by
    intro hzero
    rw [hroot hzero]
    rfl
  cases hway : joint.articulation.way? with
  | none =>
    have hpose (y : E) : ((b y).grow number joint (value y)).pose =
        (b y).pose.compose joint.placement :=
      Branch.grow_pose_of_rest (hparent y) hplacement hway _ _
    -- the screws of the joint are there, but its value does not change
    have hmotion : ((b x).grow number joint (value x)).motion rate = (b x).motion rate := by
      simp [motion, Branch.grow, hrest hway]
    constructor
    · rw [hpose]
      exact h.isRotation.mul hplacement
    · simp only [hpose, hmotion]
      exact h.movesAt.compose joint.placement
  | some way =>
    obtain ⟨kind, direction⟩ := way
    have hnorm := hunit kind direction hway
    have hmatch := TreeJoint.matches_along hway hnorm
    have hdirection : ‖(joint.along kind direction).direction‖ = 1 := by
      rwa [Joint.direction, TreeJoint.along, Vec3.unit_of_norm_eq_one hnorm]
    have hpose (y : E) := hmatch.grow_pose hdirection hplacement (hparent y) number (value y)
    obtain ⟨screw, hscrews, htwist⟩ :=
      hmatch.grow_screws hdirection hplacement (hparent x) number (value x)
    have hmotion : ((b x).grow number joint (value x)).motion rate = (b x).motion rate +
        (rate number : E →ₗ[ℝ] ℝ).smulRight
          (((joint.along kind direction).screw (b x).pose).twistAt 0) := by
      simp [motion, hscrews, htwist, add_comm]
    constructor
    · rw [hpose]
      exact isRotation_move _ h.isRotation hplacement
    · simp only [hpose, hmotion]
      exact h.movesAt.move hvalue _ h.isRotation hplacement

/-! ## The motion of a tree -/

namespace JointTree

variable {t : JointTree ℝ}

/-- Every joint is placed by a rotation, and moves about or along a direction of unit length. -/
structure IsRigid (t : JointTree ℝ) : Prop where
  isRotation : ∀ joint ∈ t.joints, joint.placement.rotation.IsRotation
  isUnit : ∀ joint ∈ t.joints, joint.articulation.IsUnit

/-- The branches of a tree move with the values of the joints, of which those without a single
coordinate stay at rest. -/
theorem moves_branch (h : t.IsRigid) {value : E → Nat → ℝ}
    (hvalue : ∀ i < t.joints.length, HasFDerivAt (fun y => value y (i + 1)) (rate (i + 1)) x)
    (hrest : ∀ (i : Nat) (joint : TreeJoint ℝ), t.joints[i]? = some joint →
      joint.articulation.way? = none → rate (i + 1) = 0) (number : Nat) :
    Branch.Moves x rate fun y => t.branch (value y) number := by
  by_cases hnumber : number ≤ t.joints.length
  · refine branch_induction value (P := fun _ b => Branch.Moves x rate b) .root ?_ hnumber
    intro i joint _ parent hjoint _ hroot hparent
    have hmem : joint ∈ t.joints := List.mem_of_getElem? hjoint
    have hi : i < t.joints.length := (List.getElem?_eq_some_iff.1 hjoint).1
    exact hparent.grow hroot (h.isRotation joint hmem) (h.isUnit joint hmem) (hvalue i hi)
      (hrest i joint hjoint)
  · -- there is nothing beyond the last joint, and the root stands in for it
    have hlt : t.joints.length < number := by omega
    simp only [branch_of_length_lt _ hlt]
    exact .root

/-- The joints of a rigid tree are placed by rotations. -/
theorem isRotation_branch (h : t.IsRigid) (value : Nat → ℝ) (number : Nat) :
    (t.branch value number).pose.rotation.IsRotation := by
  -- the values need not move
  have hmoves : Branch.Moves (0 : ℝ) (fun _ => 0) fun _ => t.branch value number :=
    moves_branch h (fun _ _ => hasFDerivAt_const _ _) (fun _ _ _ _ => rfl) number
  exact hmoves.isRotation

end JointTree

end

/-! ## The motion of a controlled tree -/

namespace ControlledTree

variable {n : Nat} (c : ControlledTree ℝ n)

section
variable {K : Type} (c : ControlledTree K n) {i : Fin n} {j : Nat}

/-- The joint of a choice is not chosen again. -/
def IsLastChoice (i : Fin n) : Prop :=
  ∀ later, i < later → c.controlled.get later ≠ c.controlled.get i

instance : Decidable (c.IsLastChoice i) :=
  inferInstanceAs (Decidable (∀ later, i < later → c.controlled.get later ≠ c.controlled.get i))

/-- The choices are gone through from the last to the first. -/
theorem lastChoice_eq_some_iff :
    c.lastChoice j = some i ↔ (c.controlled.get i).val = j ∧ c.IsLastChoice i := by
  have hsorted : (List.finRange n).reverse.Pairwise (· > ·) :=
    List.pairwise_reverse.2 (List.pairwise_lt_finRange n)
  have hfound {i : Fin n} (h : c.lastChoice j = some i) :
      (c.controlled.get i).val = j ∧ c.IsLastChoice i := by
    obtain ⟨hi, before, after, hsplit, hbefore⟩ := List.find?_eq_some_iff_append.1 h
    have hi : (c.controlled.get i).val = j := of_decide_eq_true hi
    refine ⟨hi, fun later hlater hsame => ?_⟩
    have hmem : later ∈ before ++ i :: after := by
      rw [← hsplit]
      simp
    rw [hsplit, List.pairwise_append, List.pairwise_cons] at hsorted
    rcases List.mem_append.1 hmem with hmem | hmem
    · have hne := hbefore later hmem
      simp [hsame, hi] at hne
    · rcases List.mem_cons.1 hmem with rfl | hmem
      · exact lt_irrefl _ hlater
      · exact lt_asymm hlater (hsorted.2.1.1 later hmem)
  refine ⟨hfound, fun ⟨hi, hlast⟩ => ?_⟩
  cases hchoice : c.lastChoice j with
  | none =>
    have hnone := List.find?_eq_none.1 hchoice i (by simp)
    simp [hi] at hnone
  | some other =>
    -- neither of two last choices of one joint comes before the other
    obtain ⟨hother, hlast'⟩ := hfound hchoice
    have hsame : c.controlled.get other = c.controlled.get i := Fin.ext (hother.trans hi.symm)
    rcases lt_trichotomy i other with hlt | rfl | hgt
    · exact absurd hsame (hlast other hlt)
    · rfl
    · exact absurd hsame.symm (hlast' i hgt)

end

/-- The rate of the value of a joint, by the number of the joint. -/
noncomputable def rate : Nat → (Fin n → ℝ) →L[ℝ] ℝ
  | 0 => 0
  | joint + 1 => (c.lastChoice joint).elim 0 fun i => ContinuousLinearMap.proj i

/-- The value of a joint changes at its rate, which is that of its last choice. -/
theorem hasFDerivAt_valueAt (x : Fin n → ℝ) {j : Nat} (hj : j < c.tree.joints.length) :
    HasFDerivAt (fun y => c.tree.valueAt (c.state (.ofFn y)) (j + 1)) (c.rate (j + 1)) x := by
  simp only [valueAt_state _ _ hj, rate]
  cases c.lastChoice j with
  | none => exact hasFDerivAt_const _ _
  | some i =>
    have hproj : HasFDerivAt (fun y : Fin n → ℝ => y i) (ContinuousLinearMap.proj i) x :=
      (ContinuousLinearMap.proj (R := ℝ) (φ := fun _ : Fin n => ℝ) i).hasFDerivAt
    simpa [Vector.get_eq_getElem] using hproj

/-- When a single value changes, so does that of the joint for which it is the last choice. -/
theorem rate_single {i : Fin n} (h : c.IsLastChoice i) :
    c.rate ((c.controlled.get i).val + 1) (Pi.single i 1) = 1 := by
  rw [rate, (c.lastChoice_eq_some_iff).2 ⟨rfl, h⟩]
  simp

/-- No other joint moves when a single value changes. -/
theorem rate_single_eq_zero {i : Fin n} {number : Nat}
    (h : c.IsLastChoice i → number ≠ (c.controlled.get i).val + 1) :
    c.rate number (Pi.single i 1) = 0 := by
  cases number with
  | zero => rfl
  | succ joint =>
    rw [rate]
    cases hchoice : c.lastChoice joint with
    | none => rfl
    | some other =>
      obtain ⟨hother, hlast⟩ := (c.lastChoice_eq_some_iff).1 hchoice
      -- another choice came later, and counts instead
      have hne : other ≠ i := by
        rintro rfl
        exact h hlast (by rw [hother])
      simp [hne]

variable {c}

/-- A joint without a single coordinate is not chosen. -/
theorem rate_eq_zero_of_rest (h : c.IsSingle) {i : Nat} {joint : TreeJoint ℝ}
    (hjoint : c.tree.joints[i]? = some joint) (hrest : joint.articulation.way? = none) :
    c.rate (i + 1) = 0 := by
  rw [rate]
  cases hchoice : c.lastChoice i with
  | none => rfl
  | some choice =>
    -- what is chosen was checked to have a single coordinate
    obtain ⟨rfl, -⟩ := (c.lastChoice_eq_some_iff).1 hchoice
    obtain ⟨hi, rfl⟩ := List.getElem?_eq_some_iff.1 hjoint
    obtain ⟨kind, direction, hway⟩ := Articulation.exists_way (h choice).1
    rw [hrest] at hway
    cases hway

/-- The motion of a frame, as a linear map of the velocity of the configuration. -/
noncomputable def motion (c : ControlledTree ℝ n) (x : Fin n → ℝ) (frame : TreeFrame ℝ) :
    (Fin n → ℝ) →ₗ[ℝ] Twist ℝ :=
  (c.tree.branchOf (c.state (.ofFn x)) frame).motion c.rate

/-- Every frame moves along the screws that its branch has come along. -/
theorem movesAt_framePose (hrigid : c.tree.IsRigid) (hsingle : c.IsSingle) (x : Fin n → ℝ)
    (frame : TreeFrame ℝ) :
    Pose.MovesAt (fun y => c.tree.framePose (c.state (.ofFn y)) frame) x (c.motion x frame) :=
  have hmoves := JointTree.moves_branch hrigid (fun _ hj => c.hasFDerivAt_valueAt x hj)
    (fun _ _ hjoint => rate_eq_zero_of_rest hsingle hjoint) frame.parent
  hmoves.movesAt.compose frame.placement

/-- The column of a choice is the screw of its joint, taken where the frame stands. -/
theorem jacobian_get (h : c.IsSingle) (q : Vector ℝ n) (frame : TreeFrame ℝ) (i : Fin n) :
    (c.frameMotion q frame).jacobian.get i =
      ((c.tree.branchOf (c.state q) frame).twistBy ((c.controlled.get i).val + 1)).movedTo
        (c.tree.framePose (c.state q) frame).position := by
  obtain ⟨hlt, hvelocities⟩ : ∃ hlt : (c.controlled.get i).val < c.tree.joints.length,
      c.tree.joints[(c.controlled.get i).val].articulation.velocities = 1 :=
    ⟨(c.controlled.get i).isLt, (h i).2⟩
  have hjoint := List.getElem?_eq_getElem hlt
  -- the column is the first of the joint, which has one velocity
  have hcolumn : (c.frameMotion q frame).jacobian.get i =
      (c.tree.frameTwists (c.state q) frame).getD (c.tree.velocityIndex (c.controlled.get i).val)
        0 := by
    simp [frameMotion, velocityIndices, Vector.get_eq_getElem]
  rw [hcolumn, JointTree.getD_frameTwists hjoint (by omega), JointTree.jointTwists, Branch.twistBy]
  cases hfound : (c.tree.branchOf (c.state q) frame).screws.lookup
      ((c.controlled.get i).val + 1) with
  | none => simp [hvelocities]
  | some screws =>
    have hlength := (JointTree.sound_branch _ _).length_of_lookup hjoint hfound
    rw [hvelocities, List.length_eq_one_iff] at hlength
    obtain ⟨screw, rfl⟩ := hlength
    simp

/-- The motion while a single value changes: the column of the choice, unless the joint is chosen
again. -/
theorem motion_single (h : c.IsSingle) (x : Fin n → ℝ) (frame : TreeFrame ℝ) (i : Fin n) :
    (c.motion x frame (Pi.single i 1)).movedTo
        (c.tree.framePose (c.state (.ofFn x)) frame).position =
      if c.IsLastChoice i then (c.frameMotion (.ofFn x) frame).jacobian.get i else 0 := by
  by_cases hlast : c.IsLastChoice i
  · have hnodup : ((c.tree.branchOf (c.state (.ofFn x)) frame).screws.map Prod.fst).Nodup :=
      (JointTree.sound_branch _ _).nodup
    rw [if_pos hlast, jacobian_get h, motion, Branch.motion_apply_of_single hnodup
      (c.rate_single hlast) fun _ hne => c.rate_single_eq_zero fun _ => hne]
  · rw [if_neg hlast, motion, Branch.motion_apply_of_rest _
      fun _ => c.rate_single_eq_zero fun h => absurd h hlast, Twist.zero_movedTo]

/-- How the pose of a frame changes with a single value. -/
theorem hasDerivAt_framePose (hrigid : c.tree.IsRigid) (hsingle : c.IsSingle) (q : Vector ℝ n)
    (frame : TreeFrame ℝ) (i : Fin n) :
    let pose := fun t => c.tree.framePose (c.state (.ofFn (Function.update q.get i t))) frame
    let twist := if c.IsLastChoice i then (c.frameMotion q frame).jacobian.get i else 0
    HasDerivAt (fun t => (pose t).position) twist.linear (q.get i) ∧
      HasDerivAt (fun t => (pose t).rotation)
        (skew twist.angular * (c.tree.framePose (c.state q) frame).rotation) (q.get i) := by
  have hderiv := (movesAt_framePose hrigid hsingle q.get frame).hasDerivAt_single i
  have htwist := motion_single hsingle q.get frame i
  have hangular := congrArg Twist.angular htwist
  -- the angular part does not depend on the point
  rw [Twist.movedTo_angular] at hangular
  rw [htwist, hangular] at hderiv
  simpa only [ofFn_get] using hderiv

end ControlledTree

/-! ## Forward kinematics -/

/-- Where a link is found, and the configuration is a vector of the right length, the link is
asked. -/
theorem Model.linkState_of_link? {n : Nat} {m : Model ℝ n} {name : String} {link : Link ℝ n}
    (h : m.link? name = some link) (q : Vector ℝ n) :
    m.linkState (.ofConfiguration q) name = link.state q := by
  simp only [linkState, h, Nested.toTensor_ofConfiguration, bind, Except.bind,
    Tensor.toConfiguration_ofConfiguration]

/-- On a ball, which is not controlled, an arm that turns, and on the arm a hand that slides. -/
noncomputable def ballArm : JointTree ℝ where
  joints := [⟨"ball", 0, ⟨⟨0, 0, 1⟩, 1⟩, .ball, 0, 0⟩, ⟨"arm", 1, .identity, .turn .z, -1, 1⟩,
    ⟨"hand", 2, ⟨⟨1, 0, 0⟩, 1⟩, .slide .x, -1, 1⟩]
  extraFrames := [⟨"tool", 3, ⟨⟨1, 0, 0⟩, 1⟩⟩]

/-- The tree of the example is placed by rotations. -/
theorem isRigid_ballArm : ballArm.IsRigid := by
  constructor
  · simp [ballArm, Mat3.IsRotation.one, Pose.identity]
  · simp [ballArm, Articulation.IsUnit, Articulation.way?, Articulation.ball, Axis.norm_vector]

/-- The hand is chosen first and last. -/
noncomputable def handArmHand : ControlledTree ℝ 3 :=
  ⟨ballArm, .ofFn ![Fin.last 2, (Fin.last 1).castSucc, Fin.last 2]⟩

/-- A hand that slides, and on the hand a finger that slides. -/
noncomputable def slidingHand : JointTree ℝ where
  joints := [⟨"hand", 0, .identity, .slide .x, -1, 1⟩, ⟨"finger", 1, .identity, .slide .x, -1, 1⟩]
  extraFrames := []

/-- The hand is chosen twice. -/
noncomputable def handTwice : ControlledTree ℝ 2 :=
  ⟨slidingHand, .ofFn fun _ => (Fin.last 0).castSucc⟩

/-- The hand slides along the first axis, wherever it is. -/
theorem twistBy_slidingHand (value : Nat → ℝ) :
    (slidingHand.branch value 1).twistBy 1 = ⟨⟨1, 0, 0⟩, 0⟩ := by
  rw [JointTree.branch_succ value (i := 0) rfl, Branch.twistBy]
  simp [Branch.grow, Articulation.screws, Articulation.move, Screw.twistAtRoot, Pose.identity,
    Mat3.one_def, Mat3.col]

end KinematicManifold
