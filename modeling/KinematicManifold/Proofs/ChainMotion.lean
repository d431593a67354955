import KinematicManifold.Kinematics.Model
import KinematicManifold.Proofs.Motion
import KinematicManifold.Proofs.Reading

/-!
# Chains that move

The links of a chain move with its joint values. The twist of a link is the sum of the screws of the
joints up to it, each at the rate of its value, and the columns of the geometric Jacobian are these
screws, taken where the link stands. So the Jacobian is the derivative of the pose.

The induction is over the joints that are followed, from any frame that moves itself: the first
joint makes a frame that moves with one screw more, from which the others are followed.

## Key results

- `Pose.MovesAt.placeAlong`: following joints from a frame that moves
- `Chain.isRotation_linkPose`: a chain of rigid origins has rigid links
- `Chain.movesAt_linkPose`, `Chain.motion_apply`: how the links of a chain move
- `Model.hasDerivAt_linkState`: the geometric Jacobian is the derivative of the pose
-/

namespace KinematicManifold

open Rotation

/-! ## Following joints keeps rotations -/

/-- A joint moves a rigid frame to a rigid frame. -/
theorem isRotation_move {j : Joint ℝ} {start : Pose ℝ} (value : ℝ)
    (hstart : start.rotation.IsRotation) (horigin : j.origin.rotation.IsRotation) :
    (j.move start value).rotation.IsRotation := by
  have hmount : (j.mount start).rotation.IsRotation := hstart.mul horigin
  unfold Joint.move
  cases j.kind with
  | revolute => exact hmount.mul (isRotation_exp _)
  | prismatic => exact hmount

/-- Joints with rigid origins place frames rigidly. -/
theorem isRotation_placeAlong {joints : List (Joint ℝ × ℝ)} {start : Pose ℝ}
    (hstart : start.rotation.IsRotation)
    (horigin : ∀ entry ∈ joints, entry.1.origin.rotation.IsRotation) :
    (placeAlong start joints).rotation.IsRotation := by
  induction joints generalizing start with
  | nil => exact hstart
  | cons head rest ih =>
    rw [List.forall_mem_cons] at horigin
    exact ih (isRotation_move head.2 hstart horigin.1) horigin.2

/-! ## The motion along a list of joints -/

section
variable {n : Nat} (joint : Fin n → Joint ℝ)

/-- Some of the joints, each with its value. -/
def valuesAt (x : Fin n → ℝ) (indices : List (Fin n)) : List (Joint ℝ × ℝ) :=
  indices.map fun i => (joint i, x i)

/-- The motion of what is carried when some of the joints are followed from a frame: the sum of
their screws, each at the rate of its value. -/
noncomputable def motionAlong (start : Pose ℝ) (x : Fin n → ℝ) :
    List (Fin n) → (Fin n → ℝ) →ₗ[ℝ] Twist ℝ
  | [] => 0
  | i :: rest => (LinearMap.proj i).smulRight (((joint i).screw start).twistAt 0) +
      motionAlong ((joint i).move start (x i)) x rest

/-- What is carried along joints that are followed from a frame that moves. -/
theorem Pose.MovesAt.placeAlong (horigin : ∀ i, (joint i).origin.rotation.IsRotation)
    {pose : (Fin n → ℝ) → Pose ℝ} {x : Fin n → ℝ} {motion : (Fin n → ℝ) →ₗ[ℝ] Twist ℝ}
    (h : MovesAt pose x motion) (hrotation : (pose x).rotation.IsRotation)
    (indices : List (Fin n)) :
    MovesAt (fun y => KinematicManifold.placeAlong (pose y) (valuesAt joint y indices)) x
      (motion + motionAlong joint (pose x) x indices) := by
  induction indices generalizing pose motion with
  | nil => simpa [motionAlong, valuesAt, KinematicManifold.placeAlong] using h
  | cons i rest ih =>
    -- the rest is followed from the frame behind the first joint, which moves in turn
    have hvalue : HasFDerivAt (fun y : Fin n → ℝ => y i) (ContinuousLinearMap.proj i) x :=
      (ContinuousLinearMap.proj (R := ℝ) (φ := fun _ : Fin n => ℝ) i).hasFDerivAt
    have hmove := h.move hvalue (joint i) hrotation (horigin i)
    have key := ih hmove (isRotation_move _ hrotation (horigin i))
    rw [motionAlong, ← add_assoc]
    exact key

/-- The motion along a way adds up the screws on it, each at the speed of its joint. -/
theorem motionAlong_apply (start : Pose ℝ) (x ξ : Fin n → ℝ) (indices : List (Fin n)) :
    motionAlong joint start x indices ξ =
      ((indices.zip (screwsAlong start (valuesAt joint x indices))).map fun entry =>
        ξ entry.1 • entry.2.twistAt 0).sum := by
  induction indices generalizing start with
  | nil => rfl
  | cons i rest ih =>
    simp only [motionAlong, LinearMap.add_apply, ih]
    rfl

/-- The entries of a list, numbered from zero: what lies beyond its end counts nothing. -/
theorem sum_zip_finRange {α M : Type*} [AddCommMonoid M] (l : List α) {n : Nat}
    (f : Fin n → α → M) :
    (((List.finRange n).zip l).map fun entry => f entry.1 entry.2).sum =
      ∑ i, (l[i.val]?).elim 0 (f i) := by
  induction n generalizing l with
  | zero => simp
  | succ n ih =>
    cases l with
    | nil => simp
    | cons a rest =>
      -- the first entry has the index zero, and the others follow with their indices shifted
      rw [Fin.sum_univ_succ, List.finRange_succ, List.zip_cons_cons, List.zip_map_left,
        List.map_cons, List.sum_cons, List.map_map]
      exact congrArg (f 0 a + ·) (ih rest fun i => f i.succ)

end

/-! ## The links of a chain -/

/-- A configuration is known by its entries. -/
theorem ofFn_get {K : Type} {n : Nat} (q : Vector K n) : Vector.ofFn q.get = q :=
  Vector.ofFn_getElem

namespace Chain

variable {n : Nat}

/-- Every joint frame is placed by a rotation, not by any other matrix. -/
def IsRigid (c : Chain ℝ n) : Prop := ∀ i, (c.joints.get i).origin.rotation.IsRotation

variable (c : Chain ℝ n) (x : Fin n → ℝ) (link : Fin (n + 1))

/-- The joints on the way to a link, with their values, are the first joints of the chain. -/
theorem jointsTo_ofFn : c.jointsTo (Vector.ofFn x) link =
    valuesAt c.joints.get x ((List.finRange n).take link) := by
  have hall : (c.joints.zip (Vector.ofFn x)).toList =
      (List.finRange n).map fun i => (c.joints.get i, x i) := by
    apply List.ext_getElem
    · simp
    · intro i hi hi'
      simp [Vector.get_eq_getElem]
  -- taking the joints up to the link may as well be done before they get their values
  rw [jointsTo, valuesAt, hall, List.map_take]

/-- The links of a chain of rigid origins are placed by rotations. -/
theorem isRotation_linkPose {c : Chain ℝ n} (h : c.IsRigid) (q : Vector ℝ n)
    (link : Fin (n + 1)) : (c.linkPose q link).rotation.IsRotation := by
  rw [← ofFn_get q, linkPose, jointsTo_ofFn]
  apply isRotation_placeAlong Mat3.IsRotation.one
  simp only [valuesAt, List.mem_map]
  rintro entry ⟨i, -, rfl⟩
  exact h i

/-- The motion of a link, as a linear map of the velocity of the configuration. -/
noncomputable def motion : (Fin n → ℝ) →ₗ[ℝ] Twist ℝ :=
  motionAlong c.joints.get .identity x ((List.finRange n).take link)

/-- The pose of every link moves along the screws of the joints before it. -/
theorem movesAt_linkPose {c : Chain ℝ n} (h : c.IsRigid) (x : Fin n → ℝ) (link : Fin (n + 1)) :
    Pose.MovesAt (fun y => c.linkPose (Vector.ofFn y) link) x (c.motion x link) := by
  have key := (Pose.MovesAt.const Pose.identity x).placeAlong c.joints.get h
    Mat3.IsRotation.one ((List.finRange n).take link)
  simp only [linkPose, jointsTo_ofFn]
  rwa [zero_add] at key

/-- The columns of the geometric Jacobian are the screws of the motion, taken where the link
stands. -/
theorem motion_apply (ξ : Fin n → ℝ) :
    (c.motion x link ξ).movedTo (c.linkPose (Vector.ofFn x) link).position =
      ∑ i, ξ i • (c.linkState (Vector.ofFn x) link).jacobian.get i := by
  have hlength : (screwsAlong .identity (c.jointsTo (Vector.ofFn x) link)).length ≤ link := by
    simp [jointsTo]
  rw [motion, motionAlong_apply, ← jointsTo_ofFn]
  generalize hscrews : screwsAlong .identity (c.jointsTo (Vector.ofFn x) link) = screws at hlength
  -- there are no screws beyond the link, so that all joints may be counted
  have hzip : ((List.finRange n).take link).zip screws = (List.finRange n).zip screws := by
    calc ((List.finRange n).take link).zip screws
        = ((List.finRange n).take link).zip (screws.take link) := by
          rw [List.take_of_length_le hlength]
      _ = ((List.finRange n).zip screws).take link := by simp only [List.zip, List.take_zipWith]
      _ = (List.finRange n).zip screws := by
          refine List.take_of_length_le ?_
          rw [List.length_zip]
          exact (min_le_right _ _).trans hlength
  have hsum := sum_zip_finRange screws fun i s => ξ i • s.twistAt 0
  rw [hzip, hsum, ← Twist.moving_apply, map_sum]
  refine Finset.sum_congr rfl fun i _ => ?_
  have hcolumn : (c.linkState (Vector.ofFn x) link).jacobian.get i =
      (screws[i.val]?).elim 0 (·.twistAt (c.linkPose (Vector.ofFn x) link).position) := by
    simp [linkState, twistsAt, hscrews]
  rw [hcolumn]
  -- a joint beyond the link has no screw and a column of zeros
  cases screws[i.val]? with
  | none => simp
  | some screw => simp [Screw.movedTo_twistAt]

/-- The velocity of a point of a link, by the columns of the geometric Jacobian. -/
theorem velocityMap_motion (ξ : Fin n → ℝ) (r : Vec3 ℝ) :
    Twist.velocityMap ((c.linkPose (Vector.ofFn x) link).position + r) (c.motion x link ξ) =
      ∑ i, ξ i • ((c.linkState (Vector.ofFn x) link).jacobian.get i).velocityAt r := by
  rw [Twist.velocityMap_apply, ← Twist.velocityAt_movedTo, motion_apply, Twist.velocityAt_eq,
    map_sum]
  simp only [map_smul, Twist.velocityAt_eq]

/-- The angular velocity of a link, by the columns of the geometric Jacobian. -/
theorem angularMap_motion (ξ : Fin n → ℝ) :
    Twist.angularMap (c.motion x link ξ) =
      ∑ i, ξ i • ((c.linkState (Vector.ofFn x) link).jacobian.get i).angular := by
  have hmotion := congrArg Twist.angularMap (c.motion_apply x link ξ)
  rw [map_sum] at hmotion
  exact hmotion

/-- The velocity of a link while a single joint moves is a column of the geometric Jacobian. -/
theorem motion_single (i : Fin n) :
    (c.motion x link (Pi.single i 1)).movedTo (c.linkPose (Vector.ofFn x) link).position =
      (c.linkState (Vector.ofFn x) link).jacobian.get i := by
  rw [motion_apply, Finset.sum_eq_single i]
  · rw [Pi.single_eq_same, one_smul]
  · intro j _ hj
    rw [Pi.single_eq_of_ne hj, zero_smul]
  · intro hi
    exact absurd (Finset.mem_univ i) hi

/-- The geometric Jacobian is the derivative of the pose, joint by joint. -/
theorem hasDerivAt_linkPose {c : Chain ℝ n} (h : c.IsRigid) (q : Vector ℝ n) (link : Fin (n + 1))
    (i : Fin n) :
    HasDerivAt (fun t => (c.linkPose (.ofFn (Function.update q.get i t)) link).position)
        ((c.linkState q link).jacobian.get i).linear (q.get i) ∧
      HasDerivAt (fun t => (c.linkPose (.ofFn (Function.update q.get i t)) link).rotation)
        (skew ((c.linkState q link).jacobian.get i).angular * (c.linkPose q link).rotation)
        (q.get i) := by
  have hderiv := (movesAt_linkPose h q.get link).hasDerivAt_single i
  have hcolumn := c.motion_single q.get link i
  have hangular := congrArg Twist.angular hcolumn
  rw [Twist.movedTo_angular] at hangular
  rw [hcolumn, hangular] at hderiv
  simpa only [ofFn_get] using hderiv

/-- A name of a link is found. -/
theorem exists_link?_eq_some {K : Type} {c : Chain K n} {name : String} (h : name ∈ c.linkNames) :
    ∃ link, c.link? name = some link := by
  have hsome : (c.linkNames.finIdxOf? name).isSome := by simpa using h
  obtain ⟨i, hi⟩ := Option.isSome_iff_exists.1 hsome
  exact ⟨_, by rw [link?, hi, Option.map_some]⟩

end Chain

/-! ## A chain of two joints -/

/-- A joint that turns about the vertical. -/
noncomputable def turnJoint : Joint ℝ where
  name := "turn"
  childLink := "arm"
  origin := ⟨⟨0, 0, 1⟩, 1⟩
  axis := ⟨0, 0, 1⟩
  lower := -1
  upper := 1
  kind := .revolute

/-- A joint that slides, in a frame that is turned by a quarter. -/
noncomputable def slideJoint : Joint ℝ where
  name := "slide"
  childLink := "hand"
  origin := ⟨⟨1, 0, 0⟩, ⟨1, 0, 0, 0, 0, -1, 0, 1, 0⟩⟩
  axis := ⟨0, 0, 1⟩
  lower := -1
  upper := 1
  kind := .prismatic

/-- The second joint slides on the arm that the first one turns. -/
noncomputable def turnThenSlide : Chain ℝ 2 where
  base := "base"
  joints := .ofFn ![turnJoint, slideJoint]
  joints_pos := Nat.zero_lt_two
  linkNames_nodup := by decide

/-- The example chain is rigid. -/
theorem isRigid_turnThenSlide : turnThenSlide.IsRigid := by
  have hturn : turnJoint.origin.rotation.IsRotation := Mat3.IsRotation.one
  have hslide : slideJoint.origin.rotation.IsRotation := by
    -- the slide is mounted a quarter turn away
    refine ⟨⟨?_, ?_⟩, ?_⟩
    · ext <;> simp [slideJoint, Mat3.transpose, Mat3.one_def]
    · ext <;> simp [slideJoint, Mat3.transpose, Mat3.one_def]
    · simp [slideJoint, Mat3.det_eq]
  intro i
  fin_cases i
  · exact hturn
  · exact hslide

/-! ## Forward kinematics -/

/-- Forward kinematics of a chain with rigid origins answers for every link and every configuration,
and the geometric Jacobian that it gives is the derivative of the pose that it gives: the linear
part of each column is the partial derivative of the position, and the angular part is the angular
velocity of the rotation. -/
theorem Model.hasDerivAt_linkState {n : Nat} {c : Chain ℝ n} (hrigid : c.IsRigid) {name : String}
    (hname : name ∈ c.linkNames) :
    ∃ state : Vector ℝ n → LinkState ℝ n,
      (∀ q, (Model.chain c).linkState (.ofConfiguration q) name = .ok (state q)) ∧
      ∀ q (i : Fin n),
        HasDerivAt (fun t => (state (.ofFn (Function.update q.get i t))).pose.position)
          ((state q).jacobian.get i).linear (q.get i) ∧
        HasDerivAt (fun t => (state (.ofFn (Function.update q.get i t))).pose.rotation)
          (skew ((state q).jacobian.get i).angular * (state q).pose.rotation) (q.get i) := by
  obtain ⟨link, hlink⟩ := Chain.exists_link?_eq_some hname
  refine ⟨fun q => c.linkState q link, fun q => ?_, fun q i => ?_⟩
  · simp only [Model.linkState, Model.link?, hlink, Option.map_some,
      Nested.toTensor_ofConfiguration, bind, Except.bind, Tensor.toConfiguration_ofConfiguration,
      Link.state_ofChain]
  · exact Chain.hasDerivAt_linkPose hrigid q link i

/-- The hand of a chain that turns and slides. -/
theorem hasDerivAt_linkState_hand :
    turnThenSlide.IsRigid ∧ "hand" ∈ turnThenSlide.linkNames ∧
    ∃ state : Vector ℝ 2 → LinkState ℝ 2,
      (∀ q, (Model.chain turnThenSlide).linkState (.ofConfiguration q) "hand" = .ok (state q)) ∧
      ∀ q (i : Fin 2),
        HasDerivAt (fun t => (state (.ofFn (Function.update q.get i t))).pose.position)
          ((state q).jacobian.get i).linear (q.get i) ∧
        HasDerivAt (fun t => (state (.ofFn (Function.update q.get i t))).pose.rotation)
          (skew ((state q).jacobian.get i).angular * (state q).pose.rotation) (q.get i) := by
  have hname : "hand" ∈ turnThenSlide.linkNames := by
    simp [turnThenSlide, slideJoint, Chain.linkNames]
  exact ⟨isRigid_turnThenSlide, hname, Model.hasDerivAt_linkState isRigid_turnThenSlide hname⟩

end KinematicManifold
