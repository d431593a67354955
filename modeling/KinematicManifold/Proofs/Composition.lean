import KinematicManifold.Proofs.ReferenceFrame

/-!
# Forward kinematics is a composition

A joint leads from its parent link to its child link by two rigid motions: the origin at which it is
mounted, and the motion that its value makes in its own frame. The pose of a link is the composition
of these motions over the joints up to it, from the left to the right, and its homogeneous matrix is
the product of theirs.

The induction is over the links, from the base on: each link has two motions more than the one
before it.

## Key results

- `Pose.toMatrix_compose`, `Pose.toMatrix_foldl`: homogeneous matrices are multiplied
- `PoseDescription.build_homogeneous`: the homogeneous matrix of a pose describes the pose
- `Joint.move_eq_compose`: a joint moves by its origin and its motion
- `Chain.linkPose_eq_foldl`: a link stands where the motions up to it lead
- `Chain.linkState_congr`: joints beyond a link do not count
- `Chain.jacobian_get`: the columns of the Jacobian
- `Model.linkState_composes`: forward kinematics is the composition
-/

namespace KinematicManifold

open Matrix

variable {n : Nat}

/-! ## Homogeneous matrices -/

namespace Pose

/-- The homogeneous matrix of a pose, as a square matrix. -/
noncomputable def toMatrix (p : Pose ℝ) : Matrix (Fin 4) (Fin 4) ℝ :=
  .of fun i j => (p.toHomogeneous.get i).get j

/-- The matrix of a pose has the rotation and the position beside each other and a row of zeros and
a one below. -/
theorem toMatrix_eq (p : Pose ℝ) : p.toMatrix =
    !![p.rotation.xx, p.rotation.xy, p.rotation.xz, p.position.x;
      p.rotation.yx, p.rotation.yy, p.rotation.yz, p.position.y;
      p.rotation.zx, p.rotation.zy, p.rotation.zz, p.position.z;
      0, 0, 0, 1] := by
  ext i j
  fin_cases i <;> fin_cases j <;> rfl

/-- The matrix of the identity is the identity. -/
theorem toMatrix_identity : (identity : Pose ℝ).toMatrix = 1 := by
  rw [toMatrix_eq]
  ext i j
  fin_cases i <;> fin_cases j <;> simp [identity, Mat3.identity]

/-- The homogeneous matrix of a composition is the product. -/
theorem toMatrix_compose (a b : Pose ℝ) : (a.compose b).toMatrix = a.toMatrix * b.toMatrix := by
  rw [toMatrix_eq, toMatrix_eq, toMatrix_eq]
  ext i j
  fin_cases i <;> fin_cases j <;> simp [Matrix.mul_apply, Fin.sum_univ_four] <;> ring

/-- Motions composed one after the other multiply their matrices in that order. -/
theorem toMatrix_foldl (start : Pose ℝ) (motions : List (Pose ℝ)) :
    (motions.foldl compose start).toMatrix =
      start.toMatrix * (motions.map toMatrix).prod := by
  induction motions generalizing start with
  | nil => simp
  | cons motion rest ih =>
    rw [List.foldl_cons, ih, toMatrix_compose, List.map_cons, List.prod_cons, mul_assoc]

end Pose

/-- The rows of a homogeneous matrix, as it is given. -/
def Mat4.toNested {K : Type} (m : Mat4 K) : Nested K := .node (m.toList.map .ofConfiguration)

/-- The homogeneous matrix of a pose describes the pose. -/
theorem PoseDescription.build_homogeneous {K : Type} [Scalar K] (p : Pose K) :
    (homogeneous p.toHomogeneous.toNested).build = .ok p := rfl

/-! ## Joints -/

/-- The motion that a joint makes in its own frame: a turn about its axis, or a step along it. -/
def Joint.motion {K : Type} [Scalar K] (j : Joint K) (value : K) : Pose K :=
  match j.kind with
  | .revolute => ⟨0, Rotation.exp (j.direction.scale value)⟩
  | .prismatic => ⟨j.direction.scale value, Mat3.identity⟩

/-- A joint leads from its parent to its child by its origin and its motion. -/
theorem Joint.move_eq_compose (j : Joint ℝ) (parent : Pose ℝ) (value : ℝ) :
    j.move parent value = (parent.compose j.origin).compose (j.motion value) := by
  rw [move, motion, mount]
  cases j.kind with
  | revolute =>
    ext : 1
    · simp
    · rfl
  | prismatic =>
    ext : 1
    · simp [← Vec3.smul_def, Mat3.apply_smul]
    · simp

/-! ## Chains -/

namespace Chain

section
variable {K : Type} [Scalar K]

/-- The motions that lead from the base to a link: for each joint up to it the origin and the motion
that its value makes. -/
def motionsTo (c : Chain K n) (q : Vector K n) (link : Fin (n + 1)) : List (Pose K) :=
  ((List.finRange n).take link).flatMap fun i =>
    [(c.joints.get i).origin, (c.joints.get i).motion (q.get i)]

/-- The way to the next link goes on with the origin and the motion of the joint between. -/
theorem motionsTo_succ (c : Chain K n) (q : Vector K n) (i : Fin n) :
    c.motionsTo q i.succ = c.motionsTo q i.castSucc ++
      [(c.joints.get i).origin, (c.joints.get i).motion (q.get i)] := by
  have hlt : i.val < (List.finRange n).length := by simp
  rw [motionsTo, motionsTo, Fin.val_succ, List.take_succ_eq_append_getElem hlt,
    List.flatMap_append]
  simp

end

variable (c : Chain ℝ n)

/-- A link stands where the motions up to it lead, from the left to the right. -/
theorem linkPose_eq_foldl (q : Vector ℝ n) (link : Fin (n + 1)) :
    c.linkPose q link = (c.motionsTo q link).foldl Pose.compose .identity := by
  induction link using Fin.induction with
  | zero => rfl
  | succ i ih =>
    rw [linkPose_succ, motionsTo_succ, List.foldl_append, ← ih, Joint.move_eq_compose]
    rfl

variable {c} {q q' : Vector ℝ n} {link : Fin (n + 1)}

/-- The state of a link does not depend on the values of the joints beyond it. -/
theorem linkState_congr (h : ∀ i : Fin n, i.castSucc < link → q'.get i = q.get i) :
    c.linkState q' link = c.linkState q link := by
  have hjoints : c.jointsTo q' link = c.jointsTo q link := by
    induction link using Fin.induction with
    | zero => rfl
    | succ i ih =>
      have hbefore := ih fun j hj => h j (hj.trans i.castSucc_lt_succ)
      rw [jointsTo_succ, jointsTo_succ, hbefore, h i i.castSucc_lt_succ]
  rw [linkState, linkState, linkPose, linkPose, hjoints]

/-- The screws along a chain are those of its joints, in order. -/
theorem getElem?_screwsAlong (c : Chain ℝ n) (q : Vector ℝ n) (link : Fin (n + 1)) (i : Fin n) :
    (screwsAlong .identity (c.jointsTo q link))[i.val]? =
      if i.castSucc < link then some ((c.joints.get i).screw (c.linkPose q i.castSucc))
      else none := by
  induction link using Fin.induction with
  | zero => rw [if_neg (Fin.not_lt_zero _)]; rfl
  | succ k ih =>
    -- the screw of a joint is added where the chain goes on to its child
    have hlength : (screwsAlong .identity (c.jointsTo q k.castSucc)).length = k := by
      simp [jointsTo, k.isLt.le]
    rw [screwsAlong_jointsTo_succ]
    rcases lt_trichotomy i k with hlt | rfl | hgt
    · rw [List.getElem?_append_left (by omega), ih, if_pos (Fin.castSucc_lt_castSucc_iff.2 hlt),
        if_pos (Fin.castSucc_lt_succ_iff.2 hlt.le)]
    · rw [List.getElem?_append_right hlength.le, hlength, Nat.sub_self, if_pos i.castSucc_lt_succ]
      rfl
    · rw [if_neg fun h => hgt.not_ge (Fin.castSucc_lt_succ_iff.1 h), List.getElem?_eq_none]
      rw [List.length_append, List.length_singleton, hlength]
      exact hgt

/-- A column of the Jacobian is the twist of the screw of a joint; a joint beyond the link has a
column of zeros. -/
theorem jacobian_get (c : Chain ℝ n) (q : Vector ℝ n) (link : Fin (n + 1)) (i : Fin n) :
    (c.linkState q link).jacobian.get i =
      if i.castSucc < link then
        ((c.joints.get i).screw (c.linkPose q i.castSucc)).twistAt (c.linkPose q link).position
      else 0 := by
  have hcolumn : (c.linkState q link).jacobian.get i =
      ((screwsAlong .identity (c.jointsTo q link))[i.val]?).elim 0
        (·.twistAt (c.linkPose q link).position) := by
    simp [linkState, twistsAt]
  rw [hcolumn, getElem?_screwsAlong]
  split_ifs
  · rfl
  · rfl

/-- The base stands still at the origin. -/
theorem linkState_zero : c.linkState q 0 = ⟨.identity, .replicate n 0⟩ := by
  have hstill : twistsAt n (screwsAlong .identity (c.jointsTo q 0)) Pose.identity.position =
      .replicate n 0 := by
    apply Vector.ext
    intro i hi
    simp [twistsAt, jointsTo, screwsAlong]
  exact congrArg (LinkState.mk Pose.identity) hstill

/-- The base of a chain is its first link. -/
theorem link?_base {K : Type} (c : Chain K n) : c.link? c.base = some 0 := by
  have hfirst : c.linkNames.finIdxOf? c.base = some ⟨0, by simp [linkNames]⟩ := by
    rw [List.finIdxOf?_eq_some_iff]
    exact ⟨rfl, fun j hj => absurd hj (Nat.not_lt_zero j)⟩
  rw [link?, hfirst]
  rfl

end Chain

/-- The example chain has a hand. -/
theorem hand_mem_linkNames : "hand" ∈ turnThenSlide.linkNames := by
  simp [turnThenSlide, slideJoint, Chain.linkNames]

/-! ## Forward kinematics -/

/-- Forward kinematics of a chain answers with the state of the link that is found. -/
theorem Model.linkState_chain {c : Chain ℝ n} {name : String} {link : Fin (n + 1)}
    (hlink : c.link? name = some link) (q : Vector ℝ n) :
    (Model.chain c).linkState (.ofConfiguration q) name = .ok (c.linkState q link) := by
  have hmodel : (Model.chain c).link? name = some (.ofChain c link) := by
    rw [link?, hlink, Option.map_some]
  rw [linkState_of_link? hmodel, Link.state_ofChain]

/-- Forward kinematics of a chain answers for every link. -/
theorem Model.exists_linkState_chain {c : Chain ℝ n} {name : String} (hname : name ∈ c.linkNames)
    (q : Vector ℝ n) :
    ∃ state, (Model.chain c).linkState (.ofConfiguration q) name = .ok state := by
  obtain ⟨link, hlink⟩ := Chain.exists_link?_eq_some hname
  exact ⟨_, linkState_chain hlink q⟩

/-- Forward kinematics is the composition of rigid motions. The base stands at the origin. A link
that a joint carries stands where the origins and the motions of the joints up to it lead, composed
from the left to the right, and its homogeneous matrix is the product of theirs; it is placed by a
rotation if all origins are; and the joints beyond it have no influence on its pose or its Jacobian.
Composition is associative, the identity is its unit, and poses are read back from their homogeneous
matrices. -/
theorem Model.linkState_composes (c : Chain ℝ n) :
    ((∀ q : Vector ℝ n, (Model.chain c).linkState (.ofConfiguration q) c.base =
        .ok ⟨.identity, .replicate n 0⟩) ∧
      ∀ (i : Fin n) (q : Vector ℝ n), ∃ state,
        (Model.chain c).linkState (.ofConfiguration q) (c.joints.get i).childLink = .ok state ∧
        state.pose = (c.motionsTo q i.succ).foldl Pose.compose .identity ∧
        state.pose.toMatrix = ((c.motionsTo q i.succ).map Pose.toMatrix).prod ∧
        (c.IsRigid → state.pose.rotation.IsRotation) ∧
        ∀ q' : Vector ℝ n, (∀ j ≤ i, q'.get j = q.get j) →
          (Model.chain c).linkState (.ofConfiguration q') (c.joints.get i).childLink =
            .ok state) ∧
    (∀ p₁ p₂ p₃ : Pose ℝ, (p₁.compose p₂).compose p₃ = p₁.compose (p₂.compose p₃)) ∧
    ∀ p : Pose ℝ, Pose.identity.compose p = p ∧ p.compose .identity = p ∧
      (PoseDescription.homogeneous p.toHomogeneous.toNested).build = .ok p := by
  refine ⟨⟨fun q => ?_, fun i q => ?_⟩, Pose.compose_assoc, fun p => ?_⟩
  · -- the base stands still
    rw [linkState_chain c.link?_base, Chain.linkState_zero]
  · -- a child link is placed by the motions before it, of which its own is the last
    have hpose := c.linkPose_eq_foldl q i.succ
    refine ⟨c.linkState q i.succ, linkState_chain (c.link?_childLink i) q, hpose, ?_,
      fun hrigid => ?_, fun q' hsame => ?_⟩
    · rw [Chain.linkState_pose, hpose, Pose.toMatrix_foldl, Pose.toMatrix_identity, one_mul]
    · exact Chain.isRotation_linkPose hrigid q i.succ
    · rw [linkState_chain (c.link?_childLink i)]
      refine congrArg Except.ok (Chain.linkState_congr fun j hj => hsame j ?_)
      exact Fin.castSucc_lt_succ_iff.1 hj
  · exact ⟨p.identity_compose, p.compose_identity, PoseDescription.build_homogeneous p⟩

/-- The hand stands where the arm carries it and the slide moves it, and the arm does not notice the
slide. -/
theorem linkState_composes_hand :
    turnThenSlide.IsRigid ∧
    (∀ j : Fin 2, j ≤ 0 → (.ofFn ![0, 1] : Vector ℝ 2).get j = atRest.get j) ∧
    (∃ state, (Model.chain turnThenSlide).linkState (.ofConfiguration atRest) "hand" = .ok state ∧
      state.pose = (((Pose.identity.compose turnJoint.origin).compose (turnJoint.motion 0)).compose
        slideJoint.origin).compose (slideJoint.motion 0) ∧
      state.pose.rotation.IsRotation) ∧
    (Model.chain turnThenSlide).linkState (.ofConfiguration (.ofFn ![0, 1])) "arm" =
      (Model.chain turnThenSlide).linkState (.ofConfiguration atRest) "arm" := by
  -- the configurations differ in the slide alone, which is beyond the arm
  have hsame : ∀ j : Fin 2, j ≤ 0 → (.ofFn ![0, 1] : Vector ℝ 2).get j = atRest.get j := by
    intro j hj
    obtain rfl := Fin.le_zero_iff.1 hj
    rfl
  obtain ⟨⟨-, hlinks⟩, -⟩ := Model.linkState_composes turnThenSlide
  obtain ⟨hand, hhand, hpose, -, hrotation, -⟩ := hlinks 1 atRest
  obtain ⟨arm, harm, -, -, -, hbeyond⟩ := hlinks 0 atRest
  refine ⟨isRigid_turnThenSlide, hsame, ⟨hand, hhand, hpose, hrotation isRigid_turnThenSlide⟩, ?_⟩
  exact (hbeyond _ hsame).trans harm.symm

end KinematicManifold
