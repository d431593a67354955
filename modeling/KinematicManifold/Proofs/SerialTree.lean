import KinematicManifold.Proofs.Nesting
import KinematicManifold.Proofs.Plans
import KinematicManifold.Proofs.TreeMotion

/-!
# Trees that are chains

When every joint of a tree but the first is carried by the one before it, and moves like the joint
of a chain in the same place, the tree is the chain. Its branches run along the chain, and the twist
of each joint is that of the screw of the chain. So each frame that stands for a link has the state
of the link, and what is built on the two models asks for the same. A single joint is the exception:
the frames of the tree then have no state, since it has a single velocity, and the links of the
chain have one.

The induction is over the joints, from the root on: the branch of a joint is that of the joint
before it, and one joint more.

## Key results

- `Chain.norm_axis_pos`: the axis of an accepted joint has a direction
- `ControlledTree.exists_control_of_single`: all joints of a tree, in order
- `JointTree.IsSerial.branch_pose`, `JointTree.IsSerial.branch_twistBy`: a branch runs along the
  chain
- `JointTree.IsSerial.frameMotion_eq`: frames stand and move as links do
- `Model.serial_agrees`: forward kinematics and constraints agree
- `not_forall_serial_agrees`: they do not for a single joint
-/

namespace KinematicManifold

/-! ## Accepted chains -/

/-- The norm of an array of three numbers is that of the vector they make. -/
theorem Tensor.norm_of_data {t : Tensor ℝ} {x y z : ℝ} (h : t.data = [x, y, z]) :
    t.norm = ‖(⟨x, y, z⟩ : Vec3 ℝ)‖ := by
  rw [norm, h, Vec3.norm_eq, Vec3.norm, Vec3.dot]
  simp [Scalar.square_eq, sq, add_assoc]

/-- A vector that is not too short is an axis. -/
theorem readAxis_ofList {K : Type} [Scalar K] (joint : String) {x y z : K}
    (h : ¬(Tensor.ofList [x, y, z]).norm < shortestAxis) :
    readAxis joint (.ofList [x, y, z]) = .ok (.ofList [x, y, z]) := by
  have hread : (Nested.node ([x, y, z].map .leaf)).toTensor = .ok (.ofList [x, y, z]) :=
    Nested.toTensor_ofList _
  rw [Nested.ofList, readAxis, if_neg (by simp), hread]
  simp only [bind, Except.bind, if_neg h]

/-- An accepted axis has a direction. -/
theorem JointDescription.norm_axis_pos {d : JointDescription ℝ} {spec : JointSpec ℝ}
    (hspec : d.build = .ok spec) {j : Joint ℝ} (hjoint : spec.joint? = some j) : 0 < ‖j.axis‖ := by
  have hlong := not_lt.1 (not_norm_lt_of_readAxis (readAxis_of_build hspec))
  have hpos : (0 : ℝ) < shortestAxis := by norm_num [shortestAxis]
  unfold JointSpec.joint? at hjoint
  -- only an axis of three plain numbers makes a joint
  split at hjoint
  · next x y z _ hdata =>
    cases hjoint
    rw [Tensor.norm_of_data hdata] at hlong
    exact hpos.trans_le hlong
  · cases hjoint

namespace Chain

variable {n : Nat}

/-- The axes of a chain of accepted joints have directions. -/
theorem norm_axis_pos {descriptions : List (JointDescription ℝ)} {specs : List (JointSpec ℝ)}
    (hspecs : descriptions.mapM (·.build) = .ok specs) {base : String} {c : Chain ℝ n}
    (hchain : Model.ofJoints base specs = .ok ⟨n, .chain c⟩) (i : Fin n) :
    0 < ‖(c.joints.get i).axis‖ := by
  have hmem : c.joints.get i ∈ c.joints.toList := by
    simp [Vector.get_eq_getElem]
  obtain ⟨d, spec, hbuild, hjoint⟩ := JointDescription.exists_of_mem_joints hspecs hchain hmem
  exact JointDescription.norm_axis_pos hbuild hjoint

/-- The link that a joint carries is found. -/
theorem link?_childLink {K : Type} (c : Chain K n) (i : Fin n) :
    c.link? (c.joints.get i).childLink = some i.succ := by
  have hlt : i.val + 1 < c.linkNames.length := by
    rw [c.length_linkNames]
    omega
  have hname : c.linkNames[i.val + 1] = (c.joints.get i).childLink := by
    simp [linkNames, Vector.get_eq_getElem]
  have hfound : c.linkNames.finIdxOf? (c.joints.get i).childLink = some ⟨i.val + 1, hlt⟩ := by
    rw [List.finIdxOf?_eq_some_iff]
    refine ⟨hname, fun j hj hsame => ?_⟩
    -- no earlier link has the name, as names differ
    have heq := (c.linkNames_nodup.getElem_inj_iff).1 (hsame.trans hname.symm)
    exact absurd heq (Fin.val_ne_of_ne hj.ne)
  rw [link?, hfound]
  rfl

variable (c : Chain ℝ n) (q : Vector ℝ n) (i : Fin n)

/-- A link is reached from the one before it by one joint more. -/
theorem jointsTo_succ :
    c.jointsTo q i.succ = c.jointsTo q i.castSucc ++ [(c.joints.get i, q.get i)] := by
  have hlt : i.val < (c.joints.zip q).toList.length := by simp
  rw [jointsTo, jointsTo, Fin.val_succ, List.take_succ_eq_append_getElem hlt]
  simp [Vector.get_eq_getElem]

/-- A link is placed by its joint, from where the link before it is. -/
theorem linkPose_succ :
    c.linkPose q i.succ = (c.joints.get i).move (c.linkPose q i.castSucc) (q.get i) := by
  rw [linkPose, jointsTo_succ, placeAlong_append]
  rfl

/-- On the way to the next link there is one screw more, that of the joint between. -/
theorem screwsAlong_jointsTo_succ : screwsAlong .identity (c.jointsTo q i.succ) =
    screwsAlong .identity (c.jointsTo q i.castSucc) ++
      [(c.joints.get i).screw (c.linkPose q i.castSucc)] := by
  rw [jointsTo_succ, screwsAlong_append]
  rfl

end Chain

/-! ## Controlling all joints -/

namespace ControlledTree

variable {K : Type} {n : Nat}

/-- A tree whose joints all have a single coordinate and velocity is controlled through all of them,
in their order. -/
theorem exists_control_of_single {t : JointTree K} (hlength : t.joints.length = n)
    (hsingle : ∀ joint ∈ t.joints, joint.articulation.coordinates = 1 ∧
      joint.articulation.velocities = 1) :
    ∃ p : ControlledTree K n, control t none = .ok ⟨n, p⟩ ∧ p.tree = t ∧
      ∀ i, (p.controlled.get i).val = i.val := by
  obtain rfl : n = (List.finRange t.joints.length).length := by simp [hlength]
  refine ⟨⟨t, ⟨(List.finRange t.joints.length).toArray, by simp⟩⟩, ?_, rfl, fun i => ?_⟩
  · have hchecked : ((List.finRange t.joints.length).forM fun i => checkSingle t.joints[i]) =
        .ok () :=
      forM_eq_ok_iff.2 fun i _ => checkSingle_eq_ok_iff.2 (hsingle _ (List.getElem_mem _))
    exact bind_eq_ok_iff.2 ⟨_, rfl, bind_eq_ok_iff.2 ⟨(), hchecked, rfl⟩⟩
  · simp [Vector.get_eq_getElem]

/-- When the joints are chosen in order, each has its own value. -/
theorem valueAt_state_of_own [Scalar K] {p : ControlledTree K n}
    (hown : ∀ i, (p.controlled.get i).val = i.val) (hlength : p.tree.joints.length = n)
    (q : Vector K n) (i : Fin n) : p.tree.valueAt (p.state q) (i.val + 1) = q.get i := by
  have hlast : p.lastChoice i.val = some i := by
    rw [lastChoice_eq_some_iff]
    refine ⟨hown i, fun later hlater hsame => ?_⟩
    have hval := congrArg Fin.val hsame
    rw [hown, hown] at hval
    exact absurd (Fin.ext hval) hlater.ne'
  rw [valueAt_state _ _ (by omega), hlast]
  rfl

end ControlledTree

/-! ## Serial trees -/

/-- Every joint of a tree but the first is carried by the one before it, and each moves like the
joint of a chain in the same place. -/
structure JointTree.IsSerial {n : Nat} (t : JointTree ℝ) (c : Chain ℝ n) : Prop where
  length_eq : t.joints.length = n
  parent_eq : ∀ (i : Nat) (joint : TreeJoint ℝ), t.joints[i]? = some joint → joint.parent = i
  matches_get : ∀ (i : Fin n) (joint : TreeJoint ℝ), t.joints[i.val]? = some joint →
    joint.Matches (c.joints.get i)

namespace JointTree.IsSerial

variable {n : Nat} {t : JointTree ℝ} {c : Chain ℝ n} (h : t.IsSerial c) (hrigid : c.IsRigid)
  (haxis : ∀ i, 0 < ‖(c.joints.get i).axis‖)

include h in
/-- Every joint of a serial tree has a single coordinate and a single velocity. -/
theorem isSingle : ∀ joint ∈ t.joints, joint.articulation.coordinates = 1 ∧
    joint.articulation.velocities = 1 := by
  intro joint hjoint
  obtain ⟨i, hi⟩ := List.mem_iff_getElem?.1 hjoint
  have hlt : i < n := by
    rw [← h.length_eq]
    exact (List.getElem?_eq_some_iff.1 hi).1
  have hway := (h.matches_get ⟨i, hlt⟩ joint hi).way?_eq
  -- joints of other forms have no single way to go
  cases hform : joint.articulation with
  | turn _ | slide _ | along _ _ => exact ⟨rfl, rfl⟩
  | continuous _ | compound _ _ _ _ =>
    rw [hform] at hway
    cases hway

include h in
/-- A serial tree has one velocity for each joint of the chain. -/
theorem velocityCount_eq : t.velocityCount = n := by
  have hone : t.joints.map (·.articulation.velocities) = t.joints.map fun _ => 1 :=
    List.map_congr_left fun joint hjoint => (h.isSingle joint hjoint).2
  rw [velocityCount, total_eq_sum, hone]
  simpa using h.length_eq

section
variable {value : Nat → ℝ} {q : Vector ℝ n} (hvalue : ∀ i : Fin n, value (i.val + 1) = q.get i)
include h hrigid haxis hvalue

/-- A joint at the end of the branch of the joint before it. -/
private theorem branch_step (i : Fin n)
    (hpose : (t.branch value i.val).pose = c.linkPose q i.castSucc) :
    (t.branch value (i.val + 1)).pose = (c.joints.get i).move (c.linkPose q i.castSucc) (q.get i) ∧
      ∃ screw : Screw ℝ, (t.branch value (i.val + 1)).screws =
        (i.val + 1, [screw]) :: (t.branch value i.val).screws ∧
        screw.twistAtRoot = ((c.joints.get i).screw (c.linkPose q i.castSucc)).twistAt 0 := by
  have hlt : i.val < t.joints.length := by
    rw [h.length_eq]
    exact i.isLt
  have hjoint := List.getElem?_eq_getElem hlt
  have hparent := h.parent_eq i.val _ hjoint
  have hmatch := h.matches_get i _ hjoint
  have hunit : ‖(c.joints.get i).direction‖ = 1 := Vec3.norm_unit (haxis i)
  -- the first joint starts from the root, which does not move
  have hroot : t.joints[i.val].parent = 0 → (t.branch value i.val).pose = .identity := by
    intro hzero
    rw [hparent] at hzero
    rw [hzero, branch_zero]
    rfl
  rw [branch_succ value hjoint, if_pos hparent.le, hparent, ← hvalue i, ← hpose]
  exact ⟨hmatch.grow_pose hunit (hrigid i) hroot _ _, hmatch.grow_screws hunit (hrigid i) hroot _ _⟩

/-- The branch of a joint leads to the link that the joint of the chain carries. -/
theorem branch_pose (link : Fin (n + 1)) : (t.branch value link.val).pose = c.linkPose q link := by
  induction link using Fin.induction with
  | zero =>
    rw [Fin.val_zero, branch_zero]
    rfl
  | succ i ih =>
    rw [Chain.linkPose_succ]
    exact (branch_step h hrigid haxis hvalue i ih).1

/-- The twists on a branch are those of the screws along the chain. -/
theorem branch_twistBy (link : Fin (n + 1)) (i : Fin n) :
    (t.branch value link.val).twistBy (i.val + 1) =
      ((screwsAlong .identity (c.jointsTo q link))[i.val]?).elim 0 (·.twistAt 0) := by
  induction link using Fin.induction with
  | zero =>
    rw [Fin.val_zero, branch_zero]
    rfl
  | succ k ih =>
    obtain ⟨-, screw, hscrews, htwist⟩ := branch_step h hrigid haxis hvalue k
      (branch_pose h hrigid haxis hvalue k.castSucc)
    have hlength : (screwsAlong .identity (c.jointsTo q k.castSucc)).length = k.val := by
      simp [Chain.jointsTo]
    rw [Fin.val_succ, Branch.twistBy_of_screws hscrews, Chain.screwsAlong_jointsTo_succ]
    by_cases hik : i = k
    · subst hik
      rw [if_pos rfl, List.getElem?_append_right hlength.le, hlength, Nat.sub_self]
      simpa using htwist
    · have hne : i.val ≠ k.val := fun heq => hik (Fin.ext heq)
      rw [if_neg (by omega), ← Fin.val_castSucc, ih]
      -- the last screw is that of another joint
      rcases lt_or_gt_of_ne hne with hlt | hgt
      · rw [List.getElem?_append_left (by omega)]
      · rw [List.getElem?_eq_none (by omega), List.getElem?_eq_none]
        rw [List.length_append, hlength, List.length_singleton]
        omega

end

/-- A frame that stands where a link does stands and moves as the link. -/
theorem frameMotion_eq {p : ControlledTree ℝ n} {c : Chain ℝ n} (h : p.tree.IsSerial c)
    (hrigid : c.IsRigid) (haxis : ∀ i, 0 < ‖(c.joints.get i).axis‖)
    (hown : ∀ i, (p.controlled.get i).val = i.val) {frame : TreeFrame ℝ} {link : Fin (n + 1)}
    (hparent : frame.parent = link.val) (hplacement : frame.placement = .identity)
    (q : Vector ℝ n) : p.frameMotion q frame = c.linkState q link := by
  -- each joint has the entry of its own number for its value
  have hvalue (i : Fin n) : p.tree.valueAt (p.state q) (i.val + 1) = q.get i :=
    ControlledTree.valueAt_state_of_own hown h.length_eq q i
  have hpose : p.tree.framePose (p.state q) frame = c.linkPose q link := by
    rw [framePose, branchOf, hparent, hplacement, Pose.compose_identity,
      branch_pose h hrigid haxis hvalue]
  have hsingle : p.IsSingle := fun i => h.isSingle _ (List.getElem_mem _)
  have hjacobian : (p.frameMotion q frame).jacobian = (c.linkState q link).jacobian := by
    apply Vector.ext
    intro i hi
    have hcolumn := ControlledTree.jacobian_get hsingle q frame ⟨i, hi⟩
    rw [hown, branchOf, hparent, branch_twistBy h hrigid haxis hvalue link ⟨i, hi⟩, hpose]
      at hcolumn
    rw [Vector.get_eq_getElem] at hcolumn
    -- a joint beyond the link has a column of zeros in both
    rw [hcolumn]
    simp only [Chain.linkState, twistsAt, Vector.getElem_ofFn]
    cases (screwsAlong .identity (c.jointsTo q link))[i]? with
    | none => exact Twist.zero_movedTo _
    | some screw => exact screw.movedTo_twistAt _
  calc p.frameMotion q frame
      = ⟨p.tree.framePose (p.state q) frame, (p.frameMotion q frame).jacobian⟩ := rfl
    _ = c.linkState q link := by
      rw [hpose, hjacobian]
      rfl

end JointTree.IsSerial

/-! ## Models that agree -/

/-- A frame of a tree and a link of a chain stand for the same: the frame stands where the joint
does that carries the link. -/
def JointTree.StandsFor {n : Nat} (t : JointTree ℝ) (c : Chain ℝ n) (frame link : String) : Prop :=
  ∃ f l, t.frame? frame = some f ∧ c.link? link = some l ∧ f.parent = l.val ∧
    f.placement = .identity

/-- The joints of a tree have the limits of those of a chain. -/
def JointTree.HasLimitsOf {n : Nat} (t : JointTree ℝ) (c : Chain ℝ n) : Prop :=
  ∀ (i : Fin n) (joint : TreeJoint ℝ), t.joints[i.val]? = some joint →
    joint.lower = (c.joints.get i).lower ∧ joint.upper = (c.joints.get i).upper

/-- Where no two names are the same, the frame of a joint is found under its name. -/
theorem JointTree.frame?_joint {K : Type} [Scalar K] {t : JointTree K}
    (hnames : (rootName :: t.joints.map (·.name)).Nodup) {i : Nat} {joint : TreeJoint K}
    (hjoint : t.joints[i]? = some joint) :
    t.frame? joint.name = some ⟨joint.name, i + 1, .identity⟩ := by
  obtain ⟨hi, rfl⟩ := List.getElem?_eq_some_iff.1 hjoint
  rw [List.nodup_cons] at hnames
  have hroot : ¬rootName = t.joints[i].name := by
    intro hsame
    rw [hsame] at hnames
    exact hnames.1 (List.mem_map_of_mem (List.getElem_mem hi))
  have hlt : i + 1 < t.frames.length := by
    simp only [frames, List.length_append, List.length_cons, List.length_mapIdx]
    omega
  rw [frame?, List.find?_eq_some_iff_getElem]
  refine ⟨by simp, i + 1, hlt, by simp [frames, hi], fun j hj => ?_⟩
  cases j with
  | zero => simp [frames, hroot]
  | succ k =>
    -- the frames before it are those of other joints
    have hk : k < i := by omega
    have hother := List.pairwise_iff_getElem.1 hnames.2 k i (by simpa using hk.trans hi)
      (by simpa using hi) hk
    simp only [List.getElem_map] at hother
    simp [frames, hk.trans hi, hother]

/-- Where no two names are the same, the frame of a joint stands for the link of the chain. -/
theorem JointTree.standsFor_joint {n : Nat} {t : JointTree ℝ} {c : Chain ℝ n}
    (hnames : (rootName :: t.joints.map (·.name)).Nodup) (i : Fin n) {joint : TreeJoint ℝ}
    (hjoint : t.joints[i.val]? = some joint) :
    t.StandsFor c joint.name (c.joints.get i).childLink :=
  ⟨_, i.succ, JointTree.frame?_joint hnames hjoint, c.link?_childLink i, rfl, rfl⟩

namespace ControlledTree

variable {n : Nat} {p : ControlledTree ℝ n} {c : Chain ℝ n}

/-- A limit that is read for every joint in order is the one that the joints of the chain have. -/
theorem map_coordinateLimits (hown : ∀ i, (p.controlled.get i).val = i.val)
    (hlength : p.tree.joints.length = n) {limit : TreeJoint ℝ → ℝ} {limit' : Joint ℝ → ℝ}
    (hsame : ∀ (i : Fin n) (joint : TreeJoint ℝ), p.tree.joints[i.val]? = some joint →
      limit joint = limit' (c.joints.get i)) :
    p.coordinateIndices.map ((p.tree.coordinateLimits limit).getD · 0) = c.joints.map limit' := by
  apply Vector.ext
  intro i hi
  have hlt : i < p.tree.joints.length := by omega
  have hjoint := List.getElem?_eq_getElem hlt
  have hplace : (p.controlled[i]).val = i := hown ⟨i, hi⟩
  have hvalue := hsame ⟨i, hi⟩ _ hjoint
  -- each choice looks at the limit of its own joint
  simp only [coordinateIndices, Vector.getElem_map, hplace, List.getD_eq_getElem?_getD,
    JointTree.getElem?_coordinateLimits limit hjoint, Option.getD_some]
  exact hvalue

/-- A tree with the limits of a chain has the same limits as a model. -/
theorem limits_eq (hown : ∀ i, (p.controlled.get i).val = i.val)
    (hlength : p.tree.joints.length = n) (h : p.tree.HasLimitsOf c) :
    (Model.chain c).lower = (Model.tree p).lower ∧
      (Model.chain c).upper = (Model.tree p).upper :=
  ⟨(map_coordinateLimits hown hlength fun i joint hjoint => (h i joint hjoint).1).symm,
    (map_coordinateLimits hown hlength fun i joint hjoint => (h i joint hjoint).2).symm⟩

end ControlledTree

/-- A chain and the tree that is the chain agree, but for a single joint. Let a chain be built from
accepted joints, placed by rotations, and let a tree have joints in a row that are placed and move
in the same way. The tree can be controlled through all its joints. Then the frame of a joint and
the link that the joint carries have the same pose and the same geometric Jacobian at every
configuration. Where there is a single joint, the frame has no state in place of that of the link.
Whatever is built on both, from single constraints and intersections, is accepted on one as on the
other, and gives the same errors, gradients and projections, if it does not ask for a link where
there is a single joint. -/
theorem Model.serial_agrees {descriptions : List (JointDescription ℝ)}
    {specs : List (JointSpec ℝ)} (hspecs : descriptions.mapM (·.build) = .ok specs) {base : String}
    {n : Nat} {c : Chain ℝ n} (hchain : Model.ofJoints base specs = .ok ⟨n, .chain c⟩)
    (hrigid : c.IsRigid) {t : JointTree ℝ} (hserial : t.IsSerial c) :
    ∃ p : ControlledTree ℝ n, ControlledTree.control t none = .ok ⟨n, p⟩ ∧
      (∀ frame link, t.StandsFor c frame link → ∀ q : Nested ℝ,
        (n ≠ 1 → (Model.tree p).linkState q frame = (Model.chain c).linkState q link) ∧
        (n = 1 → (Model.tree p).linkState q frame =
          (Model.chain c).linkState q link >>= fun _ => .error .singleColumn)) ∧
      ∀ (L : Type) (link frame : L → String), (∀ l, t.StandsFor c (frame l) (link l)) →
        ∀ plan : Plan ℝ L, (plan.ReadsLimits → t.HasLimitsOf c) →
          (n = 1 → ¬plan.HasPosition ∧ ¬plan.HasOrientation) →
          (∀ fault, plan.build (.chain c) link = .error fault ↔
            plan.build (.tree p) frame = .error fault) ∧
          ∀ m x, plan.build (.chain c) link = .ok ⟨m, x⟩ →
            ∃ y, plan.build (.tree p) frame = .ok ⟨m, y⟩ ∧ x.dimension = y.dimension ∧
              ∀ (members members' : List Nat) (settings settings' config : Settings ℝ)
                (q : Nested ℝ),
                let o : Object ℝ := ⟨m, x, members, settings⟩
                let o' : Object ℝ := ⟨m, y, members', settings'⟩
                o.evaluate q = o'.evaluate q ∧ o.jacobian q = o'.jacobian q ∧
                  o.projectWith config q = o'.projectWith config q := by
  -- accepted axes are not zero, and the tree can be controlled
  have haxis (i : Fin n) : 0 < ‖(c.joints.get i).axis‖ := Chain.norm_axis_pos hspecs hchain i
  obtain ⟨p, hcontrol, rfl, hown⟩ :=
    ControlledTree.exists_control_of_single hserial.length_eq hserial.isSingle
  -- a frame moves as its link does, but has no columns with a single velocity
  have hstate {f : TreeFrame ℝ} {l : Fin (n + 1)} (hparent : f.parent = l.val)
      (hplacement : f.placement = .identity) (q : Vector ℝ n) :
      (Link.ofTree p f).state q =
        if n = 1 then .error .singleColumn else .ok (c.linkState q l) := by
    rw [Link.state_ofTree, p.frameState_eq, hserial.velocityCount_eq,
      hserial.frameMotion_eq hrigid haxis hown hparent hplacement]
  refine ⟨p, hcontrol, fun frame link ⟨f, l, hf, hl, hparent, hplacement⟩ q => ?_,
    fun L link frame h plan hlimits hsingle => ?_⟩
  · have hlink : (Model.chain c).link? link = some (.ofChain c l) := by rw [Model.link?, hl]; rfl
    have hframe : (Model.tree p).link? frame = some (.ofTree p f) := by rw [Model.link?, hf]; rfl
    simp only [Model.linkState, hlink, hframe, hstate hparent hplacement, Link.state_ofChain]
    constructor
    · intro hn
      simp only [if_neg hn]
    · intro hn
      simp only [if_pos hn, bind_assoc]
      rfl
  · have hlinks (hasked : plan.HasPosition ∨ plan.HasOrientation) (label : L) :
        (Model.chain c).SameLink (.tree p) (link label) (frame label) := by
      -- a plan that asks for a link is not about a single joint
      have hn : n ≠ 1 := fun hn => hasked.elim (hsingle hn).1 (hsingle hn).2
      obtain ⟨f, l, hf, hl, hparent, hplacement⟩ := h label
      refine ⟨.ofChain c l, .ofTree p f, by rw [Model.link?, hl]; rfl,
        by rw [Model.link?, hf]; rfl, fun q => ?_⟩
      rw [Link.state_ofChain, hstate hparent hplacement, if_neg hn]
    have htogether := plan.build_together hlinks fun hreads =>
      ControlledTree.limits_eq hown hserial.length_eq (hlimits hreads)
    exact htogether.answers

/-! ## An arm as a chain and as a tree -/

/-- An arm that turns about the vertical, and a hand that slides along it. The axes are given at
length two. -/
noncomputable def armDescriptions : List (JointDescription ℝ) :=
  [⟨"turn", "arm", .identity, .ofList [0, 0, 1 + 1], -1, 1, none⟩,
    ⟨"slide", "hand", .matrix (some (.ofList [1, 0, 0])) none, .ofList [1 + 1, 0, 0], -1, 1,
      some "prismatic"⟩]

noncomputable def armSpecs : List (JointSpec ℝ) :=
  [⟨"turn", "arm", .identity, .ofList [0, 0, 1 + 1], -1, 1, .revolute⟩,
    ⟨"slide", "hand", ⟨⟨1, 0, 0⟩, 1⟩, .ofList [1 + 1, 0, 0], -1, 1, .prismatic⟩]

/-- The chain of the arm. -/
noncomputable def armChain : Chain ℝ 2 where
  base := "base"
  joints := .ofFn ![⟨"turn", "arm", .identity, ⟨0, 0, 1 + 1⟩, -1, 1, .revolute⟩,
    ⟨"slide", "hand", ⟨⟨1, 0, 0⟩, 1⟩, ⟨1 + 1, 0, 0⟩, -1, 1, .prismatic⟩]
  joints_pos := Nat.zero_lt_two
  linkNames_nodup := by decide

/-- The tree of the arm, whose directions have length one. -/
noncomputable def armTree : JointTree ℝ where
  joints := [⟨"turn", 0, .identity, .turn .z, -1, 1⟩,
    ⟨"slide", 1, ⟨⟨1, 0, 0⟩, 1⟩, .along .prismatic ⟨1, 0, 0⟩, -1, 1⟩]
  extraFrames := []

/-- The axis of the turning joint has length two. -/
theorem norm_turnAxis : ‖(⟨0, 0, 1 + 1⟩ : Vec3 ℝ)‖ = 2 := by
  norm_num [Vec3.norm_eq, Vec3.norm, Vec3.dot]

/-- The axis of the sliding joint has length two. -/
theorem norm_slideAxis : ‖(⟨1 + 1, 0, 0⟩ : Vec3 ℝ)‖ = 2 := by
  norm_num [Vec3.norm_eq, Vec3.norm, Vec3.dot]

/-- The descriptions of the example joints are accepted. -/
theorem build_armDescriptions : armDescriptions.mapM (·.build) = .ok armSpecs := by
  -- both axes have length two, and are accepted as they are
  have hturn := readAxis_ofList "turn" (x := (0 : ℝ)) (y := 0) (z := 1 + 1) (by
    rw [Tensor.norm_of_data rfl, norm_turnAxis]
    norm_num [shortestAxis])
  have hslide := readAxis_ofList "slide" (x := (1 + 1 : ℝ)) (y := 0) (z := 0) (by
    rw [Tensor.norm_of_data rfl, norm_slideAxis]
    norm_num [shortestAxis])
  have horigin : (PoseDescription.matrix (some (.ofList [(1 : ℝ), 0, 0])) none).build =
      .ok ⟨⟨1, 0, 0⟩, 1⟩ := by
    simp only [PoseDescription.build, PoseDescription.withPosition, PoseDescription.positionTensor,
      Nested.toTensor_ofList, bind, Except.bind]
    rfl
  have hrange : ¬(1 : ℝ) < -1 := by norm_num
  rw [mapM_eq_ok_iff]
  refine .cons ?_ (.cons ?_ .nil)
  · simp only [JointDescription.build, PoseDescription.build_identity, hturn, if_neg hrange, bind,
      Except.bind]
    rfl
  · simp only [JointDescription.build, horigin, hslide, if_neg hrange, bind, Except.bind]
    rfl

/-- They make the example chain. -/
theorem ofJoints_armSpecs : Model.ofJoints "base" armSpecs = .ok ⟨2, .chain armChain⟩ := rfl

/-- The example chain is rigid. -/
theorem isRigid_armChain : armChain.IsRigid := by
  intro i
  fin_cases i <;> exact Mat3.IsRotation.one

/-- The example tree has the joints of the chain in a row. -/
theorem isSerial_armTree : armTree.IsSerial armChain where
  length_eq := rfl
  parent_eq i joint hjoint := by
    -- the second joint is carried by the first, and there is no third
    match i with
    | 0 =>
      cases hjoint
      rfl
    | 1 =>
      cases hjoint
      rfl
    | i + 2 => cases hjoint
  matches_get i joint hjoint := by
    fin_cases i
    · cases hjoint
      refine ⟨rfl, ?_⟩
      -- the axis is made a unit vector
      have hdirection : (⟨0, 0, 1 + 1⟩ : Vec3 ℝ).unit = ⟨0, 0, 1⟩ := by
        simp [Vec3.unit, Vec3.divide, ← Vec3.norm_eq, norm_turnAxis]
      simp [armChain, Articulation.way?, Axis.vector, Joint.direction, hdirection]
    · cases hjoint
      refine ⟨rfl, ?_⟩
      have hdirection : (⟨1 + 1, 0, 0⟩ : Vec3 ℝ).unit = ⟨1, 0, 0⟩ := by
        simp [Vec3.unit, Vec3.divide, ← Vec3.norm_eq, norm_slideAxis]
      simp [armChain, Articulation.way?, Joint.direction, hdirection]

/-- The hand has the same state in the tree as in the chain. -/
theorem serial_agrees_arm :
    armDescriptions.mapM (·.build) = .ok armSpecs ∧
    Model.ofJoints "base" armSpecs = .ok ⟨2, .chain armChain⟩ ∧
    armChain.IsRigid ∧ armTree.IsSerial armChain ∧ armTree.StandsFor armChain "slide" "hand" ∧
    ∃ p : ControlledTree ℝ 2, ControlledTree.control armTree none = .ok ⟨2, p⟩ ∧
      ∀ q : Nested ℝ,
        (Model.tree p).linkState q "slide" = (Model.chain armChain).linkState q "hand" := by
  have hnames : (rootName :: armTree.joints.map (·.name)).Nodup := by decide
  have hslide : armTree.joints[1]? =
      some ⟨"slide", 1, ⟨⟨1, 0, 0⟩, 1⟩, .along .prismatic ⟨1, 0, 0⟩, -1, 1⟩ := rfl
  have hstands : armTree.StandsFor armChain "slide" "hand" :=
    JointTree.standsFor_joint (c := armChain) hnames (1 : Fin 2) hslide
  -- the arm has two joints, so that its frames have states
  obtain ⟨p, hcontrol, hstate, -⟩ := Model.serial_agrees build_armDescriptions ofJoints_armSpecs
    isRigid_armChain isSerial_armTree
  exact ⟨build_armDescriptions, ofJoints_armSpecs, isRigid_armChain, isSerial_armTree, hstands,
    p, hcontrol, fun q => (hstate "slide" "hand" hstands q).1 (by decide)⟩

/-- The chain of the turning arm alone. -/
noncomputable def turnChain : Chain ℝ 1 where
  base := "base"
  joints := .ofFn fun _ => ⟨"turn", "arm", .identity, ⟨0, 0, 1 + 1⟩, -1, 1, .revolute⟩
  joints_pos := Nat.zero_lt_one
  linkNames_nodup := by decide

/-- The tree of the turning arm alone. -/
noncomputable def turnTree : JointTree ℝ where
  joints := [⟨"turn", 0, .identity, .turn .z, -1, 1⟩]
  extraFrames := []

/-- The tree is moved through its only joint. -/
noncomputable def turnAlone : ControlledTree ℝ 1 := ⟨turnTree, .ofFn fun i => i⟩

/-- So has the tree of a single turning joint. -/
theorem isSerial_turnTree : turnTree.IsSerial turnChain where
  length_eq := rfl
  parent_eq i joint hjoint := by
    match i with
    | 0 =>
      cases hjoint
      rfl
    | i + 1 => cases hjoint
  matches_get i joint hjoint := by
    -- the joint is the first one of the arm
    fin_cases i
    exact isSerial_armTree.matches_get 0 joint hjoint

/-- A chain of a single joint does not agree with the tree that is the chain: the arm stands
somewhere at every angle, and its frame in the tree has no state. -/
theorem not_forall_serial_agrees :
    ¬ ∀ (descriptions : List (JointDescription ℝ)) (specs : List (JointSpec ℝ)) (base : String)
      (n : Nat) (c : Chain ℝ n) (t : JointTree ℝ), descriptions.mapM (·.build) = .ok specs →
      Model.ofJoints base specs = .ok ⟨n, .chain c⟩ → c.IsRigid → t.IsSerial c →
      ∀ p : ControlledTree ℝ n, ControlledTree.control t none = .ok ⟨n, p⟩ →
      ∀ frame link, t.StandsFor c frame link → ∀ q : Nested ℝ,
        (Model.tree p).linkState q frame = (Model.chain c).linkState q link := by
  intro hall
  have hspecs : (armDescriptions.take 1).mapM (·.build) = .ok (armSpecs.take 1) := by
    obtain ⟨hturn, -⟩ := List.forall₂_cons.1 (mapM_eq_ok_iff.1 build_armDescriptions)
    exact mapM_eq_ok_iff.2 (.cons hturn .nil)
  have hnames : (rootName :: turnTree.joints.map (·.name)).Nodup := by decide
  have hstands : turnTree.StandsFor turnChain "turn" "arm" :=
    JointTree.standsFor_joint (c := turnChain) hnames (0 : Fin 1) rfl
  have hrigid : turnChain.IsRigid := fun i => by
    fin_cases i
    exact Mat3.IsRotation.one
  have hsame := hall _ _ "base" 1 turnChain turnTree hspecs rfl hrigid isSerial_turnTree
    turnAlone rfl "turn" "arm" hstands (.ofList [0])
  -- the frame of the arm has no state at zero, and the arm has one
  cases hsame

end KinematicManifold
