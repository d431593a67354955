import KinematicManifold.Proofs.Gradients
import KinematicManifold.Proofs.SerialTree

/-!
# The frame of reference

A chain is moved as a whole when the origin of its first joint is. Then every link but the base
moves along, and so do the screws along which the links move. A box that is moved in the same way
keeps its place relative to the links, so that neither the error of a position nor its gradients
tell whether the chain and the box were moved.

## Key results

- `Joint.move_of_mount`, `Joint.screw_of_mount`: joints whose frames are moved
- `Chain.linkPose_movedBy`, `Chain.jacobian_movedBy`: the links of a chain that is moved
- `BoxConstraint.placeInBox_movedBy`, `BoxConstraint.velocitiesInBox_movedBy`: boxes that are moved
- `Plan.movedBy_agrees`: the choice of the frame of reference does not matter
-/

namespace KinematicManifold

variable {n : Nat}

/-! ## Poses, twists and screws -/

/-- Composing poses is associative. -/
theorem Pose.compose_assoc (a b c : Pose ℝ) :
    (a.compose b).compose c = a.compose (b.compose c) := by
  ext : 1
  · simp [Mat3.apply_add, add_assoc]
  · simp [mul_assoc]

/-- A velocity, along the axes of another frame. -/
noncomputable def Twist.turnedBy (t : Twist ℝ) (rotation : Mat3 ℝ) : Twist ℝ :=
  ⟨rotation.apply t.linear, rotation.apply t.angular⟩

/-- Turning the twist of a frame at rest leaves it at rest. -/
theorem Twist.zero_turnedBy (rotation : Mat3 ℝ) : (0 : Twist ℝ).turnedBy rotation = 0 := by
  ext : 1 <;> simp [turnedBy]

/-- A screw whose axis is moved. -/
noncomputable def Screw.movedBy (s : Screw ℝ) (motion : Pose ℝ) : Screw ℝ :=
  ⟨s.kind, motion.position + motion.rotation.apply s.anchor, motion.rotation.apply s.axis⟩

/-- A turned twist gives a turned point its turned velocity. -/
theorem Twist.velocityAt_turnedBy {rotation : Mat3 ℝ} (h : rotation.IsRotation) (t : Twist ℝ)
    (r : Vec3 ℝ) :
    (t.turnedBy rotation).velocityAt (rotation.apply r) = rotation.apply (t.velocityAt r) := by
  rw [velocityAt, velocityAt, Mat3.apply_sub, Rotation.skew_apply, Rotation.skew_apply,
    h.apply_cross, turnedBy]

/-- What moves along a screw that is moved has the velocity that it had, along other axes. -/
theorem Screw.twistAt_movedBy {motion : Pose ℝ} (h : motion.rotation.IsRotation) (s : Screw ℝ)
    (point : Vec3 ℝ) :
    (s.movedBy motion).twistAt (motion.position + motion.rotation.apply point) =
      (s.twistAt point).turnedBy motion.rotation := by
  obtain ⟨kind, anchor, axis⟩ := s
  cases kind with
  | revolute =>
    simp only [twistAt, movedBy, Twist.turnedBy, add_sub_add_left_eq_sub, ← Mat3.apply_sub,
      h.apply_cross]
  | prismatic => simp only [twistAt, movedBy, Twist.turnedBy, Mat3.apply_zero]

/-! ## Joints -/

namespace Joint

/-- The joint at an origin that is moved. -/
noncomputable def movedBy (j : Joint ℝ) (motion : Pose ℝ) : Joint ℝ :=
  { j with origin := motion.compose j.origin }

section
variable {j j' : Joint ℝ} {motion parent parent' : Pose ℝ} (hkind : j'.kind = j.kind)
  (haxis : j'.axis = j.axis) (hmount : j'.mount parent' = motion.compose (j.mount parent))
include hkind haxis hmount

/-- A joint whose frame is moved moves what it carries to a frame that is moved. -/
theorem move_of_mount (value : ℝ) :
    j'.move parent' value = motion.compose (j.move parent value) := by
  have hdirection : j'.direction = j.direction := by rw [direction, direction, haxis]
  rw [move, move, hkind, hdirection, hmount]
  cases j.kind with
  | revolute =>
    ext : 1
    · rfl
    · -- a turning joint turns after the motion
      simp [mul_assoc]
  | prismatic =>
    ext : 1
    · -- a sliding joint slides along the moved axis
      simp [← Vec3.smul_def, Mat3.apply_add, Mat3.apply_smul, add_assoc]
    · rfl

/-- A joint whose frame is moved has a screw that is moved. -/
theorem screw_of_mount : j'.screw parent' = (j.screw parent).movedBy motion := by
  have hdirection : j'.direction = j.direction := by rw [direction, direction, haxis]
  rw [screw, screw, hkind, hdirection, hmount, Screw.movedBy]
  simp

end

end Joint

/-! ## Chains -/

namespace Chain

/-- Joints that carry links of the same names, one by one. -/
theorem childLinks_congr {joints joints' : Vector (Joint ℝ) n}
    (h : ∀ i, (joints'.get i).childLink = (joints.get i).childLink) :
    joints'.toList.map (·.childLink) = joints.toList.map (·.childLink) := by
  apply List.ext_getElem
  · simp
  · intro i hi hi'
    have hname := h ⟨i, by simpa using hi⟩
    simpa [Vector.get_eq_getElem] using hname

variable (c : Chain ℝ n) (motion : Pose ℝ)

/-- The joints of a chain, of which the first is moved. -/
noncomputable def jointsMovedBy : Vector (Joint ℝ) n :=
  c.joints.mapIdx fun i joint => if i = 0 then joint.movedBy motion else joint

/-- Moving a chain moves the origin of its first joint only. -/
theorem jointsMovedBy_get (i : Fin n) : (c.jointsMovedBy motion).get i =
    if i.val = 0 then (c.joints.get i).movedBy motion else c.joints.get i := by
  simp [jointsMovedBy, Vector.get_eq_getElem]

/-- A joint keeps whatever does not depend on its origin. -/
theorem apply_jointsMovedBy_get {β : Type} {f : Joint ℝ → β}
    (hf : ∀ joint, f (joint.movedBy motion) = f joint) (i : Fin n) :
    f ((c.jointsMovedBy motion).get i) = f (c.joints.get i) := by
  rw [jointsMovedBy_get]
  split_ifs
  · exact hf _
  · rfl

/-- What does not depend on the origin of a joint is the same for all joints of the moved chain. -/
theorem map_jointsMovedBy {β : Type} {f : Joint ℝ → β}
    (hf : ∀ joint, f (joint.movedBy motion) = f joint) :
    (c.jointsMovedBy motion).map f = c.joints.map f := by
  apply Vector.ext
  intro i hi
  rw [Vector.getElem_map, Vector.getElem_map]
  exact apply_jointsMovedBy_get c motion hf ⟨i, hi⟩

/-- Moving a chain renames no link. -/
theorem childLinks_jointsMovedBy : (c.jointsMovedBy motion).toList.map (·.childLink) =
    c.joints.toList.map (·.childLink) :=
  childLinks_congr (c.apply_jointsMovedBy_get motion fun _ => rfl)

/-- The links of a moved chain have different names, since those of the chain have. -/
theorem nodup_jointsMovedBy :
    (c.base :: (c.jointsMovedBy motion).toList.map (·.childLink)).Nodup := by
  rw [childLinks_jointsMovedBy]
  exact c.linkNames_nodup

/-- A chain that is moved as a whole: the origin of its first joint is moved. -/
noncomputable def movedBy : Chain ℝ n :=
  ⟨c.base, c.jointsMovedBy motion, c.joints_pos, c.nodup_jointsMovedBy motion⟩

/-- Chains whose links have the same names find the same links. -/
theorem link?_congr {c c' : Chain ℝ n} (h : c'.linkNames = c.linkNames) (name : String) :
    c'.link? name = c.link? name := by
  have key (names : List String) (hlength : names.length = n + 1) (hsame : names = c.linkNames) :
      (names.finIdxOf? name).map (Fin.cast hlength) = c.link? name := by
    subst hsame
    rfl
  exact key c'.linkNames c'.length_linkNames h

/-- A moved chain has its links under the same names. -/
theorem link?_movedBy (name : String) : (c.movedBy motion).link? name = c.link? name := by
  refine link?_congr ?_ name
  rw [linkNames, linkNames, ← childLinks_jointsMovedBy c motion]
  rfl

/-- Only the base has the name of the base. -/
theorem ne_zero_of_link? {c : Chain ℝ n} {name : String} {link : Fin (n + 1)}
    (hname : name ≠ c.base) (hlink : c.link? name = some link) : link ≠ 0 := by
  obtain ⟨i, hi, rfl⟩ := Option.map_eq_some_iff.1 hlink
  intro hzero
  have hval : i.val = 0 := congrArg Fin.val hzero
  have hfirst : i = ⟨0, by simp [linkNames]⟩ := Fin.ext hval
  rw [hfirst, List.finIdxOf?_eq_some_iff] at hi
  exact hname hi.1.symm

variable {c motion} {q : Vector ℝ n}

/-- The frame of a joint moves along if the link before it does, or is the base. -/
theorem mount_movedBy {i : Fin n} (hparent : i.castSucc ≠ 0 →
      (c.movedBy motion).linkPose q i.castSucc = motion.compose (c.linkPose q i.castSucc)) :
    ((c.movedBy motion).joints.get i).mount ((c.movedBy motion).linkPose q i.castSucc) =
      motion.compose ((c.joints.get i).mount (c.linkPose q i.castSucc)) := by
  have hjoint : (c.movedBy motion).joints.get i =
      if i.val = 0 then (c.joints.get i).movedBy motion else c.joints.get i :=
    jointsMovedBy_get c motion i
  by_cases hfirst : i.val = 0
  · -- the base stays where it is, and the origin of the first joint is moved
    have hzero : i.castSucc = 0 := Fin.ext hfirst
    have hbase (chain : Chain ℝ n) : chain.linkPose q i.castSucc = .identity := by
      rw [hzero]
      rfl
    rw [hjoint, if_pos hfirst, hbase, hbase, Joint.mount, Joint.mount, Pose.identity_compose,
      Pose.identity_compose, Joint.movedBy]
  · have hlater : i.castSucc ≠ 0 := fun h => hfirst (congrArg Fin.val h)
    rw [hjoint, if_neg hfirst, hparent hlater, Joint.mount, Joint.mount, Pose.compose_assoc]

/-- The joints of a moved chain turn or slide as they did. -/
theorem kind_movedBy (i : Fin n) :
    ((c.movedBy motion).joints.get i).kind = (c.joints.get i).kind :=
  apply_jointsMovedBy_get c motion (f := Joint.kind) (fun _ => rfl) i

/-- Their axes are what they were, each in the frame of its joint. -/
theorem axis_movedBy (i : Fin n) :
    ((c.movedBy motion).joints.get i).axis = (c.joints.get i).axis :=
  apply_jointsMovedBy_get c motion (f := Joint.axis) (fun _ => rfl) i

/-- The links of a chain that is moved, but for the base, are moved. -/
theorem linkPose_movedBy {link : Fin (n + 1)} (hlink : link ≠ 0) :
    (c.movedBy motion).linkPose q link = motion.compose (c.linkPose q link) := by
  induction link using Fin.induction with
  | zero => exact absurd rfl hlink
  | succ i ih =>
    rw [linkPose_succ, linkPose_succ]
    exact Joint.move_of_mount (kind_movedBy i) (axis_movedBy i) (mount_movedBy ih) _

/-- The screws along a chain that is moved are moved. -/
theorem screwsAlong_movedBy (link : Fin (n + 1)) :
    screwsAlong .identity ((c.movedBy motion).jointsTo q link) =
      (screwsAlong .identity (c.jointsTo q link)).map (·.movedBy motion) := by
  induction link using Fin.induction with
  | zero => rfl
  | succ i ih =>
    rw [screwsAlong_jointsTo_succ, screwsAlong_jointsTo_succ, ih, List.map_append,
      List.map_singleton]
    -- the last screw is moved, as the mount of its joint is
    have hscrew :
        ((c.movedBy motion).joints.get i).screw ((c.movedBy motion).linkPose q i.castSucc) =
          ((c.joints.get i).screw (c.linkPose q i.castSucc)).movedBy motion :=
      Joint.screw_of_mount (kind_movedBy i) (axis_movedBy i) (mount_movedBy linkPose_movedBy)
    rw [hscrew]

/-- Every velocity of a link that is moved is the one that it had, along other axes. -/
theorem jacobian_movedBy (hmotion : motion.rotation.IsRotation) {link : Fin (n + 1)}
    (hlink : link ≠ 0) : ((c.movedBy motion).linkState q link).jacobian =
      (c.linkState q link).jacobian.map (·.turnedBy motion.rotation) := by
  apply Vector.ext
  intro i hi
  simp only [linkState, twistsAt, Vector.getElem_ofFn, Vector.getElem_map, screwsAlong_movedBy,
    List.getElem?_map, linkPose_movedBy hlink, Pose.compose_position]
  cases (screwsAlong .identity (c.jointsTo q link))[i]? with
  | none => exact (Twist.zero_turnedBy motion.rotation).symm
  | some screw => exact screw.twistAt_movedBy hmotion _

end Chain

/-! ## Boxes -/

/-- The specification with a box that is moved. -/
noncomputable def PositionSpec.movedBy (s : PositionSpec ℝ) (motion : Pose ℝ) : PositionSpec ℝ :=
  { s with box := motion.compose s.box }

namespace BoxConstraint

variable {b b' : BoxConstraint ℝ n} {motion : Pose ℝ} (hspec : b'.spec = b.spec.movedBy motion)
include hspec

/-- Seen from the moved base the offset in a box is turned. -/
theorem offsetOf_movedBy (pose : Pose ℝ) :
    b'.offsetOf (motion.compose pose) = motion.rotation.apply (b.offsetOf pose) := by
  rw [offsetOf, offsetOf, hspec]
  simp [PositionSpec.movedBy]

section
variable (hmotion : motion.rotation.IsOrthogonal)
include hmotion

/-- A direction that is turned has the components along a box that is moved that it had. -/
theorem transpose_apply_movedBy (v : Vec3 ℝ) :
    b'.spec.box.rotation.transpose.apply (motion.rotation.apply v) =
      b.spec.box.rotation.transpose.apply v := by
  rw [hspec, PositionSpec.movedBy, Pose.compose_rotation, Mat3.transpose_mul, Mat3.apply_mul,
    hmotion.transpose_apply_apply]

/-- A point and a box that are moved together keep their places. -/
theorem placeInBox_movedBy (pose : Pose ℝ) :
    b'.placeInBox (motion.compose pose) = b.placeInBox pose := by
  have hpoint : b'.pointInBox (motion.compose pose) = b.pointInBox pose := by
    -- the point and the box move together, so that their difference turns
    have hdifference : (motion.compose pose).position + b'.offsetOf (motion.compose pose) -
        b'.spec.box.position =
          motion.rotation.apply (pose.position + b.offsetOf pose - b.spec.box.position) := by
      rw [offsetOf_movedBy hspec, hspec, PositionSpec.movedBy, Pose.compose_position,
        Pose.compose_position, add_assoc, add_sub_add_left_eq_sub, Mat3.apply_sub, Mat3.apply_add]
    rw [pointInBox, hdifference, transpose_apply_movedBy hspec hmotion]
    rfl
  rw [placeInBox, placeInBox, hpoint, hspec]
  rfl

end

/-- The rates of the places do not change either. -/
theorem velocitiesInBox_movedBy (hmotion : motion.rotation.IsRotation)
    {state state' : LinkState ℝ n} (hpose : state'.pose = motion.compose state.pose)
    (hjacobian : state'.jacobian = state.jacobian.map (·.turnedBy motion.rotation)) :
    b'.velocitiesInBox state' = b.velocitiesInBox state := by
  -- the box turns with the twist, which undoes the turn
  have hvelocity (twist : Twist ℝ) :
      b'.spec.box.rotation.transpose.apply
          ((twist.turnedBy motion.rotation).velocityAt (b'.offsetOf state'.pose)) =
        b.spec.box.rotation.transpose.apply (twist.velocityAt (b.offsetOf state.pose)) := by
    rw [hpose, offsetOf_movedBy hspec, Twist.velocityAt_turnedBy hmotion,
      transpose_apply_movedBy hspec hmotion.toIsOrthogonal]
  have haxes : b'.spec.constrainedAxes = b.spec.constrainedAxes := by
    rw [hspec]
    rfl
  simp only [velocitiesInBox, hjacobian, Vector.map_map, Function.comp_def, hvelocity, haxes]

section
variable {chain : Chain ℝ n} {k : Fin (n + 1)} (hk : k ≠ 0) (hlink : b.link = .ofChain chain k)
  (hlink' : b'.link = .ofChain (chain.movedBy motion) k) (q : Vector ℝ n)
include hk hlink hlink'

/-- A box that moves with the chain has the same raw error. -/
theorem rawError_movedBy (hmotion : motion.rotation.IsOrthogonal) :
    b.rawError q = b'.rawError q := by
  have hplace := placeInBox_movedBy hspec hmotion (chain.linkPose q k)
  rw [← Chain.linkPose_movedBy hk] at hplace
  rw [rawError_eq_ok hlink, rawError_eq_ok hlink', hplace]

/-- It has the same raw Jacobian, too. -/
theorem rawJacobian_movedBy (hmotion : motion.rotation.IsRotation) :
    b.rawJacobian q = b'.rawJacobian q := by
  have hpose : ((chain.movedBy motion).linkState q k).pose =
      motion.compose (chain.linkState q k).pose := Chain.linkPose_movedBy hk
  have hvelocities :=
    velocitiesInBox_movedBy hspec hmotion hpose (Chain.jacobian_movedBy hmotion hk)
  rw [rawJacobian_eq_ok hlink, rawJacobian_eq_ok hlink', hvelocities]

end

end BoxConstraint

/-! ## Plans -/

/-- A position on a link goes on a chain as the position that is moved does on the chain that is
moved. -/
theorem Model.putsPosition_movedBy {chain : Chain ℝ n} {motion : Pose ℝ}
    (hmotion : motion.rotation.IsRotation) (spec : PositionSpec ℝ)
    (hname : spec.link ≠ chain.base) :
    (Model.chain chain).PutsPosition (.chain (chain.movedBy motion)) spec
      (spec.movedBy motion) := by
  -- both chains find the link under the same number, which is not that of the base
  have hlinks : Together (fun link link' => ∃ k, k ≠ 0 ∧ link = .ofChain chain k ∧
      link' = .ofChain (chain.movedBy motion) k) ((Model.chain chain).requireLink spec.link)
        ((Model.chain (chain.movedBy motion)).requireLink spec.link) := by
    rw [requireLink, requireLink, link?, link?, chain.link?_movedBy motion]
    cases hfound : chain.link? spec.link with
    | none => exact .error _
    | some k => exact .ok ⟨k, Chain.ne_zero_of_link? hname hfound, rfl, rfl⟩
  refine hlinks.bind ?_
  rintro _ _ ⟨k, hk, rfl, rfl⟩
  let b : BoxConstraint ℝ n := ⟨spec, .ofChain chain k⟩
  let b' : BoxConstraint ℝ n := ⟨spec.movedBy motion, .ofChain (chain.movedBy motion) k⟩
  have hspec : b'.spec = b.spec.movedBy motion := rfl
  -- a link beyond the base moves with its box
  have halike : Constraint.Alike ⟨n, .leaf (.box b)⟩ ⟨n, .leaf (.box b')⟩ :=
    Constraint.alike_of_leaf rfl
      (fun q => BoxConstraint.rawError_movedBy hspec hk rfl rfl q hmotion.toIsOrthogonal)
      fun q => BoxConstraint.rawJacobian_movedBy hspec hk rfl rfl q hmotion
  exact (Together.refl _).bind fun _ _ _ => .ok halike

/-- The choice of the frame of reference does not matter to positions. Let a chain be moved as a
whole, and with it the boxes of a plan that is about links other than the base and about joint
limits. Then the plan is refused on both chains for the same reason, or accepted on both; and what
is built has the same errors and gradients at every configuration, and the same projections from
everywhere. -/
theorem Plan.movedBy_agrees {chain : Chain ℝ n} {motion : Pose ℝ}
    (hmotion : motion.rotation.IsRotation) {L : Type} {name : L → String}
    (hname : ∀ link, name link ≠ chain.base) {plan : Plan ℝ L} (hkind : ¬plan.HasOrientation) :
    let x := plan.build (.chain chain) name
    let y := (plan.mapPositions (·.movedBy motion)).build (.chain (chain.movedBy motion)) name
    (∀ fault, x = .error fault ↔ y = .error fault) ∧
    ∀ m c, x = .ok ⟨m, c⟩ → ∃ c', y = .ok ⟨m, c'⟩ ∧ c.dimension = c'.dimension ∧
      ∀ (members members' : List Nat) (settings settings' config : Settings ℝ) (q : Nested ℝ),
        let o : Object ℝ := ⟨m, c, members, settings⟩
        let o' : Object ℝ := ⟨m, c', members', settings'⟩
        o.evaluate q = o'.evaluate q ∧ o.jacobian q = o'.jacobian q ∧
          o.projectWith config q = o'.projectWith config q := by
  refine Together.answers (plan.build_mapPositions_together (fun _ link spec => ?_)
    (fun h => absurd h hkind) fun _ => ?_)
  · -- positions move along
    exact Model.putsPosition_movedBy hmotion { spec with link := name link } (hname link)
  · -- and limits stay as they are
    exact ⟨(chain.map_jointsMovedBy motion fun _ => rfl).symm,
      (chain.map_jointsMovedBy motion fun _ => rfl).symm⟩

/-! ## A hand in another frame -/

/-- A quarter turn about the vertical, and a step ahead. -/
noncomputable def quarterTurn : Pose ℝ := ⟨⟨1, 0, 0⟩, ⟨0, -1, 0, 1, 0, 0, 0, 0, 1⟩⟩

/-- A quarter turn is a rotation. -/
theorem isRotation_quarterTurn : quarterTurn.rotation.IsRotation := by
  refine ⟨⟨?_, ?_⟩, ?_⟩
  · ext <;> simp [quarterTurn, Mat3.transpose, Mat3.one_def]
  · ext <;> simp [quarterTurn, Mat3.transpose, Mat3.one_def]
  · simp [quarterTurn, Mat3.det_eq]

/-- The hand in its box, and the joints in their limits. -/
noncomputable def handPlan : Plan ℝ Unit := .intersection [.position () handSpec, .modelLimits]

/-- The plan of the example can be built on the example chain. -/
theorem build_handPlan : handPlan.build (.chain turnThenSlide) (fun _ => "hand") =
    .ok ⟨2, .intersection [.leaf (.box handConstraint), .ofJointLimits rangeLimits]⟩ := by
  have hposition : Constraint.ofPosition (.chain turnThenSlide) { handSpec with link := "hand" } =
      .ok (.leaf (.box handConstraint)) := ofPosition_handSpec
  simp only [handPlan, Plan.build, Plan.buildAll, hposition, ofModelLimits_turnThenSlide, bind,
    Except.bind, Except.map, pure, Except.pure]
  have hne : ([.leaf (.box handConstraint), .ofJointLimits rangeLimits] :
      List (Constraint ℝ 2)) ≠ [] := List.cons_ne_nil _ _
  exact Constraint.intersect_map_mk hne

/-- The task of the hand is the same in the frame that is turned. -/
theorem movedBy_agrees_hand :
    quarterTurn.rotation.IsRotation ∧ (∀ _ : Unit, "hand" ≠ turnThenSlide.base) ∧
    ¬handPlan.HasOrientation ∧
    ∃ c c', handPlan.build (.chain turnThenSlide) (fun _ => "hand") = .ok ⟨2, c⟩ ∧
      (handPlan.mapPositions (·.movedBy quarterTurn)).build
        (.chain (turnThenSlide.movedBy quarterTurn)) (fun _ => "hand") = .ok ⟨2, c'⟩ ∧
      Object.projectWith (⟨2, c, [], .standard⟩ : Object ℝ) .standard (.ofConfiguration atRest) =
        Object.projectWith (⟨2, c', [], .standard⟩ : Object ℝ) .standard
          (.ofConfiguration atRest) := by
  have hname : ∀ _ : Unit, "hand" ≠ turnThenSlide.base := by
    intro _
    simp [turnThenSlide]
  have hkind : ¬handPlan.HasOrientation := by
    simp [handPlan, Plan.HasOrientation, Plan.HasOrientationAny]
  obtain ⟨-, hbuilt⟩ := Plan.movedBy_agrees isRotation_quarterTurn hname hkind
  obtain ⟨c', hc', -, hanswers⟩ := hbuilt 2 _ build_handPlan
  exact ⟨isRotation_quarterTurn, hname, hkind, _, c', build_handPlan, hc',
    (hanswers [] [] .standard .standard .standard (.ofConfiguration atRest)).2.2⟩

end KinematicManifold
