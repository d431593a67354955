import KinematicManifold.Proofs.Coordinates
import KinematicManifold.Proofs.Locality
import KinematicManifold.Proofs.SerialTree

/-!
# Chains with a further joint

A point at an offset from the last link of a chain is the origin of a link that a further joint
carries there. A further joint that turns in place moves the link that it carries, but not its
origin, and the velocity of a point that is carried along is that of a frame whose origin is there.
So a position of the point and a position of the further link have the same error, and the same
gradients but for a zero, with which the further joint comes in. Nor does the further joint move in
a projection.

## Key results

- `Chain.push`: a chain with a further joint
- `Screw.velocityAt_twistAt`: the velocity of a point that is carried along a screw
- `Chain.position_push`, `Chain.velocities_push`: the link that a turning joint carries
- `Constraint.ofPosition_push`: an offset of a link is a further link
-/

namespace KinematicManifold

open Linear Matrix

variable {n : Nat}

/-! ## Zeros for a further joint -/

namespace Linear

/-- Steps with a zero for a further joint. -/
noncomputable def withZeroMap (n : Nat) : (Fin n → ℝ) →ₗ[ℝ] (Fin (n + 1) → ℝ) :=
  Function.ExtendByZero.linearMap ℝ Fin.castSucc

/-- Adding a zero coordinate pushes a zero. -/
theorem withZeroMap_get (v : Vector ℝ n) : withZeroMap n v.get = (v.push 0).get := by
  funext i
  cases i using Fin.lastCases with
  | last =>
    rw [Vector.get_push_last]
    exact Function.extend_apply' _ _ _ fun ⟨j, hj⟩ => Fin.castSucc_ne_last j hj
  | cast i =>
    rw [Vector.get_push_castSucc]
    exact (Fin.castSucc_injective n).extend_apply _ _ i

/-- A zero coordinate leaves inner products as they are. -/
theorem dotProduct_withZeroMap (u v : Fin n → ℝ) :
    withZeroMap n u ⬝ᵥ withZeroMap n v = u ⬝ᵥ v := by
  have hget (w : Fin n → ℝ) : withZeroMap n w = ((Vector.ofFn w).push 0).get := by
    rw [← withZeroMap_get, get_ofFn]
  rw [hget, hget, dotProduct, Fin.sum_univ_castSucc]
  simp [dotProduct]

/-- A further joint as a change of coordinates. -/
noncomputable def withZero (n : Nat) : Embedding n (n + 1) :=
  ⟨withZeroMap n, dotProduct_withZeroMap⟩

/-- A vector is embedded by pushing a zero. -/
theorem withZero_embed (v : Vector ℝ n) : (withZero n).embed v = v.push 0 := by
  apply ext_get
  rw [Embedding.get_embed]
  exact withZeroMap_get v

/-- A further joint keeps its value in a step that does not move it. -/
theorem push_add (q step : Vector ℝ n) (t : ℝ) :
    (q + step).push t = q.push t + (withZero n).embed step := by
  apply ext_get
  funext i
  rw [withZero_embed, get_add, Pi.add_apply]
  cases i using Fin.lastCases with
  | last => simp
  | cast i => simp

end Linear

/-! ## Points that are carried along -/

/-- The velocity of a point that is carried along a screw is that of a frame whose origin is
there. -/
theorem Screw.velocityAt_twistAt (s : Screw ℝ) (point r : Vec3 ℝ) :
    (s.twistAt point).velocityAt r = (s.twistAt (point + r)).linear := by
  rw [← s.movedTo_twistAt point, ← s.movedTo_twistAt (point + r), Twist.velocityAt_movedTo]

/-- The velocity of a point that a link of a chain carries along is that of a frame there. -/
theorem Chain.velocities_linkState (c : Chain ℝ n) (q : Vector ℝ n) (link : Fin (n + 1))
    (r : Vec3 ℝ) : (c.linkState q link).jacobian.map (·.velocityAt r) =
      (twistsAt n (screwsAlong .identity (c.jointsTo q link))
        ((c.linkPose q link).position + r)).map (·.linear) := by
  apply Vector.ext
  intro i hi
  simp only [linkState, twistsAt, Vector.getElem_map, Vector.getElem_ofFn]
  cases (screwsAlong .identity (c.jointsTo q link))[i]? with
  | none => simp [Twist.velocityAt]
  | some screw => exact screw.velocityAt_twistAt _ r

/-- One screw more, and one twist more. -/
theorem twistsAt_append_singleton {screws : List (Screw ℝ)} (h : screws.length = n)
    (screw : Screw ℝ) (point : Vec3 ℝ) : twistsAt (n + 1) (screws ++ [screw]) point =
      (twistsAt n screws point).push (screw.twistAt point) := by
  apply Vector.ext
  intro i hi
  simp only [twistsAt, Vector.getElem_ofFn, Vector.getElem_push]
  split_ifs with hlt
  · rw [List.getElem?_append_left (h ▸ hlt)]
  · obtain rfl : i = screws.length := by omega
    rw [List.getElem?_concat_length]
    rfl

/-! ## A further joint -/

namespace Chain

/-- A further link whose name is new keeps the names of the links different. -/
theorem nodup_push {c : Chain ℝ n} {joint : Joint ℝ} (hfresh : joint.childLink ∉ c.linkNames) :
    (c.base :: (c.joints.push joint).toList.map (·.childLink)).Nodup := by
  have hnames : c.base :: (c.joints.push joint).toList.map (·.childLink) =
      c.linkNames ++ [joint.childLink] := by
    simp [linkNames, Vector.toList_push]
  rw [hnames, ← List.concat_eq_append]
  exact c.linkNames_nodup.concat hfresh

/-- A chain with a further joint, which carries a link with a name of its own. -/
def push (c : Chain ℝ n) (joint : Joint ℝ) (hfresh : joint.childLink ∉ c.linkNames) :
    Chain ℝ (n + 1) :=
  ⟨c.base, c.joints.push joint, Nat.succ_pos n, nodup_push hfresh⟩

variable {c : Chain ℝ n} {joint : Joint ℝ} (hfresh : joint.childLink ∉ c.linkNames)

/-- The further joint is the last one. -/
theorem joints_push_last : (c.push joint hfresh).joints.get (.last n) = joint :=
  Vector.get_push_last c.joints joint

/-- The further link is found by its name. -/
theorem link?_push : (c.push joint hfresh).link? joint.childLink = some (.last (n + 1)) := by
  have hfound := (c.push joint hfresh).link?_childLink (.last n)
  rwa [joints_push_last] at hfound

variable (q : Vector ℝ n) (t : ℝ)

/-- The joints up to a link are those that there were. -/
theorem jointsTo_push (link : Fin (n + 1)) :
    (c.push joint hfresh).jointsTo (q.push t) link.castSucc = c.jointsTo q link := by
  have hzip : ((c.joints.push joint).zip (q.push t)).toList =
      (c.joints.zip q).toList ++ [(joint, t)] := by
    rw [Vector.toList_zip, Vector.toList_push, Vector.toList_push, List.zip_append (by simp),
      Vector.toList_zip]
    rfl
  rw [jointsTo, push, hzip, List.take_append_of_le_length]
  · rfl
  · simpa using Nat.lt_succ_iff.1 link.isLt

/-- The links that were there have the poses they had. -/
theorem linkPose_push (link : Fin (n + 1)) :
    (c.push joint hfresh).linkPose (q.push t) link.castSucc = c.linkPose q link := by
  rw [linkPose, jointsTo_push, linkPose]

/-- The origin of the link that a turning joint carries stands at a fixed place on the link before
it. -/
theorem position_push (hkind : joint.kind = .revolute) :
    ((c.push joint hfresh).linkPose (q.push t) (.last (n + 1))).position =
      (c.linkPose q (.last n)).position +
        (c.linkPose q (.last n)).rotation.apply joint.origin.position := by
  rw [← Fin.succ_last, linkPose_succ, linkPose_push, joints_push_last, Joint.move, hkind]
  rfl

/-- On the way to the further link there is one screw more, placed by the link before it. -/
theorem screwsAlong_push :
    screwsAlong .identity ((c.push joint hfresh).jointsTo (q.push t) (.last (n + 1))) =
      screwsAlong .identity (c.jointsTo q (.last n)) ++ [joint.screw (c.linkPose q (.last n))] := by
  rw [← Fin.succ_last, screwsAlong_jointsTo_succ, jointsTo_push, linkPose_push, joints_push_last]

/-- The velocity of the origin of the further link is that of the place on the link before it; the
further joint does not move it. -/
theorem velocities_push (hkind : joint.kind = .revolute) :
    ((c.push joint hfresh).linkState (q.push t) (.last (n + 1))).jacobian.map (·.velocityAt 0) =
      ((c.linkState q (.last n)).jacobian.map (·.velocityAt
        ((c.linkPose q (.last n)).rotation.apply joint.origin.position))).push 0 := by
  have hlength : (screwsAlong .identity (c.jointsTo q (.last n))).length = n := by
    simp [jointsTo]
  -- the axis of the further joint goes through the origin of its link
  have hstill : ((joint.screw (c.linkPose q (.last n))).twistAt ((c.linkPose q (.last n)).position +
      (c.linkPose q (.last n)).rotation.apply joint.origin.position)).linear = 0 := by
    simp [Screw.twistAt, Joint.screw, Joint.mount, hkind]
  rw [velocities_linkState, velocities_linkState, position_push hfresh q t hkind, add_zero,
    screwsAlong_push, twistsAt_append_singleton hlength, Vector.map_push, hstill]

end Chain

/-! ## Boxes -/

/-- The box, for the origin of another link. -/
noncomputable def PositionSpec.atOrigin (s : PositionSpec ℝ) (link : String) : PositionSpec ℝ :=
  { s with link := link, linkOffset := 0 }

namespace BoxConstraint

/-- The gradients in terms of the velocities of the point with the joints. -/
theorem velocitiesInBox_eq (b : BoxConstraint ℝ n) (state : LinkState ℝ n) :
    b.velocitiesInBox state = b.spec.constrainedAxes.map fun axis =>
      (state.jacobian.map (·.velocityAt (b.offsetOf state.pose))).map fun velocity =>
        (b.spec.box.rotation.transpose.apply velocity).along axis := by
  simp only [velocitiesInBox, Vector.map_map, Function.comp_def]

variable {chain : Chain ℝ n} {joint : Joint ℝ} {hfresh : joint.childLink ∉ chain.linkNames}
  {b : BoxConstraint ℝ n} {b' : BoxConstraint ℝ (n + 1)}
  (hspec : b'.spec = b.spec.atOrigin joint.childLink) (hlink : b.link = .ofChain chain (.last n))
  (hlink' : b'.link = .ofChain (chain.push joint hfresh) (.last (n + 1)))
  (hkind : joint.kind = .revolute) (horigin : joint.origin.position = b.spec.linkOffset)
  (q : Vector ℝ n) (t : ℝ)
include hspec

/-- The box at the origin of the further link has no offset. -/
theorem offsetOf_atOrigin (pose : Pose ℝ) : b'.offsetOf pose = 0 := by
  rw [offsetOf, hspec, PositionSpec.atOrigin, Mat3.apply_zero]

/-- The box at the origin has the bounds that it had. -/
theorem intervals_atOrigin : b'.intervals = b.intervals := by
  rw [intervals, intervals, hspec]
  rfl

include hlink hlink' hkind horigin

/-- The origin of the further link is in the place of the point. -/
theorem rawError_push : b'.rawError (q.push t) = b.rawError q := by
  have hplace : b'.placeInBox ((chain.push joint hfresh).linkPose (q.push t) (.last (n + 1))) =
      b.placeInBox (chain.linkPose q (.last n)) := by
    rw [placeInBox, placeInBox, pointInBox, pointInBox, offsetOf_atOrigin hspec, add_zero,
      Chain.position_push hfresh q t hkind, horigin, hspec]
    rfl
  rw [rawError_eq_ok hlink, rawError_eq_ok hlink', hplace]

/-- The origin of the further link moves with the joints as the point does. -/
theorem rawJacobian_push :
    b'.rawJacobian (q.push t) = (b.rawJacobian q).map (List.map (withZero n).embed) := by
  set state := chain.linkState q (.last n)
  set state' := (chain.push joint hfresh).linkState (q.push t) (.last (n + 1))
  -- the further joint turns about the point, which stays where it is
  have hvelocities : state'.jacobian.map (·.velocityAt (b'.offsetOf state'.pose)) =
      (state.jacobian.map (·.velocityAt (b.offsetOf state.pose))).push 0 := by
    rw [offsetOf_atOrigin hspec, Chain.velocities_push hfresh q t hkind, horigin]
    rfl
  have hrows : b'.velocitiesInBox state' = (b.velocitiesInBox state).map (withZero n).embed := by
    rw [velocitiesInBox_eq, velocitiesInBox_eq, hvelocities, hspec, List.map_map]
    refine List.map_congr_left fun axis _ => ?_
    rw [Function.comp_apply, withZero_embed, Vector.map_push, Mat3.apply_zero, Vec3.zero_along]
    rfl
  rw [rawJacobian_eq_ok hlink, rawJacobian_eq_ok hlink', hrows]
  rfl

end BoxConstraint

/-! ## An offset and a further link -/

/-- Where a link is there, a position on it is refused for its size only. -/
theorem Constraint.ofPosition_of_requireLink {model : Model ℝ n} {spec : PositionSpec ℝ}
    {link : Link ℝ n} (h : model.requireLink spec.link = .ok link) : ofPosition model spec =
      (checkSize n spec.constrainedAxes.length).map fun _ => leaf (.box ⟨spec, link⟩) := by
  rw [ofPosition, h]
  cases checkSize n spec.constrainedAxes.length <;> rfl

/-- A further joint does not matter to the size. -/
theorem Constraint.checkSize_succ (hpos : 0 < n) (rows : Nat) :
    checkSize (n + 1) rows = checkSize n rows := by
  rw [checkSize, checkSize, if_neg hpos.ne', if_neg n.succ_ne_zero]

/-- An offset of a link is the same as a further link. Let a point at an offset from the last link
of a chain be kept in a box, and let the chain be extended by a joint that turns at this point. The
further link may be kept in the box instead: this is refused for the same reason, or accepted as
well. At every configuration, whatever the value of the further joint, it has the same error and the
same gradients, with a zero for the further joint; and a projection ends in the same way, with the
same last configuration and the value that the further joint had. -/
theorem Constraint.ofPosition_push {chain : Chain ℝ n} {joint : Joint ℝ}
    (hfresh : joint.childLink ∉ chain.linkNames) (hkind : joint.kind = .revolute)
    {spec : PositionSpec ℝ} (hlink : chain.link? spec.link = some (.last n))
    (horigin : joint.origin.position = spec.linkOffset) :
    let x := ofPosition (.chain chain) spec
    let y := ofPosition (.chain (chain.push joint hfresh)) (spec.atOrigin joint.childLink)
    (∀ fault, x = .error fault ↔ y = .error fault) ∧
    ∀ c, x = .ok c → ∃ c', y = .ok c' ∧ ∀ q t,
      (∃ error, c.evaluate q = .ok error ∧ c'.evaluate (q.push t) = .ok error) ∧
      (∃ gradients, c.jacobian q = .ok gradients ∧
        c'.jacobian (q.push t) = .ok (gradients.map (·.push 0))) ∧
      ∀ s, ∃ o, c.residual.project s q = .ok o ∧ c'.residual.project s (q.push t) =
        .ok ⟨o.status, o.configuration.push t, o.errorNorm, o.iterations⟩ := by
  intro x y
  let b : BoxConstraint ℝ n := ⟨spec, .ofChain chain (.last n)⟩
  let b' : BoxConstraint ℝ (n + 1) :=
    ⟨spec.atOrigin joint.childLink, .ofChain (chain.push joint hfresh) (.last (n + 1))⟩
  -- both constructors find their link and differ in nothing but what is built
  have hx : x = (checkSize n spec.constrainedAxes.length).map fun _ => leaf (.box b) :=
    ofPosition_of_requireLink (Model.requireLink_eq_ok_iff.2 ⟨_, hlink, rfl⟩)
  have hy : y = (checkSize n spec.constrainedAxes.length).map fun _ => leaf (.box b') := by
    rw [← checkSize_succ chain.joints_pos]
    exact ofPosition_of_requireLink
      (Model.requireLink_eq_ok_iff.2 ⟨_, chain.link?_push hfresh, rfl⟩)
  refine ⟨fun fault => by rw [hx, hy, map_eq_error_iff, map_eq_error_iff], fun c hc => ?_⟩
  obtain ⟨_, hsize, rfl⟩ := map_eq_ok_iff.1 (hx.symm.trans hc)
  refine ⟨leaf (.box b'), by rw [hy, hsize, Except.map], fun q t => ?_⟩
  have hspec : b'.spec = b.spec.atOrigin joint.childLink := rfl
  -- a further joint with a gradient of zero
  have hembeds : (leaf (.box b)).residual.Embeds (withZero n) (·.push t)
      (leaf (.box b')).residual :=
    Leaf.embeds (push_add · · t) (BoxConstraint.intervals_atOrigin hspec)
      (BoxConstraint.rawError_push hspec rfl rfl hkind horigin · t)
      (BoxConstraint.rawJacobian_push hspec rfl rfl hkind horigin · t)
  -- the rows and the projections exist, since links of chains always have a state
  have htotal : (leaf (.box b)).residual.IsTotal := BoxConstraint.isTotal_residual rfl
  obtain ⟨error, gradients, herror, hgradients, -⟩ := htotal q
  refine ⟨⟨error, herror, (hembeds.evaluate q).trans herror⟩, ⟨gradients, hgradients, ?_⟩,
    fun s => ?_⟩
  · refine ((hembeds.jacobian q).trans (congrArg _ hgradients)).trans ?_
    rw [Except.map, funext withZero_embed]
  · exact (hembeds.mirrors (isMatched_residual _)).exists_project htotal s q

/-- A joint that turns a tool ahead of the hand. -/
noncomputable def wristJoint : Joint ℝ where
  name := "wrist"
  childLink := "tool"
  origin := ⟨⟨1, 0, 0⟩, 1⟩
  axis := ⟨0, 1, 0⟩
  lower := -1
  upper := 1
  kind := .revolute

/-- The name of the wrist is new to the example chain. -/
theorem wristJoint_fresh : wristJoint.childLink ∉ turnThenSlide.linkNames := by
  simp [wristJoint, Chain.linkNames, turnThenSlide, turnJoint, slideJoint, Vector.toList_ofFn]

/-- The point ahead of the hand and the tool are kept in the box by the same motions. -/
theorem ofPosition_push_wrist :
    wristJoint.kind = .revolute ∧ turnThenSlide.link? handSpec.link = some (.last 2) ∧
    wristJoint.origin.position = handSpec.linkOffset ∧
    ∃ c', Constraint.ofPosition (.chain (turnThenSlide.push wristJoint wristJoint_fresh))
        (handSpec.atOrigin "tool") = .ok c' ∧
      ∃ o, (Constraint.leaf (.box handConstraint)).residual.project .standard atRest = .ok o ∧
        c'.residual.project .standard (atRest.push 1) =
          .ok ⟨o.status, o.configuration.push 1, o.errorNorm, o.iterations⟩ := by
  have hlink : turnThenSlide.link? handSpec.link = some (.last 2) := rfl
  obtain ⟨-, hbuilt⟩ := Constraint.ofPosition_push wristJoint_fresh rfl hlink rfl
  obtain ⟨c', hc', hsame⟩ := hbuilt _ ofPosition_handSpec
  obtain ⟨-, -, hproject⟩ := hsame atRest 1
  exact ⟨rfl, hlink, rfl, c', hc', hproject .standard⟩

end KinematicManifold
