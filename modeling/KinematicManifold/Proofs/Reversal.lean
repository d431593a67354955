import KinematicManifold.Proofs.Composition
import KinematicManifold.Proofs.Coordinates
import KinematicManifold.Proofs.Locality

/-!
# Joints that are reversed

A joint is reversed when it moves the same way for the opposite change of its value. The links of a
chain whose joints are given by other values, some of them reversed, stand where they stood, and a
column of the Jacobian changes its sign with the sense of its joint. So positions and orientations
ask for the same in the other coordinates.

## Key results

- `Linear.reversal`: reversing is a change of the coordinates of steps
- `Chain.Reverses`: the joints of two chains move alike, some of them reversed
- `Chain.Reverses.linkState`, `Chain.Reverses.model_linkState`: the links of two such chains
- `Chain.Reverses.mirrored_onChain`: positions and orientations on two such chains
-/

namespace KinematicManifold

open Linear Matrix

variable {n : Nat} (reversed : Finset (Fin n))

/-! ## Coordinates that are reversed -/

/-- The sense of a joint: minus one if it is reversed. -/
noncomputable def sense (i : Fin n) : ℝ := if i ∈ reversed then -1 else 1

/-- Reversing a joint twice leaves it as it was. -/
theorem sense_mul_self (i : Fin n) : sense reversed i * sense reversed i = 1 := by
  unfold sense
  split_ifs
  · rw [neg_mul_neg, one_mul]
  · rw [one_mul]

/-- When no joint is reversed each has its sense. -/
@[simp] theorem sense_empty (i : Fin n) : sense ∅ i = 1 := if_neg (Finset.notMem_empty i)

namespace Linear

/-- A vector whose entries change sign for the joints that are reversed. -/
noncomputable def reverse (v : Vector ℝ n) : Vector ℝ n := .ofFn fun i => sense reversed i * v.get i

/-- Reversed values have the sign of the sense of their joint. -/
@[simp] theorem get_reverse (v : Vector ℝ n) (i : Fin n) :
    (reverse reversed v).get i = sense reversed i * v.get i := by
  rw [reverse, get_ofFn]

/-- Reversing is additive. -/
theorem reverse_add (u v : Vector ℝ n) :
    reverse reversed (u + v) = reverse reversed u + reverse reversed v := by
  apply ext_get
  funext i
  simp [mul_add]

/-- Reversing joints is a change of the coordinates of steps. -/
noncomputable def reversal : Embedding n n where
  map := LinearMap.mulLeft ℝ (sense reversed)
  dotProduct_map u v := by
    refine Finset.sum_congr rfl fun i _ => ?_
    rw [LinearMap.mulLeft_apply, LinearMap.mulLeft_apply, Pi.mul_apply, Pi.mul_apply,
      mul_mul_mul_comm, sense_mul_self, one_mul]

/-- As an embedding the reversal of joints reverses their values. -/
theorem reversal_embed (v : Vector ℝ n) : (reversal reversed).embed v = reverse reversed v := by
  apply ext_get
  funext i
  rw [Embedding.get_embed, get_reverse]
  rfl

end Linear

/-! ## Screws and links -/

/-- A screw with a multiple of its axis. -/
noncomputable def Screw.scaled (c : ℝ) (s : Screw ℝ) : Screw ℝ := ⟨s.kind, s.anchor, c • s.axis⟩

/-- A frame on a scaled screw moves at the scaled velocity. -/
theorem Screw.twistAt_scaled (c : ℝ) (s : Screw ℝ) (point : Vec3 ℝ) :
    (s.scaled c).twistAt point = c • s.twistAt point := by
  obtain ⟨kind, anchor, axis⟩ := s
  cases kind with
  | revolute => ext <;> simp [twistAt, scaled] <;> ring
  | prismatic => ext <;> simp [twistAt, scaled]

/-- Scaling by one leaves a screw as it is. -/
theorem Screw.scaled_one (s : Screw ℝ) : s.scaled 1 = s := by
  rw [scaled, one_smul]

/-- The state of a link whose joints are reversed: it moves the other way with each of them. -/
noncomputable def LinkState.reverse (state : LinkState ℝ n) : LinkState ℝ n :=
  ⟨state.pose, .ofFn fun i => sense reversed i • state.jacobian.get i⟩

/-- What a link does linearly with its joints changes as its twists do. -/
theorem LinkState.map_reverse {f : Twist ℝ → ℝ} (hf : ∀ (c : ℝ) twist, f (c • twist) = c * f twist)
    (state : LinkState ℝ n) : (state.reverse reversed).jacobian.map f =
      Linear.reverse reversed (state.jacobian.map f) := by
  apply ext_get
  funext i
  rw [get_map, get_reverse, get_map, reverse, ← hf]
  simp [Vector.get_eq_getElem]

/-- When no joint is reversed the states of links stay as they are. -/
theorem LinkState.reverse_empty : LinkState.reverse (∅ : Finset (Fin n)) = id := by
  funext state
  simp only [reverse, sense_empty, one_smul, ofFn_get, id]

/-! ## Chains -/

/-- The joints of two chains move alike, where the values of the second have their places, and some
of its joints are reversed. -/
structure Chain.Reverses (place : Vector ℝ n → Vector ℝ n) (c c' : Chain ℝ n) : Prop where
  linkNames : c'.linkNames = c.linkNames
  place_add : ∀ q step, place (q + step) = place q + Linear.reverse reversed step
  move : ∀ q i parent,
    (c'.joints.get i).move parent ((place q).get i) = (c.joints.get i).move parent (q.get i)
  screw : ∀ i parent,
    (c'.joints.get i).screw parent = ((c.joints.get i).screw parent).scaled (sense reversed i)

variable {reversed}

namespace Chain.Reverses

variable {place : Vector ℝ n → Vector ℝ n} {c c' : Chain ℝ n} (h : c.Reverses reversed place c')
include h

/-- The links stand where they stood. -/
theorem linkPose (q : Vector ℝ n) (link : Fin (n + 1)) :
    c'.linkPose (place q) link = c.linkPose q link := by
  induction link using Fin.induction with
  | zero => rfl
  | succ i ih => rw [linkPose_succ, linkPose_succ, ih, h.move]

/-- The links move the other way with the joints that are reversed. -/
theorem linkState (q : Vector ℝ n) (link : Fin (n + 1)) :
    c'.linkState (place q) link = (c.linkState q link).reverse reversed := by
  have hcolumns : (c'.linkState (place q) link).jacobian =
      ((c.linkState q link).reverse reversed).jacobian := by
    rw [← ofFn_get (c'.linkState (place q) link).jacobian, LinkState.reverse]
    congr 1
    funext i
    -- the screws start at the same frames and are taken at the same point
    rw [jacobian_get, jacobian_get, h.linkPose, h.linkPose, h.screw, Screw.twistAt_scaled]
    split_ifs
    · rfl
    · rw [smul_zero]
  calc c'.linkState (place q) link
      = ⟨c.linkPose q link, (c'.linkState (place q) link).jacobian⟩ := by rw [← h.linkPose]; rfl
    _ = (c.linkState q link).reverse reversed := by rw [hcolumns]; rfl

/-- Forward kinematics knows the same links of the two chains. -/
theorem model_linkState (q : Vector ℝ n) (name : String) :
    (Model.chain c').linkState (.ofConfiguration (place q)) name =
      ((Model.chain c).linkState (.ofConfiguration q) name).map (LinkState.reverse reversed) := by
  -- links have the same names in both chains
  cases hlink : c.link? name with
  | none =>
    have hlink' : c'.link? name = none := (link?_congr h.linkNames name).trans hlink
    simp only [Model.linkState, Model.link?, hlink, hlink', Option.map_none]
    rfl
  | some link =>
    have hlink' : c'.link? name = some link := (link?_congr h.linkNames name).trans hlink
    rw [Model.linkState_chain hlink, Model.linkState_chain hlink', h.linkState]
    rfl

end Chain.Reverses

/-! ## Constraints -/

/-- A single constraint on the link in the same place of another chain. -/
def Leaf.onChain (chain : Chain ℝ n) : Leaf ℝ n → Leaf ℝ n
  | box ⟨spec, .ofChain _ link⟩ => box ⟨spec, .ofChain chain link⟩
  | orientation ⟨spec, .ofChain _ link⟩ => orientation ⟨spec, .ofChain chain link⟩
  | l => l

/-- A leaf that a chain accepts is about that chain already. -/
theorem Leaf.onChain_of_isAccepted {chain : Chain ℝ n} {l : Leaf ℝ n} (hl : l.IsAccepted chain) :
    l.onChain chain = l := by
  -- the link of an accepted leaf is on the chain already
  cases l with
  | box c =>
    obtain ⟨spec, link⟩ := c
    obtain ⟨k, -, rfl⟩ := hl
    rfl
  | orientation c =>
    obtain ⟨spec, link⟩ := c
    obtain ⟨⟨k, -, rfl⟩, -⟩ := hl
    rfl
  | jointLimits limits => rfl
  | affine c => rfl

namespace Chain.Reverses

variable {place : Vector ℝ n → Vector ℝ n} {c c' : Chain ℝ n} (h : c.Reverses reversed place c')
include h

/-- A position is the same on the two chains. -/
theorem embeds_box (spec : PositionSpec ℝ) (k : Fin (n + 1)) :
    (Constraint.leaf (.box ⟨spec, .ofChain c k⟩)).residual.Embeds (reversal reversed) place
      (Constraint.leaf (.box ⟨spec, .ofChain c' k⟩)).residual := by
  refine Leaf.embeds (fun q step => ?_) rfl (fun q => ?_) fun q => ?_
  · rw [reversal_embed, h.place_add]
  · rw [Leaf.rawError, Leaf.rawError, BoxConstraint.rawError_eq_ok rfl,
      BoxConstraint.rawError_eq_ok rfl, h.linkPose]
    rfl
  · let b : BoxConstraint ℝ n := ⟨spec, .ofChain c k⟩
    -- velocities are linear in the twist, whose sign is that of its joint
    have hvelocities : b.velocitiesInBox ((c.linkState q k).reverse reversed) =
        (b.velocitiesInBox (c.linkState q k)).map (reversal reversed).embed := by
      simp only [BoxConstraint.velocitiesInBox, Vector.map_map, List.map_map]
      refine List.map_congr_left fun axis _ => ?_
      rw [Function.comp_apply, reversal_embed]
      refine LinkState.map_reverse reversed (fun a twist => ?_) (c.linkState q k)
      simp [Twist.velocityAt, Mat3.apply_smul, ← smul_sub]
    rw [Leaf.rawJacobian, Leaf.rawJacobian, BoxConstraint.rawJacobian_eq_ok rfl,
      BoxConstraint.rawJacobian_eq_ok rfl, h.linkState]
    exact congrArg Except.ok hvelocities

/-- An orientation is the same on the two chains. -/
theorem embeds_orientation (spec : OrientationSpec ℝ) (k : Fin (n + 1)) :
    (Constraint.leaf (.orientation ⟨spec, .ofChain c k⟩)).residual.Embeds (reversal reversed) place
      (Constraint.leaf (.orientation ⟨spec, .ofChain c' k⟩)).residual := by
  refine Leaf.embeds (fun q step => ?_) rfl (fun q => ?_) fun q => ?_
  · rw [reversal_embed, h.place_add]
  · simp only [Leaf.rawError, OrientationConstraint.rawError, Link.state_ofChain, h.linkState]
    rfl
  · -- so are rates of rotation
    have hrates (inverse : Mat3 ℝ) (axis : Axis) :
        (((c.linkState q k).reverse reversed).jacobian.map fun twist =>
            (inverse.apply twist.angular).along axis) =
          (reversal reversed).embed ((c.linkState q k).jacobian.map fun twist =>
            (inverse.apply twist.angular).along axis) := by
      rw [reversal_embed]
      refine LinkState.map_reverse reversed (fun a twist => ?_) (c.linkState q k)
      simp [Mat3.apply_smul]
    -- the pose is the same in both chains
    have hdeviation : OrientationConstraint.deviation ⟨spec, .ofChain c' k⟩
        ((c.linkState q k).reverse reversed).pose =
          OrientationConstraint.deviation ⟨spec, .ofChain c k⟩ (c.linkState q k).pose := rfl
    simp only [Leaf.rawJacobian, OrientationConstraint.rawJacobian, Link.state_ofChain,
      h.linkState, bind, Except.bind, Vector.map_map, Function.comp_def, hrates, hdeviation]
    cases OrientationConstraint.deviation ⟨spec, .ofChain c k⟩ (c.linkState q k).pose with
    | error fault => rfl
    | ok deviation => rfl

/-- Positions and orientations ask for the same on the two chains. -/
theorem mirrored_onChain {l : Leaf ℝ n} (hl : l.IsAccepted c)
    (hkind : ∀ limits, l ≠ .jointLimits limits) (q : Vector ℝ n) :
    Mirrored (reversal reversed) (l.evaluate q) ((l.onChain c').evaluate (place q)) (l.jacobian q)
      ((l.onChain c').jacobian (place q)) := by
  cases l with
  | box b =>
    obtain ⟨spec, link⟩ := b
    -- the rows are the same, and the gradients are reversed
    obtain ⟨k, -, rfl⟩ := hl
    exact ((h.embeds_box spec k).mirrors (Constraint.isMatched_residual _)).mirrored q
  | orientation o =>
    obtain ⟨spec, link⟩ := o
    obtain ⟨⟨k, -, rfl⟩, -⟩ := hl
    exact ((h.embeds_orientation spec k).mirrors (Constraint.isMatched_residual _)).mirrored q
  | jointLimits limits => exact absurd rfl (hkind limits)
  | affine a => exact hl.elim

end Chain.Reverses

end KinematicManifold
