import KinematicManifold.Proofs.BundleEntries
import KinematicManifold.Proofs.References
import KinematicManifold.Proofs.SerialTree

/-!
# What is accepted from a caller

The numbers of a constraint come from a caller: half extents, offsets and poses of boxes, targets
and tolerances, joint limits, and the joints of the chain. A constraint that is accepted is made of
single constraints from accepted descriptions, and accepted joints carry their links. So whatever
descriptions are checked for holds of each of them.

## Key results

- `Model.IsDescribed`, `Constraint.Accepted`: what the constructors accept from a caller
- `Constraint.Accepted.leaves`: the single constraints of an accepted constraint are accepted
- `Link.isAccepted_of_requireLink`: what is known of the joints that carry a link
-/

namespace KinematicManifold

variable {K : Type} [Scalar K] {n : Nat}

/-! ## Joints and links -/

/-- A model that is made of joints, each of which is described and accepted. -/
def Model.IsDescribed (m : Model K n) : Prop :=
  ∃ (base : String) (descriptions : List (JointDescription K)) (specs : List (JointSpec K)),
    descriptions.mapM JointDescription.build = .ok specs ∧ Model.ofJoints base specs = .ok ⟨n, m⟩

/-- A joint whose axis was accepted as it stands. -/
def Joint.IsAccepted (j : Joint K) : Prop :=
  ∃ spec : JointSpec K, ¬spec.axis.norm < shortestAxis ∧ spec.joint? = some j

/-- A link that no joint moves, or that accepted joints carry. -/
def Link.IsAccepted : Link K n → Prop
  | .ofChain c _ => ∀ j ∈ c.joints.toList, j.IsAccepted
  | .ofTree _ _ => False
  | .still | .immovable => True

/-- The joints of a described chain were accepted. -/
theorem Model.isAccepted_of_isDescribed {c : Chain K n} (h : (Model.chain c).IsDescribed) :
    ∀ j ∈ c.joints.toList, j.IsAccepted := by
  obtain ⟨base, descriptions, specs, hspecs, hmodel⟩ := h
  intro j hj
  obtain ⟨d, spec, hbuild, hjoint⟩ := JointDescription.exists_of_mem_joints hspecs hmodel hj
  exact ⟨spec, not_norm_lt_of_readAxis (JointDescription.readAxis_of_build hbuild), hjoint⟩

/-- A link that is found in a described model is carried by accepted joints. -/
theorem Link.isAccepted_of_requireLink {m : Model K n} (hm : m.IsDescribed) {name : String}
    {link : Link K n} (h : m.requireLink name = .ok link) : link.IsAccepted := by
  have hfound := Model.link?_of_requireLink h
  cases m with
  | chain c =>
    obtain ⟨k, -, rfl⟩ := Option.map_eq_some_iff.1 hfound
    exact Model.isAccepted_of_isDescribed hm
  | tree t =>
    -- joints make no tree
    obtain ⟨base, descriptions, specs, -, hmodel⟩ := hm
    unfold Model.ofJoints at hmodel
    split at hmodel <;>
    · obtain ⟨c, -, hsame⟩ := map_eq_ok_iff.1 hmodel
      cases hsame
  | immovable c =>
    simp only [Model.link?] at hfound
    split_ifs at hfound <;>
    · obtain rfl := Option.some.inj hfound
      trivial

/-! ## Constraints -/

/-- A single constraint that is made from what a caller gives, if that is accepted. -/
inductive Leaf.Accepted : Leaf K n → Prop
  | box {d : PositionDescription K} {spec : PositionSpec K} {link : Link K n} :
      d.build = .ok spec → link.IsAccepted → Accepted (.box ⟨spec, link⟩)
  | orientation {d : OrientationDescription K} {spec : OrientationSpec K} {link : Link K n} :
      d.build = .ok spec → link.IsAccepted → Accepted (.orientation ⟨spec, link⟩)
  | jointLimits {given limits : JointLimits K n} :
      given.check = .ok limits → Accepted (.jointLimits limits)

/-- A constraint that the constructors accept from a caller. -/
inductive Constraint.Accepted : Constraint K n → Prop
  | position {m : Model K n} {d : PositionDescription K} {spec : PositionSpec K}
      {c : Constraint K n} : m.IsDescribed → d.build = .ok spec → ofPosition m spec = .ok c →
      Accepted c
  | orientation {m : Model K n} {d : OrientationDescription K} {spec : OrientationSpec K}
      {c : Constraint K n} : m.IsDescribed → d.build = .ok spec → ofOrientation m spec = .ok c →
      Accepted c
  | jointLimits {d : JointLimitsDescription K} {limits : JointLimits K n} :
      d.build = .ok ⟨n, limits⟩ → Accepted (ofJointLimits limits)
  | modelLimits {m : Model K n} {c : Constraint K n} : m.IsDescribed →
      ofModelLimits m = .ok c → Accepted c
  | intersection {members : List (Constraint K n)} {c : Constraint K n} :
      intersect (members.map (Sigma.mk n)) = .ok ⟨n, c⟩ →
      (∀ member ∈ members, Accepted member) → Accepted c

/-- What is accepted is accepted together. -/
theorem Constraint.Accepted.together {members : List (Constraint K n)} (hne : members ≠ [])
    (h : ∀ member ∈ members, member.Accepted) : (Constraint.intersection members).Accepted :=
  .intersection (intersect_map_mk hne) h

/-- Limits of a joint at least are accepted, unless a lower one lies above the upper one. -/
theorem Constraint.accepted_ofJointLimits {limits : JointLimits K n} (hn : n ≠ 0)
    (h : ∀ i, ¬limits.upper.get i < limits.lower.get i) : (ofJointLimits limits).Accepted := by
  have hcheck := JointLimits.check_eq_ok_iff.2 ⟨⟨hn, JointLimits.crossed_eq_nil_iff.2 h⟩, rfl⟩
  refine .jointLimits (d := ⟨.ofConfiguration limits.lower, .ofConfiguration limits.upper⟩) ?_
  rw [JointLimitsDescription.build_ofConfiguration, hcheck]
  rfl

/-- However it is nested, an accepted constraint is made of accepted single constraints. -/
theorem Constraint.Accepted.leaves {c : Constraint K n} (h : c.Accepted) :
    ∀ l ∈ c.leaves, l.Accepted := by
  induction h with
  | position hm hspec hbuilt =>
    obtain ⟨link, hlink, -, rfl⟩ := ofPosition_eq_ok_iff.1 hbuilt
    exact forall_leaves_leaf (.box hspec (Link.isAccepted_of_requireLink hm hlink))
  | orientation hm hspec hbuilt =>
    obtain ⟨link, hlink, -, rfl⟩ := ofOrientation_eq_ok_iff.1 hbuilt
    exact forall_leaves_leaf (.orientation hspec (Link.isAccepted_of_requireLink hm hlink))
  | jointLimits hlimits =>
    obtain ⟨given, hchecked⟩ := JointLimitsDescription.exists_check_eq_ok hlimits
    exact forall_leaves_leaf (.jointLimits hchecked)
  | modelLimits _ hbuilt =>
    obtain ⟨limits, hchecked, rfl⟩ := ofModelLimits_eq_ok_iff.1 hbuilt
    exact forall_leaves_leaf (.jointLimits hchecked)
  | intersection hbuilt _ ih =>
    obtain ⟨-, rfl⟩ := intersect_map_mk_eq_ok_iff.1 hbuilt
    exact forall_leaves_intersection ih

end KinematicManifold
