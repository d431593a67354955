import KinematicManifold.Proofs.Satisfaction
import KinematicManifold.Proofs.Stacks

/-!
# Joints that do not matter

A joint that comes after a link does not move it, so that the gradients of what is asked of the link
know nothing of the joint. Nor do those of joint limits, while the joint is within its own. A
projection over the real numbers takes its steps in the span of the gradients, and leaves every such
joint where it is: since it does not move, it stays within its limits.

## Key results

- `Chain.linkState_get_eq_zero`: links are not moved by the joints after them
- `Leaf.get_eq_zero_of_mem_jacobian`: gradients that know nothing of a joint
- `Constraint.project_get_eq`: joints that do not matter are not moved
-/

namespace KinematicManifold

variable {n : Nat}

/-! ## Joints after a link -/

/-- A joint that comes after a link does not move it. -/
theorem Chain.linkState_get_eq_zero (chain : Chain ℝ n) (q : Vector ℝ n) {link : Fin (n + 1)}
    {j : Fin n} (h : link ≤ j.castSucc) : (chain.linkState q link).jacobian.get j = 0 := by
  have hlength : (screwsAlong .identity (chain.jointsTo q link)).length ≤ j := by
    rw [length_screwsAlong, jointsTo, List.length_take]
    exact (min_le_left _ _).trans h
  rw [linkState, twistsAt, Vector.get_eq_getElem, Vector.getElem_ofFn,
    List.getElem?_eq_none hlength]
  rfl

/-- The entries of a mapped vector are the mapped entries. -/
theorem get_map {α β : Type} (f : α → β) (v : Vector α n) (j : Fin n) :
    (v.map f).get j = f (v.get j) := by
  rw [Vector.get_eq_getElem, Vector.getElem_map, Vector.get_eq_getElem]

/-! ## Gradients that know nothing of a joint -/

section
variable {q : Vector ℝ n} {j : Fin n} {gradients : List (Vector ℝ n)}

/-- The place of a point knows nothing of a joint that does not move its link. -/
theorem BoxConstraint.get_eq_zero_of_mem_rawJacobian {c : BoxConstraint ℝ n} {state : LinkState ℝ n}
    (hstate : c.link.state q = .ok state) (hstill : state.jacobian.get j = 0)
    (h : c.rawJacobian q = .ok gradients) : ∀ g ∈ gradients, g.get j = 0 := by
  obtain ⟨same, hsame, h⟩ := bind_eq_ok_iff.1 h
  obtain rfl := Except.ok.inj (hstate.symm.trans hsame)
  obtain rfl := Except.ok.inj h
  rw [velocitiesInBox, List.forall_mem_map]
  intro axis _
  rw [get_map, get_map, hstill, Twist.velocityAt]
  simp

/-- The deviation of a link knows nothing of a joint that does not move it. -/
theorem OrientationConstraint.get_eq_zero_of_mem_rawJacobian {c : OrientationConstraint ℝ n}
    {state : LinkState ℝ n} (hstate : c.link.state q = .ok state)
    (hstill : state.jacobian.get j = 0) (h : c.rawJacobian q = .ok gradients) :
    ∀ g ∈ gradients, g.get j = 0 := by
  obtain ⟨same, hsame, h⟩ := bind_eq_ok_iff.1 h
  obtain rfl := Except.ok.inj (hstate.symm.trans hsame)
  obtain ⟨deviation, -, h⟩ := bind_eq_ok_iff.1 h
  obtain rfl := Except.ok.inj h
  rw [List.forall_mem_map]
  intro axis _
  rw [get_map, get_map, hstill]
  simp

/-- The gradients of joint limits: for each joint, the slope along its own value. -/
theorem JointLimits.jacobian_eq_ok (limits : JointLimits ℝ n) (q : Vector ℝ n) :
    Leaf.jacobian (.jointLimits limits) q = .ok ((List.finRange n).map fun i => Linear.scale
      ((Interval.mk (limits.lower.get i) (limits.upper.get i)).slope (q.get i))
      (.ofFn fun k => if i = k then 1 else 0)) := by
  refine congrArg Except.ok (List.ext_getElem ?_ fun i hi hi' => ?_)
  · simp [Leaf.intervals, intervals]
  · simp [Leaf.intervals, intervals, unitRows, Vector.get_eq_getElem]

/-- A joint does not matter to a single constraint on a chain: it comes after the link that is
constrained, and its value is within its limits. -/
structure Leaf.Ignores (chain : Chain ℝ n) (l : Leaf ℝ n) (j : Fin n) (value : ℝ) : Prop where
  link_le : ∀ name link, l.linkName = some name → chain.link? name = some link → link ≤ j.castSucc
  within : ∀ limits, l = .jointLimits limits →
    limits.lower.get j ≤ value ∧ value ≤ limits.upper.get j

/-- The gradients of a single constraint know nothing of a joint that does not matter to it. -/
theorem Leaf.get_eq_zero_of_mem_jacobian {chain : Chain ℝ n} {l : Leaf ℝ n}
    (haccepted : l.IsAccepted chain) (hignores : l.Ignores chain j (q.get j))
    (h : l.jacobian q = .ok gradients) : ∀ g ∈ gradients, g.get j = 0 := by
  -- where the raw gradients know nothing of the joint, their multiples do not either
  have hmultiples (hraw : ∀ raw, l.rawJacobian q = .ok raw → ∀ g ∈ raw, g.get j = 0) :
      ∀ g ∈ gradients, g.get j = 0 := by
    obtain ⟨rawError, -, h⟩ := bind_eq_ok_iff.1 h
    obtain ⟨raw, hrawJacobian, h⟩ := bind_eq_ok_iff.1 h
    obtain rfl := Except.ok.inj h
    intro g hg
    obtain ⟨slope, gradient, hpair, rfl⟩ := mem_zipWith_iff.1 hg
    rw [Linear.get_scale, Pi.smul_apply, hraw raw hrawJacobian _ (List.of_mem_zip hpair).2,
      smul_zero]
  cases l with
  | box c =>
    obtain ⟨link, hlink, hchain⟩ := haccepted
    have hstill := chain.linkState_get_eq_zero q (hignores.link_le _ link rfl hlink)
    exact hmultiples fun _ hraw => c.get_eq_zero_of_mem_rawJacobian
      (by rw [hchain, Link.state_ofChain]) hstill hraw
  | orientation c =>
    obtain ⟨⟨link, hlink, hchain⟩, -⟩ := haccepted
    have hstill := chain.linkState_get_eq_zero q (hignores.link_le _ link rfl hlink)
    exact hmultiples fun _ hraw => c.get_eq_zero_of_mem_rawJacobian
      (by rw [hchain, Link.state_ofChain]) hstill hraw
  | jointLimits limits =>
    rw [JointLimits.jacobian_eq_ok] at h
    obtain rfl := Except.ok.inj h
    rw [List.forall_mem_map]
    intro i _
    rw [Linear.get_scale, Pi.smul_apply, Linear.get_ofFn]
    -- the row of the joint itself has no slope within the limits
    by_cases hsame : i = j
    · subst hsame
      have hcontains : (Interval.mk (limits.lower.get i) (limits.upper.get i)).Contains (q.get i) :=
        hignores.within limits rfl
      rw [Interval.slope_of_contains hcontains, zero_smul]
    · rw [if_neg hsame, smul_zero]
  | affine c => exact haccepted.elim

end

/-! ## Projections -/

/-- A point of a link of a chain has an error and gradients everywhere. -/
theorem BoxConstraint.isTotal_residual {chain : Chain ℝ n} {link : Fin (n + 1)}
    {b : BoxConstraint ℝ n} (hlink : b.link = .ofChain chain link) :
    (Constraint.leaf (.box b)).residual.IsTotal := by
  refine Constraint.isTotal_residual fun l hl q => ?_
  rw [Constraint.leaves, List.mem_singleton] at hl
  exact ⟨_, hl ▸ evaluate_eq_ok hlink q⟩

/-- An accepted constraint on a chain with rigid origins has an error and gradients everywhere. -/
theorem Constraint.BuiltOn.isTotal {chain : Chain ℝ n} {c : Constraint ℝ n}
    (hbuilt : c.BuiltOn (.chain chain)) (hrigid : chain.IsRigid) : c.residual.IsTotal := by
  refine Constraint.isTotal_residual fun l hl q => ?_
  have haccepted := hbuilt.isAccepted l hl
  -- what is built on a rigid chain evaluates everywhere
  cases l with
  | box b =>
    obtain ⟨link, -, hlink⟩ := haccepted
    exact ⟨_, BoxConstraint.evaluate_eq_ok hlink q⟩
  | orientation o =>
    obtain ⟨⟨link, -, hlink⟩, htarget, -⟩ := haccepted
    exact ⟨_, OrientationConstraint.evaluate_eq_ok hrigid hlink htarget q⟩
  | jointLimits limits => exact ⟨_, rfl⟩
  | affine a => exact haccepted.elim

/-- A projection leaves every joint where it is that comes after all links that are constrained and
is within its limits, however the projection ends. On a chain with rigid origins it does end. -/
theorem Constraint.project_get_eq {chain : Chain ℝ n} {c : Constraint ℝ n}
    (hbuilt : c.BuiltOn (.chain chain)) (s : Settings ℝ) {q : Vector ℝ n} {j : Fin n}
    (hignores : ∀ l ∈ c.leaves, l.Ignores chain j (q.get j)) :
    (∀ o, c.residual.project s q = .ok o → o.configuration.get j = q.get j) ∧
      (chain.IsRigid → ∃ o, c.residual.project s q = .ok o) := by
  refine ⟨fun o ho => ?_, fun hrigid => Residual.exists_run_eq_ok (hbuilt.isTotal hrigid)
    (not_dampingOverflows s.damping) s.maxIterations q 0⟩
  refine get_eq_of_visits (fun p gradients hp hgradients g hg => ?_) (Residual.run_visits ho)
  obtain ⟨l, hl, rows, hjacobian, hg⟩ := exists_leaf_of_mem_jacobian hgradients hg
  -- as long as the joint is where it was, it matters as little
  have hstill := hignores l hl
  rw [← hp] at hstill
  exact Leaf.get_eq_zero_of_mem_jacobian (hbuilt.isAccepted l hl) hstill hjacobian g hg

/-- The arm is kept near its target, and the joints in their limits. -/
noncomputable def armTask : Constraint ℝ 2 :=
  .intersection [.leaf (.orientation armConstraint), .intersection [.ofJointLimits rangeLimits]]

/-- The task of the example is built on the example chain. -/
theorem builtOn_armTask : armTask.BuiltOn (.chain turnThenSlide) := by
  have hlimits := Constraint.BuiltOn.modelLimits ofModelLimits_turnThenSlide
  have hinner : (Constraint.intersection [.ofJointLimits rangeLimits]).BuiltOn
      (.chain turnThenSlide) :=
    .intersection (Constraint.intersect_map_mk (by simp)) (by simpa using hlimits)
  exact .intersection (Constraint.intersect_map_mk (by simp))
    (by simpa using ⟨builtOn_armConstraint, hinner⟩)

/-- The slide carries the hand, and matters to the arm as little as to the limits. -/
theorem ignores_slide : ∀ l ∈ armTask.leaves, l.Ignores turnThenSlide 1 0 := by
  simp only [armTask, Constraint.leaves, Constraint.leavesAll, Constraint.ofJointLimits,
    List.cons_append, List.nil_append, List.forall_mem_cons]
  -- the arm comes before the slide
  have harm : Leaf.Ignores turnThenSlide (.orientation armConstraint) 1 0 := by
    constructor
    · intro name link hname hlink
      obtain rfl := Option.some.inj hname
      obtain rfl := Option.some.inj (hlink.symm.trans link?_arm)
      exact le_rfl
    · intro limits hlimits
      cases hlimits
  -- and zero is within the limits of the slide
  have hlimits : Leaf.Ignores turnThenSlide (.jointLimits rangeLimits) 1 0 := by
    constructor
    · intro name link hname
      cases hname
    · intro limits hlimits
      obtain rfl := Leaf.jointLimits.inj hlimits
      norm_num [rangeLimits]
  exact ⟨harm, hlimits, List.forall_mem_nil _⟩

/-- The arm is turned too far, and turned back without the slide being moved. -/
theorem project_get_eq_slide :
    armTask.BuiltOn (.chain turnThenSlide) ∧
    (∀ l ∈ armTask.leaves, l.Ignores turnThenSlide 1 ((.ofFn ![1 + 1, 0] : Vector ℝ 2).get 1)) ∧
    turnThenSlide.IsRigid ∧
    ∃ o, armTask.residual.project .standard (.ofFn ![1 + 1, 0]) = .ok o ∧
      o.configuration.get 1 = (.ofFn ![1 + 1, 0] : Vector ℝ 2).get 1 := by
  have hignores : ∀ l ∈ armTask.leaves,
      l.Ignores turnThenSlide 1 ((.ofFn ![1 + 1, 0] : Vector ℝ 2).get 1) := by
    rw [Linear.get_ofFn]
    exact ignores_slide
  obtain ⟨hstill, hends⟩ := Constraint.project_get_eq builtOn_armTask .standard hignores
  obtain ⟨o, ho⟩ := hends isRigid_turnThenSlide
  exact ⟨builtOn_armTask, hignores, isRigid_turnThenSlide, o, ho, hstill o ho⟩

end KinematicManifold
