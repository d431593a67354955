import KinematicManifold.Proofs.WellSized

/-!
# Relaxed constraints

A constraint is relaxed where it asks for less: an axis of a box is freed or its half extent is
enlarged, a tolerance is enlarged, the limits of a joint are widened, or a member of an intersection
is dropped. What is left of the error are rows of the constraint, none of which has grown, so that
the error is no longer than it was.

## Key results

- `Interval.abs_excess_le_of_wider`: the excess over a wider interval
- `RowsShrinkTo`, `RowsShrinkTo.rowsNorm_le`: rows that are left out or have not grown
- `Leaf.RelaxedTo`, `Constraint.RelaxedTo`: what it means to relax a constraint
- `Leaf.RelaxedTo.exists_evaluate`, `Constraint.RelaxedTo.exists_evaluate`: the rows that are left
- `Constraint.project_relaxed`: a relaxed constraint is nearer, satisfied where the constraint is,
  and holds where a projection onto the constraint succeeds
-/

namespace KinematicManifold

variable {n : Nat}

/-! ## Rows that have not grown -/

/-- The excess over a wider interval is no greater. -/
theorem Interval.abs_excess_le_of_wider {i i' : Interval ℝ} (hordered : i.lower ≤ i.upper)
    (hlower : i'.lower ≤ i.lower) (hupper : i.upper ≤ i'.upper) (value : ℝ) :
    |i'.excess value| ≤ |i.excess value| := by
  -- what the excess leaves of the value lies in the wider interval as well
  obtain ⟨hge, hle⟩ := contains_sub_excess hordered value
  have hcontains : i'.Contains (value - i.excess value) := ⟨hlower.trans hge, hle.trans hupper⟩
  simpa using abs_excess_le hcontains value

/-- A value exceeds a longer symmetric interval by no more than a shorter one. -/
theorem Interval.abs_excess_symmetric_le {bound bound' : ℝ} (hbound : 0 ≤ bound)
    (h : bound ≤ bound') (value : ℝ) :
    |(symmetric bound').excess value| ≤ |(symmetric bound).excess value| :=
  abs_excess_le_of_wider (neg_le_self hbound) (neg_le_neg h) h value

/-- Some rows are left, none of which has grown. -/
def RowsShrinkTo (rows rows' : List ℝ) : Prop :=
  List.SublistForall₂ (fun row' row => |row'| ≤ |row|) rows' rows

/-- Rows that shrink to other rows do so together with further ones. -/
theorem RowsShrinkTo.append {first first' second second' : List ℝ}
    (hfirst : RowsShrinkTo first first') (hsecond : RowsShrinkTo second second') :
    RowsShrinkTo (first ++ second) (first' ++ second') := by
  obtain ⟨kept, hrows, hsub⟩ := List.sublistForall₂_iff.1 hfirst
  obtain ⟨kept', hrows', hsub'⟩ := List.sublistForall₂_iff.1 hsecond
  exact List.sublistForall₂_iff.2 ⟨kept ++ kept', List.rel_append hrows hrows', hsub.append hsub'⟩

/-- All rows may be left out. -/
theorem RowsShrinkTo.nil (rows : List ℝ) : RowsShrinkTo rows [] := List.SublistForall₂.nil

/-- Over the same entries, rows shrink if each of them does. -/
theorem RowsShrinkTo.map {α : Type} {kept all : List α} {f f' : α → ℝ} (hsub : kept.Sublist all)
    (h : ∀ a ∈ kept, |f' a| ≤ |f a|) : RowsShrinkTo (all.map f) (kept.map f') := by
  refine List.sublistForall₂_iff.2 ⟨kept.map f, ?_, hsub.map f⟩
  rw [List.forall₂_map_left_iff, List.forall₂_map_right_iff, List.forall₂_same]
  exact h

/-- An error some of whose rows are left, none of which has grown, is no longer than it was. -/
theorem RowsShrinkTo.rowsNorm_le {rows rows' : List ℝ} (h : RowsShrinkTo rows rows') :
    Linear.rowsNorm rows' ≤ Linear.rowsNorm rows := by
  rw [Linear.rowsNorm_eq, Linear.rowsNorm_eq]
  refine Real.sqrt_le_sqrt ?_
  -- rows shrink or are left out, and neither adds to the sum of squares
  induction h with
  | nil => exact List.sum_nonneg (by simpa using fun row _ => sq_nonneg row)
  | cons hrow _ ih =>
    rw [List.map_cons, List.map_cons, List.sum_cons, List.sum_cons]
    exact add_le_add (sq_le_sq.2 hrow) ih
  | cons_right _ ih =>
    rw [List.map_cons, List.sum_cons]
    exact ih.trans (le_add_of_nonneg_left (sq_nonneg _))

/-! ## Single constraints -/

namespace Leaf

/-- A single constraint asks for less. Along each axis of its box, which stands where it did, the
half extent has grown or the axis is free; the tolerances of its target have grown; the limits of
each joint are wider. -/
inductive RelaxedTo : Leaf ℝ n → Leaf ℝ n → Prop
  | box {c c' : BoxConstraint ℝ n} (hlink : c'.link = c.link) (hbox : c'.spec.box = c.spec.box)
      (hoffset : c'.spec.linkOffset = c.spec.linkOffset)
      (hextents : ∀ axis, c'.spec.halfExtents.along axis < 0 ∨
        0 ≤ c.spec.halfExtents.along axis ∧
          c.spec.halfExtents.along axis ≤ c'.spec.halfExtents.along axis) :
      RelaxedTo (.box c) (.box c')
  | orientation {c c' : OrientationConstraint ℝ n} (hlink : c'.link = c.link)
      (htarget : c'.spec.target = c.spec.target)
      (htolerances : ∀ axis, c.spec.tolerances.along axis ≤ c'.spec.tolerances.along axis) :
      RelaxedTo (.orientation c) (.orientation c')
  | jointLimits {limits limits' : JointLimits ℝ n}
      (hlower : ∀ i, limits'.lower.get i ≤ limits.lower.get i)
      (hupper : ∀ i, limits.upper.get i ≤ limits'.upper.get i) :
      RelaxedTo (.jointLimits limits) (.jointLimits limits')

section
variable {q : Vector ℝ n} {error : List ℝ}

/-- Along the axes of a box that are still constrained the error has not grown. -/
theorem exists_evaluate_box {c c' : BoxConstraint ℝ n} (hlink : c'.link = c.link)
    (hbox : c'.spec.box = c.spec.box) (hoffset : c'.spec.linkOffset = c.spec.linkOffset)
    (hextents : ∀ axis, c'.spec.halfExtents.along axis < 0 ∨
      0 ≤ c.spec.halfExtents.along axis ∧
        c.spec.halfExtents.along axis ≤ c'.spec.halfExtents.along axis)
    (herror : evaluate (.box c) q = .ok error) :
    ∃ error', evaluate (.box c') q = .ok error' ∧ RowsShrinkTo error error' := by
  obtain ⟨raw, hraw, -⟩ := bind_eq_ok_iff.1 herror
  obtain ⟨state, hstate, -⟩ := bind_eq_ok_iff.1 hraw
  rw [BoxConstraint.evaluate_of_state hstate, Except.ok.injEq] at herror
  subst herror
  rw [← hlink] at hstate
  have hpoint : c'.pointInBox state.pose = c.pointInBox state.pose := by
    rw [BoxConstraint.pointInBox, BoxConstraint.pointInBox, BoxConstraint.offsetOf,
      BoxConstraint.offsetOf, hbox, hoffset]
  -- an axis that is still constrained was constrained, by less
  have haxes (axis : Axis) (haxis : 0 ≤ c'.spec.halfExtents.along axis) :
      0 ≤ c.spec.halfExtents.along axis ∧
        c.spec.halfExtents.along axis ≤ c'.spec.halfExtents.along axis :=
    (hextents axis).resolve_left haxis.not_gt
  refine ⟨_, BoxConstraint.evaluate_of_state hstate, .map ?_ fun axis haxis => ?_⟩
  · refine List.monotone_filter_right _ fun axis haxis => ?_
    simpa using (haxes axis (by simpa using haxis)).1
  · have hkept := haxes axis (of_decide_eq_true (List.mem_filter.1 haxis).2)
    rw [hpoint]
    exact Interval.abs_excess_symmetric_le hkept.1 hkept.2 _

/-- No component of a deviation has a greater excess over tolerances that have grown. -/
theorem exists_evaluate_orientation {c c' : OrientationConstraint ℝ n} (hlink : c'.link = c.link)
    (htarget : c'.spec.target = c.spec.target)
    (hnonneg : ∀ axis, 0 ≤ c.spec.tolerances.along axis)
    (htolerances : ∀ axis, c.spec.tolerances.along axis ≤ c'.spec.tolerances.along axis)
    (herror : evaluate (.orientation c) q = .ok error) :
    ∃ error', evaluate (.orientation c') q = .ok error' ∧ RowsShrinkTo error error' := by
  obtain ⟨raw, hraw, -⟩ := bind_eq_ok_iff.1 herror
  obtain ⟨state, hstate, hraw⟩ := bind_eq_ok_iff.1 hraw
  obtain ⟨φ, hφ, -⟩ := bind_eq_ok_iff.1 hraw
  rw [OrientationConstraint.evaluate_of_deviation hstate hφ, Except.ok.injEq] at herror
  subst herror
  rw [← hlink] at hstate
  -- the deviation is the same, as link and target are
  have hφ' : c'.deviation state.pose = .ok φ := by
    rw [← hφ, OrientationConstraint.deviation, OrientationConstraint.deviation,
      OrientationConstraint.targetRotation, OrientationConstraint.targetRotation, htarget]
  refine ⟨_, OrientationConstraint.evaluate_of_deviation hstate hφ', ?_⟩
  change RowsShrinkTo (Axis.all.map (c.excess φ).along) (Axis.all.map (c'.excess φ).along)
  -- and no axis exceeds a larger tolerance by more
  refine .map (List.Sublist.refl _) fun axis _ => ?_
  rw [OrientationConstraint.excess, OrientationConstraint.excess, Vec3.along_ofAlong,
    Vec3.along_ofAlong]
  exact Interval.abs_excess_symmetric_le (hnonneg axis) (htolerances axis) _

/-- No joint is farther from limits that are wider. -/
theorem exists_evaluate_jointLimits {limits limits' : JointLimits ℝ n}
    (hordered : ∀ i, limits.lower.get i ≤ limits.upper.get i)
    (hlower : ∀ i, limits'.lower.get i ≤ limits.lower.get i)
    (hupper : ∀ i, limits.upper.get i ≤ limits'.upper.get i)
    (herror : evaluate (.jointLimits limits) q = .ok error) :
    ∃ error', evaluate (.jointLimits limits') q = .ok error' ∧ RowsShrinkTo error error' := by
  rw [JointLimits.evaluate_eq_ok, Except.ok.injEq] at herror
  subst herror
  refine ⟨_, JointLimits.evaluate_eq_ok limits' q, .map (List.Sublist.refl _) fun i _ => ?_⟩
  exact Interval.abs_excess_le_of_wider (hordered i) (hlower i) (hupper i) _

/-- Rows of a single constraint are left, none of which has grown. -/
theorem RelaxedTo.exists_evaluate {model : Model ℝ n} {l l' : Leaf ℝ n} (h : l.RelaxedTo l')
    (hbuilt : l.BuiltOn model) (herror : l.evaluate q = .ok error) :
    ∃ error', l'.evaluate q = .ok error' ∧ RowsShrinkTo error error' := by
  cases h with
  | box hlink hbox hoffset hextents =>
    exact exists_evaluate_box hlink hbox hoffset hextents herror
  | orientation hlink htarget htolerances =>
    cases hbuilt with
    | orientation hspec _ _ =>
      -- wider tolerances leave less, as the narrow ones are not negative
      have hnonneg := (OrientationDescription.of_build_eq_ok hspec).2
      exact exists_evaluate_orientation hlink htarget hnonneg htolerances herror
  | jointLimits hlower hupper =>
    cases hbuilt with
    | jointLimits hchecked =>
      -- and so do wider limits, as the narrow ones are in order
      have hordered := JointLimits.of_check_eq_ok hchecked
      exact exists_evaluate_jointLimits hordered hlower hupper herror

end

end Leaf

/-! ## Constraints -/

namespace Constraint

mutual

/-- A constraint asks for less: its single constraints do, or members are dropped from it, at
whatever depth. -/
inductive RelaxedTo : Constraint ℝ n → Constraint ℝ n → Prop
  | leaf {l l' : Leaf ℝ n} : l.RelaxedTo l' → RelaxedTo (leaf l) (leaf l')
  | intersection {members members' : List (Constraint ℝ n)} : RelaxedAll members members' →
      RelaxedTo (intersection members) (intersection members')

/-- Of some constraints a few are dropped, and the others ask for less. -/
inductive RelaxedAll : List (Constraint ℝ n) → List (Constraint ℝ n) → Prop
  | nil : RelaxedAll [] []
  | keep {c c' : Constraint ℝ n} {rest rest' : List (Constraint ℝ n)} : RelaxedTo c c' →
      RelaxedAll rest rest' → RelaxedAll (c :: rest) (c' :: rest')
  | drop {c : Constraint ℝ n} {rest rest' : List (Constraint ℝ n)} : RelaxedAll rest rest' →
      RelaxedAll (c :: rest) rest'

end

section
variable {model : Model ℝ n} {q : Vector ℝ n}

mutual

/-- Rows of a constraint are left, none of which has grown. -/
theorem RelaxedTo.exists_evaluate {c c' : Constraint ℝ n} : c.RelaxedTo c' →
    (∀ l ∈ c.leaves, l.BuiltOn model) → ∀ {error}, c.evaluate q = .ok error →
      ∃ error', c'.evaluate q = .ok error' ∧ RowsShrinkTo error error'
  | .leaf h, hbuilt, error, herror => by
    rw [leaves, List.forall_mem_singleton] at hbuilt
    rw [evaluate] at herror
    obtain ⟨error', herror', hshrink⟩ := h.exists_evaluate hbuilt herror
    exact ⟨error', by rwa [evaluate], hshrink⟩
  | .intersection h, hbuilt, error, herror => by
    rw [leaves] at hbuilt
    rw [evaluate] at herror
    obtain ⟨error', herror', hshrink⟩ := h.exists_evaluateAll hbuilt herror
    exact ⟨error', by rwa [evaluate], hshrink⟩

/-- The same for the members of an intersection. -/
private theorem RelaxedAll.exists_evaluateAll {members members' : List (Constraint ℝ n)} :
    RelaxedAll members members' → (∀ l ∈ leavesAll members, l.BuiltOn model) →
      ∀ {error}, evaluateAll members q = .ok error →
        ∃ error', evaluateAll members' q = .ok error' ∧ RowsShrinkTo error error'
  | .nil, _, error, herror => by
    obtain rfl := Except.ok.inj herror
    exact ⟨[], rfl, .nil []⟩
  | .keep hfirst hrest, hbuilt, error, herror => by
    obtain ⟨rows, hrows, herror⟩ := bind_eq_ok_iff.1 herror
    obtain ⟨others, hothers, herror⟩ := bind_eq_ok_iff.1 herror
    obtain rfl := Except.ok.inj herror
    rw [leavesAll, List.forall_mem_append] at hbuilt
    obtain ⟨rows', hrows', hshrink⟩ := hfirst.exists_evaluate hbuilt.1 hrows
    obtain ⟨others', hothers', hshrink'⟩ := hrest.exists_evaluateAll hbuilt.2 hothers
    refine ⟨rows' ++ others', ?_, hshrink.append hshrink'⟩
    exact bind_eq_ok_iff.2 ⟨rows', hrows', bind_eq_ok_iff.2 ⟨others', hothers', rfl⟩⟩
  | .drop hrest, hbuilt, error, herror => by
    obtain ⟨rows, -, herror⟩ := bind_eq_ok_iff.1 herror
    obtain ⟨others, hothers, herror⟩ := bind_eq_ok_iff.1 herror
    obtain rfl := Except.ok.inj herror
    rw [leavesAll, List.forall_mem_append] at hbuilt
    obtain ⟨others', hothers', hshrink⟩ := hrest.exists_evaluateAll hbuilt.2 hothers
    -- the rows of the member that is dropped are left out
    exact ⟨others', hothers', (RowsShrinkTo.nil rows).append hshrink⟩

end

end

/-- Relaxing a constraint never hurts. Wherever the constraint has an error, what it is relaxed to
has an error that is no longer. On a rigid model it has one everywhere, if all links that it is
about have a state. So what it is relaxed to is satisfied wherever the constraint is, if the
tolerances agree. From where a projection onto the constraint succeeds, a projection onto what it is
relaxed to succeeds without a step. -/
theorem project_relaxed {model : Model ℝ n} {c c' : Constraint ℝ n} (hbuilt : c.BuiltOn model)
    (h : c.RelaxedTo c') :
    (∀ q error, c.evaluate q = .ok error → ∃ error', c'.evaluate q = .ok error' ∧
      Linear.rowsNorm error' ≤ Linear.rowsNorm error) ∧
    (model.IsRigid → (∀ l ∈ c.leaves, l.fault? = none) →
      ∀ q, ∃ error, c.evaluate q = .ok error) ∧
    (∀ members members' (settings settings' : Settings ℝ) (q : Nested ℝ),
      settings'.tolerance = settings.tolerance →
      (⟨n, c, members, settings⟩ : Object ℝ).isSatisfied q = .ok true →
      (⟨n, c', members', settings'⟩ : Object ℝ).isSatisfied q = .ok true) ∧
    (∀ s q o, c.residual.project s q = .ok o → o.status = .success →
      ∃ norm ≤ o.errorNorm,
        c'.residual.project s o.configuration = .ok ⟨.success, o.configuration, norm, 0⟩) := by
  have hnearer (q : Vector ℝ n) (error : List ℝ) (herror : c.evaluate q = .ok error) :
      ∃ error', c'.evaluate q = .ok error' ∧ Linear.rowsNorm error' ≤ Linear.rowsNorm error := by
    obtain ⟨error', herror', hshrink⟩ := h.exists_evaluate hbuilt.leaves herror
    exact ⟨error', herror', hshrink.rowsNorm_le⟩
  refine ⟨hnearer, fun hrigid hlinks q => ?_, ?_, fun s q o ho hsuccess => ?_⟩
  · -- nothing fails on a rigid model but the links that were told
    have hforeseen := foreseen_evaluate (fun l hl => (hbuilt.leaves l hl).isForeseen hrigid) q
    rw [List.findSome?_eq_none_iff.2 hlinks] at hforeseen
    obtain ⟨error, -, herror⟩ := hforeseen.exists_eq_ok
    exact ⟨error, herror⟩
  · -- the relaxed error is below the same tolerance
    intro members members' settings settings' q htolerance hsatisfied
    rw [Object.isSatisfied_eq, map_eq_ok_iff] at hsatisfied
    obtain ⟨error, herror, hshort⟩ := hsatisfied
    obtain ⟨p, hp, herror⟩ := bind_eq_ok_iff.1 herror
    obtain ⟨error', herror', hle⟩ := hnearer p error herror
    rw [Object.isSatisfied_eq, map_eq_ok_iff]
    refine ⟨error', bind_eq_ok_iff.2 ⟨p, hp, herror'⟩, ?_⟩
    rw [decide_eq_true_eq] at hshort ⊢
    rw [htolerance]
    exact hle.trans_lt hshort
  · -- where the run has ended, the relaxed run ends at once
    obtain ⟨error, herror, hnorm, hshort⟩ := Residual.run_reports ho
    obtain ⟨error', herror', hle⟩ := hnearer _ error herror
    have hlt : Linear.rowsNorm error' < s.tolerance := hle.trans_lt (hshort hsuccess)
    exact ⟨_, hnorm ▸ hle, project_of_rowsNorm_lt herror' hlt⟩

end Constraint

/-! ## A hand in a longer box -/

/-- The box of the hand, twice as long along its first axis and free along the others. -/
noncomputable def longBoxConstraint : BoxConstraint ℝ 2 :=
  ⟨{ handSpec with halfExtents := ⟨1 + 1, -1, -1⟩ }, .ofChain turnThenSlide (.last 2)⟩

/-- The task of the hand in the longer box, without the limits. -/
noncomputable def longBoxTask : Constraint ℝ 2 :=
  .intersection [.intersection [.leaf (.box longBoxConstraint)]]

/-- The box of the hand may be any that is no longer. -/
theorem relaxedTo_longBoxTask {b : BoxConstraint ℝ 2} (h : (Leaf.box b).RelaxedTo
    (.box longBoxConstraint)) : (Constraint.intersection [.intersection [.leaf (.box b)],
      .ofJointLimits rangeLimits]).RelaxedTo longBoxTask :=
  .intersection (.keep (.intersection (.keep (.leaf h) .nil)) (.drop .nil))

/-- The longer box relaxes both the box of the hand and the wide one. -/
theorem relaxedTo_longBoxConstraint :
    (Leaf.box handConstraint).RelaxedTo (.box longBoxConstraint) ∧
    (Leaf.box wideConstraint).RelaxedTo (.box longBoxConstraint) := by
  constructor
  · refine .box rfl rfl rfl fun axis => ?_
    cases axis <;> norm_num [longBoxConstraint, handConstraint, handSpec, Vec3.along]
  · refine .box rfl rfl rfl fun axis => ?_
    cases axis <;> norm_num [longBoxConstraint, wideConstraint, handSpec, Vec3.along]

/-- The hand is no farther from the longer box than from the shorter one, in which it does not
stand. It stands in a box that is as long, so that it is brought there without a step, and from
there into the longer box without a step. -/
theorem project_relaxed_longBoxTask :
    handTask.BuiltOn (.chain turnThenSlide) ∧ handTask.RelaxedTo longBoxTask ∧
    (∃ error error', handTask.evaluate atRest = .ok error ∧
      longBoxTask.evaluate atRest = .ok error' ∧
      Linear.rowsNorm error' ≤ Linear.rowsNorm error) ∧
    wideTask.BuiltOn (.chain turnThenSlide) ∧ wideTask.RelaxedTo longBoxTask ∧
    wideTask.residual.project .standard atRest = .ok ⟨.success, atRest, 0, 0⟩ ∧
    ∃ norm ≤ 0, longBoxTask.residual.project .standard atRest =
      .ok ⟨.success, atRest, norm, 0⟩ := by
  have hhand : handTask.RelaxedTo longBoxTask := relaxedTo_longBoxTask relaxedTo_longBoxConstraint.1
  have hwide : wideTask.RelaxedTo longBoxTask := relaxedTo_longBoxTask relaxedTo_longBoxConstraint.2
  obtain ⟨hnearer, hanswer, -, -⟩ := Constraint.project_relaxed builtOn_handTask hhand
  have hlinks : ∀ l ∈ handTask.leaves, l.fault? = none := by
    simp [leaves_handTask, Leaf.fault?, handConstraint, Link.fault?]
  obtain ⟨error, herror⟩ := hanswer isRigid_turnThenSlide hlinks atRest
  obtain ⟨error', herror', hle⟩ := hnearer atRest error herror
  -- the hand stands in the box that is as long
  obtain ⟨-, -, -, hproject⟩ := Constraint.project_relaxed builtOn_wideTask hwide
  have hsuccess : wideTask.residual.project .standard atRest = .ok ⟨.success, atRest, 0, 0⟩ :=
    Constraint.project_of_holds isRigid_turnThenSlide builtOn_wideTask hasRigidBox_wideTask
      Settings.valid_standard holds_wideTask
  exact ⟨builtOn_handTask, hhand, ⟨error, error', herror, herror', hle⟩, builtOn_wideTask, hwide,
    hsuccess, hproject .standard atRest _ hsuccess rfl⟩

end KinematicManifold
