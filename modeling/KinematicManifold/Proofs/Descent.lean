import KinematicManifold.Proofs.Stacks
import KinematicManifold.Proofs.StepLength

/-!
# Descent

A Newton step, shortened or not, goes downhill: the change of the error that its gradients foresee
never points along the error. It is across it only where the error pulls back to nothing, which is
where no direction shortens the error to first order. There, and nowhere else, the step is zero, so
that a projection with a long error rests there until its budget is spent.

All of this follows from the normal equations, so that it holds with a damping and without, and of
gradients of every rank.

## Key results

- `IsStep.dotProduct_mulVec`: what a step changes of the error, as a sum of squares
- `IsStep.dotProduct_eq_zero_iff`, `IsStep.eq_zero_iff`: critical errors
- `Residual.run_of_still`: a run whose step is zero
- `newtonStep_descends`: Newton steps go downhill, and projections rest at critical errors
-/

namespace KinematicManifold

open Linear Matrix

variable {m n : Nat}

/-! ## Steps -/

namespace Linear

section
variable {square : ℝ} {J : Matrix (Fin m) (Fin n) ℝ} {e : Fin m → ℝ} {step : Vector ℝ n}
  (h : IsStep square (rows J) (List.ofFn e) step)
include h

/-- The product of the error with the change that is foreseen of it is a negative sum of squares. -/
theorem IsStep.dotProduct_mulVec : e ⬝ᵥ (J *ᵥ step.get) =
    -((J *ᵥ step.get) ⬝ᵥ (J *ᵥ step.get) + square * (step.get ⬝ᵥ step.get)) := by
  calc e ⬝ᵥ (J *ᵥ step.get) = step.get ⬝ᵥ (Jᵀ *ᵥ e) :=
        (dotProduct_transpose_mulVec J step.get e).symm
    _ = -(step.get ⬝ᵥ ((Jᵀ * J) *ᵥ step.get + square • step.get)) := by
        rw [h.normal_rows, dotProduct_neg, neg_neg]
    _ = _ := by rw [dotProduct_add, dotProduct_gram_mulVec, dotProduct_smul, smul_eq_mul]

variable (hsquare : 0 ≤ square)
include hsquare

/-- To first order a step never lets the error grow. -/
theorem IsStep.dotProduct_nonpos : e ⬝ᵥ (J *ᵥ step.get) ≤ 0 := by
  have himage := dot_self_nonneg (J *ᵥ step.get)
  have hlength := mul_nonneg hsquare (dot_self_nonneg step.get)
  rw [h.dotProduct_mulVec]
  linarith

/-- The step does not go downhill only where the error pulls back to nothing. -/
theorem IsStep.dotProduct_eq_zero_iff : e ⬝ᵥ (J *ᵥ step.get) = 0 ↔ Jᵀ *ᵥ e = 0 := by
  constructor
  · intro hflat
    rw [h.dotProduct_mulVec] at hflat
    have himage := dot_self_nonneg (J *ᵥ step.get)
    have hlength := mul_nonneg hsquare (dot_self_nonneg step.get)
    -- both squares vanish, and with them both terms of the normal equations
    have hchange : J *ᵥ step.get = 0 := dotProduct_self_eq_zero.1 (by linarith)
    have hdamped : square • step.get = 0 := by
      rcases mul_eq_zero.1 (show square * (step.get ⬝ᵥ step.get) = 0 by linarith) with hzero | hzero
      · rw [hzero, zero_smul]
      · rw [dotProduct_self_eq_zero.1 hzero, smul_zero]
    rw [← neg_eq_zero, ← h.normal_rows, ← mulVec_mulVec, hchange, hdamped, mulVec_zero, add_zero]
  · intro hcritical
    rw [← dotProduct_transpose_mulVec, hcritical, dotProduct_zero]

/-- The step is zero where the error pulls back to nothing, and only there. -/
theorem IsStep.eq_zero_iff : step = 0 ↔ Jᵀ *ᵥ e = 0 := by
  constructor
  · intro hzero
    rw [← neg_eq_zero, ← h.normal_rows, hzero, get_zero, mulVec_zero, smul_zero, add_zero]
  · intro hcritical
    -- standing still answers an error that pulls nowhere, and answers are unique
    have hzero : IsStep square (rows J) (List.ofFn e) 0 := by
      constructor
      · rw [get_zero]
        exact zero_mem _
      · rw [get_zero, mulVec_zero, smul_zero, add_zero, get_pullback_rows, hcritical, neg_zero]
    exact h.unique hzero hsquare rfl rfl

end

end Linear

/-! ## Runs -/

/-- A step of zero is not shortened. -/
theorem capStep_zero (maxStep : Option ℝ) : capStep maxStep (0 : Vector ℝ n) = 0 := by
  apply ext_get
  funext i
  rw [get_capStep_eq_zero (by rw [get_zero, Pi.zero_apply]), get_zero, Pi.zero_apply]

/-- A run whose step is zero where the error is long rests there until its budget is spent. -/
theorem Residual.run_of_still {r : Residual ℝ n} {s : Settings ℝ} {q : Vector ℝ n}
    {error : List ℝ} {gradients : List (Vector ℝ n)} (herror : r.evaluate q = .ok error)
    (hgradients : r.jacobian q = .ok gradients) (hlong : s.tolerance ≤ rowsNorm error)
    (hstep : newtonStep s.damping gradients error = .ok (some 0)) (budget taken : Nat) :
    r.run s budget q taken = .ok ⟨.budgetSpent, q, rowsNorm error, taken + budget⟩ := by
  have hstill : q + capStep s.maxStep 0 = q :=
    ext_get (by rw [capStep_zero, get_add, get_zero, add_zero])
  have hnext : r.next s q error = .ok (some q) := by
    simp only [next, hgradients, hstep, bind, Except.bind, pure, Except.pure, Option.map_some,
      hstill]
  -- each iteration ends where it began, and only the count goes on
  induction budget generalizing taken with
  | zero => rw [run_zero taken herror, finish, if_neg (not_lt.2 hlong), Nat.add_zero]
  | succ budget ih =>
    rw [run_succ budget taken herror hlong, hnext]
    simp only [bind, Except.bind]
    rw [ih, Nat.add_right_comm, Nat.add_assoc]

/-- Where the error pulls back to nothing, the Newton step is zero. -/
theorem newtonStep_of_critical (damping : ℝ) {gradients : List (Vector ℝ n)} {error : List ℝ}
    (hlength : gradients.length = error.length) (hcritical : pullback gradients error = 0) :
    newtonStep damping gradients error = .ok (some 0) := by
  obtain ⟨step, hok, hstep⟩ := exists_newtonStep damping hlength
  obtain ⟨m, J, e, rfl, rfl⟩ := exists_eq_rows_ofFn hlength
  have hzero : Jᵀ *ᵥ e = 0 := by rw [← get_pullback_rows, hcritical, get_zero]
  rw [hok, (hstep.eq_zero_iff (dampingSquare_nonneg damping)).2 hzero]

/-- Whatever the gradients, the error and the damping are, the step that is taken goes downhill; it
is across the error, and zero, exactly where the error pulls back to nothing. A projection that
starts there with a long error stays there and spends its budget. -/
theorem newtonStep_descends {maxStep : Option ℝ} (hpos : ∀ longest ∈ maxStep, 0 < longest) :
    (∀ (damping : ℝ) (m n : Nat) (J : Matrix (Fin m) (Fin n) ℝ) (e : Fin m → ℝ),
      ∃ step, newtonStep damping (rows J) (List.ofFn e) = .ok (some step) ∧
        let d := (capStep maxStep step).get
        e ⬝ᵥ (J *ᵥ d) ≤ 0 ∧ (e ⬝ᵥ (J *ᵥ d) = 0 ↔ Jᵀ *ᵥ e = 0) ∧ (d = 0 ↔ Jᵀ *ᵥ e = 0)) ∧
    ∀ (n : Nat) (c : Constraint ℝ n) (s : Settings ℝ) (q : Vector ℝ n) (error : List ℝ)
      (gradients : List (Vector ℝ n)), c.evaluate q = .ok error → c.jacobian q = .ok gradients →
      s.tolerance ≤ rowsNorm error → pullback gradients error = 0 →
      c.residual.project s q = .ok ⟨.budgetSpent, q, rowsNorm error, s.maxIterations⟩ := by
  constructor
  · intro damping m n J e
    have hlength : (rows J).length = (List.ofFn e).length := by simp
    obtain ⟨step, hok, hstep⟩ := exists_newtonStep damping hlength
    have hsquare := dampingSquare_nonneg damping
    -- a factor above zero changes neither the sign nor what is zero
    obtain ⟨t, ht, hcap⟩ := exists_capStep_eq_scale hpos step
    have hd : (capStep maxStep step).get = t • step.get := by rw [hcap, get_scale]
    have hproduct : e ⬝ᵥ (J *ᵥ (t • step.get)) = t * (e ⬝ᵥ (J *ᵥ step.get)) := by
      rw [mulVec_smul, dotProduct_smul, smul_eq_mul]
    refine ⟨step, hok, ?_, ?_, ?_⟩
    · rw [hd, hproduct]
      exact mul_nonpos_of_nonneg_of_nonpos ht.le (hstep.dotProduct_nonpos hsquare)
    · rw [hd, hproduct, mul_eq_zero_iff_left ht.ne', hstep.dotProduct_eq_zero_iff hsquare]
    · rw [hd, smul_eq_zero_iff_right ht.ne', ← hstep.eq_zero_iff hsquare]
      exact ⟨fun hzero => ext_get (hzero.trans get_zero.symm), fun hzero => by
        rw [hzero, get_zero]⟩
  · intro n c s q error gradients herror hgradients hlong hcritical
    -- a critical error has the step zero, which leads back to where it starts
    have hlength := Constraint.length_jacobian herror hgradients
    have hstep := newtonStep_of_critical s.damping hlength hcritical
    rw [Residual.project, Residual.run_of_still herror hgradients hlong hstep, Nat.zero_add]

/-- Half way between two parallel lines. -/
noncomputable def midway : Vector ℝ 2 := .ofFn ![-(1 / (1 + 1)), 0]

/-- Midway between the parallel lines the two errors pull against each other and cancel. -/
theorem answers_midway : ∃ gradients,
    parallelLines.evaluate midway = .ok [-(1 / 2), 1 / 2] ∧
      parallelLines.jacobian midway = .ok gradients ∧
      pullback gradients [-(1 / 2), 1 / 2] = 0 := by
  have hfirst : (⟨.ofFn fun _ => 1, 0, ⟨0, 0⟩⟩ : AffineRow ℝ 2).valueAt midway = -(1 / 2) := by
    norm_num [AffineRow.valueAt_eq, dotProduct, Fin.sum_univ_two, midway]
  have hsecond : (⟨.ofFn fun _ => 1, 1, ⟨0, 0⟩⟩ : AffineRow ℝ 2).valueAt midway = 1 / 2 := by
    norm_num [AffineRow.valueAt_eq, dotProduct, Fin.sum_univ_two, midway]
  -- one value is below its line, the other above
  have hbelow : (⟨0, 0⟩ : Interval ℝ).excess (-(1 / 2)) = -(1 / 2) := by
    norm_num [Interval.excess_of_lt]
  have habove : (⟨0, 0⟩ : Interval ℝ).excess (1 / 2) = 1 / 2 := by
    norm_num [Interval.excess_of_gt]
  -- so that both rows count
  have hslopeBelow : (⟨0, 0⟩ : Interval ℝ).slope (-(1 / 2)) = 1 := if_pos (.inr (by norm_num))
  have hslopeAbove : (⟨0, 0⟩ : Interval ℝ).slope (1 / 2) = 1 := if_pos (.inl (by norm_num))
  refine ⟨[scale 1 (.ofFn fun _ => 1), scale 1 (.ofFn fun _ => 1)], ?_, ?_, ?_⟩
  · simp only [parallelLines, Constraint.evaluate, Leaf.evaluate, Leaf.rawError, Leaf.intervals,
      List.map_cons, List.map_nil, hfirst, hsecond, bind, Except.bind, List.zipWith_cons_cons,
      List.zipWith_nil_left, hbelow, habove]
    rfl
  · simp only [parallelLines, Constraint.jacobian, Leaf.jacobian, Leaf.rawError, Leaf.rawJacobian,
      Leaf.intervals, List.map_cons, List.map_nil, hfirst, hsecond, bind, Except.bind,
      List.zipWith_cons_cons, List.zipWith_nil_left, hslopeBelow, hslopeAbove]
    rfl
  · apply ext_get
    simp [get_pullback_cons]

/-- Between two parallel lines no step shortens the error, and from zero one does. -/
theorem newtonStep_descends_midway :
    (∀ longest ∈ some (1 : ℝ), 0 < longest) ∧ equalRowsᵀ *ᵥ ![0, 1] ≠ 0 ∧
    (∃ step, newtonStep 0 (rows equalRows) (List.ofFn ![0, 1]) = .ok (some step) ∧
      ![0, 1] ⬝ᵥ (equalRows *ᵥ (capStep (some 1) step).get) < 0) ∧
    ∃ error gradients, parallelLines.evaluate midway = .ok error ∧
      parallelLines.jacobian midway = .ok gradients ∧
      (Settings.standard : Settings ℝ).tolerance ≤ rowsNorm error ∧
      pullback gradients error = 0 ∧
      parallelLines.residual.project .standard midway =
        .ok ⟨.budgetSpent, midway, rowsNorm error, 50⟩ := by
  have hpos : ∀ longest ∈ some (1 : ℝ), 0 < longest := by simp
  have hnoncritical : equalRowsᵀ *ᵥ ![0, 1] ≠ 0 := by
    intro hzero
    have hentry := congrFun hzero 0
    simp [equalRows, mulVec, dotProduct, Fin.sum_univ_two] at hentry
  -- the error of the two rows is not critical at zero, and it is half way between them
  obtain ⟨hsteps, hrests⟩ := newtonStep_descends hpos
  obtain ⟨step, hok, hdown, hflat, -⟩ := hsteps 0 2 2 equalRows ![0, 1]
  obtain ⟨gradients, herror, hgradients, hcritical⟩ := answers_midway
  have hlong : (Settings.standard : Settings ℝ).tolerance ≤ rowsNorm [-(1 / 2), 1 / 2] := by
    have hrow : (1 / 2 : ℝ) ∈ [-(1 / 2), 1 / 2] := by simp
    refine le_trans ?_ (abs_le_rowsNorm hrow)
    norm_num [Settings.standard]
  exact ⟨hpos, hnoncritical,
    ⟨step, hok, lt_of_le_of_ne hdown fun hzero => hnoncritical (hflat.1 hzero)⟩, _, gradients,
    herror, hgradients, hlong, hcritical,
    hrests 2 parallelLines .standard midway _ gradients herror hgradients hlong hcritical⟩

end KinematicManifold
