import KinematicManifold.Proofs.DampedStep
import KinematicManifold.Proofs.LeastSquaresStep

/-!
# Newton steps

Over the real numbers every error has a step, damped or not, and the step is the one solution of the
normal equations in the span of the gradients. So two lists of rows have the same step when they
have the same normal equations: when one is the other in another order, or has rows without a
gradient beside those of the other. A joint that no gradient knows of is not moved.

## Key results

- `exists_newtonStep`: there is a step, and it solves the normal equations
- `newtonStep_congr`: equal normal equations have the same step
- `newtonStep_perm`, `newtonStep_append_zero`: the order of the rows, and rows without a gradient
- `newtonStep_get_eq_zero`: joints that no gradient knows of
-/

namespace KinematicManifold

open Linear Matrix

variable {n : Nat}

/-- What a damping adds on the diagonal of the normal equations. -/
noncomputable def dampingSquare (damping : ℝ) : ℝ := if 0 < damping then damping ^ 2 else 0

/-- The square of a damping is not negative. -/
theorem dampingSquare_nonneg (damping : ℝ) : 0 ≤ dampingSquare damping := by
  unfold dampingSquare
  split_ifs
  · exact sq_nonneg damping
  · exact le_rfl

/-- A damped step solves the normal equations. -/
theorem isStep_damped {m : Nat} {J : Matrix (Fin m) (Fin n) ℝ} {e w : Fin m → ℝ} {damping : ℝ}
    {step : Vector ℝ n} (hstep : step.get = -(Jᵀ *ᵥ w))
    (hw : (J * Jᵀ + damping ^ 2 • (1 : Matrix (Fin m) (Fin m) ℝ)) *ᵥ w = e) :
    IsStep (damping ^ 2) (rows J) (List.ofFn e) step where
  mem_span := by
    rw [hstep]
    exact neg_mem (mem_span_rows_iff.2 ⟨w, rfl⟩)
  normal := by
    rw [hstep, get_pullback_rows, normalMatrix_rows, ← hw, add_mulVec, smul_mulVec, one_mulVec,
      mulVec_add, mulVec_smul, mulVec_neg, smul_neg, mulVec_mulVec, mulVec_mulVec,
      Matrix.mul_assoc, neg_add]

/-- There is a step, and it is a solution of the normal equations. -/
theorem exists_newtonStep (damping : ℝ) {gradients : List (Vector ℝ n)} {error : List ℝ}
    (hlength : gradients.length = error.length) :
    ∃ step, newtonStep damping gradients error = .ok (some step) ∧
      IsStep (dampingSquare damping) gradients error step := by
  unfold dampingSquare
  -- the damped step solves a system of rows, the other one is found by singular values
  split_ifs with hpos
  · obtain ⟨m, J, e, rfl, rfl⟩ := exists_eq_rows_ofFn hlength
    obtain ⟨step, w, hok, hstep, hw⟩ := exists_newtonStep_eq_ok hpos J e
    exact ⟨step, hok, isStep_damped hstep hw⟩
  · obtain ⟨step, hsome, hstep⟩ := exists_leastSquaresStep gradients hlength.symm
    have hfinite : Linear.isFinite step = true := by simp [Linear.isFinite]
    refine ⟨step, ?_, hstep⟩
    simp only [newtonStep, if_neg hpos, hsome, bind, Except.bind, pure, Except.pure,
      Option.filter_some_pos hfinite]

/-- Rows with the same normal equations have the same step. -/
theorem newtonStep_congr (damping : ℝ) {gradients gradients' : List (Vector ℝ n)}
    {error error' : List ℝ} (hlength : gradients.length = error.length)
    (hlength' : gradients'.length = error'.length)
    (hmatrix : normalMatrix gradients = normalMatrix gradients')
    (hvector : pullback gradients error = pullback gradients' error') :
    newtonStep damping gradients error = newtonStep damping gradients' error' := by
  obtain ⟨step, hok, hstep⟩ := exists_newtonStep damping hlength
  obtain ⟨step', hok', hstep'⟩ := exists_newtonStep damping hlength'
  rw [hok, hok', hstep.unique hstep' (dampingSquare_nonneg damping) hmatrix hvector]

section
variable {rows rows' others : List (Vector ℝ n × ℝ)} (damping : ℝ)

/-- The order of the rows does not matter. -/
theorem newtonStep_perm (h : rows.Perm rows') :
    newtonStep damping (rows.map Prod.fst) (rows.map Prod.snd) =
      newtonStep damping (rows'.map Prod.fst) (rows'.map Prod.snd) :=
  newtonStep_congr damping (by simp) (by simp) (normalMatrix_perm (h.map _)) (pullback_perm h)

/-- Rows without a gradient do not matter. -/
theorem newtonStep_append_zero (rows : List (Vector ℝ n × ℝ)) (h : ∀ row ∈ others, row.1 = 0) :
    newtonStep damping ((rows ++ others).map Prod.fst) ((rows ++ others).map Prod.snd) =
      newtonStep damping (rows.map Prod.fst) (rows.map Prod.snd) := by
  refine newtonStep_congr damping (by simp) (by simp) ?_ (pullback_append_zero rows h)
  rw [List.map_append]
  refine normalMatrix_append_zero _ ?_
  rw [List.forall_mem_map]
  exact h

end

/-- A joint that no gradient knows of is not moved. -/
theorem newtonStep_get_eq_zero {damping : ℝ} {gradients : List (Vector ℝ n)} {error : List ℝ}
    (hlength : gradients.length = error.length) {j : Fin n} (h : ∀ g ∈ gradients, g.get j = 0)
    {step : Vector ℝ n} (hok : newtonStep damping gradients error = .ok (some step)) :
    step.get j = 0 := by
  obtain ⟨step', hok', hstep⟩ := exists_newtonStep damping hlength
  obtain rfl := Option.some.inj (Except.ok.inj (hok.symm.trans hok'))
  have hspan : span gradients ≤ LinearMap.ker (LinearMap.proj j : (Fin n → ℝ) →ₗ[ℝ] ℝ) :=
    span_le.2 h
  exact hspan hstep.mem_span

/-- A step that does not move a joint does not move it when it is shortened. -/
theorem get_capStep_eq_zero {maxStep : Option ℝ} {step : Vector ℝ n} {j : Fin n}
    (h : step.get j = 0) : (capStep maxStep step).get j = 0 := by
  cases maxStep with
  | none => exact h
  | some longest =>
    rw [capStep]
    split_ifs
    · rw [get_scale, Pi.smul_apply, h, smul_zero]
    · exact h

end KinematicManifold
