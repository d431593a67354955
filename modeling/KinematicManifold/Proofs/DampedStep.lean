import KinematicManifold.Proofs.Leaves
import KinematicManifold.Proofs.Overflow
import KinematicManifold.Proofs.Rows

/-!
# Damped steps

Over the real numbers a damped step exists whatever the gradients are: the products of the gradients
with one another make a positive semidefinite matrix, and the square of the damping on its diagonal
makes it positive definite, so that elimination finds the weights. With the weights `w` of an error
`e`, the step `d = -Jᵀ w` leaves `J d + e = c² w` of the error. From this follow that it is the one
step that minimises `|J d + e|² + c² |d|²`, and that it is no longer than `|e| / (2 c)`.

## Key results

- `isUnit_gram`: the equations of a damped step can be solved
- `dampedCost_add`: what another step costs more
- `le_dotProduct_self`: the error bounds the step
- `Residual.run_ne_singular`: a damped projection finds a step everywhere
- `newtonStep_damped`: a damped step exists, is the only minimiser, and is bounded
-/

namespace KinematicManifold

open Linear Matrix

variable {m n : Nat} {damping : ℝ}

/-! ## Equations -/

/-- The equations of a damped step are those of a matrix. -/
theorem dampedSystem_rows (square : ℝ) (J : Matrix (Fin m) (Fin n) ℝ) (e : Fin m → ℝ) :
    dampedSystem square (rows J) (List.ofFn e) = matrixSystem (J * Jᵀ + square • 1) e := by
  apply List.ext_getElem
  · simp [dampedSystem, matrixSystem]
  · intro i hi _
    have hi : i < m := by simpa [dampedSystem] using hi
    -- the coefficients of an equation are a row of the matrix
    have hrow : (rows J).mapIdx (fun j other =>
        dot (.ofFn (J ⟨i, hi⟩)) other + square * (if i = j then 1 else 0)) =
          List.ofFn ((J * Jᵀ + square • 1 : Matrix (Fin m) (Fin m) ℝ) ⟨i, hi⟩) := by
      apply List.ext_getElem
      · simp
      · intro j hj _
        simp [rows, dot_eq, mul_apply', one_apply, Fin.ext_iff]
    simp only [dampedSystem, matrixSystem, List.getElem_mapIdx, List.getElem_zip, List.getElem_ofFn,
      ← hrow, rows]

/-- With a damping the equations can be solved, also where the gradients depend on one another. -/
theorem isUnit_gram (hpos : 0 < damping) (J : Matrix (Fin m) (Fin n) ℝ) :
    IsUnit (J * Jᵀ + damping ^ 2 • (1 : Matrix (Fin m) (Fin m) ℝ)) := by
  have hgram : (J * Jᵀ).PosSemidef := by
    simpa using posSemidef_self_mul_conjTranspose J
  have hdiagonal : (damping ^ 2 • (1 : Matrix (Fin m) (Fin m) ℝ)).PosDef :=
    PosDef.one.smul (pow_pos hpos 2)
  exact (PosDef.posSemidef_add hgram hdiagonal).isUnit

/-- Over the reals no damping overflows. -/
theorem not_dampingOverflows (damping : ℝ) : ¬DampingOverflows damping := by
  simp [DampingOverflows]

/-- No square is too large, and no step is refused. -/
theorem newtonStep_of_pos (hpos : 0 < damping) (gradients : List (Vector ℝ n)) (error : List ℝ) :
    newtonStep damping gradients error = .ok (dampedStep (damping ^ 2) gradients error) := by
  -- over the real numbers no square is too large, and every step is finite
  have hsquare : squareDamping damping = .ok (damping ^ 2) := by
    simp [squareDamping]
  have hfinite (step : Vector ℝ n) : Linear.isFinite step = true := by
    simp [Linear.isFinite]
  simp only [newtonStep, if_pos hpos, hsquare, bind, Except.bind, pure, Except.pure,
    Except.ok.injEq]
  cases dampedStep (damping ^ 2) gradients error with
  | none => rfl
  | some step => exact Option.filter_some_pos (hfinite step)

/-- A damped step comes from weights that solve the equations. -/
theorem exists_newtonStep_eq_ok (hpos : 0 < damping) (J : Matrix (Fin m) (Fin n) ℝ)
    (e : Fin m → ℝ) :
    ∃ step w, newtonStep damping (rows J) (List.ofFn e) = .ok (some step) ∧
      step.get = -(Jᵀ *ᵥ w) ∧
      (J * Jᵀ + damping ^ 2 • (1 : Matrix (Fin m) (Fin m) ℝ)) *ᵥ w = e := by
  obtain ⟨w, hsolve, hw⟩ := exists_solve_matrixSystem (isUnit_gram hpos J) e
  refine ⟨-pullback (rows J) (List.ofFn w), w, ?_, ?_, hw⟩
  · rw [newtonStep_of_pos hpos, dampedStep, dampedSystem_rows, List.length_ofFn, hsolve,
      Option.map_some]
  · rw [get_neg, get_pullback_rows]

/-! ## Costs -/

/-- What a step costs: the square of the error that it leaves, and the square of its length times
that of the damping. -/
noncomputable def dampedCost (damping : ℝ) (gradients : List (Vector ℝ n)) (error : List ℝ)
    (step : Vector ℝ n) : ℝ :=
  rowsNorm (List.zipWith (· + ·) (image gradients step) error) ^ 2 + damping ^ 2 * norm step ^ 2

/-- The damped cost of a list of rows is the one of the matrix with these rows. -/
theorem dampedCost_rows (damping : ℝ) (J : Matrix (Fin m) (Fin n) ℝ) (e : Fin m → ℝ)
    (d : Vector ℝ n) :
    dampedCost damping (rows J) (List.ofFn e) d =
      (J *ᵥ d.get + e) ⬝ᵥ (J *ᵥ d.get + e) + damping ^ 2 * (d.get ⬝ᵥ d.get) := by
  rw [dampedCost, zipWith_image_rows, rowsNorm_ofFn_sq, norm_sq]

section
variable {J : Matrix (Fin m) (Fin n) ℝ} {e w : Fin m → ℝ} {step : Vector ℝ n}
  (hw : (J * Jᵀ + damping ^ 2 • (1 : Matrix (Fin m) (Fin m) ℝ)) *ᵥ w = e)
include hw

/-- What the step with the weights `w` leaves of the error. -/
theorem mulVec_neg_add : J *ᵥ -(Jᵀ *ᵥ w) + e = damping ^ 2 • w := by
  rw [← hw, add_mulVec, smul_mulVec, one_mulVec, ← mulVec_mulVec, mulVec_neg, neg_add_cancel_left]

/-- Any other step costs as much more than this one as the difference of the two would cost if there
were no error. -/
theorem dampedCost_add {s h : Fin n → ℝ} (hs : s = -(Jᵀ *ᵥ w)) :
    (J *ᵥ (s + h) + e) ⬝ᵥ (J *ᵥ (s + h) + e) + damping ^ 2 * ((s + h) ⬝ᵥ (s + h)) =
      (J *ᵥ s + e) ⬝ᵥ (J *ᵥ s + e) + damping ^ 2 * (s ⬝ᵥ s) +
        ((J *ᵥ h) ⬝ᵥ (J *ᵥ h) + damping ^ 2 * (h ⬝ᵥ h)) := by
  have hleft : J *ᵥ s + e = damping ^ 2 • w := by rw [hs, mulVec_neg_add hw]
  -- the mixed terms cancel, since the step is stationary
  have hmixed : w ⬝ᵥ (J *ᵥ h) = -(s ⬝ᵥ h) := by
    rw [hs, neg_dotProduct, neg_neg, mulVec_transpose, dotProduct_mulVec]
  rw [mulVec_add, add_right_comm, hleft]
  simp only [add_dotProduct, dotProduct_add, smul_dotProduct, dotProduct_smul, smul_eq_mul,
    dotProduct_comm h s, dotProduct_comm (J *ᵥ h) w, hmixed]
  ring

/-- Any other step costs more. -/
theorem dampedCost_lt (hpos : 0 < damping) (hstep : step.get = -(Jᵀ *ᵥ w)) {d : Vector ℝ n}
    (hd : d ≠ step) :
    dampedCost damping (rows J) (List.ofFn e) step <
      dampedCost damping (rows J) (List.ofFn e) d := by
  set h := d.get - step.get with hh
  have hne : h ≠ 0 := fun hzero => hd (ext_get (sub_eq_zero.1 hzero))
  have hlength : 0 < damping ^ 2 * (h ⬝ᵥ h) :=
    mul_pos (pow_pos hpos 2) (by simpa using dotProduct_self_star_pos_iff.2 hne)
  have himage := dot_self_nonneg (J *ᵥ h)
  rw [dampedCost_rows, dampedCost_rows, show d.get = step.get + h by rw [hh, add_sub_cancel],
    dampedCost_add hw hstep]
  linarith

/-- The error bounds the step. -/
theorem le_dotProduct_self : (2 * damping) ^ 2 * ((Jᵀ *ᵥ w) ⬝ᵥ (Jᵀ *ᵥ w)) ≤ e ⬝ᵥ e := by
  have hsplit : e = J *ᵥ (Jᵀ *ᵥ w) + damping ^ 2 • w := by
    rw [← hw, add_mulVec, smul_mulVec, one_mulVec, mulVec_mulVec]
  have hmixed : w ⬝ᵥ (J *ᵥ (Jᵀ *ᵥ w)) = (Jᵀ *ᵥ w) ⬝ᵥ (Jᵀ *ᵥ w) := by
    rw [dotProduct_mulVec, mulVec_transpose]
  -- the two sides differ by this square
  have hsquare := dot_self_nonneg (J *ᵥ (Jᵀ *ᵥ w) - damping ^ 2 • w)
  rw [hsplit]
  simp only [add_dotProduct, dotProduct_add, sub_dotProduct, dotProduct_sub, smul_dotProduct,
    dotProduct_smul, smul_eq_mul, dotProduct_comm (J *ᵥ (Jᵀ *ᵥ w)) w, hmixed] at hsquare ⊢
  linarith

/-- A damped step is no longer than the error norm over twice the damping. -/
theorem norm_le_rowsNorm_div (hpos : 0 < damping) (hstep : step.get = -(Jᵀ *ᵥ w)) :
    norm step ≤ rowsNorm (List.ofFn e) / (2 * damping) := by
  have hdouble : 0 < 2 * damping := mul_pos two_pos hpos
  rw [le_div_iff₀ hdouble]
  refine le_of_sq_le_sq ?_ (rowsNorm_nonneg _)
  calc (norm step * (2 * damping)) ^ 2
      = (2 * damping) ^ 2 * ((Jᵀ *ᵥ w) ⬝ᵥ (Jᵀ *ᵥ w)) := by
        rw [mul_pow, mul_comm, norm_sq, hstep, neg_dotProduct_neg]
    _ ≤ e ⬝ᵥ e := le_dotProduct_self hw
    _ = rowsNorm (List.ofFn e) ^ 2 := (rowsNorm_ofFn_sq e).symm

end

/-! ## Runs -/

/-- Wherever an error and its gradients can be had, there is one gradient for each row. -/
def Residual.IsMatched {K : Type} (r : Residual K n) : Prop :=
  ∀ q error gradients, r.evaluate q = .ok error → r.jacobian q = .ok gradients →
    gradients.length = error.length

/-- The residual of a constraint has one gradient for each entry of its error. -/
theorem Constraint.isMatched_residual {K : Type} [Scalar K] (c : Constraint K n) :
    c.residual.IsMatched :=
  fun _ _ _ herror hgradients => length_jacobian herror hgradients

/-- Where an error and its gradients can be had everywhere, every projection has an outcome. -/
theorem Residual.IsTotal.exists_project {r : Residual ℝ n} (hr : r.IsTotal) (s : Settings ℝ)
    (q : Vector ℝ n) : ∃ o, r.project s q = .ok o :=
  exists_run_eq_ok hr (not_dampingOverflows s.damping) s.maxIterations q 0

/-- A damped run finds a step wherever it needs one. -/
theorem Residual.run_ne_singular {r : Residual ℝ n} {s : Settings ℝ} (hr : r.IsMatched)
    (hpos : 0 < s.damping) {budget taken : Nat} {q : Vector ℝ n} {o : Outcome ℝ n}
    (h : r.run s budget q taken = .ok o) : o.status ≠ .singular := by
  cases run_exit h with
  | stopped => exact not_singular_finish
  | @singular q error gradients _ herror _ hgradients hstep =>
    have hlength := hr q error gradients herror hgradients
    obtain ⟨m, J, e, rfl, rfl⟩ := exists_eq_rows_ofFn hlength
    obtain ⟨step, w, hsome, -⟩ := exists_newtonStep_eq_ok hpos J e
    rw [hsome] at hstep
    cases hstep

/-- For every matrix of gradients and every error, the equations of a damped step can be solved, and
the step that they give is the only minimiser of its cost and no longer than the damping allows. So
a damped projection ends singular nowhere. -/
theorem newtonStep_damped (hpos : 0 < damping) :
    (∀ (m n : Nat) (J : Matrix (Fin m) (Fin n) ℝ) (e : Fin m → ℝ),
      IsUnit (J * Jᵀ + damping ^ 2 • (1 : Matrix (Fin m) (Fin m) ℝ)) ∧
      ∃ step, newtonStep damping (rows J) (List.ofFn e) = .ok (some step) ∧
        (∀ d, d ≠ step → dampedCost damping (rows J) (List.ofFn e) step <
          dampedCost damping (rows J) (List.ofFn e) d) ∧
        norm step ≤ rowsNorm (List.ofFn e) / (2 * damping)) ∧
    ∀ (n : Nat) (r : Residual ℝ n) (s : Settings ℝ) (q : Vector ℝ n),
      r.IsMatched → s.damping = damping →
        (∀ o, r.project s q = .ok o → o.status ≠ .singular) ∧
        (r.IsTotal → ∃ o, r.project s q = .ok o) := by
  constructor
  · intro m n J e
    obtain ⟨step, w, hok, hstep, hw⟩ := exists_newtonStep_eq_ok hpos J e
    exact ⟨isUnit_gram hpos J, step, hok, fun d hd => dampedCost_lt hw hpos hstep hd,
      norm_le_rowsNorm_div hw hpos hstep⟩
  · rintro n r s q hr rfl
    exact ⟨fun o ho => Residual.run_ne_singular hr hpos ho, fun htotal =>
      Residual.exists_run_eq_ok htotal (not_dampingOverflows s.damping) s.maxIterations q 0⟩

/-- Two rows with the same gradient. -/
def equalRows : Matrix (Fin 2) (Fin 2) ℝ := .of fun _ _ => 1

/-- The sum of two joint values, and one more than the sum, are both to be zero. -/
def parallelLines : Constraint ℝ 2 :=
  .leaf (.affine ⟨[⟨.ofFn fun _ => 1, 0, ⟨0, 0⟩⟩, ⟨.ofFn fun _ => 1, 1, ⟨0, 0⟩⟩], none⟩)

/-- Without a damping the equations of these rows cannot be solved. -/
theorem newtonStep_damped_equalRows :
    0 < (Settings.standard : Settings ℝ).damping ∧ ¬IsUnit (equalRows * equalRowsᵀ) ∧
    (∃ step, newtonStep (Settings.standard : Settings ℝ).damping (rows equalRows)
        (List.ofFn ![0, 1]) = .ok (some step) ∧
      norm step ≤ rowsNorm (List.ofFn ![0, 1]) / (2 * (Settings.standard : Settings ℝ).damping)) ∧
    parallelLines.residual.IsMatched ∧ parallelLines.residual.IsTotal ∧
    ∃ o, parallelLines.residual.project .standard (.ofFn fun _ => 0) = .ok o ∧
      o.status ≠ .singular := by
  have hpos : 0 < (Settings.standard : Settings ℝ).damping := by norm_num [Settings.standard]
  have hdependent : ¬IsUnit (equalRows * equalRowsᵀ) := by
    simp [isUnit_iff_isUnit_det, det_fin_two, equalRows]
  have hmatched := parallelLines.isMatched_residual
  have htotal : parallelLines.residual.IsTotal := fun _ => ⟨_, _, rfl, rfl, rfl⟩
  obtain ⟨hsteps, hprojects⟩ := newtonStep_damped hpos
  obtain ⟨-, step, hok, -, hbound⟩ := hsteps 2 2 equalRows ![0, 1]
  obtain ⟨hstatus, hok'⟩ := hprojects 2 _ .standard (.ofFn fun _ => 0) hmatched rfl
  obtain ⟨o, ho⟩ := hok' htotal
  exact ⟨hpos, hdependent, ⟨step, hok, hbound⟩, hmatched, htotal, o, ho, hstatus o ho⟩

end KinematicManifold
