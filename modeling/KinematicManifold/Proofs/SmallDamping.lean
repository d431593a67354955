import KinematicManifold.Proofs.NewtonStep

/-!
# Small dampings

Without a damping a Newton step is the shortest of the steps that leave as little of the error as
can be, which is the one that the Moore-Penrose inverse of the gradients gives. With a damping it is
another one, found from other equations. But the two solve normal equations that differ by the
square of the damping alone, and both lie in the span of the gradients. So they are no further apart
than some multiple of the damping, whatever the rank of the gradients is, and the damped step tends
to the other one as the damping vanishes.

## Key results

- `IsStep.remainder_sq`, `IsStep.norm_sq_of_isMinimiser`: what other steps leave of the error, and
  how long the other minimisers are
- `IsStep.norm_sub_le`: how far apart a damped step and one without a damping are
- `newtonStep_undamped`: the step without a damping, and the limit of the damped ones
-/

namespace KinematicManifold

open Linear Matrix Filter Topology

variable {m n : Nat}

/-! ## Minimisers -/

/-- The length of what a step leaves of the error. -/
noncomputable def remainder (gradients : List (Vector ℝ n)) (error : List ℝ) (step : Vector ℝ n) :
    ℝ :=
  rowsNorm (List.zipWith (· + ·) (image gradients step) error)

/-- A step that leaves as little of the error as any other. -/
def IsMinimiser (gradients : List (Vector ℝ n)) (error : List ℝ) (step : Vector ℝ n) : Prop :=
  ∀ other, remainder gradients error step ≤ remainder gradients error other

/-- The squared remainder of a step is the squared length of what it leaves of the error. -/
theorem remainder_rows_sq (J : Matrix (Fin m) (Fin n) ℝ) (e : Fin m → ℝ) (d : Vector ℝ n) :
    remainder (rows J) (List.ofFn e) d ^ 2 = (J *ᵥ d.get + e) ⬝ᵥ (J *ᵥ d.get + e) := by
  rw [remainder, zipWith_image_rows, rowsNorm_ofFn_sq]

namespace Linear

section
variable {J : Matrix (Fin m) (Fin n) ℝ} {e : Fin m → ℝ} {step : Vector ℝ n}
  (h : IsStep 0 (rows J) (List.ofFn e) step)
include h

/-- What the step leaves of the error is across every change that there can be. -/
theorem IsStep.dotProduct_remainder (x : Fin n → ℝ) : (J *ᵥ step.get + e) ⬝ᵥ (J *ᵥ x) = 0 := by
  have hnormal := h.normal_rows
  rw [zero_smul, add_zero, ← mulVec_mulVec, ← add_eq_zero_iff_eq_neg, ← mulVec_add] at hnormal
  rw [← dotProduct_transpose_mulVec, hnormal, dotProduct_zero]

/-- Any other step leaves as much more as the change between the two. -/
theorem IsStep.remainder_sq (d : Vector ℝ n) : remainder (rows J) (List.ofFn e) d ^ 2 =
    remainder (rows J) (List.ofFn e) step ^ 2 +
      (J *ᵥ (d.get - step.get)) ⬝ᵥ (J *ᵥ (d.get - step.get)) := by
  have hsplit : J *ᵥ d.get + e = (J *ᵥ step.get + e) + J *ᵥ (d.get - step.get) := by
    rw [add_right_comm, ← mulVec_add, add_sub_cancel]
  rw [remainder_rows_sq, remainder_rows_sq, hsplit, dot_self_add (h.dotProduct_remainder _)]

/-- A step without damping leaves no more of the error than any other. -/
theorem IsStep.isMinimiser : IsMinimiser (rows J) (List.ofFn e) step := by
  intro d
  -- the squares of the lengths differ by one more square
  refine le_of_sq_le_sq ?_ (rowsNorm_nonneg _)
  rw [h.remainder_sq d]
  exact le_add_of_nonneg_right (dot_self_nonneg _)

/-- A minimiser is the step and a vector across it that changes nothing. -/
theorem IsStep.norm_sq_of_isMinimiser {d : Vector ℝ n}
    (hd : IsMinimiser (rows J) (List.ofFn e) d) :
    norm d ^ 2 = norm step ^ 2 + norm (d - step) ^ 2 := by
  have hsame : remainder (rows J) (List.ofFn e) d = remainder (rows J) (List.ofFn e) step :=
    le_antisymm (hd step) (h.isMinimiser d)
  -- leaving no more of the error, the minimiser changes it as the step does
  have hchange : J *ᵥ (d.get - step.get) = 0 := by
    have hsquare := h.remainder_sq d
    rw [hsame, left_eq_add] at hsquare
    exact dotProduct_self_eq_zero.1 hsquare
  -- the step lies in the row space, and what changes nothing is across it
  obtain ⟨w, hw⟩ := mem_span_rows_iff.1 h.mem_span
  have hacross : step.get ⬝ᵥ (d.get - step.get) = 0 := by
    rw [dotProduct_comm]
    nth_rewrite 2 [← hw]
    rw [dotProduct_transpose_mulVec, hchange, dotProduct_zero]
  have hsplit : d.get = step.get + (d.get - step.get) := (add_sub_cancel step.get d.get).symm
  rw [norm_sq, norm_sq, norm_sq, get_sub, ← dot_self_add hacross, ← hsplit]

/-- The step is shorter than every other minimiser. -/
theorem IsStep.norm_lt {d : Vector ℝ n} (hd : IsMinimiser (rows J) (List.ofFn e) d)
    (hne : d ≠ step) : norm step < norm d := by
  have hpos : 0 < norm (d - step) := norm_sub_pos_of_ne hne
  refine lt_of_pow_lt_pow_left₀ 2 (zero_le_norm d) ?_
  rw [h.norm_sq_of_isMinimiser hd]
  exact lt_add_of_pos_right _ (pow_pos hpos 2)

/-! ## Damped steps beside it -/

/-- A damped step is no further from the one without a damping than half the damping times the
length of weights that give the latter. -/
theorem IsStep.norm_sub_le {damping : ℝ} (hpos : 0 < damping) {damped : Vector ℝ n}
    (hdamped : IsStep (damping ^ 2) (rows J) (List.ofFn e) damped) {w : Fin m → ℝ}
    (hw : Jᵀ *ᵥ w = step.get) :
    norm (damped - step) ≤ damping / 2 * √(w ⬝ᵥ w) := by
  set x := damped.get - step.get with hx
  -- the two steps solve normal equations that differ by the damping alone
  have hnormal : (Jᵀ * J) *ᵥ x + damping ^ 2 • x = -(damping ^ 2 • (Jᵀ *ᵥ w)) := by
    have hleft := hdamped.normal_rows
    rw [← h.normal_rows, zero_smul, add_zero] at hleft
    rw [hw, hx, mulVec_sub, smul_sub, sub_add_sub_comm, hleft, sub_add_cancel_left]
  have hsquares : (J *ᵥ x) ⬝ᵥ (J *ᵥ x) + damping ^ 2 * (x ⬝ᵥ x) =
      -(damping ^ 2 * (w ⬝ᵥ (J *ᵥ x))) := by
    have hproduct := congrArg (x ⬝ᵥ ·) hnormal
    simpa only [dotProduct_add, dotProduct_neg, dotProduct_smul, smul_eq_mul,
      dotProduct_gram_mulVec, dotProduct_transpose_mulVec] using hproduct
  -- completing the square takes the change of the error out of the bound
  have hcomplete := dot_self_nonneg (J *ᵥ x + (damping ^ 2 / 2) • w)
  simp only [add_dotProduct, dotProduct_add, smul_dotProduct, dotProduct_smul, smul_eq_mul,
    dotProduct_comm (J *ᵥ x) w] at hcomplete
  have hscaled : damping ^ 2 * (x ⬝ᵥ x) ≤ damping ^ 2 * ((damping / 2) ^ 2 * (w ⬝ᵥ w)) := by
    linarith
  have hbound : x ⬝ᵥ x ≤ (damping / 2) ^ 2 * (w ⬝ᵥ w) :=
    le_of_mul_le_mul_left hscaled (pow_pos hpos 2)
  refine le_of_sq_le_sq ?_ (by positivity)
  rwa [norm_sq, get_sub, mul_pow, Real.sq_sqrt (dot_self_nonneg w)]

end

end Linear

/-! ## Limits -/

/-- Damped steps tend to the one without a damping. -/
theorem tendsto_damped {J : Matrix (Fin m) (Fin n) ℝ} {e : Fin m → ℝ} {shortest : Vector ℝ n}
    (h : IsStep 0 (rows J) (List.ofFn e) shortest) {step : ℝ → Vector ℝ n}
    (hstep : ∀ damping, 0 < damping →
      IsStep (damping ^ 2) (rows J) (List.ofFn e) (step damping)) :
    Tendsto (fun damping => (step damping).get) (𝓝[>] 0) (𝓝 shortest.get) := by
  obtain ⟨w, hw⟩ := mem_span_rows_iff.1 h.mem_span
  have hbound : Tendsto (fun damping => damping / 2 * √(w ⬝ᵥ w)) (𝓝[>] 0) (𝓝 0) := by
    have hcontinuous : Continuous fun damping : ℝ => damping / 2 * √(w ⬝ᵥ w) := by fun_prop
    simpa using (hcontinuous.tendsto 0).mono_left nhdsWithin_le_nhds
  rw [tendsto_pi_nhds]
  intro i
  rw [tendsto_iff_dist_tendsto_zero]
  -- an entry is no further from the limit than the whole step
  refine squeeze_zero' (Eventually.of_forall fun damping => dist_nonneg) ?_ hbound
  filter_upwards [self_mem_nhdsWithin] with damping hpos
  calc dist ((step damping).get i) (shortest.get i) = |(step damping - shortest).get i| := by
        rw [Real.dist_eq, get_sub, Pi.sub_apply]
    _ ≤ norm (step damping - shortest) := abs_get_le_norm _ i
    _ ≤ damping / 2 * √(w ⬝ᵥ w) := h.norm_sub_le hpos (hstep damping hpos) hw

/-- Whatever the gradients are, one matrix, their Moore-Penrose inverse, gives the step without a
damping for every error. That step leaves as little of the error as any other and is shorter than
all others that do, and the damped steps tend to it as the damping goes to zero from above. -/
theorem newtonStep_undamped (J : Matrix (Fin m) (Fin n) ℝ) :
    ∃ P, IsPenroseInverse J P ∧ ∀ e : Fin m → ℝ,
      let shortest : Vector ℝ n := .ofFn (-(P *ᵥ e))
      newtonStep 0 (rows J) (List.ofFn e) = .ok (some shortest) ∧
      IsMinimiser (rows J) (List.ofFn e) shortest ∧
      (∀ d, IsMinimiser (rows J) (List.ofFn e) d → d ≠ shortest → norm shortest < norm d) ∧
      ∃ step : ℝ → Vector ℝ n,
        (∀ damping, 0 < damping →
          newtonStep damping (rows J) (List.ofFn e) = .ok (some (step damping))) ∧
        Tendsto (fun damping => (step damping).get) (𝓝[>] 0) (𝓝 shortest.get) := by
  -- each damping has its step, and the one without a damping is that of the inverse
  obtain ⟨P, hP⟩ := exists_isPenroseInverse J
  refine ⟨P, hP, fun e => ?_⟩
  intro shortest
  have hlength : (rows J).length = (List.ofFn e).length := by simp
  have hshortest : IsStep 0 (rows J) (List.ofFn e) shortest := isStep_of_isPenroseInverse hP e
  choose step hok hstep using fun damping => exists_newtonStep damping hlength
  have hundamped : step 0 = shortest := by
    have hzero := hstep 0
    rw [dampingSquare, if_neg (lt_irrefl _)] at hzero
    exact hzero.unique hshortest le_rfl rfl rfl
  have hdamped : ∀ damping, 0 < damping →
      IsStep (damping ^ 2) (rows J) (List.ofFn e) (step damping) := by
    intro damping hpos
    have hsquare := hstep damping
    rwa [dampingSquare, if_pos hpos] at hsquare
  refine ⟨by rw [hok, hundamped], hshortest.isMinimiser, fun d hd hne => hshortest.norm_lt hd hne,
    step, fun damping _ => hok damping, tendsto_damped hshortest hdamped⟩

end KinematicManifold
