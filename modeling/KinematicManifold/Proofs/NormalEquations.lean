import KinematicManifold.Proofs.OrthonormalBasis

/-!
# Normal equations

A step that answers an error lies in the span of the gradients, and solves the normal equations:
what it leaves of the error pulls back to nothing, but for the damping. Such a step is unique. It
depends on the rows of the error only through the sum of the products of the gradients with
themselves and the sum of the gradients times their values, so that the order of the rows does not
matter, and rows without a gradient do not matter at all.

## Key results

- `dotProduct_normalMatrix`: the normal equations are positive semidefinite
- `IsStep.unique`: equal normal equations have equal steps
- `normalMatrix_perm`, `pullback_perm`: the order of the rows
- `normalMatrix_append_zero`, `pullback_append_zero`: rows without a gradient
-/

namespace KinematicManifold.Linear

open Matrix

variable {m n : Nat}

/-! ## Matrix and vector of the normal equations -/

/-- The matrix of the normal equations: the sum of the products of each gradient with itself. -/
noncomputable def normalMatrix (gradients : List (Vector ℝ n)) : Matrix (Fin n) (Fin n) ℝ :=
  (gradients.map fun g => vecMulVec g.get g.get).sum

/-- The normal matrix of the rows of `J` is `Jᵀ J`. -/
theorem normalMatrix_rows (J : Matrix (Fin m) (Fin n) ℝ) : normalMatrix (rows J) = Jᵀ * J := by
  rw [normalMatrix, rows, List.map_ofFn, List.sum_ofFn]
  ext i j
  simp [Matrix.sum_apply, vecMulVec_apply, Matrix.mul_apply]

/-- A further gradient adds its product with itself to the normal matrix. -/
theorem normalMatrix_cons (g : Vector ℝ n) (gradients : List (Vector ℝ n)) :
    normalMatrix (g :: gradients) = vecMulVec g.get g.get + normalMatrix gradients := rfl

/-- Without gradients nothing is pulled back. -/
@[simp] theorem get_pullback_nil (error : List ℝ) :
    (pullback ([] : List (Vector ℝ n)) error).get = 0 := by
  cases error <;> exact get_zero

/-- Without an error nothing is pulled back. -/
@[simp] theorem get_pullback_of_nil (gradients : List (Vector ℝ n)) :
    (pullback gradients []).get = 0 := by
  cases gradients <;> exact get_zero

/-- A further row adds its gradient, as often as its error says. -/
theorem get_pullback_cons (g : Vector ℝ n) (gradients : List (Vector ℝ n)) (value : ℝ)
    (error : List ℝ) : (pullback (g :: gradients) (value :: error)).get =
      value • g.get + (pullback gradients error).get := by
  rw [pullback, List.zipWith_cons_cons, List.foldr_cons, get_add, get_scale]
  rfl

/-- Gradients that are zero pull every error back to zero. -/
theorem get_pullback_eq_zero {gradients : List (Vector ℝ n)} (h : ∀ g ∈ gradients, g = 0)
    (error : List ℝ) : (pullback gradients error).get = 0 := by
  induction gradients generalizing error with
  | nil => simp
  | cons g rest ih =>
    rw [List.forall_mem_cons] at h
    cases error with
    | nil => simp
    | cons value values => rw [get_pullback_cons, h.1, get_zero, smul_zero, zero_add, ih h.2]

/-- Gradients that are mapped by a linear map pull an error back to the image of the pull-back. -/
theorem get_pullback_map {m : Nat} (φ : (Fin n → ℝ) →ₗ[ℝ] (Fin m → ℝ))
    {f : Vector ℝ n → Vector ℝ m} (hf : ∀ g, (f g).get = φ g.get) (gradients : List (Vector ℝ n))
    (error : List ℝ) :
    (pullback (gradients.map f) error).get = φ (pullback gradients error).get := by
  induction gradients generalizing error with
  | nil => simp
  | cons g rest ih =>
    cases error with
    | nil => simp
    | cons value values =>
      rw [List.map_cons, get_pullback_cons, get_pullback_cons, ih, map_add, map_smul, hf]

/-- The normal matrix as a quadratic form sums up the squares of the changes along the gradients. -/
theorem dotProduct_normalMatrix (gradients : List (Vector ℝ n)) (x : Fin n → ℝ) :
    x ⬝ᵥ normalMatrix gradients *ᵥ x = (gradients.map fun g => (g.get ⬝ᵥ x) ^ 2).sum := by
  induction gradients with
  | nil => simp [normalMatrix]
  | cons g rest ih =>
    rw [normalMatrix_cons, add_mulVec, dotProduct_add, ih, List.map_cons, List.sum_cons,
      vecMulVec_mulVec]
    simp [dotProduct_comm x, sq]

/-- What the normal equations, damped or not, send to zero is orthogonal to every gradient. -/
theorem dotProduct_eq_zero_of_normal {square : ℝ} (hsquare : 0 ≤ square)
    {gradients : List (Vector ℝ n)} {x : Fin n → ℝ}
    (h : normalMatrix gradients *ᵥ x + square • x = 0) : ∀ g ∈ gradients, g.get ⬝ᵥ x = 0 := by
  -- the quadratic form is a sum of squares
  have hsum : (gradients.map fun g => (g.get ⬝ᵥ x) ^ 2).sum + square * (x ⬝ᵥ x) = 0 := by
    rw [← dotProduct_normalMatrix, ← smul_eq_mul, ← dotProduct_smul, ← dotProduct_add, h,
      dotProduct_zero]
  intro g hg
  have hnonneg : ∀ term ∈ gradients.map fun g => (g.get ⬝ᵥ x) ^ 2, 0 ≤ term := by
    rw [List.forall_mem_map]
    exact fun g _ => sq_nonneg (g.get ⬝ᵥ x)
  -- none of which is more than the sum, which is zero
  have hle := List.single_le_sum hnonneg _ (List.mem_map_of_mem hg)
  have hlength : 0 ≤ square * (x ⬝ᵥ x) := mul_nonneg hsquare (dot_self_nonneg x)
  exact pow_eq_zero_iff two_ne_zero |>.1 (le_antisymm (by linarith) (sq_nonneg _))

/-! ## Steps -/

/-- A step in the span of the gradients that solves the normal equations, with the square of a
damping on their diagonal. -/
structure IsStep (square : ℝ) (gradients : List (Vector ℝ n)) (error : List ℝ)
    (step : Vector ℝ n) : Prop where
  mem_span : step.get ∈ span gradients
  normal : normalMatrix gradients *ᵥ step.get + square • step.get = -(pullback gradients error).get

/-- The normal equations of the rows of a matrix. -/
theorem IsStep.normal_rows {square : ℝ} {J : Matrix (Fin m) (Fin n) ℝ} {e : Fin m → ℝ}
    {step : Vector ℝ n} (h : IsStep square (rows J) (List.ofFn e) step) :
    (Jᵀ * J) *ᵥ step.get + square • step.get = -(Jᵀ *ᵥ e) := by
  have hnormal := h.normal
  rwa [normalMatrix_rows, get_pullback_rows] at hnormal

/-- Equal normal equations have equal steps. -/
theorem IsStep.unique {square : ℝ} {gradients gradients' : List (Vector ℝ n)}
    {error error' : List ℝ} {step step' : Vector ℝ n} (h : IsStep square gradients error step)
    (h' : IsStep square gradients' error' step') (hsquare : 0 ≤ square)
    (hmatrix : normalMatrix gradients = normalMatrix gradients')
    (hvector : pullback gradients error = pullback gradients' error') : step = step' := by
  set x := step.get - step'.get with hx
  have hzero : normalMatrix gradients *ᵥ x + square • x = 0 := by
    have hnormal := h.normal
    rw [hvector, ← h'.normal, ← hmatrix] at hnormal
    rw [hx, mulVec_sub, smul_sub, sub_add_sub_comm, hnormal, sub_self]
  -- the difference is orthogonal to both spans, and so to itself
  have hstep : step.get ⬝ᵥ x = 0 :=
    dotProduct_eq_zero_of_mem_span (dotProduct_eq_zero_of_normal hsquare hzero) h.mem_span
  have hstep' : step'.get ⬝ᵥ x = 0 :=
    dotProduct_eq_zero_of_mem_span (dotProduct_eq_zero_of_normal hsquare (hmatrix ▸ hzero))
      h'.mem_span
  have hself : x ⬝ᵥ x = 0 := by
    conv_lhs => rw [hx, sub_dotProduct, ← hx, hstep, hstep', sub_self]
  exact ext_get (sub_eq_zero.1 (dotProduct_self_eq_zero.1 hself))

/-! ## Scaled gradients -/

section
variable {c : ℝ} {gradients : List (Vector ℝ n)}

/-- Scaling all gradients by a number that is not zero keeps their span. -/
theorem span_map_scale (hc : c ≠ 0) : span (gradients.map (scale c)) = span gradients := by
  apply le_antisymm
  · -- multiples of the gradients are in their span
    rw [span_le, List.forall_mem_map]
    intro g hg
    rw [get_scale]
    exact Submodule.smul_mem _ _ (get_mem_span hg)
  · rw [span_le]
    intro g hg
    -- and the gradients are multiples of their multiples
    have hscaled := get_mem_span (List.mem_map_of_mem (f := scale c) hg)
    rw [get_scale] at hscaled
    exact (Submodule.smul_mem_iff _ hc).1 hscaled

/-- Scaling all gradients scales the normal matrix by the square. -/
theorem normalMatrix_map_scale : normalMatrix (gradients.map (scale c)) =
    c ^ 2 • normalMatrix gradients := by
  rw [normalMatrix, normalMatrix, List.map_map, List.smul_sum, List.map_map]
  congr 1
  refine List.map_congr_left fun g _ => ?_
  simp [smul_vecMulVec, vecMulVec_smul, smul_smul, sq]

/-- Scaling all gradients scales the pull-back. -/
theorem get_pullback_map_scale (error : List ℝ) :
    (pullback (gradients.map (scale c)) error).get = c • (pullback gradients error).get :=
  get_pullback_map (c • LinearMap.id) (fun _ => get_scale _ _) gradients error

/-- A step that answers an error without a damping is found with scaled gradients as well. -/
theorem IsStep.of_map_scale {error : List ℝ} {step : Vector ℝ n} (hc : c ≠ 0)
    (h : IsStep 0 (gradients.map (scale c)) error step) :
    IsStep 0 gradients error (scale c step) where
  mem_span := by
    rw [get_scale, ← span_map_scale hc]
    exact Submodule.smul_mem _ _ h.mem_span
  normal := by
    have hnormal := h.normal
    rw [zero_smul, add_zero, normalMatrix_map_scale, get_pullback_map_scale, smul_mulVec, sq,
      mul_smul, ← smul_neg] at hnormal
    rw [zero_smul, add_zero, get_scale, mulVec_smul]
    -- a factor that is not zero can be left out
    exact smul_right_injective _ hc hnormal

end

/-! ## Rows and their values -/

/-- The order of the rows does not matter. -/
theorem normalMatrix_perm {gradients gradients' : List (Vector ℝ n)}
    (h : gradients.Perm gradients') : normalMatrix gradients = normalMatrix gradients' :=
  (h.map _).sum_eq

/-- Rows without a gradient do not matter. -/
theorem normalMatrix_append_zero (gradients : List (Vector ℝ n)) {others : List (Vector ℝ n)}
    (h : ∀ g ∈ others, g = 0) : normalMatrix (gradients ++ others) = normalMatrix gradients := by
  have hothers : (others.map fun g => vecMulVec g.get g.get).sum = 0 := by
    refine List.sum_eq_zero ?_
    rw [List.forall_mem_map]
    intro g hg
    rw [h g hg, get_zero, zero_vecMulVec]
  rw [normalMatrix, List.map_append, List.sum_append, hothers, add_zero, normalMatrix]

section
variable {rows rows' : List (Vector ℝ n × ℝ)}

/-- The pull-back is a sum over the rows, each with its gradient and its error. -/
theorem get_pullback_pairs (rows : List (Vector ℝ n × ℝ)) :
    (pullback (rows.map Prod.fst) (rows.map Prod.snd)).get =
      (rows.map fun row => row.2 • row.1.get).sum := by
  induction rows with
  | nil => simp
  | cons row rest ih =>
    rw [List.map_cons, List.map_cons, List.map_cons, List.sum_cons, get_pullback_cons, ih]

/-- The order of the rows does not matter to the pull-back. -/
theorem pullback_perm (h : rows.Perm rows') :
    pullback (rows.map Prod.fst) (rows.map Prod.snd) =
      pullback (rows'.map Prod.fst) (rows'.map Prod.snd) := by
  apply ext_get
  rw [get_pullback_pairs, get_pullback_pairs]
  exact (h.map _).sum_eq

/-- Rows without a gradient add nothing to the pull-back. -/
theorem pullback_append_zero (rows : List (Vector ℝ n × ℝ)) {others : List (Vector ℝ n × ℝ)}
    (h : ∀ row ∈ others, row.1 = 0) :
    pullback ((rows ++ others).map Prod.fst) ((rows ++ others).map Prod.snd) =
      pullback (rows.map Prod.fst) (rows.map Prod.snd) := by
  have hothers : (others.map fun row => row.2 • row.1.get).sum = 0 := by
    refine List.sum_eq_zero ?_
    rw [List.forall_mem_map]
    intro row hrow
    rw [h row hrow, get_zero, smul_zero]
  apply ext_get
  rw [get_pullback_pairs, get_pullback_pairs, List.map_append, List.sum_append, hothers, add_zero]

end

end KinematicManifold.Linear
