import KinematicManifold.Proofs.NormalEquations

/-!
# Shortest least-squares steps

Over the real numbers a step without a damping always exists. Orthonormal bases of the row space and
of the column space turn the gradients into a square system of the size of the rank, which has no
kernel, so that elimination solves it. What the step leaves of the error is orthogonal to the column
space, which is to say that it solves the normal equations.

It is the step that the Moore-Penrose inverse of the gradients gives.

## Key results

- `restrictedSystem_rows`: the square system as a matrix
- `isUnit_restriction`: it has no kernel
- `exists_leastSquaresStep`: the step exists and solves the normal equations
- `leastSquaresStep_of_isPenroseInverse`: it is the step of the Moore-Penrose inverse
- `exists_isPenroseInverse`: every matrix has one
-/

namespace KinematicManifold.Linear

open Matrix

variable {m n r : Nat}

/-! ## Gradients as a matrix -/

/-- The matrix that has some gradients for its rows. -/
def toMatrix (gradients : List (Vector ℝ n)) : Matrix (Fin gradients.length) (Fin n) ℝ :=
  .of fun i => (gradients.get i).get

/-- The rows of the matrix of gradients are the gradients. -/
theorem rows_toMatrix (gradients : List (Vector ℝ n)) : rows (toMatrix gradients) = gradients := by
  apply List.ext_getElem
  · simp
  · intro i _ _
    apply ext_get
    simp only [rows, toMatrix, List.getElem_ofFn, get_ofFn, List.get_eq_getElem]
    rfl

/-- The columns of a list of rows are the rows of the transposed matrix. -/
theorem columns_eq (gradients : List (Vector ℝ n)) :
    columns gradients = rows (toMatrix gradients)ᵀ := by
  rw [columns, rows, List.ofFn_eq_map]
  rfl

/-- No more dimensions are spanned than are counted, since none is noise. -/
theorem rank_le_countDimensions (gradients : List (Vector ℝ n)) :
    (toMatrix gradients).rank ≤ countDimensions gradients := by
  have hexact : ¬(0 : ℝ) < Scalar.rankTolerance := lt_irrefl 0
  rw [countDimensions, countNoise_of_exact hexact, Nat.sub_zero]
  split_ifs
  · rw [length_singularValues]
    exact rank_le_height _
  · rw [length_singularValues, columns_eq, length_rows]
    exact rank_le_width _

/-! ## The square system -/

section
variable {J : Matrix (Fin m) (Fin n) ℝ} {D : Matrix (Fin r) (Fin n) ℝ}
  {T : Matrix (Fin r) (Fin m) ℝ}

/-- Of two matrices with the same row space, one sends to zero what the other does. -/
theorem mulVec_eq_zero_of_span_eq {k : Nat} {A : Matrix (Fin r) (Fin n) ℝ}
    {B : Matrix (Fin k) (Fin n) ℝ} (h : span (rows A) = span (rows B)) {x : Fin n → ℝ}
    (hx : A *ᵥ x = 0) : B *ᵥ x = 0 := by
  -- what `A` takes to zero is orthogonal to its rows, and so to their span
  have horthogonal : ∀ v ∈ rows A, v.get ⬝ᵥ x = 0 := by
    intro v hv
    obtain ⟨i, rfl⟩ := List.mem_ofFn.1 hv
    rw [get_ofFn]
    exact congrFun hx i
  funext i
  have hrow : B i ∈ span (rows B) := by
    have hmem : Vector.ofFn (B i) ∈ rows B := List.mem_ofFn.2 ⟨i, rfl⟩
    simpa using get_mem_span hmem
  rw [← h] at hrow
  exact dotProduct_eq_zero_of_mem_span horthogonal hrow

/-- Between bases of the row space and of the column space, a matrix has no kernel. -/
theorem isUnit_restriction (hD : D * Dᵀ = 1) (hrows : span (rows D) = span (rows J))
    (hcolumns : span (rows T) = span (rows Jᵀ)) : IsUnit (T * J * Dᵀ) := by
  rw [← mulVec_injective_iff_isUnit]
  refine (injective_iff_map_eq_zero (mulVecLin (T * J * Dᵀ))).2 fun x hx => ?_
  rw [mulVecLin_apply, ← mulVec_mulVec, ← mulVec_mulVec] at hx
  -- what the tests do not see of a change is orthogonal to the column space, in which it lies
  have hnormal : Jᵀ *ᵥ (J *ᵥ (Dᵀ *ᵥ x)) = 0 := mulVec_eq_zero_of_span_eq hcolumns hx
  have himage : J *ᵥ (Dᵀ *ᵥ x) = 0 := by
    rw [mulVec_mulVec] at hnormal
    have hker : Dᵀ *ᵥ x ∈ LinearMap.ker (Jᵀ * J).mulVecLin := hnormal
    rwa [ker_mulVecLin_transpose_mul_self] at hker
  have hzero : D *ᵥ (Dᵀ *ᵥ x) = 0 := mulVec_eq_zero_of_span_eq hrows.symm himage
  rwa [mulVec_mulVec, hD, one_mulVec] at hzero

/-- The step that the restricted system gives solves the normal equations. -/
theorem isStep_restriction {e : Fin m → ℝ} {w : Fin r → ℝ} (hrows : span (rows D) = span (rows J))
    (hcolumns : span (rows T) = span (rows Jᵀ)) (hw : (T * J * Dᵀ) *ᵥ w = T *ᵥ e) :
    IsStep 0 (rows J) (List.ofFn e) (-pullback (rows D) (List.ofFn w)) where
  mem_span := by
    rw [← hrows, get_neg, get_pullback_rows]
    exact neg_mem (mem_span_rows_iff.2 ⟨w, rfl⟩)
  normal := by
    -- the tests do not see what is left of the error
    have htests : T *ᵥ (J *ᵥ (Dᵀ *ᵥ w) - e) = 0 := by
      rw [mulVec_sub, ← hw, mulVec_mulVec, mulVec_mulVec, sub_self]
    have hleft : Jᵀ *ᵥ (J *ᵥ (Dᵀ *ᵥ w) - e) = 0 := mulVec_eq_zero_of_span_eq hcolumns htests
    rw [mulVec_sub, sub_eq_zero, mulVec_mulVec] at hleft
    rw [zero_smul, add_zero, get_neg, get_pullback_rows, get_pullback_rows, normalMatrix_rows,
      mulVec_neg, hleft]

end

/-- The equations for a step in the span of the rows of `D` are those of a matrix. -/
theorem restrictedSystem_rows (gradients : List (Vector ℝ n)) (error : List ℝ)
    (D : Matrix (Fin r) (Fin n) ℝ) (T : Matrix (Fin r) (Fin gradients.length) ℝ) :
    restrictedSystem gradients error (rows D) (rows T) =
      matrixSystem (T * toMatrix gradients * Dᵀ) (T *ᵥ fun i => error.getD i 0) := by
  -- the system has the coefficients of `J` in the two bases
  have hchange (d : Vector ℝ n) : Vector.ofFn (fun i : Fin gradients.length =>
      dot gradients[i] d) = .ofFn (toMatrix gradients *ᵥ d.get) := by
    refine congrArg Vector.ofFn (funext fun i => ?_)
    rw [dot_eq]
    rfl
  have hentry (k l : Fin r) : T k ⬝ᵥ (toMatrix gradients *ᵥ D l) =
      (T * toMatrix gradients * Dᵀ) k l := by
    rw [dotProduct_mulVec]
    rfl
  simp only [restrictedSystem, hchange, rows, List.map_ofFn, matrixSystem]
  refine congrArg List.ofFn (funext fun k => ?_)
  simp only [Function.comp_def, dot_eq, get_ofFn, hentry]
  rfl

/-- Bases of the row space and of the column space give a step that solves the normal equations. -/
theorem exists_solve_restrictedSystem (gradients : List (Vector ℝ n)) {error : List ℝ}
    (hlength : error.length = gradients.length) :
    let directions := orthonormalBasis gradients
    let tests := orthonormalBasis (columns gradients)
    let rank := min (countDimensions gradients) (min directions.length tests.length)
    ∃ w, solve rank (restrictedSystem gradients error (directions.take rank) (tests.take rank)) =
        some w ∧ IsStep 0 gradients error (-pullback (directions.take rank) w) := by
  intro directions tests rank
  obtain ⟨e, rfl⟩ := exists_eq_ofFn hlength
  obtain ⟨D, hD, horthonormal, hrows⟩ := exists_orthonormalBasis (J := toMatrix gradients) rfl
  obtain ⟨T, hT, -, hcolumns⟩ := exists_orthonormalBasis (rank_transpose (toMatrix gradients))
  rw [rows_toMatrix] at hD
  rw [← columns_eq] at hT
  -- both bases have as many vectors as the rank, and none is left out
  have hrank : rank = (toMatrix gradients).rank := by
    have hle := rank_le_countDimensions gradients
    simp only [rank, directions, tests, hD, hT, length_rows]
    omega
  have hdirections : directions.take rank = rows D := by
    rw [List.take_of_length_le (by simp [directions, hD, hrank])]
    exact hD
  have htests : tests.take rank = rows T := by
    rw [List.take_of_length_le (by simp [tests, hT, hrank])]
    exact hT
  obtain ⟨w, hsolve, hw⟩ := exists_solve_matrixSystem
    (isUnit_restriction horthonormal hrows hcolumns) (T *ᵥ e)
  have hvalues : (fun i : Fin gradients.length => (List.ofFn e).getD i 0) = e := by
    funext i
    simp
  refine ⟨List.ofFn w, ?_, ?_⟩
  · rw [hdirections, htests, restrictedSystem_rows, hvalues, hrank, hsolve]
  · have hstep := isStep_restriction hrows hcolumns hw
    rwa [rows_toMatrix, ← hdirections] at hstep

/-! ## The size of the gradients -/

/-- Going through a list for the largest magnitude never falls below where it starts. -/
private theorem le_foldl_larger (values : List ℝ) (start : ℝ) :
    start ≤ values.foldl (fun a b => Scalar.larger a (Scalar.abs b)) start := by
  induction values generalizing start with
  | nil => exact le_rfl
  | cons value rest ih =>
    rw [List.foldl_cons, Scalar.larger_eq_max]
    exact (le_max_left _ _).trans (ih _)

/-- No entry of the list has a larger magnitude than the one that is found. -/
private theorem abs_le_foldl_larger {values : List ℝ} {value : ℝ} (h : value ∈ values)
    (start : ℝ) : |value| ≤ values.foldl (fun a b => Scalar.larger a (Scalar.abs b)) start := by
  induction values generalizing start with
  | nil => cases h
  | cons first rest ih =>
    rw [List.foldl_cons, Scalar.larger_eq_max, Scalar.abs_eq]
    rcases List.mem_cons.1 h with rfl | hrest
    · exact (le_max_right _ _).trans (le_foldl_larger _ _)
    · exact ih hrest _

/-- No entry is larger than the largest. -/
theorem abs_le_largestEntry {gradients : List (Vector ℝ n)} {g : Vector ℝ n} (h : g ∈ gradients)
    (i : Fin n) : |g.get i| ≤ largestEntry gradients := by
  apply abs_le_foldl_larger
  rw [List.mem_flatMap]
  exact ⟨g, h, by simp [Vector.get_eq_getElem]⟩

/-- Gradients whose largest entry is zero are all zero. -/
theorem eq_zero_of_largestEntry {gradients : List (Vector ℝ n)} (h : largestEntry gradients = 0) :
    ∀ g ∈ gradients, g = 0 := by
  intro g hg
  apply ext_get
  funext i
  have hle := abs_le_largestEntry hg i
  rw [h, abs_nonpos_iff] at hle
  rw [hle, get_zero, Pi.zero_apply]

/-! ## The step -/

/-- Where no row has a gradient, the step is zero. -/
theorem isStep_zero {gradients : List (Vector ℝ n)} (h : ∀ g ∈ gradients, g = 0)
    (error : List ℝ) : IsStep 0 gradients error 0 where
  mem_span := by
    rw [get_zero]
    exact zero_mem _
  normal := by
    rw [get_zero, mulVec_zero, smul_zero, add_zero, get_pullback_eq_zero h, neg_zero]

/-- There is a shortest least-squares step, and it solves the normal equations. -/
theorem exists_leastSquaresStep (gradients : List (Vector ℝ n)) {error : List ℝ}
    (hlength : error.length = gradients.length) :
    ∃ step, leastSquaresStep gradients error = some step ∧ IsStep 0 gradients error step := by
  have hfinite : (gradients.all isFinite && error.all Scalar.isFinite) = true := by
    simp [isFinite]
  simp only [leastSquaresStep, hfinite, Bool.not_true, Bool.false_eq_true, if_false]
  by_cases hsize : largestEntry gradients = 0
  · -- gradients of zero ask for no step
    exact ⟨0, if_pos ((Scalar.isZero_iff _).2 hsize),
      isStep_zero (eq_zero_of_largestEntry hsize) error⟩
  · rw [if_neg (by rwa [Scalar.isZero_iff])]
    -- other gradients are scaled first, which keeps the step
    have hscale : 1 / largestEntry gradients ≠ 0 := one_div_ne_zero hsize
    have hlengthScaled :
        error.length = (gradients.map (scale (1 / largestEntry gradients))).length := by
      rw [List.length_map, hlength]
    obtain ⟨w, hsolve, hstep⟩ := exists_solve_restrictedSystem _ hlengthScaled
    exact ⟨_, by rw [hsolve, Option.map_some], hstep.of_map_scale hscale⟩

/-! ## The Moore-Penrose inverse -/

/-- The equations that make a matrix the Moore-Penrose inverse of another. -/
structure IsPenroseInverse (J : Matrix (Fin m) (Fin n) ℝ) (P : Matrix (Fin n) (Fin m) ℝ) :
    Prop where
  mul_mul_self : J * P * J = J
  mul_mul_inverse : P * J * P = P
  symmetric_left : (J * P)ᵀ = J * P
  symmetric_right : (P * J)ᵀ = P * J

/-- What the Moore-Penrose inverse makes of an error solves the normal equations. -/
theorem isStep_of_isPenroseInverse {J : Matrix (Fin m) (Fin n) ℝ} {P : Matrix (Fin n) (Fin m) ℝ}
    (h : IsPenroseInverse J P) (e : Fin m → ℝ) :
    IsStep 0 (rows J) (List.ofFn e) (.ofFn (-(P *ᵥ e))) where
  mem_span := by
    -- `P = (P J)ᵀ P`, so that its columns lie in the row space
    have hrows : P = Jᵀ * (Pᵀ * P) := by
      rw [← Matrix.mul_assoc, ← transpose_mul, h.symmetric_right, h.mul_mul_inverse]
    rw [get_ofFn, mem_span_rows_iff]
    refine ⟨-((Pᵀ * P) *ᵥ e), ?_⟩
    rw [mulVec_neg, mulVec_mulVec, ← hrows]
  normal := by
    -- `Jᵀ (J P) = (J P J)ᵀ`
    have hcolumns : Jᵀ * J * P = Jᵀ := by
      rw [Matrix.mul_assoc, ← h.symmetric_left, ← transpose_mul, h.mul_mul_self]
    rw [zero_smul, add_zero, get_ofFn, normalMatrix_rows, get_pullback_rows, mulVec_neg,
      mulVec_mulVec, hcolumns]

/-- The shortest least-squares step is the one that the Moore-Penrose inverse gives. -/
theorem leastSquaresStep_of_isPenroseInverse {J : Matrix (Fin m) (Fin n) ℝ}
    {P : Matrix (Fin n) (Fin m) ℝ} (h : IsPenroseInverse J P) (e : Fin m → ℝ) :
    leastSquaresStep (rows J) (List.ofFn e) = some (.ofFn (-(P *ᵥ e))) := by
  have hlength : (List.ofFn e).length = (rows J).length := by simp
  obtain ⟨step, hstep, hsolves⟩ := exists_leastSquaresStep (rows J) hlength
  rw [hstep, hsolves.unique (isStep_of_isPenroseInverse h e) le_rfl rfl rfl]

/-- What solves the normal equations of every error, with columns in the row space, is the
Moore-Penrose inverse. -/
theorem isPenroseInverse_of_normal {J : Matrix (Fin m) (Fin n) ℝ} {P : Matrix (Fin n) (Fin m) ℝ}
    {W : Matrix (Fin m) (Fin m) ℝ} (hnormal : Jᵀ * J * P = Jᵀ) (hrows : P = Jᵀ * W) :
    IsPenroseInverse J P := by
  have hleft : (J * P)ᵀ * (J * P) = (J * P)ᵀ := by
    rw [transpose_mul, Matrix.mul_assoc, ← Matrix.mul_assoc Jᵀ, hnormal]
  have hsymmetric : (J * P).IsSymm := by
    have hproduct := isSymm_transpose_mul_self (J * P)
    rwa [hleft, isSymm_transpose_iff] at hproduct
  have hself : J * P * J = J := by
    rw [← hsymmetric.eq, ← transpose_inj, transpose_mul, transpose_transpose, ← Matrix.mul_assoc,
      hnormal]
  -- on the row space, the inverse undoes the matrix
  have hundo : P * J * Jᵀ = Jᵀ := by
    have hzero : J * Jᵀ * (W * J * Jᵀ - 1) = 0 := by
      rw [Matrix.mul_sub, Matrix.mul_one, sub_eq_zero]
      calc J * Jᵀ * (W * J * Jᵀ) = J * (Jᵀ * W) * J * Jᵀ := by simp only [Matrix.mul_assoc]
        _ = J * Jᵀ := by rw [← hrows, hself]
    have hrow : Jᵀ * (W * J * Jᵀ - 1) = 0 := by
      rwa [← conjTranspose_eq_transpose_of_trivial, self_mul_conjTranspose_mul_eq_zero] at hzero
    rw [Matrix.mul_sub, Matrix.mul_one, sub_eq_zero] at hrow
    rw [hrows, Matrix.mul_assoc Jᵀ, Matrix.mul_assoc Jᵀ, hrow]
  have hright : (P * J).IsSymm := by
    have hproduct := isSymm_mul_transpose_self (P * J)
    rwa [transpose_mul, ← Matrix.mul_assoc, hundo, ← transpose_mul,
      isSymm_transpose_iff] at hproduct
  refine ⟨hself, ?_, hsymmetric.eq, hright.eq⟩
  calc P * J * P = P * J * Jᵀ * W := by rw [Matrix.mul_assoc (P * J), ← hrows]
    _ = P := by rw [hundo, ← hrows]

/-- Every matrix has a Moore-Penrose inverse: its columns answer the unit errors. -/
theorem exists_isPenroseInverse (J : Matrix (Fin m) (Fin n) ℝ) : ∃ P, IsPenroseInverse J P := by
  -- the steps for unit errors are the columns of the inverse
  have hunit (j : Fin m) : ∃ w : Fin m → ℝ, (Jᵀ * J) *ᵥ (Jᵀ *ᵥ w) = Jᵀ *ᵥ Pi.single j 1 := by
    have hlength : (List.ofFn (Pi.single j (1 : ℝ))).length = (rows J).length := by simp
    obtain ⟨step, -, hstep⟩ := exists_leastSquaresStep (rows J) hlength
    obtain ⟨w, hw⟩ := mem_span_rows_iff.1 hstep.mem_span
    have hnormal := hstep.normal
    rw [zero_smul, add_zero, normalMatrix_rows, get_pullback_rows, ← hw] at hnormal
    exact ⟨-w, by rw [mulVec_neg, mulVec_neg, hnormal, neg_neg]⟩
  choose w hw using hunit
  have hnormal : Jᵀ * J * (Jᵀ * (Matrix.of w)ᵀ) = Jᵀ := by
    refine ext_of_mulVec_single fun j => ?_
    rw [← mulVec_mulVec, ← mulVec_mulVec (Pi.single j 1) Jᵀ, mulVec_single_one]
    exact hw j
  exact ⟨_, isPenroseInverse_of_normal hnormal rfl⟩

end KinematicManifold.Linear
