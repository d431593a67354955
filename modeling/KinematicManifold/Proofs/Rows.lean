import KinematicManifold.Linear.Basic
import KinematicManifold.Proofs.Elimination
import KinematicManifold.Proofs.Excess

/-!
# Rows as a matrix

Over the real numbers a list of gradients is the list of the rows of a matrix, one row for each row
of the error. What is computed with the list is then what it is called: scalar products, lengths,
the product of the matrix with a step, and the product of its transpose with weights.

## Key results

- `exists_eq_rows`, `exists_eq_rows_ofFn`: every list of gradients is the rows of a matrix
- `image_rows`, `get_pullback_rows`: the products with the matrix and with its transpose
- `norm_sq`, `rowsNorm_ofFn_sq`: the squares of the two lengths
- `norm_eq_euclidean`: the length of a vector is the one of Euclidean space
-/

namespace KinematicManifold.Linear

open Matrix

variable {m n : Nat}

/-! ## Entries of vectors -/

/-- Vectors with the same entries are equal. -/
theorem ext_get {u v : Vector ℝ n} (h : u.get = v.get) : u = v := by
  ext i hi
  simpa [Vector.get_eq_getElem] using congrFun h ⟨i, hi⟩

@[simp] theorem get_ofFn (f : Fin n → ℝ) : (Vector.ofFn f).get = f := by
  funext i
  simp [Vector.get_eq_getElem]

@[simp] theorem get_zero : (0 : Vector ℝ n).get = 0 := by
  funext i
  simp [Vector.get_eq_getElem]

@[simp] theorem get_add (u v : Vector ℝ n) : (u + v).get = u.get + v.get := by
  funext i
  simp [Vector.get_eq_getElem]

@[simp] theorem get_neg (u : Vector ℝ n) : (-u).get = -u.get := by
  funext i
  simp [Vector.get_eq_getElem]

@[simp] theorem get_sub (u v : Vector ℝ n) : (u - v).get = u.get - v.get := by
  funext i
  simp [Vector.get_eq_getElem]

@[simp] theorem get_scale (c : ℝ) (u : Vector ℝ n) : (scale c u).get = c • u.get := by
  funext i
  simp [Vector.get_eq_getElem]

/-- A vector is zero exactly when its entries are. -/
theorem get_eq_zero_iff {v : Vector ℝ n} : v.get = 0 ↔ v = 0 :=
  ⟨fun h => ext_get (h.trans get_zero.symm), fun h => by rw [h, get_zero]⟩

/-- Vectors are equal exactly when their difference is zero. -/
theorem sub_eq_zero_iff {u v : Vector ℝ n} : u - v = 0 ↔ u = v := by
  rw [← get_eq_zero_iff, get_sub, sub_eq_zero]
  exact ⟨ext_get, congrArg Vector.get⟩

/-- The entries of a sum of vectors are sums of entries. -/
theorem get_foldr_add (vectors : List (Vector ℝ n)) :
    (vectors.foldr (· + ·) 0).get = (vectors.map Vector.get).sum := by
  induction vectors with
  | nil => exact get_zero
  | cons v rest ih => rw [List.foldr_cons, get_add, ih, List.map_cons, List.sum_cons]

/-! ## Lengths -/

/-- The inner product of a vector with itself is not negative. -/
theorem dot_self_nonneg (v : Fin n → ℝ) : 0 ≤ v ⬝ᵥ v := by
  simpa using dotProduct_star_self_nonneg v

/-- The theorem of Pythagoras. -/
theorem dot_self_add {u v : Fin n → ℝ} (h : u ⬝ᵥ v = 0) :
    (u + v) ⬝ᵥ (u + v) = u ⬝ᵥ u + v ⬝ᵥ v := by
  rw [add_dotProduct, dotProduct_add, dotProduct_add, dotProduct_comm v u, h, add_zero, zero_add]

/-- The inner product is that of Mathlib. -/
theorem dot_eq (u v : Vector ℝ n) : dot u v = u.get ⬝ᵥ v.get := by
  rw [dot, dotProduct, ← Vector.sum_toList, Vector.toList_zipWith, ← List.sum_ofFn]
  congr 1
  apply List.ext_getElem <;> simp [Vector.get_eq_getElem]

/-- The squared norm is the inner product of a vector with itself. -/
theorem norm_sq (v : Vector ℝ n) : norm v ^ 2 = v.get ⬝ᵥ v.get := by
  rw [norm, Scalar.sqrt_real, dot_eq, Real.sq_sqrt (dot_self_nonneg _)]

/-- The same for an error. -/
theorem rowsNorm_ofFn_sq (e : Fin m → ℝ) : rowsNorm (List.ofFn e) ^ 2 = e ⬝ᵥ e := by
  rw [rowsNorm_sq, List.map_ofFn, List.sum_ofFn, dotProduct]
  exact Finset.sum_congr rfl fun i _ => sq (e i)

/-- The entries of a vector are as long as the vector. -/
theorem rowsNorm_toList_eq_norm (v : Vector ℝ n) : rowsNorm v.toList = norm v := by
  have hdot : (v.toList.map Scalar.square).sum = dot v v := by
    obtain ⟨⟨l⟩, hl⟩ := v
    simp [dot, Vector.sum, Vector.toList]
    rfl
  rw [rowsNorm, hdot, norm]

/-- The length of a vector bounds each of its entries. -/
theorem abs_get_le_norm (v : Vector ℝ n) (i : Fin n) : |v.get i| ≤ norm v := by
  rw [← rowsNorm_toList_eq_norm]
  exact abs_le_rowsNorm (by simp [Vector.get_eq_getElem])

/-- The length of a vector is the one of Euclidean space. -/
theorem norm_eq_euclidean (v : Vector ℝ n) : norm v = ‖WithLp.toLp 2 v.get‖ := by
  rw [norm, Scalar.sqrt_real, dot_eq, EuclideanSpace.norm_eq, dotProduct]
  simp [sq]

/-- The triangle inequality. -/
protected theorem norm_add_le (u v : Vector ℝ n) : norm (u + v) ≤ norm u + norm v := by
  simp only [norm_eq_euclidean, get_add, WithLp.toLp_add]
  exact norm_add_le _ _

/-- Scaling by a number that is not negative scales the norm. -/
theorem norm_scale {c : ℝ} (hc : 0 ≤ c) (v : Vector ℝ n) : norm (scale c v) = c * norm v := by
  rw [norm_eq_euclidean, norm_eq_euclidean, get_scale, WithLp.toLp_smul, norm_smul,
    Real.norm_of_nonneg hc]

/-- Opposite vectors have the same norm. -/
protected theorem norm_neg (v : Vector ℝ n) : norm (-v) = norm v := by
  rw [norm, norm, dot_eq, dot_eq, get_neg, neg_dotProduct_neg]

/-! ## Rows -/

/-- The rows of a matrix. -/
def rows (J : Matrix (Fin m) (Fin n) ℝ) : List (Vector ℝ n) := List.ofFn fun i => .ofFn (J i)

@[simp] theorem length_rows (J : Matrix (Fin m) (Fin n) ℝ) : (rows J).length = m := by
  simp [rows]

/-- A list of `m` gradients consists of the rows of a matrix. -/
theorem exists_eq_rows {gradients : List (Vector ℝ n)} (h : gradients.length = m) :
    ∃ J : Matrix (Fin m) (Fin n) ℝ, gradients = rows J := by
  obtain ⟨f, rfl⟩ := exists_eq_ofFn h
  refine ⟨.of fun i => (f i).get, congrArg List.ofFn (funext fun i => ext_get ?_)⟩
  exact (get_ofFn _).symm

/-- Gradients and an error with as many rows are a matrix and a tuple. -/
theorem exists_eq_rows_ofFn {gradients : List (Vector ℝ n)} {error : List ℝ}
    (h : gradients.length = error.length) :
    ∃ (m : Nat) (J : Matrix (Fin m) (Fin n) ℝ) (e : Fin m → ℝ),
      gradients = rows J ∧ error = List.ofFn e := by
  obtain ⟨J, hJ⟩ := exists_eq_rows h
  obtain ⟨e, he⟩ := exists_eq_ofFn (rfl : error.length = error.length)
  exact ⟨_, J, e, hJ, he⟩

variable (J : Matrix (Fin m) (Fin n) ℝ)

/-- The changes of the rows under a step are the product of the matrix with it. -/
theorem image_rows (d : Vector ℝ n) : image (rows J) d = List.ofFn (J *ᵥ d.get) := by
  rw [image, rows, List.map_ofFn]
  refine congrArg List.ofFn (funext fun i => ?_)
  rw [Function.comp_apply, dot_eq, get_ofFn]
  rfl

/-- The square of the length of an image, by the product of the matrix with its transpose. -/
theorem dotProduct_gram_mulVec (x : Fin n → ℝ) :
    x ⬝ᵥ ((Jᵀ * J) *ᵥ x) = (J *ᵥ x) ⬝ᵥ (J *ᵥ x) := by
  rw [← mulVec_mulVec, dotProduct_transpose_mulVec]

/-- What a step leaves of an error, row by row. -/
theorem zipWith_image_rows (d : Vector ℝ n) (e : Fin m → ℝ) :
    List.zipWith (· + ·) (image (rows J) d) (List.ofFn e) = List.ofFn (J *ᵥ d.get + e) := by
  rw [image_rows]
  apply List.ext_getElem <;> simp

/-- The weighted sum of the rows is the product of the transpose with the weights. -/
theorem get_pullback_rows (w : Fin m → ℝ) : (pullback (rows J) (List.ofFn w)).get = Jᵀ *ᵥ w := by
  rw [pullback, get_foldr_add, mulVec_transpose, vecMul_eq_sum, ← List.sum_ofFn]
  congr 1
  apply List.ext_getElem
  · simp
  · simp [rows]

end KinematicManifold.Linear
