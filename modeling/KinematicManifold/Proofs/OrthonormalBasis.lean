import KinematicManifold.Linear.LeastSquares
import KinematicManifold.Proofs.Rows

/-!
# Orthonormal bases

Over the real numbers only zero vectors are too short to go on with, so that orthogonal projection
finds an orthonormal basis of the span of the given vectors, whatever they are. Its length is the
dimension of the span: for the rows of a matrix and for its columns it is the rank of the matrix.

## Key results

- `span_cons_residual`: projection keeps the span
- `extendBasis_spec`, `orthonormalBasis_spec`: the vectors that are found
- `exists_orthonormalBasis`: the basis of a row space, as many vectors as the rank
-/

namespace KinematicManifold.Linear

open Matrix

variable {m n r : Nat}

/-! ## Spans -/

/-- The weighted sums of vectors. -/
def span (vectors : List (Vector ℝ n)) : Submodule ℝ (Fin n → ℝ) :=
  Submodule.span ℝ {x | ∃ v ∈ vectors, v.get = x}

section
variable {vectors : List (Vector ℝ n)}

/-- Each vector of a list is in its span. -/
theorem get_mem_span {v : Vector ℝ n} (h : v ∈ vectors) : v.get ∈ span vectors :=
  Submodule.subset_span ⟨v, h, rfl⟩

/-- The span is the least space that has all vectors of the list. -/
theorem span_le {space : Submodule ℝ (Fin n → ℝ)} :
    span vectors ≤ space ↔ ∀ v ∈ vectors, v.get ∈ space := by
  rw [span, Submodule.span_le]
  constructor
  · exact fun h v hv => h ⟨v, hv, rfl⟩
  · rintro h x ⟨v, hv, rfl⟩
    exact h v hv

/-- What is orthogonal to some vectors is orthogonal to their weighted sums. -/
theorem dotProduct_eq_zero_of_mem_span {x y : Fin n → ℝ} (h : ∀ v ∈ vectors, v.get ⬝ᵥ y = 0)
    (hx : x ∈ span vectors) : x ⬝ᵥ y = 0 := by
  have hle : span vectors ≤ LinearMap.ker (dotProductBilin ℝ ℝ |>.flip y) :=
    span_le.2 fun v hv => by simpa using h v hv
  simpa using hle hx

end

/-- A further vector adds its line to the span. -/
theorem span_cons (v : Vector ℝ n) (others : List (Vector ℝ n)) :
    span (v :: others) = Submodule.span ℝ {v.get} ⊔ span others := by
  apply le_antisymm
  · rw [span_le, List.forall_mem_cons]
    exact ⟨Submodule.mem_sup_left (Submodule.mem_span_singleton_self _),
      fun u hu => Submodule.mem_sup_right (get_mem_span hu)⟩
  · rw [sup_le_iff, Submodule.span_singleton_le_iff_mem, span_le]
    exact ⟨get_mem_span List.mem_cons_self, fun u hu => get_mem_span (List.mem_cons_of_mem _ hu)⟩

/-- Scaling the first vector by a number that is not zero keeps the span. -/
theorem span_cons_scale {c : ℝ} (hc : c ≠ 0) (v : Vector ℝ n) (others : List (Vector ℝ n)) :
    span (scale c v :: others) = span (v :: others) := by
  rw [span_cons, span_cons, get_scale, Submodule.span_singleton_smul_eq hc.isUnit]

/-- The span does not depend on the order. -/
theorem span_perm {first second : List (Vector ℝ n)} (h : first.Perm second) :
    span first = span second := by
  simp only [span, h.mem_iff]

section
variable {J : Matrix (Fin m) (Fin n) ℝ}

/-- The span of the rows of a matrix is its row space. -/
theorem span_rows : span (rows J) = Submodule.span ℝ (Set.range J.row) := by
  rw [span]
  congr 1
  ext x
  simp only [rows, List.mem_ofFn]
  simp [Set.mem_range, row_apply']

/-- The span of the rows of `J` is the range of `Jᵀ`. -/
theorem mem_span_rows_iff {x : Fin n → ℝ} : x ∈ span (rows J) ↔ ∃ w, Jᵀ *ᵥ w = x := by
  rw [span_rows, ← range_vecMulLinear, LinearMap.mem_range]
  simp [mulVec_transpose]

end

/-! ## Orthogonal projection -/

/-- The inner product is symmetric. -/
theorem dot_comm (u v : Vector ℝ n) : dot u v = dot v u := by
  rw [dot_eq, dot_eq, dotProduct_comm]

/-- Nothing is taken away along vectors that are orthogonal. -/
theorem residual_eq_self {basis : List (Vector ℝ n)} {v : Vector ℝ n}
    (h : ∀ b ∈ basis, dot v b = 0) : residual basis v = v := by
  induction basis with
  | nil => rfl
  | cons b rest ih =>
    rw [List.forall_mem_cons] at h
    -- nothing along the first direction is taken off
    have hfirst : v - scale (dot v b) b = v := by
      rw [h.1]
      exact ext_get (by simp)
    rw [residual, List.foldl_cons, hfirst]
    exact ih h.2

/-- Beside a single vector, the residual is without the part along it. -/
theorem get_residual_singleton (d v : Vector ℝ n) :
    (residual [d] v).get = v.get - dot v d • d.get := by
  simp [residual]

/-- What projection leaves is orthogonal to the unit vector along which it projects. -/
theorem dot_residual_singleton {d : Vector ℝ n} (hd : dot d d = 1) (v : Vector ℝ n) :
    dot (residual [d] v) d = 0 := by
  rw [dot_eq] at hd
  rw [dot_eq, get_residual_singleton, sub_dotProduct, smul_dotProduct, hd, dot_eq, smul_eq_mul,
    mul_one, sub_self]

/-- Projection along a vector keeps what is orthogonal to both. -/
theorem dot_residual_singleton_eq_zero {b d v : Vector ℝ n} (hd : dot d b = 0) (hv : dot v b = 0) :
    dot (residual [d] v) b = 0 := by
  rw [dot_eq] at hd hv
  rw [dot_eq, get_residual_singleton, sub_dotProduct, smul_dotProduct, hd, hv, smul_zero, sub_zero]

/-- What projection along a unit vector leaves is orthogonal to that vector, and to all to which
everything was orthogonal before. -/
theorem dot_eq_zero_of_mem_residuals {d : Vector ℝ n} {basis others : List (Vector ℝ n)}
    (hunit : dot d d = 1) (hd : ∀ b ∈ basis, dot d b = 0)
    (hothers : ∀ v ∈ others, ∀ b ∈ basis, dot v b = 0) :
    ∀ v ∈ others.map (residual [d]), ∀ b ∈ d :: basis, dot v b = 0 := by
  rw [List.forall_mem_map]
  intro v hv
  rw [List.forall_mem_cons]
  exact ⟨dot_residual_singleton hunit v,
    fun b hb => dot_residual_singleton_eq_zero (hd b hb) (hothers v hv b hb)⟩

/-- Projection along a vector keeps the span, if the vector stays. -/
theorem span_cons_residual (d : Vector ℝ n) (others : List (Vector ℝ n)) :
    span (d :: others.map (residual [d])) = span (d :: others) := by
  apply le_antisymm
  · rw [span_le, List.forall_mem_cons, List.forall_mem_map]
    refine ⟨get_mem_span List.mem_cons_self, fun v hv => ?_⟩
    rw [get_residual_singleton]
    exact sub_mem (get_mem_span (List.mem_cons_of_mem _ hv))
      (Submodule.smul_mem _ _ (get_mem_span List.mem_cons_self))
  · rw [span_le, List.forall_mem_cons]
    have hd : d.get ∈ span (d :: others.map (residual [d])) := get_mem_span List.mem_cons_self
    refine ⟨hd, fun v hv => ?_⟩
    -- a vector is what projection leaves of it, and what it takes away
    have hleft := get_mem_span (List.mem_cons_of_mem d (List.mem_map_of_mem (f := residual [d]) hv))
    rw [get_residual_singleton] at hleft
    have hsum := add_mem hleft (Submodule.smul_mem _ (dot v d) hd)
    rwa [sub_add_cancel] at hsum

/-! ## Bases -/

/-- Unit vectors, each of which is orthogonal to the others. -/
structure IsOrthonormal (basis : List (Vector ℝ n)) : Prop where
  unit : ∀ b ∈ basis, dot b b = 1
  orthogonal : basis.Pairwise fun u v => dot u v = 0

/-- No vectors are orthonormal. -/
theorem IsOrthonormal.nil : IsOrthonormal ([] : List (Vector ℝ n)) :=
  ⟨List.forall_mem_nil _, .nil⟩

/-- A unit vector extends a basis of the span of vectors to which it is orthogonal. -/
theorem IsOrthonormal.cons {d : Vector ℝ n} {basis vectors : List (Vector ℝ n)}
    (hunit : dot d d = 1) (h : IsOrthonormal basis) (hspan : span basis = span vectors)
    (hacross : ∀ v ∈ vectors, dot v d = 0) : IsOrthonormal (d :: basis) where
  unit := List.forall_mem_cons.2 ⟨hunit, h.unit⟩
  orthogonal := by
    refine List.pairwise_cons.2 ⟨fun b hb => ?_, h.orthogonal⟩
    -- older directions are in the span of vectors that the new one is across
    have hmem := get_mem_span hb
    rw [hspan] at hmem
    rw [dot_comm, dot_eq]
    refine dotProduct_eq_zero_of_mem_span (fun v hv => ?_) hmem
    rw [← dot_eq]
    exact hacross v hv

/-- Only the zero vector has norm zero. -/
theorem norm_eq_zero_iff_get {v : Vector ℝ n} : norm v = 0 ↔ v.get = 0 := by
  rw [← sq_eq_zero_iff, norm_sq, dotProduct_self_eq_zero]

/-- Norms are not negative. -/
theorem zero_le_norm (v : Vector ℝ n) : 0 ≤ norm v := by
  rw [norm, Scalar.sqrt_real]
  exact Real.sqrt_nonneg _

/-- Two vectors that differ are some way apart. -/
theorem norm_sub_pos_of_ne {u v : Vector ℝ n} (h : u ≠ v) : 0 < norm (u - v) := by
  refine lt_of_le_of_ne (zero_le_norm _) fun hzero => h ?_
  rwa [eq_comm, norm_eq_zero_iff_get, get_eq_zero_iff, sub_eq_zero_iff] at hzero

/-- Vectors without length span what no vectors do. -/
theorem span_nil_eq {vectors : List (Vector ℝ n)} (h : ∀ v ∈ vectors, norm v ≤ 0) :
    span [] = span vectors := by
  refine le_antisymm (span_le.2 (List.forall_mem_nil _)) (span_le.2 fun v hv => ?_)
  rw [norm_eq_zero_iff_get.1 (le_antisymm (h v hv) (zero_le_norm v))]
  exact zero_mem _

/-- A vector that is not zero has a unit vector in its direction. -/
theorem dot_direction {v : Vector ℝ n} (h : 0 < norm v) :
    dot (scale (1 / norm v) v) (scale (1 / norm v) v) = 1 := by
  have hne := h.ne'
  rw [dot_eq, get_scale, smul_dotProduct, dotProduct_smul, ← norm_sq, smul_eq_mul, smul_eq_mul]
  field_simp

/-- Scaling keeps vectors orthogonal. -/
theorem dot_scale_eq_zero {v b : Vector ℝ n} (c : ℝ) (h : dot v b = 0) : dot (scale c v) b = 0 := by
  rw [dot_eq] at h
  rw [dot_eq, get_scale, smul_dotProduct, h, smul_zero]

/-- What `extendBasis` finds: an orthonormal basis of the span of the vectors, if these are
orthogonal to what they extend. -/
theorem extendBasis_spec {fuel : Nat} {basis vectors : List (Vector ℝ n)}
    (hfuel : vectors.length ≤ fuel) (hacross : ∀ v ∈ vectors, ∀ b ∈ basis, dot v b = 0) :
    IsOrthonormal (extendBasis 0 fuel basis vectors) ∧
      span (extendBasis 0 fuel basis vectors) = span vectors := by
  -- each round moves one direction to the basis, and the others stay orthogonal to it
  induction fuel generalizing basis vectors with
  | zero =>
    obtain rfl := List.length_eq_zero_iff.1 (Nat.le_zero.1 hfuel)
    exact ⟨.nil, rfl⟩
  | succ fuel ih =>
    rw [extendBasis]
    split
    · next hnone =>
      obtain rfl := takeLargest_eq_none_iff.1 hnone
      exact ⟨.nil, rfl⟩
    · next longest others hsome =>
      have hperm := takeLargest_perm hsome
      split
      · next hshort =>
        exact ⟨.nil, span_nil_eq fun v hv => (takeLargest_largest hsome v hv).trans hshort⟩
      · next hlong =>
        rw [not_le] at hlong
        have hlongest := hacross longest (hperm.mem_iff.1 List.mem_cons_self)
        have hrest : ∀ v ∈ others, ∀ b ∈ basis, dot v b = 0 := fun v hv =>
          hacross v (hperm.mem_iff.1 (List.mem_cons_of_mem _ hv))
        rw [residual_eq_self hlongest]
        set direction := scale (1 / norm longest) longest with hdirection
        have hunit : dot direction direction = 1 := dot_direction hlong
        have hothers := dot_eq_zero_of_mem_residuals hunit
          (fun b hb => dot_scale_eq_zero _ (hlongest b hb)) hrest
        have hlength : (others.map (residual [direction])).length ≤ fuel := by
          have hcount := length_takeLargest hsome
          rw [List.length_map]
          omega
        obtain ⟨horthonormal, hspan⟩ := ih hlength hothers
        refine ⟨.cons hunit horthonormal hspan fun v hv => hothers v hv _ List.mem_cons_self, ?_⟩
        calc span (direction :: _)
            = span (direction :: others.map (residual [direction])) := by
              rw [span_cons, hspan, ← span_cons]
          _ = span (direction :: others) := span_cons_residual direction others
          _ = span (longest :: others) := span_cons_scale (one_div_pos.2 hlong).ne' longest others
          _ = span vectors := span_perm hperm

/-- The orthonormal basis of the span of vectors. -/
theorem orthonormalBasis_spec (vectors : List (Vector ℝ n)) :
    IsOrthonormal (orthonormalBasis vectors) ∧ span (orthonormalBasis vectors) = span vectors := by
  rw [orthonormalBasis]
  split
  · next hnone =>
    obtain rfl := takeLargest_eq_none_iff.1 hnone
    exact ⟨.nil, rfl⟩
  · -- no vector is too short but zero
    rw [Scalar.rankTolerance_real, mul_zero, zero_mul]
    exact extendBasis_spec le_rfl fun _ _ => List.forall_mem_nil _

/-! ## Bases as matrices -/

/-- The rows of a matrix are orthonormal when its transpose is its inverse from the right. -/
theorem IsOrthonormal.mul_transpose {B : Matrix (Fin r) (Fin n) ℝ} (h : IsOrthonormal (rows B)) :
    B * Bᵀ = 1 := by
  have hdot (i j : Fin r) : (B * Bᵀ) i j = dot (.ofFn (B i)) (.ofFn (B j)) := by
    rw [dot_eq, get_ofFn, get_ofFn]
    rfl
  have horthogonal := List.pairwise_ofFn.1 h.orthogonal
  ext i j
  rw [hdot, one_apply]
  -- the entries of the product are the products of the directions
  rcases lt_trichotomy i j with hlt | rfl | hlt
  · rw [if_neg hlt.ne, horthogonal hlt]
  · rw [if_pos rfl, h.unit _ (List.mem_ofFn.2 ⟨i, rfl⟩)]
  · rw [if_neg hlt.ne', dot_comm, horthogonal hlt]

/-- A matrix with orthonormal rows has full row rank. -/
theorem rank_of_mul_transpose_eq_one {B : Matrix (Fin r) (Fin n) ℝ} (h : B * Bᵀ = 1) :
    B.rank = r := by
  apply le_antisymm (rank_le_height B)
  have hle := rank_mul_le_left B Bᵀ
  rwa [h, rank_one, Fintype.card_fin] at hle

/-- There is an orthonormal basis of the row space of a matrix, with as many vectors as the rank. -/
theorem exists_orthonormalBasis {J : Matrix (Fin m) (Fin n) ℝ} (hr : J.rank = r) :
    ∃ B : Matrix (Fin r) (Fin n) ℝ,
      orthonormalBasis (rows J) = rows B ∧ B * Bᵀ = 1 ∧ span (rows B) = span (rows J) := by
  obtain ⟨horthonormal, hspan⟩ := orthonormalBasis_spec (rows J)
  obtain ⟨k, B, hB⟩ : ∃ k, ∃ B : Matrix (Fin k) (Fin n) ℝ, orthonormalBasis (rows J) = rows B :=
    ⟨_, exists_eq_rows rfl⟩
  rw [hB] at horthonormal hspan
  have hone := horthonormal.mul_transpose
  -- both matrices have the dimension of the one row space as their rank
  obtain rfl : k = r := by
    rw [← rank_of_mul_transpose_eq_one hone, ← hr, rank_eq_finrank_span_row,
      rank_eq_finrank_span_row, ← span_rows, ← span_rows, hspan]
  exact ⟨B, hB, hone, hspan⟩

end KinematicManifold.Linear
