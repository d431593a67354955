import KinematicManifold.Linear.Solve
import KinematicManifold.Proofs.Exact

/-!
# Elimination solves regular systems

A system has as many equations as unknowns, and is regular when no unknowns but zeros make every
left-hand side vanish. Over the real numbers elimination finds unknowns that satisfy every equation
of a regular system: the leading coefficients do not all vanish, so that the largest one can be the
pivot, and the system of the other unknowns is regular again.

## Key results

- `takeLargest_largest`: what is picked is largest
- `Equation.total_reduce`: reduction keeps the left-hand sides, up to a multiple of the pivot's
- `Regular.reduce`: what is left of a regular system is regular
- `Regular.exists_solve`: elimination solves regular systems
- `exists_solve_matrixSystem`: elimination solves the system of an invertible matrix
-/

namespace KinematicManifold.Linear

/-- What is picked has the largest measure. -/
theorem takeLargest_largest {α : Type} {measure : α → ℝ} {l others : List α} {a : α}
    (h : takeLargest measure l = some (a, others)) : ∀ b ∈ l, measure b ≤ measure a := by
  induction l generalizing a others with
  | nil => simp [takeLargest] at h
  | cons c rest ih =>
    rw [List.forall_mem_cons]
    simp only [takeLargest] at h
    split at h
    · next hnone =>
      -- there is nothing else to pick
      obtain rfl := takeLargest_eq_none_iff.1 hnone
      obtain ⟨rfl, -⟩ := Prod.mk.inj (Option.some.inj h)
      exact ⟨le_rfl, List.forall_mem_nil _⟩
    · next b kept hsome =>
      have hrest := ih hsome
      split at h
      · next hlt =>
        obtain ⟨rfl, -⟩ := Prod.mk.inj (Option.some.inj h)
        exact ⟨hlt.le, hrest⟩
      · next hnot =>
        obtain ⟨rfl, -⟩ := Prod.mk.inj (Option.some.inj h)
        exact ⟨le_rfl, fun d hd => (hrest d hd).trans (not_lt.1 hnot)⟩

/-- The sum of the products of numbers at the same place. -/
def total (coefficients unknowns : List ℝ) : ℝ := (List.zipWith (· * ·) coefficients unknowns).sum

/-- The left side of an equation is its first term and the left side of the rest. -/
theorem total_cons (coefficients unknowns : List ℝ) (first : ℝ) :
    total coefficients (first :: unknowns) =
      coefficients.headD 0 * first + total coefficients.tail unknowns := by
  cases coefficients <;> simp [total]

/-- With all unknowns zero the left side is zero. -/
theorem total_replicate_zero (coefficients : List ℝ) (count : Nat) :
    total coefficients (List.replicate count 0) = 0 := by
  induction count generalizing coefficients with
  | zero => simp [total]
  | succ count ih => rw [List.replicate_succ, total_cons, mul_zero, zero_add, ih]

/-- The sum is linear in the coefficients. -/
theorem total_sub_mul (factor : ℝ) {first second : List ℝ} (h : first.length = second.length)
    (unknowns : List ℝ) :
    total (List.zipWith (fun a b => a - factor * b) first second) unknowns =
      total first unknowns - factor * total second unknowns := by
  induction first generalizing second unknowns with
  | nil =>
    obtain rfl := List.length_eq_zero_iff.1 h.symm
    simp [total]
  | cons a rest ih =>
    cases second with
    | nil => simp at h
    | cons b others =>
      -- terms that go with no unknown are left out on all sides
      cases unknowns with
      | nil => simp [total]
      | cons x xs =>
        have hrest := ih (by simpa using h) xs
        simp only [total] at hrest ⊢
        simp only [List.zipWith_cons_cons, List.sum_cons, hrest]
        ring

namespace Equation

/-- Holds of unknowns that satisfy the equation. -/
def Holds (e : Equation ℝ) (unknowns : List ℝ) : Prop := total e.coefficients unknowns = e.value

variable {pivot e : Equation ℝ}

/-- The left-hand side of the reduced equation is that of the equation, less a multiple of the
pivot's, whatever the first unknown is. -/
theorem total_reduce (hpivot : pivot.leading ≠ 0)
    (h : e.coefficients.length = pivot.coefficients.length) (first : ℝ) (unknowns : List ℝ) :
    total (pivot.reduce e).coefficients unknowns = total e.coefficients (first :: unknowns) -
      e.leading / pivot.leading * total pivot.coefficients (first :: unknowns) := by
  rw [reduce, total_sub_mul _ (by simp [h]), total_cons, total_cons]
  change _ = e.leading * first + _ - _ * (pivot.leading * first + _)
  field_simp
  ring

/-- The first unknown is the one that satisfies the pivot. -/
theorem holds_firstUnknown (hpivot : pivot.leading ≠ 0) (unknowns : List ℝ) :
    pivot.Holds (pivot.firstUnknown unknowns :: unknowns) := by
  rw [Holds, total_cons]
  change pivot.leading * ((pivot.value - total pivot.coefficients.tail unknowns) / pivot.leading) +
    _ = _
  field_simp
  ring

/-- Beside the pivot, an equation is satisfied when the reduced one is. -/
theorem Holds.of_reduce (hpivot : pivot.leading ≠ 0)
    (h : e.coefficients.length = pivot.coefficients.length) {first : ℝ} {unknowns : List ℝ}
    (hfirst : pivot.Holds (first :: unknowns)) (hreduced : (pivot.reduce e).Holds unknowns) :
    e.Holds (first :: unknowns) := by
  rw [Holds, total_reduce hpivot h first, hfirst] at hreduced
  exact sub_left_inj.1 hreduced

end Equation

/-- A system with as many equations as unknowns, in which only zeros make every left-hand side
vanish. -/
structure Regular (unknowns : Nat) (system : List (Equation ℝ)) : Prop where
  length_eq : system.length = unknowns
  length_coefficients : ∀ e ∈ system, e.coefficients.length = unknowns
  eq_zero : ∀ x : List ℝ, x.length = unknowns → (∀ e ∈ system, total e.coefficients x = 0) →
    ∀ value ∈ x, value = 0

namespace Regular

variable {unknowns : Nat} {system rest : List (Equation ℝ)} {pivot : Equation ℝ}

/-- Whether a system is regular does not depend on the order of its equations. -/
theorem perm (h : Regular unknowns system) {other : List (Equation ℝ)} (hperm : system.Perm other) :
    Regular unknowns other where
  length_eq := hperm.length_eq ▸ h.length_eq
  length_coefficients e he := h.length_coefficients e (hperm.mem_iff.2 he)
  eq_zero x hx hzero := h.eq_zero x hx fun e he => hzero e (hperm.mem_iff.1 he)

/-- The largest leading coefficient of a regular system does not vanish. -/
theorem leading_ne_zero (h : Regular (unknowns + 1) system)
    (hlargest : ∀ e ∈ system, |e.leading| ≤ |pivot.leading|) : pivot.leading ≠ 0 := by
  intro hzero
  -- else the first unknown is free
  have hleading : ∀ e ∈ system, e.leading = 0 := by
    intro e he
    have hle := hlargest e he
    rwa [hzero, abs_zero, abs_nonpos_iff] at hle
  have hone : (1 : ℝ) = 0 := by
    refine h.eq_zero (1 :: List.replicate unknowns 0) (by simp) (fun e he => ?_) 1 (by simp)
    rw [total_cons]
    change e.leading * 1 + _ = 0
    rw [hleading e he, zero_mul, zero_add, total_replicate_zero]
  exact one_ne_zero hone

/-- What elimination leaves of a regular system is regular. -/
theorem reduce (h : Regular (unknowns + 1) (pivot :: rest)) (hpivot : pivot.leading ≠ 0) :
    Regular unknowns (rest.map pivot.reduce) where
  length_eq := by simpa using h.length_eq
  length_coefficients := by
    have hlength := List.forall_mem_cons.1 h.length_coefficients
    simp only [List.forall_mem_map]
    intro e he
    simp [Equation.reduce, hlength.1, hlength.2 e he]
  eq_zero x hx hzero value hvalue := by
    have hlength := List.forall_mem_cons.1 h.length_coefficients
    simp only [List.forall_mem_map] at hzero
    -- the first unknown is chosen so that the left-hand side of the pivot vanishes as well
    set first := -(total pivot.coefficients.tail x) / pivot.leading with hfirst
    have hpivotZero : total pivot.coefficients (first :: x) = 0 := by
      rw [total_cons, hfirst]
      change pivot.leading * _ + _ = 0
      field_simp
      ring
    refine h.eq_zero (first :: x) (by simp [hx]) (List.forall_mem_cons.2 ⟨hpivotZero, ?_⟩) value
      (List.mem_cons_of_mem _ hvalue)
    intro e he
    have hreduced := hzero e he
    rw [Equation.total_reduce hpivot (by rw [hlength.1, hlength.2 e he]) first, hpivotZero,
      mul_zero, sub_zero] at hreduced
    exact hreduced

/-- Elimination solves every regular system. -/
theorem exists_solve (h : Regular unknowns system) :
    ∃ x, solve unknowns system = some x ∧ ∀ e ∈ system, e.Holds x := by
  induction unknowns generalizing system with
  | zero =>
    obtain rfl := List.length_eq_zero_iff.1 h.length_eq
    exact ⟨[], rfl, List.forall_mem_nil _⟩
  | succ unknowns ih =>
    cases htake : takeLargest (fun e => Scalar.abs e.leading) system with
    | none =>
      -- a regular system has an equation for each unknown
      rw [takeLargest_eq_none_iff.1 htake] at h
      exact absurd h.length_eq (by simp)
    | some picked =>
      obtain ⟨pivot, rest⟩ := picked
      -- the pivot has a leading coefficient, and without it the system stays regular
      have hperm := takeLargest_perm htake
      have hpivot : pivot.leading ≠ 0 :=
        h.leading_ne_zero (by simpa using takeLargest_largest htake)
      have hsystem := h.perm hperm.symm
      obtain ⟨others, hsolve, hothers⟩ := ih (hsystem.reduce hpivot)
      refine ⟨pivot.firstUnknown others :: others, ?_, fun e he => ?_⟩
      · simp only [solve, htake, Scalar.isZero_iff, if_neg hpivot, hsolve, Option.map_some]
      · -- what solves the reduced equations solves the others with the first unknown
        have hfirst := Equation.holds_firstUnknown hpivot others
        rcases List.mem_cons.1 (hperm.mem_iff.2 he) with rfl | hrest
        · exact hfirst
        · have hlength := List.forall_mem_cons.1 hsystem.length_coefficients
          exact hfirst.of_reduce hpivot (by rw [hlength.1, hlength.2 e hrest])
            (hothers _ (List.mem_map_of_mem hrest))

end Regular

/-! ## Systems of matrices -/

/-- A list of known length is a tuple. -/
theorem exists_eq_ofFn {α : Type*} {l : List α} {m : Nat} (h : l.length = m) :
    ∃ f : Fin m → α, l = List.ofFn f := by
  subst h
  exact ⟨l.get, l.ofFn_get.symm⟩

section
variable {m : Nat}

/-- The left side of an equation is a sum over the unknowns. -/
theorem total_ofFn (a x : Fin m → ℝ) : total (List.ofFn a) (List.ofFn x) = ∑ i, a i * x i := by
  rw [total, ← List.sum_ofFn]
  congr 1
  apply List.ext_getElem <;> simp

/-- The equations between the products of the rows of a matrix with the unknowns, and given
values. -/
def matrixSystem (A : Matrix (Fin m) (Fin m) ℝ) (values : Fin m → ℝ) : List (Equation ℝ) :=
  List.ofFn fun i => ⟨List.ofFn (A i), values i⟩

open Matrix in
/-- The system of an invertible matrix is regular. -/
theorem regular_matrixSystem {A : Matrix (Fin m) (Fin m) ℝ} (hA : IsUnit A) (values : Fin m → ℝ) :
    Regular m (matrixSystem A values) where
  length_eq := by simp [matrixSystem]
  length_coefficients := by simp [matrixSystem, List.mem_ofFn]
  eq_zero x hx hzero := by
    obtain ⟨y, rfl⟩ := exists_eq_ofFn hx
    -- what answers every equation with zero is sent to zero by the matrix
    have hproduct : A *ᵥ y = 0 := by
      funext i
      have hrow := hzero _ (List.mem_ofFn.2 ⟨i, rfl⟩)
      rwa [total_ofFn] at hrow
    have hy : y = 0 := (Matrix.mulVec_injective_iff_isUnit.2 hA) (by rw [hproduct, mulVec_zero])
    simp [hy, List.mem_ofFn]

open Matrix in
/-- Elimination solves the system of an invertible matrix. -/
theorem exists_solve_matrixSystem {A : Matrix (Fin m) (Fin m) ℝ} (hA : IsUnit A)
    (values : Fin m → ℝ) :
    ∃ x, solve m (matrixSystem A values) = some (List.ofFn x) ∧ A *ᵥ x = values := by
  obtain ⟨x, hsolve, hholds⟩ := (regular_matrixSystem hA values).exists_solve
  obtain ⟨y, rfl⟩ := exists_eq_ofFn (length_solve hsolve)
  refine ⟨y, hsolve, ?_⟩
  funext i
  have hrow := hholds _ (List.mem_ofFn.2 ⟨i, rfl⟩)
  rwa [Equation.Holds, total_ofFn] at hrow

end

end KinematicManifold.Linear
