import Mathlib
import KinematicManifold.Scalar

/-!
# Exact arithmetic

The real numbers are a type of scalars, in which every algorithm of the library has its exact
meaning: no operation rounds, no number fails to compare with itself, and no singular value counts
as noise. Each derived operation of `Scalar` is here what its name says:

- `isZero_iff`, `isFinite_eq_true`: the tests on a single number;
- `abs_eq`, `larger_eq_max`, `smaller_eq_min`: magnitude, maximum and minimum;
- `clamp_eq`: moving a number into an interval.
-/

namespace KinematicManifold

noncomputable instance : Scalar ℝ where
  sqrt := Real.sqrt
  sin := Real.sin
  cos := Real.cos
  tan := Real.tan
  atan2 ordinate abscissa := Complex.arg ⟨abscissa, ordinate⟩
  rankTolerance := 0
  decidableLT := inferInstance
  decidableLE := inferInstance

-- quotients of real numbers are those of the field
attribute [instance (low)] Scalar.toDiv

namespace Scalar

variable (a b : ℝ)

/-! ## The operations of the class -/

@[simp] theorem sqrt_real : Scalar.sqrt a = √a := rfl
@[simp] theorem sin_real : Scalar.sin a = Real.sin a := rfl
@[simp] theorem cos_real : Scalar.cos a = Real.cos a := rfl
@[simp] theorem tan_real : Scalar.tan a = Real.tan a := rfl
@[simp] theorem atan2_real : Scalar.atan2 a b = Complex.arg ⟨b, a⟩ := rfl
@[simp] theorem rankTolerance_real : (Scalar.rankTolerance : ℝ) = 0 := rfl

/-! ## Decimal literals

`ring` reads a literal with a point wrongly when its value is whole, so that such literals are
rewritten first. -/

/-- The literal of a half is a half. -/
@[simp] theorem half_literal : (0.5 : ℝ) = 1 / 2 := by norm_num
/-- The literal of two is two. -/
@[simp] theorem two_literal : (2.0 : ℝ) = 2 := by norm_num

/-! ## Derived operations -/

/-- Only zero passes for zero. -/
@[simp] theorem isZero_iff : Scalar.isZero a = true ↔ a = 0 := by
  simp only [Scalar.isZero, Bool.and_eq_true, decide_eq_true_eq]
  exact ⟨fun h => le_antisymm h.1 h.2, fun h => ⟨h.le, h.ge⟩⟩

/-- Every real number is finite. -/
@[simp] theorem isFinite_eq_true : Scalar.isFinite a = true := by
  simp [Scalar.isFinite]

/-- The square of a number is its second power. -/
@[simp] theorem square_eq : Scalar.square a = a ^ 2 := by
  rw [Scalar.square, sq]

/-- The magnitude is the absolute value. -/
@[simp] theorem abs_eq : Scalar.abs a = |a| := by
  unfold Scalar.abs
  split_ifs with h
  · exact (abs_of_neg h).symm
  · exact (abs_of_nonneg (not_lt.1 h)).symm

/-- Without `NaN` the larger of two numbers is their maximum. -/
@[simp] theorem larger_eq_max : Scalar.larger a b = max a b := by
  unfold Scalar.larger
  split_ifs with hlt hle
  · exact (max_eq_right hlt.le).symm
  · exact (max_eq_left hle).symm
  · -- two real numbers always compare
    exact absurd (not_lt.1 hlt) hle

/-- Without `NaN` the smaller of two numbers is their minimum. -/
@[simp] theorem smaller_eq_min : Scalar.smaller a b = min a b := by
  unfold Scalar.smaller
  split_ifs with hlt hle
  · exact (min_eq_left hlt.le).symm
  · exact (min_eq_right hle).symm
  · exact absurd (not_lt.1 hlt) hle

/-- A number is clamped to its lower bound first and to its upper bound last. -/
@[simp] theorem clamp_eq (lower upper : ℝ) :
    Scalar.clamp a lower upper = min upper (max a lower) := by
  simp [Scalar.clamp]

end Scalar

end KinematicManifold
