import KinematicManifold.Linear.Basic

/-!
# Linear equations

A system of linear equations is solved by elimination: the equation with the first largest leading
coefficient is the pivot, it is subtracted from the others so that their leading terms vanish, the
smaller system is solved, and the leading unknown follows from the pivot. There is no solution to
report as soon as a pivot is exactly zero.

Main statement: `length_solve`, a solution has as many numbers as there are unknowns.
-/

namespace KinematicManifold.Linear

/-- A linear equation: the coefficients of the unknowns in order, and what they add up to. -/
structure Equation (K : Type) where
  coefficients : List K
  value : K

variable {K : Type} [Scalar K]

namespace Equation

/-- The coefficient of the first unknown. -/
def leading (e : Equation K) : K := e.coefficients.headD 0

/-- The equation for the other unknowns once the pivot has removed the first. -/
def reduce (pivot e : Equation K) : Equation K :=
  let factor := e.leading / pivot.leading
  ⟨List.zipWith (fun a b => a - factor * b) e.coefficients.tail pivot.coefficients.tail,
    e.value - factor * pivot.value⟩

/-- The first unknown, when the others are known. -/
def firstUnknown (pivot : Equation K) (others : List K) : K :=
  (pivot.value - (List.zipWith (· * ·) pivot.coefficients.tail others).sum) / pivot.leading

end Equation

/-- The unknowns that satisfy a system, found by elimination. -/
def solve : (unknowns : Nat) → List (Equation K) → Option (List K)
  | 0, _ => some []
  | unknowns + 1, system =>
    match takeLargest (fun e => Scalar.abs e.leading) system with
    | none => none
    | some (pivot, rest) =>
      if Scalar.isZero pivot.leading then none
      else
        (solve unknowns (rest.map pivot.reduce)).map fun others =>
          pivot.firstUnknown others :: others

/-- A solution gives a value to each unknown. -/
theorem length_solve {unknowns : Nat} {system : List (Equation K)} {solution : List K}
    (h : solve unknowns system = some solution) : solution.length = unknowns := by
  induction unknowns generalizing system solution with
  | zero =>
    simp only [solve, Option.some.injEq] at h
    simp [← h]
  | succ unknowns ih =>
    simp only [solve] at h
    split at h
    · -- nothing to take as a pivot
      simp at h
    · split at h
      · simp at h
      · -- the first unknown is put before the others
        obtain ⟨others, hothers, rfl⟩ := Option.map_eq_some_iff.1 h
        simp [ih hothers]

end KinematicManifold.Linear
