import KinematicManifold.Fault
import KinematicManifold.Linear.LeastSquares
import KinematicManifold.Projection.Settings

/-!
# Projection onto a manifold

A residual is an error over the configurations of `n` joints, a list of rows that are all zero on
the manifold, together with the gradients of the rows. Projection repeats Newton steps until the
error is shorter than the tolerance. It ends in one of three ways: it succeeds, its budget is spent,
or it meets an error for which there is no step. The outcome holds the last configuration in every
case.

A step `d` answers an error `e` with gradients `J`:
- with damping `c > 0` it is `-Jᵀ (J Jᵀ + c² I)⁻¹ e`;
- without damping it is the shortest of the steps that bring `e + J d` closest to zero. A step that
  is not finite is no step, and a step longer than the longest one allowed is shortened to that
  length.

An error whose length compares with nothing ends a projection at once, as if the budget were spent.

Main statements, where the error at the start is known:
- `run_zero`: without a budget, the outcome describes the start;
- `run_of_not_le`: if the error is not as long as the tolerance, nothing moves.
-/

namespace KinematicManifold

/-- An error over the configurations of `n` joints, and the gradients of its rows. -/
structure Residual (K : Type) (n : Nat) where
  evaluate : Vector K n → Except Fault (List K)
  jacobian : Vector K n → Except Fault (List (Vector K n))

/-- How a projection ends. -/
inductive Status where
  /-- The error is shorter than the tolerance. -/
  | success
  /-- The budget of iterations is spent. -/
  | budgetSpent
  /-- There is no step from here. -/
  | singular
  deriving DecidableEq, Repr

/-- What a projection reports. -/
structure Outcome (K : Type) (n : Nat) where
  status : Status
  /-- The last configuration. -/
  configuration : Vector K n
  /-- The length of the error at that configuration. -/
  errorNorm : K
  /-- The number of steps taken. -/
  iterations : Nat

/-- Holds of an outcome on the manifold. -/
def Outcome.success {K : Type} {n : Nat} (o : Outcome K n) : Bool := o.status == .success

variable {K : Type} [Scalar K] {n : Nat}

/-! ## Steps -/

/-- The equations of a damped step: the products of the gradients with one another, the square of
the damping added on the diagonal, against the error. -/
def dampedSystem (square : K) (gradients : List (Vector K n)) (error : List K) :
    List (Linear.Equation K) :=
  (gradients.zip error).mapIdx fun i (gradient, value) =>
    { coefficients := gradients.mapIdx fun j other =>
        Linear.dot gradient other + square * (if i = j then 1 else 0)
      value }

/-- The step with the given square of a damping. -/
def dampedStep (square : K) (gradients : List (Vector K n)) (error : List K) :
    Option (Vector K n) :=
  (Linear.solve error.length (dampedSystem square gradients error)).map fun weights =>
    -Linear.pullback gradients weights

/-- The square of a damping, which has to be finite if the damping is. -/
def squareDamping (damping : K) : Except Fault K :=
  let square := Scalar.square damping
  if Scalar.isFinite damping && !Scalar.isFinite square then .error .dampingOverflow else .ok square

/-- The step that answers an error, if there is one that is finite. -/
def newtonStep (damping : K) (gradients : List (Vector K n)) (error : List K) :
    Except Fault (Option (Vector K n)) := do
  let step ←
    if 0 < damping then
      -- The square is refused before any equation is set up.
      let square ← squareDamping damping
      pure (dampedStep square gradients error)
    else pure (Linear.leastSquaresStep gradients error)
  return step.filter Linear.isFinite

/-- A step, shortened to the longest length allowed. -/
def capStep (maxStep : Option K) (step : Vector K n) : Vector K n :=
  match maxStep with
  | none => step
  | some longest =>
    let length := Linear.norm step
    if longest < length then Linear.scale (longest / length) step else step

/-! ## Projection -/

namespace Residual

/-- The outcome where the iteration ends: a success if the error is shorter than the tolerance. -/
def finish (s : Settings K) (q : Vector K n) (norm : K) (taken : Nat) : Outcome K n :=
  ⟨if norm < s.tolerance then .success else .budgetSpent, q, norm, taken⟩

/-- The projection of a configuration when some steps are already taken: up to `budget` more
follow. -/
def run (r : Residual K n) (s : Settings K) :
    (budget : Nat) → (q : Vector K n) → (taken : Nat) → Except Fault (Outcome K n)
  | 0, q, taken => do
    let error ← r.evaluate q
    return finish s q (Linear.rowsNorm error) taken
  | budget + 1, q, taken => do
    let error ← r.evaluate q
    let norm := Linear.rowsNorm error
    if s.tolerance ≤ norm then
      let gradients ← r.jacobian q
      match ← newtonStep s.damping gradients error with
      | none => return ⟨.singular, q, norm, taken⟩
      | some step => run r s budget (q + capStep s.maxStep step) (taken + 1)
    else return finish s q norm taken

/-- Without a budget a run ends where it starts. -/
theorem run_zero {r : Residual K n} {s : Settings K} {q : Vector K n} {error : List K}
    (taken : Nat) (h : r.evaluate q = .ok error) :
    r.run s 0 q taken = .ok (finish s q (Linear.rowsNorm error) taken) := by
  simp only [run, h, bind, Except.bind]
  rfl

/-- A run ends at once where the error norm is not at least the tolerance, as is the case when it is
no number. -/
theorem run_of_not_le {r : Residual K n} {s : Settings K} {q : Vector K n} {error : List K}
    (budget taken : Nat) (h : r.evaluate q = .ok error)
    (hn : ¬s.tolerance ≤ Linear.rowsNorm error) :
    r.run s budget q taken = .ok (finish s q (Linear.rowsNorm error) taken) := by
  cases budget with
  | zero => exact run_zero taken h
  | succ budget =>
    simp only [run, h, bind, Except.bind, hn, if_false]
    rfl

/-- The projection of a configuration. -/
def project (r : Residual K n) (s : Settings K) (q : Vector K n) : Except Fault (Outcome K n) :=
  r.run s s.maxIterations q 0

/-- Holds where the error is shorter than a tolerance. -/
def isSatisfied (r : Residual K n) (tolerance : K) (q : Vector K n) : Except Fault Bool := do
  let error ← r.evaluate q
  return decide (Linear.rowsNorm error < tolerance)

end Residual

end KinematicManifold
