import KinematicManifold.Scalar
import KinematicManifold.Fault
import KinematicManifold.Text.Binary

/-!
# Settings of a projection

A projection stops as soon as the error is shorter than the tolerance, and gives up when the budget
of iterations is spent. A damping steers between short and exact steps, and a longest step may be
set.

The settings are checked in this order: tolerance, budget, damping, longest step. A comparison with
something that is no number fails, so such a value is refused wherever a positive one is asked for.

Main statements:
- `Budget.check_eq_ok_iff`: the accepted budgets are the whole numbers from one on;
- `checkTolerance_eq_ok_iff`: a tolerance is accepted as it is, and only if it is positive.
-/

namespace KinematicManifold

/-- A number of iterations, as it is given. -/
inductive Budget where
  /-- A truth value, which is no number of iterations. -/
  | truth (value : Bool)
  /-- An integer of any size. -/
  | integer (value : Int)
  /-- A floating-point number, which is accepted when it is whole. -/
  | float (value : Float)

namespace Budget

/-- The integer that a budget stands for. -/
def toInt : Budget → Except Fault Int
  | truth _ => .error .budgetNotInteger
  | integer value => .ok value
  | float value =>
    match Text.Binary.ofFloat value with
    | .notANumber => .error .budgetNotANumber
    | .infinite _ => .error .budgetInfinite
    | exact =>
      match exact.toInt? with
      | some value => .ok value
      | none => .error .budgetNotInteger

/-- The number of iterations that a budget allows. -/
def check (b : Budget) : Except Fault Nat := do
  let value ← b.toInt
  if value < 1 then .error .budgetTooSmall else .ok value.toNat

/-- Holds of a number below one. -/
def isBelowOne : Budget → Bool
  | truth value => !value
  | integer value => decide (value < 1)
  | float value => decide (value < 1)

/-- The number of attempts that can be counted out. A truth value counts as one or none; what is no
integer by its type cannot be counted out, even if it is whole. -/
def toAttempts : Budget → Except Fault Nat
  | truth value => .ok value.toNat
  | integer value => .ok value.toNat
  | float _ => .error .attemptsNotInteger

/-- A budget is accepted exactly when it stands for an integer that is at least one. -/
theorem check_eq_ok_iff {b : Budget} {count : Nat} :
    b.check = .ok count ↔ 1 ≤ count ∧ b.toInt = .ok (count : Int) := by
  unfold check
  cases h : b.toInt with
  | error fault => simp [bind, Except.bind]
  | ok value =>
    simp only [bind, Except.bind, Except.ok.injEq]
    split
    · simp only [reduceCtorEq, false_iff, not_and]
      omega
    · simp only [Except.ok.injEq]
      omega

end Budget

/-- The settings of a projection. -/
structure Settings (K : Type) where
  /-- An error counts as zero when it is shorter than this. -/
  tolerance : K
  /-- The most iterations. -/
  maxIterations : Nat
  /-- The damping of a step; zero asks for the least-squares step. -/
  damping : K
  /-- The length that no step exceeds, if there is one. -/
  maxStep : Option K

/-- Settings as they are given. What is missing takes its default. -/
structure SettingsDescription (K : Type) where
  tolerance : Option K := none
  maxIterations : Option Budget := none
  damping : Option K := none
  maxStep : Option K := none

variable {K : Type} [Scalar K]

/-- A tolerance has to be positive. -/
def checkTolerance (tolerance : K) : Except Fault K :=
  if 0 < tolerance then .ok tolerance else .error .toleranceNotPositive

/-- A damping has to be zero or more. -/
def checkDamping (damping : K) : Except Fault K :=
  if 0 ≤ damping then .ok damping else .error .dampingNegative

/-- A longest step, if there is one, has to be positive. -/
def checkMaxStep : Option K → Except Fault (Option K)
  | none => .ok none
  | some step => if 0 < step then .ok (some step) else .error .maxStepNotPositive

/-- A tolerance is accepted exactly when it is positive, and is kept as it is. -/
theorem checkTolerance_eq_ok_iff {given tolerance : K} :
    checkTolerance given = .ok tolerance ↔ 0 < given ∧ tolerance = given := by
  unfold checkTolerance
  by_cases h : 0 < given
  · simp only [h, if_true, Except.ok.injEq, true_and, eq_comm]
  · simp [h]

namespace Settings

/-- What holds of all settings that are accepted. -/
structure Valid (s : Settings K) : Prop where
  tolerance_pos : 0 < s.tolerance
  maxIterations_pos : 1 ≤ s.maxIterations
  damping_nonneg : 0 ≤ s.damping
  maxStep_pos : ∀ step ∈ s.maxStep, 0 < step

/-- The settings of a projection about which nothing is said. -/
def standard : Settings K where
  tolerance := 1e-4
  maxIterations := 50
  damping := 1e-3
  maxStep := none

/-- The description of settings that leaves nothing out. -/
def describe (s : Settings K) : SettingsDescription K :=
  ⟨some s.tolerance, some (.integer s.maxIterations), some s.damping, s.maxStep⟩

/-- A tolerance put in the place of another. -/
def setTolerance (s : Settings K) (tolerance : K) : Except Fault (Settings K) := do
  let tolerance ← checkTolerance tolerance
  return { s with tolerance }

/-- A budget put in the place of another. -/
def setMaxIterations (s : Settings K) (budget : Budget) : Except Fault (Settings K) := do
  let maxIterations ← budget.check
  return { s with maxIterations }

end Settings

/-- The settings that are described, if each is in its range. -/
def SettingsDescription.build (d : SettingsDescription K) : Except Fault (Settings K) := do
  let standard : Settings K := .standard
  let tolerance ← checkTolerance (d.tolerance.getD standard.tolerance)
  let maxIterations ← (d.maxIterations.getD (.integer standard.maxIterations)).check
  let damping ← checkDamping (d.damping.getD standard.damping)
  let maxStep ← checkMaxStep (d.maxStep.or standard.maxStep)
  return { tolerance, maxIterations, damping, maxStep }

end KinematicManifold
