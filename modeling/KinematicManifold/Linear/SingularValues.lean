import KinematicManifold.Linear.Basic

/-!
# Singular values

The singular values of a list of rows are the lengths that the rows have once they are perpendicular
to one another. Two rows become perpendicular when they are turned in the plane of their places,
which leaves the singular values as they are; a sweep does this once for every pair, and a few
sweeps make all rows perpendicular up to rounding.

Singular values tell how many dimensions a list of rows really spans: one that is small beside the
largest is what rounding has left of zero. An exact type has no rounding, and there no singular
value counts as noise.

Main statements:
- `length_singularValues`: there is one for each row;
- `countNoise_of_exact`: none of them is noise where numbers are exact.
-/

namespace KinematicManifold.Linear

variable {K : Type} [Scalar K] {n : Nat}

/-- Two rows turned into each other until they are perpendicular, by no more than an eighth of a
turn. -/
def separate (u v : Vector K n) : Vector K n × Vector K n :=
  let product := dot u v
  if Scalar.isZero product then (u, v)
  else
    -- The tangent of the angle is the smaller root of `t ^ 2 + 2 * ratio * t = 1`.
    let ratio := (dot v v - dot u u) / (2.0 * product)
    let length := Scalar.sqrt (1 + Scalar.square ratio)
    let tangent := if ratio < 0 then 1 / (ratio - length) else 1 / (ratio + length)
    let cosine := 1 / Scalar.sqrt (1 + Scalar.square tangent)
    let sine := cosine * tangent
    (scale cosine u - scale sine v, scale sine u + scale cosine v)

/-- A row made perpendicular to the others, one after the other. -/
def separateFrom (u : Vector K n) : List (Vector K n) → Vector K n × List (Vector K n)
  | [] => (u, [])
  | v :: rest =>
    let (u, v) := separate u v
    let (u, rest) := separateFrom u rest
    (u, v :: rest)

/-- Making one row perpendicular to the others keeps the number of those. -/
theorem length_separateFrom (u : Vector K n) (rows : List (Vector K n)) :
    (separateFrom u rows).2.length = rows.length := by
  induction rows generalizing u with
  | nil => rfl
  | cons v rest ih => simp [separateFrom, ih]

/-- Each pair of rows made perpendicular in turn. -/
def sweep : List (Vector K n) → List (Vector K n)
  | [] => []
  | u :: rest =>
    let separated := separateFrom u rest
    separated.1 :: sweep separated.2
  termination_by rows => rows.length
  decreasing_by simp [length_separateFrom]

/-- A sweep keeps the number of rows. -/
theorem length_sweep (rows : List (Vector K n)) : (sweep rows).length = rows.length := by
  fun_induction sweep rows with
  | case1 => rfl
  | case2 u rest separated ih => simp [ih, separated, length_separateFrom]

/-- The singular values of a list of rows, in no particular order. Perpendicularity improves so fast
from sweep to sweep that twenty are more than enough. -/
def singularValues (rows : List (Vector K n)) : List K := (Nat.repeat sweep 20 rows).map norm

/-- There is one singular value for each row. -/
theorem length_singularValues (rows : List (Vector K n)) :
    (singularValues rows).length = rows.length := by
  have sweeps (count : Nat) : (Nat.repeat sweep count rows).length = rows.length := by
    induction count with
    | zero => rfl
    | succ count ih => rw [Nat.repeat, length_sweep, ih]
  simp [singularValues, sweeps]

/-- The number of singular values that are no more than rounding noise beside the largest. -/
def countNoise (values : List K) : Nat :=
  let largest := values.foldl Scalar.larger 0
  values.countP fun value =>
    decide ((0 : K) < Scalar.rankTolerance) && decide (value ≤ Scalar.rankTolerance * largest)

/-- An exact type has no noise. -/
theorem countNoise_of_exact (h : ¬(0 : K) < Scalar.rankTolerance) (values : List K) :
    countNoise values = 0 := by
  simp [countNoise, h]

end KinematicManifold.Linear
