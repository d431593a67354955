import KinematicManifold.Linear.SingularValues
import KinematicManifold.Linear.Solve

/-!
# Shortest least-squares steps

Of the steps that bring `error + J step` as close to zero as can be, `leastSquaresStep` is the
shortest one. `J` maps its row space one to one onto its column space and sends everything across
its row space to zero, so the step is found there: orthonormal bases of the two spaces turn `J` into
a square system without a kernel. The bases are found by orthogonal projection, always going on with
the longest remaining vector, so that what rounding has left of zero comes last; the singular values
tell how much of the bases is kept.
-/

namespace KinematicManifold.Linear

variable {K : Type} [Scalar K] {n : Nat}

/-- A vector with its parts along the given vectors taken away, one after the other. -/
def residual (basis : List (Vector K n)) (v : Vector K n) : Vector K n :=
  basis.foldl (fun r b => r - scale (dot r b) b) v

/-- Orthonormal vectors that are orthogonal to a given basis and span with it what the given vectors
do. Vectors no longer than the threshold count as zero. The remaining vectors are kept orthogonal to
the basis, and a vector is projected once more when its turn comes. -/
def extendBasis (threshold : K) :
    (fuel : Nat) → (basis vectors : List (Vector K n)) → List (Vector K n)
  | 0, _, _ => []
  | fuel + 1, basis, vectors =>
    match takeLargest norm vectors with
    | none => []
    | some (longest, others) =>
      if norm longest ≤ threshold then []
      else
        -- Rounding has left a part along the basis, which is large beside a short vector.
        let across := residual basis longest
        let direction := scale (1 / norm across) across
        direction ::
          extendBasis threshold fuel (direction :: basis) (others.map (residual [direction]))

/-- An orthonormal basis of the span of the given vectors. It ends where the remaining vectors are
so short beside the longest that no singular value that counts is lost. -/
def orthonormalBasis (vectors : List (Vector K n)) : List (Vector K n) :=
  match takeLargest norm vectors with
  | none => []
  | some (longest, _) =>
    extendBasis (0.05 * Scalar.rankTolerance * norm longest) vectors.length [] vectors

/-- The largest magnitude among the entries of a list of vectors. -/
def largestEntry (vectors : List (Vector K n)) : K :=
  (vectors.flatMap Vector.toList).foldl (fun a b => Scalar.larger a (Scalar.abs b)) 0

/-- The columns of a list of rows. -/
def columns (rows : List (Vector K n)) : List (Vector K rows.length) :=
  (List.finRange n).map fun j => Vector.ofFn fun i => rows[i][j]

/-- The number of dimensions that the rows span, not counting noise: at most as many as there are
rows, and as there are columns. -/
def countDimensions (rows : List (Vector K n)) : Nat :=
  let values := if rows.length ≤ n then singularValues rows else singularValues (columns rows)
  values.length - countNoise values

/-- The equations that a step in the span of `directions` satisfies when it cancels the part of the
error in the span of `tests`: one equation for each test vector, one unknown for each direction. -/
def restrictedSystem (gradients : List (Vector K n)) (error : List K)
    (directions : List (Vector K n)) (tests : List (Vector K gradients.length)) :
    List (Equation K) :=
  let changes := directions.map fun d => Vector.ofFn fun i : Fin gradients.length =>
    dot gradients[i] d
  let errors := Vector.ofFn fun i : Fin gradients.length => error.getD i 0
  tests.map fun t => ⟨changes.map (dot t), dot t errors⟩

/-- The shortest of the steps that bring `error + J step` as close to zero as can be, if both are
finite. The bases are taken after the largest entry is brought to size one, so that the lengths of
vectors neither overflow nor vanish. -/
def leastSquaresStep (gradients : List (Vector K n)) (error : List K) : Option (Vector K n) :=
  let size := largestEntry gradients
  if !(gradients.all isFinite && error.all Scalar.isFinite) then none
  else if Scalar.isZero size then some 0
  else
    let scaled := gradients.map (scale (1 / size))
    let directions := orthonormalBasis scaled
    let tests := orthonormalBasis (columns scaled)
    -- The two spaces have the same dimension, up to noise at the end of the bases.
    let rank := min (countDimensions scaled) (min directions.length tests.length)
    let directions := directions.take rank
    let system := restrictedSystem scaled error directions (tests.take rank)
    (solve rank system).map fun weights => scale (1 / size) (-pullback directions weights)

end KinematicManifold.Linear
