import KinematicManifold.Tensor.Broadcast

/-!
# Bounds on arrays

Arrays are moved into bounds and tested against them entry by entry, the bounds being used again
along axes where they have a single entry or none.

Main statement: `enforceBounds_of_shape_eq`, on arrays of one shape each entry is clamped by its own
bounds.
-/

namespace KinematicManifold.Tensor

variable {K : Type} [Scalar K]

/-- The array with each entry moved into its bounds. -/
def enforceBounds (q lower upper : Tensor K) : Except Fault (Tensor K) :=
  map₃ Scalar.clamp q lower upper

/-- Holds when each entry is at least its lower bound less the tolerance. -/
def isAbove (q lower : Tensor K) (tolerance : K) : Except Fault Bool := do
  let tests ← map₂ (fun value bound => decide (bound - tolerance ≤ value)) q lower
  return tests.data.all id

/-- Holds when each entry is at most its upper bound plus the tolerance. -/
def isBelow (q upper : Tensor K) (tolerance : K) : Except Fault Bool := do
  let tests ← map₂ (fun value bound => decide (value ≤ bound + tolerance)) q upper
  return tests.data.all id

/-- Holds when each entry is within its bounds, up to the tolerance. The upper bounds are looked at
only if the array keeps the lower ones. -/
def withinBounds (q lower upper : Tensor K) (tolerance : K) : Except Fault Bool := do
  if ← q.isAbove lower tolerance then q.isBelow upper tolerance else return false

/-- On arrays of one shape each entry is clamped by its own bounds. -/
theorem enforceBounds_of_shape_eq {q lower upper : Tensor K} (hl : lower.shape = q.shape)
    (hu : upper.shape = q.shape) :
    q.enforceBounds lower upper = .ok (generate q.shape fun i =>
      Scalar.clamp (q.entryAt i) (lower.entryAt i) (upper.entryAt i)) := by
  simp [enforceBounds, map₃, hl, hu, joinShapes?_self]

end KinematicManifold.Tensor
