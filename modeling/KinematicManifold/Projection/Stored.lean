import KinematicManifold.Projection.Residual
import KinematicManifold.Tensor.Reading

/-!
# Stored configurations

A configuration may be kept as a list, or as an array of some type of element that may be closed to
writing. Projection in place writes the last configuration of a projection into an open array of
double precision, on success and on failure alike; when it ends in a fault, nothing is written.

Main statement: `projectInPlace_content`, what an array holds afterwards is the configuration of the
outcome that projecting its content has.
-/

namespace KinematicManifold

/-- The types of element of an array. -/
inductive ElementType where
  | float64
  | float32
  | int32
  | int64
  deriving DecidableEq, Repr

/-- The name of a type of element. -/
def ElementType.name : ElementType → String
  | float64 => "float64"
  | float32 => "float32"
  | int32 => "int32"
  | int64 => "int64"

/-- A stored value. -/
inductive Stored (K : Type) where
  /-- A list, whose lengths need not agree. -/
  | list (entries : Nested K)
  /-- An array. -/
  | array (elements : ElementType) (writable : Bool) (content : Tensor K)

namespace Stored

variable {K : Type}

/-- The stored numbers as nested lists. -/
def toNested : Stored K → Nested K
  | list entries => entries
  | array _ _ content => content.toNested

/-- The array that can be overwritten by a configuration. -/
def openArray : Stored K → Except Fault (Tensor K)
  | list _ => .error .notAnArray
  | array elements writable content =>
    if elements ≠ .float64 then .error (.wrongElementType elements.name)
    else if writable then .ok content
    else .error .readOnlyArray

variable [Scalar K] {n : Nat}

/-- A projection in place: whether it succeeds, and what is stored afterwards. -/
def projectInPlace (stored : Stored K) (r : Residual K n) (s : Settings K) :
    Except Fault (Bool × Stored K) := do
  let content ← stored.openArray
  let q ← content.toConfiguration n
  let outcome ← r.project s q
  return (outcome.success, .array .float64 true (.ofConfiguration outcome.configuration))

/-- A writable array of floating-point numbers is overwritten with the configuration that the
projection ends at, on failure too. -/
theorem projectInPlace_content {content : Tensor K} {r : Residual K n} {s : Settings K}
    {q : Vector K n} {outcome : Outcome K n} (hq : content.toConfiguration n = .ok q)
    (ho : r.project s q = .ok outcome) :
    (array .float64 true content).projectInPlace r s =
      .ok (outcome.success, array .float64 true (.ofConfiguration outcome.configuration)) := by
  simp only [projectInPlace, openArray, ne_eq, not_true_eq_false, if_false, if_true, bind,
    Except.bind, hq, ho]
  rfl

end Stored

end KinematicManifold
