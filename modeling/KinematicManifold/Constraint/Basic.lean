import KinematicManifold.Constraint.Leaf
import KinematicManifold.Projection.Residual

/-!
# Constraints

A constraint is a single constraint, or an intersection of constraints over the same joints, which
stacks the rows of its members in order. Every constraint is a residual, so that it can be projected
onto.

The constructors check what they are given: a constraint is over at least one joint and has at least
one row, and an intersection has a member and its members agree on the number of joints.

Main statements: `evaluate_intersection`, `jacobian_intersection`, an intersection stacks what its
members have.
-/

namespace KinematicManifold

/-- A constraint over `n` joints. -/
inductive Constraint (K : Type) (n : Nat) where
  | leaf (leaf : Leaf K n)
  | intersection (members : List (Constraint K n))

variable {K : Type} [Scalar K] {n : Nat}

namespace Constraint

mutual

/-- The error of a constraint. -/
def evaluate : Constraint K n → Vector K n → Except Fault (List K)
  | leaf l, q => l.evaluate q
  | intersection members, q => evaluateAll members q

/-- The errors of constraints, one after the other. -/
def evaluateAll : List (Constraint K n) → Vector K n → Except Fault (List K)
  | [], _ => .ok []
  | c :: rest, q => do
    let rows ← evaluate c q
    let others ← evaluateAll rest q
    return rows ++ others

end

mutual

/-- The gradients of the rows of a constraint. -/
def jacobian : Constraint K n → Vector K n → Except Fault (List (Vector K n))
  | leaf l, q => l.jacobian q
  | intersection members, q => jacobianAll members q

/-- The gradients of the rows of constraints, one after the other. -/
def jacobianAll : List (Constraint K n) → Vector K n → Except Fault (List (Vector K n))
  | [], _ => .ok []
  | c :: rest, q => do
    let rows ← jacobian c q
    let others ← jacobianAll rest q
    return rows ++ others

end

mutual

/-- The number of rows of a constraint. -/
def dimension : Constraint K n → Nat
  | leaf l => l.dimension
  | intersection members => dimensionAll members

/-- The number of rows of constraints, one after the other. -/
def dimensionAll : List (Constraint K n) → Nat
  | [] => 0
  | c :: rest => dimension c + dimensionAll rest

end

omit [Scalar K] in
/-- The name of the link that is constrained, if it is one. -/
def linkName : Constraint K n → Option String
  | leaf l => l.linkName
  | intersection _ => none

/-- The residual of a constraint. -/
def residual (c : Constraint K n) : Residual K n := ⟨c.evaluate, c.jacobian⟩

/-! ## Intersections stack their members -/

/-- An intersection evaluates its members in order and stacks what they answer. -/
theorem evaluate_intersection (members : List (Constraint K n)) (q : Vector K n) :
    (intersection members).evaluate q = (members.mapM (evaluate · q)).map List.flatten := by
  simp only [evaluate]
  induction members with
  | nil => rfl
  | cons c rest ih =>
    simp only [evaluateAll, ih, List.mapM_cons]
    cases evaluate c q <;> simp only [bind, Except.bind, Except.map]
    cases rest.mapM (evaluate · q) <;> rfl

/-- The Jacobian of an intersection has the rows of its members in order. -/
theorem jacobian_intersection (members : List (Constraint K n)) (q : Vector K n) :
    (intersection members).jacobian q = (members.mapM (jacobian · q)).map List.flatten := by
  simp only [jacobian]
  induction members with
  | nil => rfl
  | cons c rest ih =>
    simp only [jacobianAll, ih, List.mapM_cons]
    cases jacobian c q <;> simp only [bind, Except.bind, Except.map]
    cases rest.mapM (jacobian · q) <;> rfl

/-! ## Constructors -/

/-- A constraint has to be over a joint and to have a row. -/
def checkSize (joints rows : Nat) : Except Fault Unit :=
  if joints = 0 then .error .noJoint
  else if rows = 0 then .error .noErrorRow
  else .ok ()

/-- The constraint that a position specification puts on a model. -/
def ofPosition (model : Model K n) (spec : PositionSpec K) : Except Fault (Constraint K n) := do
  let link ← model.requireLink spec.link
  checkSize n spec.constrainedAxes.length
  return leaf (.box ⟨spec, link⟩)

/-- The constraint that an orientation specification puts on a model. -/
def ofOrientation (model : Model K n) (spec : OrientationSpec K) :
    Except Fault (Constraint K n) := do
  let link ← model.requireLink spec.link
  checkSize n spec.tolerances.toList.length
  return leaf (.orientation ⟨spec, link⟩)

omit [Scalar K] in
/-- The constraint that joint limits are. -/
def ofJointLimits (limits : JointLimits K n) : Constraint K n := leaf (.jointLimits limits)

/-- The constraint that the limits of a model put on its joints. -/
def ofModelLimits (model : Model K n) : Except Fault (Constraint K n) := do
  let limits ← JointLimits.ofModel model
  return ofJointLimits limits

omit [Scalar K] in
/-- The intersection of constraints, of which there is one at least. All are over as many joints as
the first. -/
def intersect : List ((n : Nat) × Constraint K n) → Except Fault ((n : Nat) × Constraint K n)
  | [] => .error .intersectionEmpty
  | ⟨n, first⟩ :: rest => do
    let others ← rest.mapM fun ⟨other, c⟩ =>
      if h : other = n then .ok (h ▸ c) else .error (.intersectionJoints n other)
    return ⟨n, intersection (first :: others)⟩

end Constraint

/-! ## Affine constraints -/

/-- An affine constraint as it is given: the coefficients of each form, the offsets, the bounds, and
the name of a link that it is about, if it is about one. -/
structure AffineDescription (K : Type) where
  joints : Nat
  coefficients : List (List K)
  offsets : List K
  lower : Nested K
  upper : Nested K
  linkName : Option String

/-- The constraint that is described. The bounds are two plain lists of one length, not crossed, and
there is a joint and a row. -/
def AffineDescription.build (d : AffineDescription K) :
    Except Fault ((n : Nat) × Constraint K n) := do
  let lower ← d.lower.toTensor
  let upper ← d.upper.toTensor
  if lower.shape ≠ upper.shape || lower.shape.length ≠ 1 then
    .error (.boundsShape lower.shape upper.shape)
  else
    let intervals := List.zipWith Interval.mk lower.data upper.data
    if intervals.any (·.isCrossed) then .error .boundsCrossed
    else
      Constraint.checkSize d.joints intervals.length
      let rows := List.zipWith (fun interval (coefficients, offset) =>
        { gradient := Vector.ofFn fun j : Fin d.joints => coefficients.getD j 0
          offset, interval : AffineRow K d.joints }) intervals (d.coefficients.zip d.offsets)
      return ⟨d.joints, .leaf (.affine ⟨rows, d.linkName⟩)⟩

/-! ## Bundles -/

/-- The constraints that a bundle puts on a model, in the order positions, orientations, limits. -/
def Bundle.members (b : Bundle K) (model : Model K n) : Except Fault (List (Constraint K n)) := do
  let positions ← b.positions.mapM (Constraint.ofPosition model)
  let orientations ← b.orientations.mapM (Constraint.ofOrientation model)
  let limits ← match b.limits with
    | .unlimited => .ok []
    | .ofModel => (Constraint.ofModelLimits model).map ([·])
    | .given ⟨count, limits⟩ =>
      if h : count = n then .ok [.ofJointLimits (h ▸ limits)] else .error (.limitsCover count n)
  return positions ++ orientations ++ limits

end KinematicManifold
