import KinematicManifold.Constraint.Basic
import KinematicManifold.Text.Decimal

/-!
# Summaries of constraints

A constraint in use is summed up in one line: its kind, its number of rows, its link if it has one,
and the two settings that can be changed.
-/

namespace KinematicManifold.Constraint

/-- The word for the kind of a constraint. -/
def kindName {K : Type} {n : Nat} : Constraint K n → String
  | leaf (.box _) => "PositionConstraint"
  | leaf (.orientation _) => "OrientationConstraint"
  | leaf (.jointLimits _) => "JointLimitConstraint"
  | leaf (.affine _) => "Affine"
  | intersection _ => "ConstraintIntersection"

/-- The part of a summary that names the link. A link whose name is empty is named all the same. -/
def linkPart : Option String → String
  | none => ""
  | some link => s!", link='{link}'"

/-- A constraint with its settings in one line. -/
def summary {n : Nat} (c : Constraint Float n) (s : Settings Float) : String :=
  s!"{c.kindName}(dimension={c.dimension}{linkPart c.linkName}, " ++
    s!"tolerance={Text.general s.tolerance}, max_iterations={s.maxIterations})"

end KinematicManifold.Constraint
