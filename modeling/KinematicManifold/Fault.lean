import KinematicManifold.Text.Quoted

/-!
# Faults

Everything that can go wrong is a cause with the data needed to describe it. Its kind and its
wording follow from the cause, so the rest of the library says only which cause arises and when.

- `Fault.category`: what kind of fault it is;
- `Fault.message`: its text. A cause without a text of its own is fully described by its category.
-/

namespace KinematicManifold

/-- The kinds of fault. -/
inductive FaultCategory where
  /-- A value that does not fit its role. -/
  | invalidValue
  /-- A value of a kind that its role does not admit. -/
  | wrongType
  /-- A number outside the range of its type. -/
  | overflow
  /-- An index that an array does not have. -/
  | badIndex
  deriving DecidableEq, Repr

/-- The causes of failure. -/
inductive Fault where
  /-- Nested lists whose lengths differ. -/
  | raggedArray
  /-- Lists nested deeper than an array has axes. -/
  | tooManyAxes
  /-- Arrays whose sizes do not combine entry by entry. -/
  | incompatibleShapes
  /-- An array of the wrong shape for a vector or a matrix of a rotation. -/
  | rotationShape
  /-- A single number where something with components is asked for. -/
  | noComponents
  /-- A matrix whose determinant is not positive has no rotation. -/
  | notRightHanded
  /-- A joint is neither of the known kinds. -/
  | unknownJointKind
  /-- A budget that is no number. -/
  | budgetNotANumber
  /-- An infinite budget. -/
  | budgetInfinite
  /-- The square of the damping exceeds every finite number. -/
  | dampingOverflow
  /-- A quaternion has four components. -/
  | quaternionShape (shape : List Nat)
  /-- A quaternion without a direction. -/
  | quaternionWithoutDirection
  /-- A position has three components. -/
  | positionShape (shape : List Nat)
  /-- A rotation has three rows of three. -/
  | rotationMatrixShape (shape : List Nat)
  /-- A homogeneous matrix has four rows of four. -/
  | homogeneousShape (shape : List Nat)
  /-- Half extents have three components. -/
  | halfExtentsShape (shape : List Nat)
  /-- A link offset has three components. -/
  | linkOffsetShape (shape : List Nat)
  /-- A half extent is not finite. -/
  | halfExtentsNotFinite
  /-- Every axis of a box is free. -/
  | everyAxisFree (link : String)
  /-- Tolerances have three components. -/
  | tolerancesShape (shape : List Nat)
  /-- An angular tolerance is negative or not finite. -/
  | tolerancesOutOfRange
  /-- Joint limits are plain lists of numbers. -/
  | jointLimitsShape
  /-- Joint limits of no joint. -/
  | jointLimitsEmpty
  /-- Lower and upper joint limits of different length. -/
  | jointLimitsMismatch (lower upper : Nat)
  /-- Joints whose lower limit exceeds the upper one. -/
  | jointLimitsCrossed (joints : List Nat)
  /-- A bundle that asks for nothing. -/
  | bundleEmpty
  /-- A joint whose axis has no direction. -/
  | jointAxis (joint : String)
  /-- A joint whose lower limit exceeds the upper one. -/
  | jointRange (joint : String)
  /-- A tolerance that is not positive. -/
  | toleranceNotPositive
  /-- A budget that is no integer. -/
  | budgetNotInteger
  /-- A budget of no iteration. -/
  | budgetTooSmall
  /-- A damping that is not zero or more. -/
  | dampingNegative
  /-- A longest step that is not positive. -/
  | maxStepNotPositive
  /-- A constraint over no joint. -/
  | noJoint
  /-- A constraint without an error row. -/
  | noErrorRow
  /-- Projection in place needs an array. -/
  | notAnArray
  /-- Projection in place needs an array of double precision. -/
  | wrongElementType (name : String)
  /-- Projection in place needs an array that may be written. -/
  | readOnlyArray
  /-- A configuration of the wrong shape. -/
  | jointCount (expected : Nat) (shape : List Nat)
  /-- Bounds that are not two plain lists of one length. -/
  | boundsShape (lower upper : List Nat)
  /-- A lower bound exceeds the upper one. -/
  | boundsCrossed
  /-- A kinematic model without the named link. -/
  | unknownModelLink (link : String)
  /-- An intersection of nothing. -/
  | intersectionEmpty
  /-- An intersection of constraints over different numbers of joints. -/
  | intersectionJoints (first other : Nat)
  /-- Joint limits for another number of joints than the model has. -/
  | limitsCover (limits model : Nat)
  /-- A chain without a joint. -/
  | chainEmpty
  /-- A chain in which a link name occurs twice. -/
  | chainLinksRepeat (links : List String)
  /-- A chain without the named link. -/
  | unknownChainLink (link : String)
  /-- A name that no sample chain has. -/
  | unknownSample (name : String) (available : List String)
  /-- A joint tree without the named joint. -/
  | unknownJoint (joint : String)
  /-- A joint that a single number does not place. -/
  | notSingleAxis (joint : String)
  /-- A joint tree without the named frame. -/
  | unknownFrame (frame : String)
  /-- A matrix with a single column is taken for a list, of which no columns can be chosen. -/
  | singleColumn
  /-- A sampler that may not try once. -/
  | attemptsTooFew
  /-- A number of attempts that is no integer. -/
  | attemptsNotInteger
  deriving DecidableEq, Repr

namespace Fault

/-- The kind of a fault. -/
def category : Fault → FaultCategory
  | budgetInfinite | dampingOverflow => .overflow
  | noComponents | notAnArray | wrongElementType _ | readOnlyArray
  | attemptsNotInteger => .wrongType
  | singleColumn => .badIndex
  | _ => .invalidValue

open Text in
/-- The text of a fault, where its cause has one. -/
def message : Fault → Option String
  | raggedArray | tooManyAxes | incompatibleShapes | rotationShape | noComponents | notRightHanded
  | unknownJointKind | budgetNotANumber | budgetInfinite | dampingOverflow | singleColumn
  | attemptsNotInteger => none
  | quaternionShape s => some ("Quaternion must be shape (4,), got " ++ shape s)
  | quaternionWithoutDirection => some "Quaternion [...] cannot be normalized"
  | positionShape s => some ("Position must be shape (3,), got " ++ shape s)
  | rotationMatrixShape s => some ("Rotation must be shape (3, 3), got " ++ shape s)
  | homogeneousShape s => some ("Matrix must be shape (4, 4), got " ++ shape s)
  | halfExtentsShape s => some ("half_extents must be shape (3,), got " ++ shape s)
  | linkOffsetShape s => some ("link_offset must be shape (3,), got " ++ shape s)
  | halfExtentsNotFinite => some "half_extents must be finite"
  | everyAxisFree link => some s!"Position constraint on '{link}' leaves every axis unconstrained"
  | tolerancesShape s => some ("tolerances must be shape (3,), got " ++ shape s)
  | tolerancesOutOfRange => some "tolerances must be finite and >= 0, got [...]"
  | jointLimitsShape => some "Joint limits must be 1-D arrays"
  | jointLimitsEmpty => some "Joint limits must cover at least one joint"
  | jointLimitsMismatch lower upper =>
    some s!"Expected matching limits, got lower={lower}, upper={upper}"
  | jointLimitsCrossed joints =>
    some ("Lower bound exceeds upper bound for joints " ++ indexList joints)
  | bundleEmpty => some "Constraints spec is empty"
  | jointAxis joint => some s!"Joint '{joint}' needs a non-zero 3D axis"
  | jointRange joint => some s!"Joint '{joint}' has lower > upper"
  | toleranceNotPositive => some "tolerance must be > 0"
  | budgetNotInteger => some "max_iterations must be an integer"
  | budgetTooSmall => some "max_iterations must be >= 1"
  | dampingNegative => some "damping must be >= 0"
  | maxStepNotPositive => some "max_step must be > 0"
  | noJoint => some "num_joints must be >= 1"
  | noErrorRow => some "Constraint must have at least one error row"
  | notAnArray => some "project() mutates its input and needs a numpy array"
  | wrongElementType name => some s!"Expected a float64 array, got dtype {name}"
  | readOnlyArray => some "Configuration array is read-only"
  | jointCount expected s => some (s!"Expected {expected} joint positions, got shape " ++ shape s)
  | boundsShape lower upper =>
    some ("Bounds must be matching 1-D arrays, got " ++ shape lower ++ " and " ++ shape upper)
  | boundsCrossed => some "Lower bound exceeds upper bound"
  | unknownModelLink link => some s!"Link '{link}' not found in kinematic model"
  | intersectionEmpty => some "ConstraintIntersection needs at least one constraint"
  | intersectionJoints first other =>
    some s!"Cannot intersect constraints over {first} and {other} joints"
  | limitsCover limits model => some s!"Joint limits cover {limits} joints, model has {model}"
  | chainEmpty => some "Chain must have at least one joint"
  | chainLinksRepeat links => some ("Duplicate link names in chain: " ++ quotedList links)
  | unknownChainLink link => some s!"Link '{link}' not found in chain"
  | unknownSample name available =>
    some (s!"Unknown chain '{name}'. Available chains: " ++ ", ".intercalate available)
  | unknownJoint joint => some s!"Joint '{joint}' not found in model"
  | notSingleAxis joint => some s!"Joint '{joint}' is not a single-DOF joint"
  | unknownFrame frame => some s!"Frame '{frame}' not found in model"
  | attemptsTooFew => some "max_attempts must be >= 1"

end Fault

end KinematicManifold
