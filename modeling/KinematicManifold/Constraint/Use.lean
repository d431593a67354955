import KinematicManifold.Constraint.Store
import KinematicManifold.Projection.Sampling
import KinematicManifold.Projection.Stored

/-!
# Using constraints

A constraint in use is asked about configurations that arrive as nested lists. Each question first
reads the configuration: it makes an array, and the array is a plain list of as many numbers as
there are joints. Everything else that can go wrong is the answer's own.

A projection uses the settings of the constraint, unless others are given.

Main statements:
- `read_eq_ok_iff`: which nested lists are read as a configuration;
- `isSatisfied_eq`: a configuration is satisfactory when the error that `evaluate` reports is
  shorter than the tolerance.
-/

namespace KinematicManifold.Object

variable {K : Type} [Scalar K]

omit [Scalar K] in
/-- The configuration that nested lists hold. -/
def read (o : Object K) (q : Nested K) : Except Fault (Vector K o.joints) := do
  let entries ← q.toTensor
  entries.toConfiguration o.joints

/-- The error at a configuration. -/
def evaluate (o : Object K) (q : Nested K) : Except Fault (List K) := do
  let q ← o.read q
  o.constraint.evaluate q

/-- The gradients of the error at a configuration. -/
def jacobian (o : Object K) (q : Nested K) : Except Fault (List (Vector K o.joints)) := do
  let q ← o.read q
  o.constraint.jacobian q

/-- The raw error of a single constraint at a configuration. -/
def rawError (o : Object K) (leaf : Leaf K o.joints) (q : Nested K) : Except Fault (List K) := do
  let q ← o.read q
  leaf.rawError q

/-- The gradients of the raw error of a single constraint at a configuration. -/
def rawJacobian (o : Object K) (leaf : Leaf K o.joints) (q : Nested K) :
    Except Fault (List (Vector K o.joints)) := do
  let q ← o.read q
  leaf.rawJacobian q

/-- Holds where the error is shorter than the tolerance of the constraint. -/
def isSatisfied (o : Object K) (q : Nested K) : Except Fault Bool := do
  let q ← o.read q
  o.constraint.residual.isSatisfied o.settings.tolerance q

/-- The projection of a configuration with the given settings. -/
def projectWith (o : Object K) (settings : Settings K) (q : Nested K) :
    Except Fault (Outcome K o.joints) := do
  let q ← o.read q
  o.constraint.residual.project settings q

/-- The projection of a configuration with the settings of the constraint. -/
def project (o : Object K) (q : Nested K) : Except Fault (Outcome K o.joints) :=
  o.projectWith o.settings q

/-- A projection in place, with the settings of the constraint. -/
def projectStored (o : Object K) (stored : Stored K) : Except Fault (Bool × Stored K) :=
  stored.projectInPlace o.constraint.residual o.settings

/-- A sample of the manifold within bounds, with the given settings or those of the constraint. -/
def sample (o : Object K) (settings : Option (Settings K)) (lower upper : Nested K)
    (maxAttempts : Budget) (fractions : Nat → Nested K) : Except Fault (Sample K o.joints) :=
  o.constraint.residual.sample (settings.getD o.settings) lower upper maxAttempts fractions

/-! ## Reading configurations -/

omit [Scalar K] in
/-- A configuration is read exactly from nested lists that make a single row with one number for
each joint of the object. -/
theorem read_eq_ok_iff {o : Object K} {given : Nested K} {q : Vector K o.joints} :
    o.read given = .ok q ↔
      ∃ t, given.toTensor = .ok t ∧ t.shape = [o.joints] ∧ t.data = q.toList := by
  cases h : given.toTensor with
  | error fault => simp [read, h, bind, Except.bind]
  | ok t => simp [read, h, bind, Except.bind, Tensor.toConfiguration_eq_ok_iff]

/-- Whether an object is satisfied is decided by the norm of its error and its own tolerance. -/
theorem isSatisfied_eq (o : Object K) (q : Nested K) :
    o.isSatisfied q =
      (o.evaluate q).map fun error => decide (Linear.rowsNorm error < o.settings.tolerance) := by
  simp only [isSatisfied, evaluate, Residual.isSatisfied, Constraint.residual]
  cases o.read q with
  | error fault => rfl
  | ok q => cases h : o.constraint.evaluate q <;> simp only [bind, Except.bind, h] <;> rfl

end KinematicManifold.Object
