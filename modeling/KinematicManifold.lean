import KinematicManifold.Constraint.Basic
import KinematicManifold.Constraint.Interval
import KinematicManifold.Constraint.Leaf
import KinematicManifold.Constraint.Spec
import KinematicManifold.Constraint.Store
import KinematicManifold.Constraint.Summary
import KinematicManifold.Constraint.Use
import KinematicManifold.Fault
import KinematicManifold.Geometry.Description
import KinematicManifold.Geometry.Mat3
import KinematicManifold.Geometry.Polar
import KinematicManifold.Geometry.Pose
import KinematicManifold.Geometry.Quaternion
import KinematicManifold.Geometry.Rotation
import KinematicManifold.Geometry.Stacked
import KinematicManifold.Geometry.Vec3
import KinematicManifold.Kinematics.Chain
import KinematicManifold.Kinematics.Immovable
import KinematicManifold.Kinematics.Joint
import KinematicManifold.Kinematics.Model
import KinematicManifold.Kinematics.Samples
import KinematicManifold.Kinematics.Tree
import KinematicManifold.Linear.Basic
import KinematicManifold.Linear.LeastSquares
import KinematicManifold.Linear.SingularValues
import KinematicManifold.Linear.Solve
import KinematicManifold.Projection.Bounds
import KinematicManifold.Projection.Residual
import KinematicManifold.Projection.Sampling
import KinematicManifold.Projection.Settings
import KinematicManifold.Projection.Stored
import KinematicManifold.Scalar
import KinematicManifold.Tensor.Basic
import KinematicManifold.Tensor.Broadcast
import KinematicManifold.Tensor.Reading
import KinematicManifold.Text.Binary
import KinematicManifold.Text.Decimal
import KinematicManifold.Text.Printable
import KinematicManifold.Text.Quoted
import KinematicManifold.Proofs.Exact
import KinematicManifold.Proofs.Space
import KinematicManifold.Proofs.Stacks
import KinematicManifold.Proofs.RotationGroup
import KinematicManifold.Proofs.Exponential
import KinematicManifold.Proofs.Logarithm
import KinematicManifold.Proofs.Motion
import KinematicManifold.Proofs.ChainMotion
import KinematicManifold.Proofs.Descriptions
import KinematicManifold.Proofs.Leaves
import KinematicManifold.Proofs.Gradients
import KinematicManifold.Proofs.Deviation
import KinematicManifold.Proofs.Outcome
import KinematicManifold.Proofs.Bounds
import KinematicManifold.Proofs.Satisfaction
import KinematicManifold.Proofs.Order
import KinematicManifold.Proofs.Iterations
import KinematicManifold.Proofs.Iterates
import KinematicManifold.Proofs.Overflow
import KinematicManifold.Proofs.Elimination
import KinematicManifold.Proofs.Rows
import KinematicManifold.Proofs.DampedStep
import KinematicManifold.Proofs.OrthonormalBasis
import KinematicManifold.Proofs.NormalEquations
import KinematicManifold.Proofs.LeastSquaresStep
import KinematicManifold.Proofs.Locality
import KinematicManifold.Proofs.Nesting
import KinematicManifold.Proofs.NewtonStep
import KinematicManifold.Proofs.Articulations
import KinematicManifold.Proofs.TreeLayout
import KinematicManifold.Proofs.TreeMotion
import KinematicManifold.Proofs.Plans
import KinematicManifold.Proofs.SerialTree
import KinematicManifold.Proofs.References
import KinematicManifold.Proofs.BuiltStores
import KinematicManifold.Proofs.Sharing
import KinematicManifold.Proofs.Faults
import KinematicManifold.Proofs.WellSized
import KinematicManifold.Proofs.Retuning
import KinematicManifold.Proofs.Signs
import KinematicManifold.Proofs.BundleEntries
import KinematicManifold.Proofs.Bundles
import KinematicManifold.Proofs.Clamping
import KinematicManifold.Proofs.Sampling
import KinematicManifold.Proofs.Retraction
import KinematicManifold.Proofs.StepLength
import KinematicManifold.Proofs.Descent
import KinematicManifold.Proofs.SmallDamping
import KinematicManifold.Proofs.EqualityRows
import KinematicManifold.Proofs.Relaxation
import KinematicManifold.Proofs.Reach
import KinematicManifold.Proofs.ReferenceFrame
import KinematicManifold.Proofs.Coordinates
import KinematicManifold.Proofs.Extension
import KinematicManifold.Proofs.LeftJacobian
import KinematicManifold.Proofs.Composition
import KinematicManifold.Proofs.Reversal
import KinematicManifold.Proofs.FullTurns
import KinematicManifold.Proofs.AxisScale
import KinematicManifold.Proofs.Selection
import KinematicManifold.Proofs.FirstAccepted
import KinematicManifold.Proofs.InPlace
import KinematicManifold.Proofs.ExtendedReals
import KinematicManifold.Proofs.PolarRounds
import KinematicManifold.Proofs.FiniteGeometry
import KinematicManifold.Proofs.AcceptedInput
import KinematicManifold.Proofs.NumericErrors
import KinematicManifold.Proofs.WithinLimits
import KinematicManifold.Proofs.HamiltonProduct
