import KinematicManifold.Kinematics.Chain

/-!
# Sample chains

Two chains known by name: an industrial arm of six revolute joints, and a planar arm of three whose
results can be worked out by hand.
-/

namespace KinematicManifold

variable {K : Type} [Scalar K]

/-- A revolute joint of a sample chain, whose frame is shifted but not turned. The joint and the
link that it carries are numbered alike. -/
private def sampleJoint (number : Nat) (origin axis : Vec3 K) (lower upper : K) : Joint K where
  name := s!"joint_{number}"
  childLink := s!"link_{number}"
  origin := ⟨origin, .identity⟩
  axis := axis
  lower := lower
  upper := upper
  kind := .revolute

/-- The joints of the industrial arm. -/
def industrialArm : List (Joint K) :=
  [ sampleJoint 1 ⟨0, 0, 0.45⟩ ⟨0, 0, 1⟩ (-2.96) 2.96,
    sampleJoint 2 ⟨0.15, 0, 0⟩ ⟨0, 1, 0⟩ (-1.57) 2.79,
    sampleJoint 3 ⟨0, 0, 0.6⟩ ⟨0, -1, 0⟩ (-3.05) 3.05,
    sampleJoint 4 ⟨0, 0, 0.2⟩ ⟨-1, 0, 0⟩ (-3.31) 3.31,
    sampleJoint 5 ⟨0.64, 0, 0⟩ ⟨0, -1, 0⟩ (-2.18) 2.18,
    sampleJoint 6 ⟨0.1, 0, 0⟩ ⟨-1, 0, 0⟩ (-6.28) 6.28 ]

/-- The joints of the planar arm. -/
def planarArm : List (Joint K) :=
  [ sampleJoint 1 ⟨0, 0, 0⟩ ⟨0, 0, 1⟩ (-3.0) 3.0,
    sampleJoint 2 ⟨0.3, 0, 0⟩ ⟨0, 0, 1⟩ (-3.0) 3.0,
    sampleJoint 3 ⟨0.25, 0, 0⟩ ⟨0, 0, 1⟩ (-3.0) 3.0 ]

/-- The names of the sample chains, sorted, with their joints. -/
def sampleJoints : List (String × List (Joint K)) :=
  [("fanuc_like", industrialArm), ("planar_3r", planarArm)]

/-- The sample chain of a name. -/
def Chain.sample (name : String) : Except Fault ((n : Nat) × Chain K n) :=
  match (sampleJoints (K := K)).lookup name with
  | some joints => Chain.ofJoints "base_link" joints
  | none => .error (.unknownSample name ((sampleJoints (K := K)).map (·.1)))

end KinematicManifold
