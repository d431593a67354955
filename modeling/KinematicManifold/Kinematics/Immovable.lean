import KinematicManifold.Kinematics.Joint

/-!
# Chains without directions

The axes of the joints of a chain may be arrays that are no vectors. If they are all of one shape,
the chain is accepted: it has links and joint limits, and its base stands at the origin. But there
is no direction to move anything else along, so the other links stand nowhere.

Main statement: `ofSpecs_of_shapes_differ`, axes of different shapes make no chain at all.
-/

namespace KinematicManifold

/-- A base link, and `n` joints whose axes are arrays of one shape that are no vectors. -/
structure ImmovableChain (K : Type) (n : Nat) where
  base : String
  joints : Vector (JointSpec K) n

namespace ImmovableChain

variable {K : Type} {n : Nat}

/-- The names of the links, base first. -/
def linkNames (c : ImmovableChain K n) : List String := c.base :: c.joints.toList.map (·.childLink)

/-- The least joint values. -/
def lower (c : ImmovableChain K n) : Vector K n := c.joints.map (·.lower)

/-- The greatest joint values. -/
def upper (c : ImmovableChain K n) : Vector K n := c.joints.map (·.upper)

/-- Holds when the axes of joints are arrays of one shape. -/
def sameShapes : List (JointSpec K) → Bool
  | [] => true
  | first :: rest => rest.all (·.axis.shape = first.axis.shape)

/-- The chain of the given joints, if no link name is used twice and the axes are of one shape. -/
def ofSpecs (base : String) (specs : List (JointSpec K)) :
    Except Fault ((n : Nat) × ImmovableChain K n) :=
  let links := base :: specs.map (·.childLink)
  if ¬links.Nodup then .error (.chainLinksRepeat links)
  else if sameShapes specs then .ok ⟨specs.length, base, ⟨specs.toArray, by simp⟩⟩
  else .error .raggedArray

/-- Axes of different shapes make no chain, whatever the joints are. -/
theorem ofSpecs_of_shapes_differ {base : String} {specs : List (JointSpec K)}
    (hn : (base :: specs.map (·.childLink)).Nodup) (hs : sameShapes specs = false) :
    ofSpecs base specs = .error .raggedArray := by
  simp only [ofSpecs, hn, hs, not_true_eq_false, if_false, Bool.false_eq_true]

end ImmovableChain

end KinematicManifold
