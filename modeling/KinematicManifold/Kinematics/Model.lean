import KinematicManifold.Kinematics.Immovable
import KinematicManifold.Kinematics.Tree

/-!
# Kinematic models and their links

A model over `n` joints is a chain, a controlled tree, or a chain whose axes are no vectors. Whoever
works with one of its links looks the link up once, by name; the `Link` found this way can be asked
for its state at every configuration. Of a chain this cannot fail; a tree may have a single
velocity, and an immovable chain has no directions.

Main statements:
- `state_ofChain`: the links of chains have a state;
- `hasLink_iff`: a model has a link of a name exactly when the look-up finds one.
-/

namespace KinematicManifold

/-- A kinematic model over `n` joints. -/
inductive Model (K : Type) (n : Nat) where
  | chain (chain : Chain K n)
  | tree (tree : ControlledTree K n)
  | immovable (chain : ImmovableChain K n)

/-- A link of a kinematic model over `n` joints. -/
inductive Link (K : Type) (n : Nat) where
  /-- A link of a chain; link zero is the base. -/
  | ofChain (chain : Chain K n) (link : Fin (n + 1))
  /-- A frame of a tree. -/
  | ofTree (tree : ControlledTree K n) (frame : TreeFrame K)
  /-- A link that stands still: the base of an immovable chain. -/
  | still
  /-- A link that an immovable chain would have to move. -/
  | immovable

variable {K : Type} {n : Nat} [Scalar K]

namespace Link

/-- Where a link stands, and how it moves with each joint. -/
def state (link : Link K n) (q : Vector K n) : Except Fault (LinkState K n) :=
  match link with
  | ofChain chain link => .ok (chain.linkState q link)
  | ofTree tree frame => tree.frameState q frame
  | still => .ok ⟨.identity, Vector.replicate n 0⟩
  | immovable => .error .incompatibleShapes

/-- A model made of a chain has the link states of the chain, and always has them. -/
@[simp] theorem state_ofChain (chain : Chain K n) (link : Fin (n + 1)) (q : Vector K n) :
    (ofChain chain link).state q = .ok (chain.linkState q link) := rfl

/-- A model made of a tree has the frame states of the tree, faults included. -/
@[simp] theorem state_ofTree (tree : ControlledTree K n) (frame : TreeFrame K) (q : Vector K n) :
    (ofTree tree frame).state q = tree.frameState q frame := rfl

end Link

namespace Model

/-- The model that the joints of a chain make, each accepted on its own. -/
def ofJoints (base : String) (specs : List (JointSpec K)) :
    Except Fault ((n : Nat) × Model K n) :=
  match specs.mapM (·.joint?) with
  | some joints => (Chain.ofJoints base joints).map fun ⟨n, c⟩ => ⟨n, chain c⟩
  | none => (ImmovableChain.ofSpecs base specs).map fun ⟨n, c⟩ => ⟨n, immovable c⟩

/-- The least joint values. -/
def lower : Model K n → Vector K n
  | chain c => c.lower
  | tree c => c.lower
  | immovable c => c.lower

/-- The greatest joint values. -/
def upper : Model K n → Vector K n
  | chain c => c.upper
  | tree c => c.upper
  | immovable c => c.upper

/-- The link of a name. -/
def link? (m : Model K n) (name : String) : Option (Link K n) :=
  match m with
  | chain c => (c.link? name).map (.ofChain c)
  | tree c => (c.tree.frame? name).map (.ofTree c)
  | immovable c =>
    if name = c.base then some .still
    else if name ∈ c.linkNames then some .immovable
    else none

/-- Holds when the model has a link of the given name. -/
def hasLink (m : Model K n) (name : String) : Bool := (m.link? name).isSome

/-- A model has exactly the links that it finds. -/
theorem hasLink_iff {m : Model K n} {name : String} :
    m.hasLink name = true ↔ ∃ link, m.link? name = some link := Option.isSome_iff_exists

/-- The link of a name, which a constraint needs to have. -/
def requireLink (m : Model K n) (name : String) : Except Fault (Link K n) :=
  match m.link? name with
  | some link => .ok link
  | none => .error (.unknownModelLink name)

/-- The fault of asking for the state of a link that is not there. -/
def unknownLink (m : Model K n) (name : String) : Fault :=
  match m with
  | chain _ | immovable _ => .unknownChainLink name
  | tree _ => .unknownFrame name

/-- The state of the link of a name, at a configuration that is yet to be read. The link is looked
up first. -/
def linkState (m : Model K n) (configuration : Nested K) (name : String) :
    Except Fault (LinkState K n) :=
  match m.link? name with
  | none => .error (m.unknownLink name)
  | some link => do
    let entries ← configuration.toTensor
    let q ← entries.toConfiguration n
    link.state q

end Model

end KinematicManifold
