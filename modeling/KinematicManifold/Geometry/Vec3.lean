import KinematicManifold.Scalar

/-!
# Vectors of space

Points, directions and angular velocities are triples of scalars. The operations are componentwise;
`dot`, `cross` and `norm` are the usual ones, and the norm squares its components without scaling
them first.

Each operation has its components as `@[simp]` lemmas.
-/

namespace KinematicManifold

/-- The three coordinate axes. -/
inductive Axis where
  | x
  | y
  | z
  deriving DecidableEq, Repr

namespace Axis

/-- The axes in order. -/
def all : List Axis := [.x, .y, .z]

/-- The place of an axis in that order. -/
def index : Axis → Nat
  | .x => 0
  | .y => 1
  | .z => 2

/-- The list of axes leaves none out. -/
theorem mem_all (a : Axis) : a ∈ all := by cases a <;> simp [all]

end Axis

/-- A vector of space. -/
@[ext]
structure Vec3 (K : Type) where
  x : K
  y : K
  z : K

namespace Vec3

variable {K : Type}

/-- The component along an axis. -/
def along (v : Vec3 K) : Axis → K
  | .x => v.x
  | .y => v.y
  | .z => v.z

/-- The components in order. -/
def toList (v : Vec3 K) : List K := [v.x, v.y, v.z]

/-- The components are those along the axes. -/
theorem mem_toList_iff {v : Vec3 K} {value : K} :
    value ∈ v.toList ↔ ∃ axis, v.along axis = value := by
  simp only [toList, List.mem_cons, List.not_mem_nil, or_false]
  constructor
  · intro h
    obtain h | h | h := h
    · exact ⟨.x, h.symm⟩
    · exact ⟨.y, h.symm⟩
    · exact ⟨.z, h.symm⟩
  · intro ⟨axis, h⟩
    cases axis with
    | x => exact .inl h.symm
    | y => exact .inr (.inl h.symm)
    | z => exact .inr (.inr h.symm)

/-- A function applied to each component. -/
def map (f : K → K) (v : Vec3 K) : Vec3 K := ⟨f v.x, f v.y, f v.z⟩

variable [Scalar K]

instance : Zero (Vec3 K) := ⟨⟨0, 0, 0⟩⟩
instance : Add (Vec3 K) := ⟨fun u v => ⟨u.x + v.x, u.y + v.y, u.z + v.z⟩⟩
instance : Sub (Vec3 K) := ⟨fun u v => ⟨u.x - v.x, u.y - v.y, u.z - v.z⟩⟩
instance : Neg (Vec3 K) := ⟨fun v => ⟨-v.x, -v.y, -v.z⟩⟩

/-- A vector with each component multiplied by a scalar. -/
def scale (c : K) (v : Vec3 K) : Vec3 K := ⟨c * v.x, c * v.y, c * v.z⟩

/-- A vector with each component divided by a scalar. -/
def divide (v : Vec3 K) (c : K) : Vec3 K := ⟨v.x / c, v.y / c, v.z / c⟩

/-- The scalar product. -/
def dot (u v : Vec3 K) : K := u.x * v.x + u.y * v.y + u.z * v.z

/-- The vector product. -/
def cross (u v : Vec3 K) : Vec3 K :=
  ⟨u.y * v.z - u.z * v.y, u.z * v.x - u.x * v.z, u.x * v.y - u.y * v.x⟩

/-- The Euclidean length. -/
def norm (v : Vec3 K) : K := Scalar.sqrt (v.dot v)

/-- A vector divided by its length. -/
def unit (v : Vec3 K) : Vec3 K := v.divide v.norm

/-- The largest magnitude among the components. -/
def largest (v : Vec3 K) : K :=
  Scalar.larger (Scalar.larger (Scalar.abs v.x) (Scalar.abs v.y)) (Scalar.abs v.z)

/-- Holds when every component is finite. -/
def isFinite (v : Vec3 K) : Bool := v.toList.all Scalar.isFinite

/-! ## Components -/

section
variable (u v : Vec3 K) (c : K)

@[simp] theorem zero_x : (0 : Vec3 K).x = 0 := rfl
@[simp] theorem zero_y : (0 : Vec3 K).y = 0 := rfl
@[simp] theorem zero_z : (0 : Vec3 K).z = 0 := rfl
@[simp] theorem add_x : (u + v).x = u.x + v.x := rfl
@[simp] theorem add_y : (u + v).y = u.y + v.y := rfl
@[simp] theorem add_z : (u + v).z = u.z + v.z := rfl
@[simp] theorem sub_x : (u - v).x = u.x - v.x := rfl
@[simp] theorem sub_y : (u - v).y = u.y - v.y := rfl
@[simp] theorem sub_z : (u - v).z = u.z - v.z := rfl
@[simp] theorem neg_x : (-v).x = -v.x := rfl
@[simp] theorem neg_y : (-v).y = -v.y := rfl
@[simp] theorem neg_z : (-v).z = -v.z := rfl
@[simp] theorem scale_x : (scale c v).x = c * v.x := rfl
@[simp] theorem scale_y : (scale c v).y = c * v.y := rfl
@[simp] theorem scale_z : (scale c v).z = c * v.z := rfl
@[simp] theorem divide_x : (v.divide c).x = v.x / c := rfl
@[simp] theorem divide_y : (v.divide c).y = v.y / c := rfl
@[simp] theorem divide_z : (v.divide c).z = v.z / c := rfl
@[simp] theorem cross_x : (cross u v).x = u.y * v.z - u.z * v.y := rfl
@[simp] theorem cross_y : (cross u v).y = u.z * v.x - u.x * v.z := rfl
@[simp] theorem cross_z : (cross u v).z = u.x * v.y - u.y * v.x := rfl

end

end Vec3

end KinematicManifold
