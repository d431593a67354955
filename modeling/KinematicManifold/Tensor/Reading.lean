import KinematicManifold.Geometry.Pose
import KinematicManifold.Tensor.Basic

/-!
# Arrays read as vectors and matrices

An array of the right shape is a vector, a matrix, a quaternion or a configuration. Each reader is
given the fault that an array of another shape is.

Main statement: `toConfiguration_eq_ok_iff`, an array is read as a configuration of `n` numbers
exactly when it is a plain list of `n` numbers, and nothing is changed.
-/

namespace KinematicManifold

namespace Tensor

variable {K : Type}

/-- A plain list of three numbers, read as a vector. -/
def toVec3 (fault : List Nat → Fault) (t : Tensor K) : Except Fault (Vec3 K) :=
  match t.shape, t.data with
  | [3], [x, y, z] => .ok ⟨x, y, z⟩
  | shape, _ => .error (fault shape)

/-- A plain list of three numbers, read as the components of a rotation vector or of a vector
product. -/
def toComponents (t : Tensor K) : Except Fault (Vec3 K) :=
  t.toVec3 fun shape => if shape.isEmpty then .noComponents else .rotationShape

/-- A plain list of four numbers, read as a quaternion with its real part first. -/
def toQuaternion (fault : List Nat → Fault) (t : Tensor K) : Except Fault (Quaternion K) :=
  match t.shape, t.data with
  | [4], [w, x, y, z] => .ok ⟨w, x, y, z⟩
  | shape, _ => .error (fault shape)

/-- Three rows of three numbers, read as a matrix. -/
def toMat3 (fault : List Nat → Fault) (t : Tensor K) : Except Fault (Mat3 K) :=
  match t.shape, t.data with
  | [3, 3], [xx, xy, xz, yx, yy, yz, zx, zy, zz] => .ok ⟨xx, xy, xz, yx, yy, yz, zx, zy, zz⟩
  | shape, _ => .error (fault shape)

/-- Four rows of four numbers, read as a homogeneous matrix. -/
def toMat4 (fault : List Nat → Fault) (t : Tensor K) : Except Fault (Mat4 K) :=
  match t.shape, t.data with
  | [4, 4], [a, b, c, d, e, f, g, h, i, j, k, l, m, n, o, p] =>
    .ok #v[#v[a, b, c, d], #v[e, f, g, h], #v[i, j, k, l], #v[m, n, o, p]]
  | shape, _ => .error (fault shape)

/-- A plain list of `n` numbers, read as a configuration of `n` joints. -/
def toConfiguration (n : Nat) (t : Tensor K) : Except Fault (Vector K n) :=
  if h : t.shape = [n] then
    .ok ⟨t.data.toArray, by simp [t.length_data, h, entryCount]⟩
  else .error (.jointCount n t.shape)

/-- An array is a configuration of `n` joints exactly when it is a single row of `n` numbers. -/
theorem toConfiguration_eq_ok_iff {n : Nat} {t : Tensor K} {q : Vector K n} :
    t.toConfiguration n = .ok q ↔ t.shape = [n] ∧ t.data = q.toList := by
  unfold toConfiguration
  by_cases h : t.shape = [n]
  · simp only [h, dite_true, Except.ok.injEq, true_and]
    constructor
    · rintro rfl
      simp
    · intro e
      apply Vector.toList_inj.1
      simp [e]
  · simp [h]

/-- Any other shape is refused, and the fault names it. -/
theorem toConfiguration_eq_error_iff {n : Nat} {t : Tensor K} {fault : Fault} :
    t.toConfiguration n = .error fault ↔ t.shape ≠ [n] ∧ fault = .jointCount n t.shape := by
  unfold toConfiguration
  by_cases h : t.shape = [n] <;> simp [h, eq_comm]

/-- A configuration as an array. -/
def ofConfiguration {n : Nat} (q : Vector K n) : Tensor K := ofList q.toList

end Tensor

end KinematicManifold
