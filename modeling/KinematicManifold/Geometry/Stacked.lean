import KinematicManifold.Tensor.Reading

/-!
# Rotations of arrays

The passages between rotation vectors, matrices and quaternions, for what arrives as an array: a
single vector or matrix, or a stack of them, which is passed one by one.

Main statement: `exp_ofVec3`, the array of a single vector is passed as the vector is.
-/

namespace KinematicManifold.Tensor

variable {K : Type}

/-- A vector as an array. -/
def ofVec3 (v : Vec3 K) : Tensor K := ofList v.toList

/-- A matrix as an array. -/
def ofMat3 (m : Mat3 K) : Tensor K := ⟨[3, 3], m.toLists.flatten, rfl⟩

/-- A passage for arrays of the given number of axes, applied to such an array, or to each of a
stack of them. -/
def onEach (axes : Nat) (passage : Tensor K → Except Fault (Tensor K)) (t : Tensor K) :
    Except Fault (Tensor K) :=
  match t.toNested with
  | .leaf _ => passage t
  | .node parts =>
    if t.shape.length = axes + 1 then do
      let passed ← parts.mapM fun part => do
        let part ← part.toTensor
        passage part
      stack passed
    else passage t

/-- An array of four parts with the last part put first. -/
def lastFirst (t : Tensor K) : Except Fault (Tensor K) :=
  match t.toNested with
  | .node [a, b, c, d] => (Nested.node [d, a, b, c]).toTensor
  | _ => .error .rotationShape

variable [Scalar K]

/-- The rotation matrices of rotation vectors. -/
def exp (t : Tensor K) : Except Fault (Tensor K) :=
  t.onEach 1 fun t => do
    let v ← t.toVec3 fun _ => .rotationShape
    return ofMat3 (Rotation.exp v)

/-- The rotation vectors of matrices. -/
def log? (t : Tensor K) : Except Fault (Tensor K) :=
  t.onEach 2 fun t => do
    let m ← t.toMat3 fun _ => .rotationShape
    let v ← Rotation.log? m
    return ofVec3 v

/-- The unit quaternions of matrices. Each has its real part last, and then the last of the four
parts of the whole array is put first: of a single quaternion this is the real part, of a stack,
which has to be of four, it is the fourth quaternion. -/
def quaternion (t : Tensor K) : Except Fault (Tensor K) := do
  let quaternions ← t.onEach 2 fun t => do
    let m ← t.toMat3 fun _ => .rotationShape
    let q ← Rotation.quaternion m
    return ofList [q.x, q.y, q.z, q.w]
  quaternions.lastFirst

/-- On a single vector the stacked exponential is that of the vector. -/
theorem exp_ofVec3 (v : Vec3 K) : (ofVec3 v).exp = .ok (ofMat3 (Rotation.exp v)) := rfl

end KinematicManifold.Tensor
