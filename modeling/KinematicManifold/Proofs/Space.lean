import KinematicManifold.Geometry.Pose
import KinematicManifold.Proofs.Exact

/-!
# Euclidean space

Over the real numbers the vectors of space are a Euclidean space whose length is `Vec3.norm`, the
matrices of space are a normed algebra that acts on it by `Mat3.apply`, and the twists are a vector
space. So sums, limits and derivatives of all three have their usual meaning.

## Key results

- `Vec3.norm_eq`: the length of the Euclidean space is the one that is computed
- `Vec3.cross_cross`: a vector product within a vector product
- `Mat3.action`: matrices act on vectors as an algebra of linear maps, which gives them their norm
- `Rotation.skew_apply`, `Rotation.skew_cross`: the matrix of the vector product
- `Twist.movedTo_add`, `Twist.movedTo_smul`: the twist at another point is linear in the twist
-/

namespace KinematicManifold

/-! ## Vectors -/

namespace Vec3

noncomputable section

instance : SMul ℝ (Vec3 ℝ) := ⟨Vec3.scale⟩

theorem smul_def (c : ℝ) (v : Vec3 ℝ) : c • v = v.scale c := rfl

@[simp] theorem smul_x (c : ℝ) (v : Vec3 ℝ) : (c • v).x = c * v.x := rfl
@[simp] theorem smul_y (c : ℝ) (v : Vec3 ℝ) : (c • v).y = c * v.y := rfl
@[simp] theorem smul_z (c : ℝ) (v : Vec3 ℝ) : (c • v).z = c * v.z := rfl

instance : AddCommGroup (Vec3 ℝ) where
  add_assoc u v w := by ext <;> simp [add_assoc]
  zero_add v := by ext <;> simp
  add_zero v := by ext <;> simp
  add_comm u v := by ext <;> simp [add_comm]
  neg_add_cancel v := by ext <;> simp
  sub_eq_add_neg u v := by ext <;> simp [sub_eq_add_neg]
  nsmul := nsmulRec
  zsmul := zsmulRec

instance : Module ℝ (Vec3 ℝ) where
  one_smul v := by ext <;> simp
  mul_smul a b v := by ext <;> simp [mul_assoc]
  smul_zero a := by ext <;> simp
  smul_add a u v := by ext <;> simp [mul_add]
  add_smul a b v := by ext <;> simp [add_mul]
  zero_smul v := by ext <;> simp

/-- A vector whose product with itself is zero is zero. -/
private theorem eq_zero_of_dot_self {v : Vec3 ℝ} (h : v.dot v = 0) : v = 0 := by
  have hx := mul_self_nonneg v.x
  have hy := mul_self_nonneg v.y
  have hz := mul_self_nonneg v.z
  -- a sum of squares vanishes only where each of them does
  simp only [dot] at h
  ext
  · exact mul_self_eq_zero.1 (by linarith)
  · exact mul_self_eq_zero.1 (by linarith)
  · exact mul_self_eq_zero.1 (by linarith)

/-- The scalar product makes the vectors a Euclidean space. -/
@[reducible] def innerCore : InnerProductSpace.Core ℝ (Vec3 ℝ) where
  inner u v := u.dot v
  conj_inner_symm u v := by simp [dot, mul_comm]
  re_inner_nonneg v := by
    simp only [dot, RCLike.re_to_real]
    linarith [mul_self_nonneg v.x, mul_self_nonneg v.y, mul_self_nonneg v.z]
  add_left u v w := by simp only [dot, add_x, add_y, add_z]; ring
  smul_left u v c := by simp [dot]; ring
  definite v h := eq_zero_of_dot_self h

instance : NormedAddCommGroup (Vec3 ℝ) := innerCore.toNormedAddCommGroup

instance : InnerProductSpace ℝ (Vec3 ℝ) := InnerProductSpace.ofCore innerCore.toCore

/-- The components of a vector, as a function of their places. -/
def components : Vec3 ℝ ≃ₗ[ℝ] (Fin 3 → ℝ) where
  toFun v := ![v.x, v.y, v.z]
  invFun f := ⟨f 0, f 1, f 2⟩
  map_add' u v := by ext i; fin_cases i <;> simp
  map_smul' c v := by ext i; fin_cases i <;> simp
  left_inv v := rfl
  right_inv f := by ext i; fin_cases i <;> simp

instance : FiniteDimensional ℝ (Vec3 ℝ) := Module.Finite.equiv components.symm

end

variable (u v w : Vec3 ℝ)

/-- The norm is the one of the program. -/
theorem norm_eq : ‖v‖ = v.norm := rfl

/-- The inner product is the one of the program. -/
theorem inner_eq : inner ℝ u v = u.dot v := rfl

/-- The inner product of a vector with itself is its squared length. -/
theorem dot_self : v.dot v = ‖v‖ ^ 2 := by
  rw [← inner_eq, real_inner_self_eq_norm_sq]

/-- The squared length is the sum of the squared parts. -/
theorem norm_sq : ‖v‖ ^ 2 = v.x ^ 2 + v.y ^ 2 + v.z ^ 2 := by
  rw [← dot_self, dot]
  ring

/-- Lagrange's formula for two cross products. -/
theorem cross_cross : u.cross (v.cross w) = u.dot w • v - u.dot v • w := by
  ext <;> simp [dot] <;> ring

/-- Cross products are additive. -/
theorem cross_add : u.cross (v + w) = u.cross v + u.cross w := by
  ext <;> simp <;> ring

/-- Cross products are homogeneous. -/
theorem cross_smul (c : ℝ) : u.cross (c • v) = c • u.cross v := by
  ext <;> simp <;> ring

/-- The cross product with zero is zero. -/
@[simp] theorem cross_zero : u.cross 0 = 0 := by
  ext <;> simp

/-- A vector has no cross product with itself. -/
@[simp] theorem cross_self : u.cross u = 0 := by
  ext <;> simp <;> ring

/-! ### The component along an axis is linear -/

variable (a : Axis)

@[simp] theorem zero_along : (0 : Vec3 ℝ).along a = 0 := by cases a <;> rfl
@[simp] theorem add_along : (u + v).along a = u.along a + v.along a := by cases a <;> rfl
@[simp] theorem sub_along : (u - v).along a = u.along a - v.along a := by cases a <;> rfl
@[simp] theorem neg_along : (-v).along a = -v.along a := by cases a <;> rfl
@[simp] theorem smul_along (c : ℝ) : (c • v).along a = c * v.along a := by cases a <;> rfl

/-- The component along an axis, as a linear map. -/
noncomputable def alongMap : Vec3 ℝ →L[ℝ] ℝ :=
  LinearMap.toContinuousLinearMap
    { toFun := (·.along a)
      map_add' := fun u v => add_along u v a
      map_smul' := fun c v => smul_along v a c }

@[simp] theorem alongMap_apply : alongMap a v = v.along a := rfl

/-- The vector of given components. -/
def ofAlong (f : Axis → ℝ) : Vec3 ℝ := ⟨f .x, f .y, f .z⟩

@[simp] theorem along_ofAlong (f : Axis → ℝ) : (ofAlong f).along a = f a := by cases a <;> rfl

/-- A vector is no longer along an axis than in space. -/
theorem abs_along_le_norm : |v.along a| ≤ ‖v‖ := by
  refine abs_le_of_sq_le_sq ?_ (norm_nonneg v)
  rw [norm_sq]
  cases a <;> simp only [along] <;> nlinarith [sq_nonneg v.x, sq_nonneg v.y, sq_nonneg v.z]

end Vec3

/-! ## Matrices -/

namespace Mat3

noncomputable section

instance : Zero (Mat3 ℝ) := ⟨⟨0, 0, 0, 0, 0, 0, 0, 0, 0⟩⟩
instance : One (Mat3 ℝ) := ⟨identity⟩
instance : Neg (Mat3 ℝ) := ⟨scale (-1)⟩
instance : SMul ℝ (Mat3 ℝ) := ⟨scale⟩

variable (m n : Mat3 ℝ) (c : ℝ)

theorem zero_def : (0 : Mat3 ℝ) = ⟨0, 0, 0, 0, 0, 0, 0, 0, 0⟩ := rfl
theorem one_def : (1 : Mat3 ℝ) = ⟨1, 0, 0, 0, 1, 0, 0, 0, 1⟩ := rfl
theorem neg_def : -m = m.scale (-1) := rfl
theorem smul_def : c • m = m.scale c := rfl
theorem scale_def : m.scale c =
    ⟨c * m.xx, c * m.xy, c * m.xz, c * m.yx, c * m.yy, c * m.yz, c * m.zx, c * m.zy,
      c * m.zz⟩ := rfl
theorem add_def : m + n =
    ⟨m.xx + n.xx, m.xy + n.xy, m.xz + n.xz, m.yx + n.yx, m.yy + n.yy, m.yz + n.yz,
      m.zx + n.zx, m.zy + n.zy, m.zz + n.zz⟩ := rfl
theorem sub_def : m - n =
    ⟨m.xx - n.xx, m.xy - n.xy, m.xz - n.xz, m.yx - n.yx, m.yy - n.yy, m.yz - n.yz,
      m.zx - n.zx, m.zy - n.zy, m.zz - n.zz⟩ := rfl

instance : Ring (Mat3 ℝ) where
  add_assoc l m n := by ext <;> simp only [add_def] <;> ring
  zero_add m := by ext <;> simp only [add_def, zero_def] <;> ring
  add_zero m := by ext <;> simp only [add_def, zero_def] <;> ring
  add_comm m n := by ext <;> simp only [add_def] <;> ring
  neg_add_cancel m := by ext <;> simp only [add_def, neg_def, scale_def, zero_def] <;> ring
  sub_eq_add_neg m n := by ext <;> simp only [add_def, sub_def, neg_def, scale_def] <;> ring
  nsmul := nsmulRec
  zsmul := zsmulRec
  mul_assoc l m n := by ext <;> simp <;> ring
  one_mul m := by ext <;> simp [one_def]
  mul_one m := by ext <;> simp [one_def]
  zero_mul m := by ext <;> simp [zero_def]
  mul_zero m := by ext <;> simp [zero_def]
  left_distrib l m n := by ext <;> simp [add_def] <;> ring
  right_distrib l m n := by ext <;> simp [add_def] <;> ring

instance : Module ℝ (Mat3 ℝ) where
  one_smul m := by ext <;> simp [smul_def, scale_def]
  mul_smul a b m := by ext <;> simp [smul_def, scale_def, mul_assoc]
  smul_zero a := by ext <;> simp [smul_def, scale_def, zero_def]
  smul_add a m n := by ext <;> simp [smul_def, scale_def, add_def, mul_add]
  add_smul a b m := by ext <;> simp [smul_def, scale_def, add_def, add_mul]
  zero_smul m := by ext <;> simp [smul_def, scale_def, zero_def]

instance : Algebra ℝ (Mat3 ℝ) := Algebra.ofModule
  (fun c m n => by ext <;> simp [smul_def, scale_def] <;> ring)
  (fun c m n => by ext <;> simp [smul_def, scale_def] <;> ring)

/-- Matrices act on vectors as an algebra of linear maps. -/
def action : Mat3 ℝ →ₐ[ℝ] (Vec3 ℝ →L[ℝ] Vec3 ℝ) where
  toFun m := LinearMap.toContinuousLinearMap
    { toFun := m.apply
      map_add' u v := by ext <;> simp <;> ring
      map_smul' c v := by ext <;> simp <;> ring }
  map_one' := by ext v <;> simp [one_def]
  map_mul' m n := by ext v <;> simp <;> ring
  map_zero' := by ext v <;> simp [zero_def]
  map_add' m n := by ext v <;> simp [add_def] <;> ring
  commutes' c := by ext v <;> simp [Algebra.algebraMap_eq_smul_one, smul_def, scale_def, one_def]

@[simp] theorem action_apply (v : Vec3 ℝ) : action m v = m.apply v := rfl

/-- A matrix is given by what it does to vectors. -/
theorem action_injective : Function.Injective action := by
  intro m n h
  have key (v : Vec3 ℝ) : m.apply v = n.apply v := congrArg (· v) h
  -- the columns are the images of the unit vectors
  have hx := key ⟨1, 0, 0⟩
  have hy := key ⟨0, 1, 0⟩
  have hz := key ⟨0, 0, 1⟩
  simp only [Vec3.ext_iff, apply_x, apply_y, apply_z, mul_one, mul_zero, add_zero, zero_add]
    at hx hy hz
  ext
  exacts [hx.1, hy.1, hz.1, hx.2.1, hy.2.1, hz.2.1, hx.2.2, hy.2.2, hz.2.2]

instance : NormedRing (Mat3 ℝ) :=
  NormedRing.induced (Mat3 ℝ) (Vec3 ℝ →L[ℝ] Vec3 ℝ) action action_injective

instance : NormedAlgebra ℝ (Mat3 ℝ) :=
  NormedAlgebra.induced ℝ (Mat3 ℝ) (Vec3 ℝ →L[ℝ] Vec3 ℝ) action

instance : FiniteDimensional ℝ (Mat3 ℝ) :=
  FiniteDimensional.of_injective action.toLinearMap action_injective

end

section
variable (m n : Mat3 ℝ) (u v : Vec3 ℝ) (c : ℝ)

/-- The identity matrix is the unit of the algebra. -/
@[simp] theorem identity_eq : (identity : Mat3 ℝ) = 1 := rfl

/-- A product of matrices acts by its factors, the second one first. -/
@[simp] theorem apply_mul : (m * n).apply v = m.apply (n.apply v) := by
  ext <;> simp <;> ring

/-- The identity leaves vectors as they are. -/
@[simp] theorem apply_one : (1 : Mat3 ℝ).apply v = v := by
  ext <;> simp [one_def]

/-- A sum of matrices acts by adding up. -/
theorem add_apply : (m + n).apply v = m.apply v + n.apply v := by
  simp only [← action_apply, map_add]
  rfl

/-- A scaled matrix acts by scaling. -/
theorem smul_apply : (c • m).apply v = c • m.apply v := by
  simp only [← action_apply, map_smul]
  rfl

/-- Matrices act additively. -/
theorem apply_add : m.apply (u + v) = m.apply u + m.apply v := (action m).map_add u v

/-- They take differences to differences. -/
theorem apply_sub : m.apply (u - v) = m.apply u - m.apply v := (action m).map_sub u v

/-- They take scaled vectors to scaled ones. -/
theorem apply_smul : m.apply (c • v) = c • m.apply v := (action m).map_smul c v

@[simp] theorem apply_zero : m.apply 0 = 0 := (action m).map_zero

/-- The image of a fixed vector, as a linear map of the matrix. -/
noncomputable def applyMap : Mat3 ℝ →L[ℝ] Vec3 ℝ :=
  (LinearMap.toContinuousLinearMap action.toLinearMap).flip v

@[simp] theorem applyMap_apply : applyMap v m = m.apply v := rfl

/-- Transposing a product turns round the order of its factors. -/
theorem transpose_mul : (m * n).transpose = n.transpose * m.transpose := by
  ext <;> simp [transpose] <;> ring

/-- Transposing keeps the scale. -/
theorem transpose_smul : (c • m).transpose = c • m.transpose := rfl

@[simp] theorem transpose_transpose : m.transpose.transpose = m := rfl

@[simp] theorem transpose_one : (1 : Mat3 ℝ).transpose = 1 := rfl

end

end Mat3

/-! ## The matrix of the vector product -/

namespace Rotation

variable (u v w : Vec3 ℝ) (c : ℝ)

/-- The matrix of the vector product sends a vector to the product. -/
theorem skew_apply : (skew v).apply w = v.cross w := by
  ext <;> simp [skew] <;> ring

/-- The matrix of a cross product is additive in the vector. -/
theorem skew_add : skew (u + v) = skew u + skew v := by
  ext <;> simp [skew, Mat3.add_def] <;> ring

/-- It is homogeneous in the vector. -/
theorem skew_smul : skew (c • v) = c • skew v := by
  ext <;> simp [skew, Mat3.smul_def, Mat3.scale_def]

/-- The matrix of a vector product is the commutator of the matrices of its factors. -/
theorem skew_cross : skew (u.cross v) = skew u * skew v - skew v * skew u := by
  ext <;> simp [skew, Mat3.sub_def] <;> ring

/-- The matrix of a vector determines the vector. -/
theorem skew_injective : Function.Injective (skew : Vec3 ℝ → Mat3 ℝ) := by
  intro u v h
  ext
  · exact congrArg Mat3.zy h
  · exact congrArg Mat3.xz h
  · exact congrArg Mat3.yx h

/-- The matrix of the vector product, as a linear map. -/
noncomputable def skewMap : Vec3 ℝ →L[ℝ] Mat3 ℝ :=
  LinearMap.toContinuousLinearMap
    { toFun := skew, map_add' := skew_add, map_smul' := fun c v => skew_smul v c }

@[simp] theorem skewMap_apply : skewMap v = skew v := rfl

@[simp] theorem skew_zero : skew (0 : Vec3 ℝ) = 0 := skewMap.map_zero

/-- The trace of a matrix, as a linear map. -/
noncomputable def traceMap : Mat3 ℝ →L[ℝ] ℝ :=
  LinearMap.toContinuousLinearMap
    { toFun := Mat3.trace
      map_add' m n := by
        simp only [Mat3.trace, Mat3.add_def]
        ring
      map_smul' c m := by
        simp only [Mat3.trace, Mat3.smul_def, Mat3.scale_def, smul_eq_mul, RingHom.id_apply]
        ring }

/-- What a matrix has in common with that of a vector product: twice the vector. -/
noncomputable def axialMap : Mat3 ℝ →L[ℝ] Vec3 ℝ :=
  LinearMap.toContinuousLinearMap
    { toFun m := ⟨m.zy - m.yz, m.xz - m.zx, m.yx - m.xy⟩
      map_add' m n := by
        ext <;> simp only [Mat3.add_def, Vec3.add_x, Vec3.add_y, Vec3.add_z] <;> ring
      map_smul' c m := by
        ext <;> simp only [Mat3.smul_def, Mat3.scale_def, Vec3.smul_x, Vec3.smul_y, Vec3.smul_z,
          RingHom.id_apply] <;> ring }

end Rotation

/-! ## Twists -/

namespace Twist

noncomputable section

instance : Add (Twist ℝ) := ⟨fun s t => ⟨s.linear + t.linear, s.angular + t.angular⟩⟩
instance : Neg (Twist ℝ) := ⟨fun t => ⟨-t.linear, -t.angular⟩⟩
instance : SMul ℝ (Twist ℝ) := ⟨fun c t => ⟨c • t.linear, c • t.angular⟩⟩

section
variable (s t : Twist ℝ) (c : ℝ)

@[simp] theorem zero_linear : (0 : Twist ℝ).linear = 0 := rfl
@[simp] theorem zero_angular : (0 : Twist ℝ).angular = 0 := rfl
@[simp] theorem add_linear : (s + t).linear = s.linear + t.linear := rfl
@[simp] theorem add_angular : (s + t).angular = s.angular + t.angular := rfl
@[simp] theorem neg_linear : (-t).linear = -t.linear := rfl
@[simp] theorem neg_angular : (-t).angular = -t.angular := rfl
@[simp] theorem smul_linear : (c • t).linear = c • t.linear := rfl
@[simp] theorem smul_angular : (c • t).angular = c • t.angular := rfl

end

instance : AddCommGroup (Twist ℝ) where
  add_assoc r s t := by ext : 1 <;> simp [add_assoc]
  zero_add t := by ext : 1 <;> simp
  add_zero t := by ext : 1 <;> simp
  add_comm s t := by ext : 1 <;> simp [add_comm]
  neg_add_cancel t := by ext : 1 <;> simp
  nsmul := nsmulRec
  zsmul := zsmulRec

instance : Module ℝ (Twist ℝ) where
  one_smul t := by ext : 1 <;> simp
  mul_smul a b t := by ext : 1 <;> simp [mul_smul]
  smul_zero a := by ext : 1 <;> simp
  smul_add a s t := by ext : 1 <;> simp
  add_smul a b t := by ext : 1 <;> simp [add_smul]
  zero_smul t := by ext : 1 <;> simp

/-- Twists taken at another point, as a linear map of the twist. -/
def moving (point : Vec3 ℝ) : Twist ℝ →ₗ[ℝ] Twist ℝ where
  toFun t := t.movedTo point
  map_add' s t := by
    ext : 1
    · ext <;> simp [movedTo] <;> ring
    · rfl
  map_smul' c t := by
    ext : 1
    · ext <;> simp [movedTo] <;> ring
    · rfl

@[simp] theorem moving_apply (point : Vec3 ℝ) (t : Twist ℝ) :
    moving point t = t.movedTo point := rfl

section
variable (t : Twist ℝ) (point r : Vec3 ℝ)

@[simp] theorem zero_movedTo : (0 : Twist ℝ).movedTo point = 0 := (moving point).map_zero

/-- Seen from another point, a twist has the velocity of that point. -/
theorem movedTo_linear : (t.movedTo point).linear = t.linear + t.angular.cross point := by
  ext <;> simp [movedTo] <;> ring

@[simp] theorem movedTo_angular : (t.movedTo point).angular = t.angular := rfl

/-- The velocity of a point that is carried along is that of a frame whose origin is there. -/
theorem velocityAt_movedTo : (t.movedTo point).velocityAt r = (t.movedTo (point + r)).linear := by
  ext <;> simp [movedTo, velocityAt, Rotation.skew] <;> ring

end

end

end Twist

end KinematicManifold
