import KinematicManifold.Geometry.Vec3

/-!
# Matrices of space

Linear maps of space, entry by entry: `xy` is the entry in the row of `x` and the column of `y`.
Products sum over all three terms, also where a factor is zero.

The image of a vector has its components, and a product its entries, as `@[simp]` lemmas.
Main statements:
- `ofRows_row`, `ofCols_col`: a matrix is made of its rows, and of its columns;
- `apply_along`: a component of an image is the scalar product with a row.
-/

namespace KinematicManifold

/-- A matrix of three rows and three columns. -/
@[ext]
structure Mat3 (K : Type) where
  xx : K
  xy : K
  xz : K
  yx : K
  yy : K
  yz : K
  zx : K
  zy : K
  zz : K

namespace Mat3

variable {K : Type}

/-- The row of an axis. -/
def row (m : Mat3 K) : Axis → Vec3 K
  | .x => ⟨m.xx, m.xy, m.xz⟩
  | .y => ⟨m.yx, m.yy, m.yz⟩
  | .z => ⟨m.zx, m.zy, m.zz⟩

/-- The column of an axis. -/
def col (m : Mat3 K) : Axis → Vec3 K
  | .x => ⟨m.xx, m.yx, m.zx⟩
  | .y => ⟨m.xy, m.yy, m.zy⟩
  | .z => ⟨m.xz, m.yz, m.zz⟩

/-- The matrix with the given rows. -/
def ofRows (a b c : Vec3 K) : Mat3 K := ⟨a.x, a.y, a.z, b.x, b.y, b.z, c.x, c.y, c.z⟩

/-- The matrix with the given columns. -/
def ofCols (a b c : Vec3 K) : Mat3 K := ⟨a.x, b.x, c.x, a.y, b.y, c.y, a.z, b.z, c.z⟩

/-- The matrix with rows and columns exchanged. -/
def transpose (m : Mat3 K) : Mat3 K :=
  ⟨m.xx, m.yx, m.zx, m.xy, m.yy, m.zy, m.xz, m.yz, m.zz⟩

/-- The rows in order, as lists. -/
def toLists (m : Mat3 K) : List (List K) := Axis.all.map fun a => (m.row a).toList

variable [Scalar K]

/-- The identity matrix. -/
def identity : Mat3 K := ⟨1, 0, 0, 0, 1, 0, 0, 0, 1⟩

instance : Add (Mat3 K) := ⟨fun m n =>
  ⟨m.xx + n.xx, m.xy + n.xy, m.xz + n.xz, m.yx + n.yx, m.yy + n.yy, m.yz + n.yz,
    m.zx + n.zx, m.zy + n.zy, m.zz + n.zz⟩⟩

instance : Sub (Mat3 K) := ⟨fun m n =>
  ⟨m.xx - n.xx, m.xy - n.xy, m.xz - n.xz, m.yx - n.yx, m.yy - n.yy, m.yz - n.yz,
    m.zx - n.zx, m.zy - n.zy, m.zz - n.zz⟩⟩

/-- A matrix with each entry multiplied by a scalar. -/
def scale (c : K) (m : Mat3 K) : Mat3 K :=
  ⟨c * m.xx, c * m.xy, c * m.xz, c * m.yx, c * m.yy, c * m.yz, c * m.zx, c * m.zy, c * m.zz⟩

/-- The image of a vector. -/
def apply (m : Mat3 K) (v : Vec3 K) : Vec3 K :=
  ⟨m.xx * v.x + m.xy * v.y + m.xz * v.z, m.yx * v.x + m.yy * v.y + m.yz * v.z,
    m.zx * v.x + m.zy * v.y + m.zz * v.z⟩

instance : Mul (Mat3 K) := ⟨fun m n =>
  ⟨m.xx * n.xx + m.xy * n.yx + m.xz * n.zx, m.xx * n.xy + m.xy * n.yy + m.xz * n.zy,
    m.xx * n.xz + m.xy * n.yz + m.xz * n.zz, m.yx * n.xx + m.yy * n.yx + m.yz * n.zx,
    m.yx * n.xy + m.yy * n.yy + m.yz * n.zy, m.yx * n.xz + m.yy * n.yz + m.yz * n.zz,
    m.zx * n.xx + m.zy * n.yx + m.zz * n.zx, m.zx * n.xy + m.zy * n.yy + m.zz * n.zy,
    m.zx * n.xz + m.zy * n.yz + m.zz * n.zz⟩⟩

/-- The sum of the diagonal. -/
def trace (m : Mat3 K) : K := m.xx + m.yy + m.zz

/-- The determinant: the first row against the vector product of the other two. -/
def det (m : Mat3 K) : K := (m.row .x).dot ((m.row .y).cross (m.row .z))

/-- The matrix of cofactors, which is the transposed inverse times the determinant. -/
def cofactors (m : Mat3 K) : Mat3 K :=
  ofRows ((m.row .y).cross (m.row .z)) ((m.row .z).cross (m.row .x)) ((m.row .x).cross (m.row .y))

/-! ## Entries and components -/

section
variable (m n : Mat3 K) (v : Vec3 K)

@[simp] theorem apply_x : (m.apply v).x = m.xx * v.x + m.xy * v.y + m.xz * v.z := rfl
@[simp] theorem apply_y : (m.apply v).y = m.yx * v.x + m.yy * v.y + m.yz * v.z := rfl
@[simp] theorem apply_z : (m.apply v).z = m.zx * v.x + m.zy * v.y + m.zz * v.z := rfl
@[simp] theorem mul_xx : (m * n).xx = m.xx * n.xx + m.xy * n.yx + m.xz * n.zx := rfl
@[simp] theorem mul_xy : (m * n).xy = m.xx * n.xy + m.xy * n.yy + m.xz * n.zy := rfl
@[simp] theorem mul_xz : (m * n).xz = m.xx * n.xz + m.xy * n.yz + m.xz * n.zz := rfl
@[simp] theorem mul_yx : (m * n).yx = m.yx * n.xx + m.yy * n.yx + m.yz * n.zx := rfl
@[simp] theorem mul_yy : (m * n).yy = m.yx * n.xy + m.yy * n.yy + m.yz * n.zy := rfl
@[simp] theorem mul_yz : (m * n).yz = m.yx * n.xz + m.yy * n.yz + m.yz * n.zz := rfl
@[simp] theorem mul_zx : (m * n).zx = m.zx * n.xx + m.zy * n.yx + m.zz * n.zx := rfl
@[simp] theorem mul_zy : (m * n).zy = m.zx * n.xy + m.zy * n.yy + m.zz * n.zy := rfl
@[simp] theorem mul_zz : (m * n).zz = m.zx * n.xz + m.zy * n.yz + m.zz * n.zz := rfl

end

/-! ## Rows and columns -/

omit [Scalar K] in
@[simp] theorem ofRows_row (m : Mat3 K) : ofRows (m.row .x) (m.row .y) (m.row .z) = m := rfl

omit [Scalar K] in
@[simp] theorem ofCols_col (m : Mat3 K) : ofCols (m.col .x) (m.col .y) (m.col .z) = m := rfl

/-- A component of an image is the scalar product with a row. -/
theorem apply_along (m : Mat3 K) (v : Vec3 K) (a : Axis) :
    (m.apply v).along a = (m.row a).dot v := by
  cases a <;> rfl

end Mat3

end KinematicManifold
