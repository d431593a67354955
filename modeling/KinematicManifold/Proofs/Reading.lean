import KinematicManifold.Tensor.Reading

/-!
# Reading plain lists

A plain list of numbers, however long, makes an array of one axis, and a configuration is read from
the plain list of its entries.

## Key results

- `Nested.toTensor_ofList`: a plain list makes an array
- `Tensor.toConfiguration_ofConfiguration`: a configuration is read from its entries
-/

namespace KinematicManifold

namespace Nested

variable {K : Type}

/-- A plain list of numbers. -/
def ofList (values : List K) : Nested K := .node (values.map .leaf)

/-- A configuration as the plain list of its entries. -/
def ofConfiguration {n : Nat} (q : Vector K n) : Nested K := ofList q.toList

/-- Numbers are not nested. -/
private theorem depths_leaves (values : List K) : depths (values.map leaf) = 0 := by
  induction values with
  | nil => rfl
  | cons value rest ih => simp [depths, depth, ih]

/-- Numbers are assembled one by one. -/
private theorem assembleAll_leaves (values : List K) :
    assembleAll (values.map leaf) = .ok (values.map Tensor.scalar) := by
  induction values with
  | nil => rfl
  | cons value rest ih =>
    simp only [List.map_cons, assembleAll, assemble, ih]
    rfl

/-- Stacked numbers make a row. -/
private theorem stack_scalars (values : List K) :
    Tensor.stack (values.map Tensor.scalar) = .ok (Tensor.ofList values) := by
  cases values with
  | nil => rfl
  | cons value rest =>
    -- numbers have no axes, so that all of them have one shape
    have hshape : ∀ p ∈ Tensor.scalar value :: rest.map Tensor.scalar,
        p.shape = (Tensor.scalar value).shape := by simp [Tensor.scalar]
    have hdata : (rest.map Tensor.scalar).flatMap (·.data) = rest := by
      simp [Tensor.scalar, List.flatMap_map]
    simp only [List.map_cons, Tensor.stack, dif_pos hshape, Tensor.ofList, Tensor.stackOf,
      List.flatMap_cons, hdata]
    simp [Tensor.scalar]

/-- A plain list makes an array of one axis. -/
theorem toTensor_ofList (values : List K) : (ofList values).toTensor = .ok (.ofList values) := by
  -- a plain list is nested only once
  have hdepth : ¬maxAxes < (ofList values).depth := by
    simp [ofList, depth, depths_leaves, maxAxes]
  rw [toTensor, if_neg hdepth, ofList, assemble, assembleAll_leaves]
  exact stack_scalars values

/-- A configuration written as a list is read back. -/
theorem toTensor_ofConfiguration {n : Nat} (q : Vector K n) :
    (ofConfiguration q).toTensor = .ok (.ofConfiguration q) := toTensor_ofList q.toList

end Nested

/-- A configuration is read from the array of its entries. -/
theorem Tensor.toConfiguration_ofConfiguration {K : Type} {n : Nat} (q : Vector K n) :
    (ofConfiguration q).toConfiguration n = .ok q :=
  toConfiguration_eq_ok_iff.2 (by simp [ofConfiguration, ofList])

end KinematicManifold
