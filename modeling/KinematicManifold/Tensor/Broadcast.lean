import KinematicManifold.Scalar
import KinematicManifold.Tensor.Basic

/-!
# Combining arrays entry by entry

Two arrays combine entry by entry when their shapes agree, read from the last axis on, up to sizes
of one and missing axes: there an entry is used again all along the axis.

- `joinShapes?`: the shape of the combination, if there is one;
- `Tensor.entryAt`: the entry an array contributes at an index of the combination;
- `Tensor.map₂`, `Tensor.map₃`: the combination of two and of three arrays.

Main statement: `joinShapes?_self`, arrays of one shape combine, and the shape is kept.
-/

namespace KinematicManifold

/-- The common size of two axes: equal sizes, or one of them is one. -/
def joinSizes? (a b : Nat) : Option Nat :=
  if a = b then some a else if a = 1 then some b else if b = 1 then some a else none

/-- The common shape of two arrays whose sizes are given from the last axis on. -/
def joinReversed? : List Nat → List Nat → Option (List Nat)
  | [], b => some b
  | a, [] => some a
  | a :: as, b :: bs => do
    let size ← joinSizes? a b
    let rest ← joinReversed? as bs
    return size :: rest

/-- The common shape of two arrays. -/
def joinShapes? (a b : List Nat) : Option (List Nat) :=
  (joinReversed? a.reverse b.reverse).map List.reverse

/-- A shape read from its last axis on joins with itself. -/
theorem joinReversed?_self (a : List Nat) : joinReversed? a a = some a := by
  induction a with
  | nil => rfl
  | cons size rest ih => simp [joinReversed?, joinSizes?, ih]

/-- Arrays of one shape combine, and the shape is kept. -/
theorem joinShapes?_self (a : List Nat) : joinShapes? a a = some a := by
  simp [joinShapes?, joinReversed?_self]

/-- The indices of an array of the given shape, row by row. -/
def indices : List Nat → List (List Nat)
  | [] => [[]]
  | size :: rest => (List.range size).flatMap fun i => (indices rest).map (i :: ·)

/-- A shape has as many indices as entries. -/
theorem length_indices (shape : List Nat) : (indices shape).length = entryCount shape := by
  induction shape with
  | nil => rfl
  | cons size rest ih =>
    simp only [indices, List.length_flatMap, List.length_map, ih, entryCount, List.foldr_cons,
      List.map_const', List.length_range, List.sum_replicate_nat]

namespace Tensor

variable {K L M N : Type}

/-- The place of an index among the entries of an array. An axis of size one has one place only. -/
def offset (shape index : List Nat) : Nat :=
  (shape.zip index).foldl (fun place (size, i) => place * size + if size = 1 then 0 else i) 0

/-- The entry an array contributes at an index of a combination. Axes that the array lacks are
skipped. -/
def entryAt [Zero K] (t : Tensor K) (index : List Nat) : K :=
  -- The default is never reached at an index of a combination.
  t.data.getD (offset t.shape (index.drop (index.length - t.shape.length))) 0

/-- An array given entry by entry. -/
def generate (shape : List Nat) (entry : List Nat → K) : Tensor K :=
  ⟨shape, (indices shape).map entry, by simp [length_indices]⟩

/-- Two arrays combined entry by entry. -/
def map₂ [Zero K] [Zero L] (f : K → L → M) (a : Tensor K) (b : Tensor L) :
    Except Fault (Tensor M) :=
  match joinShapes? a.shape b.shape with
  | none => .error .incompatibleShapes
  | some shape => .ok (generate shape fun i => f (a.entryAt i) (b.entryAt i))

/-- Three arrays combined entry by entry. -/
def map₃ [Zero K] [Zero L] [Zero M] (f : K → L → M → N) (a : Tensor K) (b : Tensor L)
    (c : Tensor M) : Except Fault (Tensor N) :=
  match joinShapes? a.shape b.shape >>= (joinShapes? · c.shape) with
  | none => .error .incompatibleShapes
  | some shape => .ok (generate shape fun i => f (a.entryAt i) (b.entryAt i) (c.entryAt i))

end Tensor

end KinematicManifold
