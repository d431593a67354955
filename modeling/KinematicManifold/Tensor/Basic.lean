import KinematicManifold.Fault

/-!
# Arrays of numbers

Numbers arrive as nested lists. They make an array when lists at the same depth have the same
length and are not nested too deep: `Nested.toTensor` finds the sizes along the axes and lays the
entries out row by row, or reports what is wrong with the lists. `Tensor.toNested` is the way back.

An array carries the proof that it holds as many entries as its shape asks for.
-/

namespace KinematicManifold

/-- A number, or a list of such. -/
inductive Nested (K : Type) where
  /-- A number. -/
  | leaf (value : K)
  /-- A list of numbers or of lists. -/
  | node (entries : List (Nested K))

/-- The number of entries of an array of the given shape. -/
def entryCount (shape : List Nat) : Nat := shape.foldr (· * ·) 1

/-- An array: its sizes along the axes, and its entries row by row. -/
structure Tensor (K : Type) where
  /-- The sizes along the axes, outermost first. -/
  shape : List Nat
  /-- The entries, the last axis running fastest. -/
  data : List K
  /-- There are as many entries as the shape asks for. -/
  length_data : data.length = entryCount shape

namespace Tensor

variable {K : Type}

/-- A single number. -/
def scalar (value : K) : Tensor K := ⟨[], [value], rfl⟩

/-- A plain list of numbers. -/
def ofList (values : List K) : Tensor K :=
  ⟨[values.length], values, by simp [entryCount]⟩

/-- Arrays of one shape laid out one after the other, along a new outermost axis. -/
def stackOf (shape : List Nat) (parts : List (Tensor K)) (h : ∀ p ∈ parts, p.shape = shape) :
    Tensor K where
  shape := parts.length :: shape
  data := parts.flatMap (·.data)
  length_data := by
    induction parts with
    | nil => simp [entryCount]
    | cons p rest ih =>
      simp only [List.mem_cons, forall_eq_or_imp] at h
      simp only [entryCount, List.foldr_cons] at ih
      simp only [List.flatMap_cons, List.length_append, ih h.2, p.length_data, h.1, entryCount,
        List.foldr_cons, List.length_cons, Nat.succ_mul, Nat.add_comm]

/-- Arrays stacked along a new outermost axis, if their shapes agree. Of no array the result is the
empty list. -/
def stack : List (Tensor K) → Except Fault (Tensor K)
  | [] => .ok (ofList [])
  | first :: rest =>
    if h : ∀ p ∈ first :: rest, p.shape = first.shape then
      .ok (stackOf first.shape (first :: rest) h)
    else .error .raggedArray

end Tensor

namespace Nested

variable {K : Type}

mutual

/-- How deep lists are nested. -/
def depth : Nested K → Nat
  | leaf _ => 0
  | node entries => depths entries + 1

/-- How deep the deepest of some lists is nested. -/
def depths : List (Nested K) → Nat
  | [] => 0
  | entry :: rest => max (depth entry) (depths rest)

end

mutual

/-- The array that nested lists make, at whatever depth. -/
def assemble : Nested K → Except Fault (Tensor K)
  | leaf value => .ok (Tensor.scalar value)
  | node entries => do Tensor.stack (← assembleAll entries)

/-- The arrays that the entries of a list make. -/
def assembleAll : List (Nested K) → Except Fault (List (Tensor K))
  | [] => .ok []
  | entry :: rest => do
    let first ← assemble entry
    let others ← assembleAll rest
    return first :: others

end

/-- The most axes that an array has. -/
def maxAxes : Nat := 64

/-- The array that nested lists make. -/
def toTensor (entries : Nested K) : Except Fault (Tensor K) :=
  if maxAxes < entries.depth then .error .tooManyAxes else entries.assemble

end Nested

namespace Tensor

variable {K : Type}

/-- Entries cut into `count` pieces of the given size. -/
def pieces (size : Nat) : (count : Nat) → List K → List (List K)
  | 0, _ => []
  | count + 1, data => data.take size :: pieces size count (data.drop size)

/-- Entries nested along the axes of a shape. -/
def nest : List Nat → List K → Nested K
  | [], value :: _ => .leaf value
  | [], [] => .node []
  | size :: rest, data => .node ((pieces (entryCount rest) size data).map (nest rest))

/-- An array as nested lists. -/
def toNested (t : Tensor K) : Nested K := nest t.shape t.data

end Tensor

end KinematicManifold
