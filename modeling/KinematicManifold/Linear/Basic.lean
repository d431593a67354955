import KinematicManifold.Scalar

/-!
# Vectors, rows and choices

Configurations, steps and gradients are vectors of a fixed length. The derivative of a list of error
rows is the list of the gradients, one to a row: `image` sends a step to the change of each row, and
`pullback` sends a weight for each row to the weighted sum of the gradients.

`takeLargest` picks the first entry of a list at which a measure is largest.

Main statements:
- `takeLargest_perm`: what was picked and what remains are the list again, in another order;
- `length_takeLargest`: one entry less remains.
-/

namespace KinematicManifold.Linear

variable {K : Type} [Scalar K] {n : Nat}

/-- The scalar product. -/
def dot (u v : Vector K n) : K := (u.zipWith (· * ·) v).sum

/-- The Euclidean length. -/
def norm (v : Vector K n) : K := Scalar.sqrt (dot v v)

/-- A vector with each entry multiplied by a scalar. -/
def scale (c : K) (v : Vector K n) : Vector K n := v.map (c * ·)

/-- Holds when every entry is finite. -/
def isFinite (v : Vector K n) : Bool := v.toList.all Scalar.isFinite

/-- The Euclidean length of the rows of an error. -/
def rowsNorm (rows : List K) : K := Scalar.sqrt (rows.map Scalar.square).sum

/-- The change of each row under a step. -/
def image (gradients : List (Vector K n)) (step : Vector K n) : List K := gradients.map (dot · step)

/-- The sum of the gradients, each times the weight of its row. -/
def pullback (gradients : List (Vector K n)) (weights : List K) : Vector K n :=
  (List.zipWith scale weights gradients).foldr (· + ·) 0

/-! ## Entries -/

/-- A scaled vector has each entry scaled. -/
@[simp] theorem getElem_scale (c : K) (v : Vector K n) (i : Nat) (h : i < n) :
    (scale c v)[i] = c * v[i] := by simp [scale]

/-! ## The first largest entry -/

section
variable {α : Type}

/-- The first entry at which a measure is largest, and the others in order. -/
def takeLargest (measure : α → K) : List α → Option (α × List α)
  | [] => none
  | a :: rest =>
    match takeLargest measure rest with
    | none => some (a, [])
    | some (b, others) => if measure a < measure b then some (b, a :: others) else some (a, rest)

/-- Only the empty list has no largest entry. -/
theorem takeLargest_eq_none_iff {measure : α → K} {l : List α} :
    takeLargest measure l = none ↔ l = [] := by
  cases l with
  | nil => simp [takeLargest]
  | cons a rest =>
    simp only [takeLargest]
    split
    · simp
    · split <;> simp

/-- The largest entry and the others are the list in another order. -/
theorem takeLargest_perm {measure : α → K} {l others : List α} {a : α}
    (h : takeLargest measure l = some (a, others)) : (a :: others).Perm l := by
  induction l generalizing a others with
  | nil => simp [takeLargest] at h
  | cons b rest ih =>
    simp only [takeLargest] at h
    split at h
    · next hnone =>
      -- the head is all there is
      rw [takeLargest_eq_none_iff.1 hnone]
      simp only [Option.some.injEq, Prod.mk.injEq] at h
      rw [← h.1, ← h.2]
    · next c kept hsome =>
      split at h <;> simp only [Option.some.injEq, Prod.mk.injEq] at h <;> rw [← h.1, ← h.2]
      -- the head is kept, behind the largest entry of the rest
      exact (List.Perm.swap b c kept).trans ((ih hsome).cons b)

/-- Taking the largest entry leaves one entry fewer. -/
theorem length_takeLargest {measure : α → K} {l others : List α} {a : α}
    (h : takeLargest measure l = some (a, others)) : others.length + 1 = l.length := by
  simpa using (takeLargest_perm h).length_eq

end

end KinematicManifold.Linear
