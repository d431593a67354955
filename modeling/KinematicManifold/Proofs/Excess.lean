import KinematicManifold.Constraint.Interval
import KinematicManifold.Linear.Basic
import KinematicManifold.Proofs.Space

/-!
# The excess over an interval, and the length of an error

The excess over an interval is the signed distance from it: what it leaves of a value lies in the
interval, and no value of the interval is nearer. The length of an error is that of its rows taken
together, so that it bounds each row, and each piece of a stack.

## Key results

- `Interval.excess_of_lt`, `Interval.excess_of_contains`, `Interval.excess_of_gt`: the three cases
- `Interval.excess_eq_zero_iff`, `Interval.slope_of_contains`: in the interval there is neither an
  excess nor a slope
- `Interval.contains_sub_excess`, `Interval.abs_excess_le`: the excess is the distance
- `Linear.abs_le_rowsNorm`, `Linear.rowsNorm_le_rowsNorm_flatten`: what the length bounds
- `Linear.rowsNorm_sq_le`: what bounds the length
-/

namespace KinematicManifold

namespace Interval

/-- Holds of the values between the bounds, the bounds included. -/
def Contains (interval : Interval ℝ) (value : ℝ) : Prop :=
  interval.lower ≤ value ∧ value ≤ interval.upper

variable {interval : Interval ℝ} {value : ℝ}

/-- The excess is what a value has above the upper bound and what it lacks below the lower one. -/
theorem excess_eq (interval : Interval ℝ) (value : ℝ) :
    interval.excess value = max (value - interval.upper) 0 + min (value - interval.lower) 0 := by
  simp [excess]

/-- Below an interval the excess is the way up to the lower bound, taken negative. -/
theorem excess_of_lt (hordered : interval.lower ≤ interval.upper) (h : value < interval.lower) :
    interval.excess value = value - interval.lower := by
  rw [excess_eq, max_eq_right (by linarith), min_eq_left (by linarith), zero_add]

/-- Inside an interval there is no excess. -/
theorem excess_of_contains (h : interval.Contains value) : interval.excess value = 0 := by
  obtain ⟨hlower, hupper⟩ := h
  rw [excess_eq, max_eq_right (by linarith), min_eq_right (by linarith), zero_add]

/-- Above an interval the excess is the way down to the upper bound. -/
theorem excess_of_gt (hordered : interval.lower ≤ interval.upper) (h : interval.upper < value) :
    interval.excess value = value - interval.upper := by
  rw [excess_eq, max_eq_left (by linarith), min_eq_right (by linarith), add_zero]

/-- A value lies below the interval, in it or above it, and has its excess accordingly. -/
theorem excess_cases (hordered : interval.lower ≤ interval.upper) (value : ℝ) :
    value < interval.lower ∧ interval.excess value = value - interval.lower ∨
      interval.Contains value ∧ interval.excess value = 0 ∨
      interval.upper < value ∧ interval.excess value = value - interval.upper := by
  rcases lt_or_ge value interval.lower with hbelow | hlower
  · exact .inl ⟨hbelow, excess_of_lt hordered hbelow⟩
  · rcases lt_or_ge interval.upper value with habove | hupper
    · exact .inr (.inr ⟨habove, excess_of_gt hordered habove⟩)
    · exact .inr (.inl ⟨⟨hlower, hupper⟩, excess_of_contains ⟨hlower, hupper⟩⟩)

/-- A value has no excess exactly if it lies in the interval. -/
theorem excess_eq_zero_iff (hordered : interval.lower ≤ interval.upper) :
    interval.excess value = 0 ↔ interval.Contains value := by
  refine ⟨fun h => ?_, excess_of_contains⟩
  rcases excess_cases hordered value with ⟨hbelow, hexcess⟩ | ⟨hinside, -⟩ | ⟨habove, hexcess⟩
  · rw [hexcess, sub_eq_zero] at h
    exact absurd h hbelow.ne
  · exact hinside
  · rw [hexcess, sub_eq_zero] at h
    exact absurd h habove.ne'

/-- In the interval, the bounds included, the slope of the excess is zero. -/
theorem slope_of_contains (h : interval.Contains value) : interval.slope value = 0 :=
  if_neg (not_or.2 ⟨not_lt.2 h.2, not_lt.2 h.1⟩)

/-- What the excess leaves of a value lies in the interval. -/
theorem contains_sub_excess (hordered : interval.lower ≤ interval.upper) (value : ℝ) :
    interval.Contains (value - interval.excess value) := by
  rcases excess_cases hordered value with ⟨-, hexcess⟩ | ⟨hinside, hexcess⟩ | ⟨-, hexcess⟩
  · rw [hexcess, sub_sub_cancel]
    exact ⟨le_rfl, hordered⟩
  · rw [hexcess, sub_zero]
    exact hinside
  · rw [hexcess, sub_sub_cancel]
    exact ⟨hordered, le_rfl⟩

/-- No value of the interval is nearer than the excess. -/
theorem abs_excess_le {other : ℝ} (h : interval.Contains other) (value : ℝ) :
    |interval.excess value| ≤ |value - other| := by
  obtain ⟨hlower, hupper⟩ := h
  -- below, inside or above
  rcases excess_cases (hlower.trans hupper) value with
    ⟨hbelow, hexcess⟩ | ⟨-, hexcess⟩ | ⟨habove, hexcess⟩
  · rw [hexcess, abs_of_neg (sub_neg.2 hbelow), abs_of_neg (sub_neg.2 (hbelow.trans_le hlower))]
    linarith
  · rw [hexcess, abs_zero]
    exact abs_nonneg _
  · rw [hexcess, abs_of_pos (sub_pos.2 habove), abs_of_pos (sub_pos.2 (hupper.trans_lt habove))]
    linarith

/-- The excess is at most a bound exactly when the value lies in the interval widened by it. -/
theorem abs_excess_le_iff {bound : ℝ} (hordered : interval.lower ≤ interval.upper)
    (hbound : 0 ≤ bound) : |interval.excess value| ≤ bound ↔
      interval.lower - bound ≤ value ∧ value ≤ interval.upper + bound := by
  rcases excess_cases hordered value with
    ⟨hbelow, hexcess⟩ | ⟨⟨hlower, hupper⟩, hexcess⟩ | ⟨habove, hexcess⟩
  · -- below, only the lower bound can be missed
    rw [hexcess, abs_of_neg (sub_neg.2 hbelow)]
    constructor
    · intro h
      constructor <;> linarith
    · rintro ⟨h, -⟩
      linarith
  · rw [hexcess, abs_zero]
    refine iff_of_true hbound ⟨?_, ?_⟩ <;> linarith
  · -- above, only the upper one
    rw [hexcess, abs_of_pos (sub_pos.2 habove)]
    constructor
    · intro h
      constructor <;> linarith
    · rintro ⟨-, h⟩
      linarith

/-- A symmetric interval contains the values of at most its magnitude. -/
theorem contains_symmetric_iff {bound : ℝ} : (symmetric bound).Contains value ↔ |value| ≤ bound :=
  abs_le.symm

end Interval

namespace Linear

variable {rows : List ℝ}

/-- The norm of an error is the root of the sum of its squares. -/
theorem rowsNorm_eq (rows : List ℝ) : rowsNorm rows = √(rows.map (· ^ 2)).sum := by
  simp [rowsNorm, funext Scalar.square_eq]

/-- A sum of squares is not negative. -/
private theorem sum_sq_nonneg (rows : List ℝ) : 0 ≤ (rows.map (· ^ 2)).sum :=
  List.sum_nonneg (by simpa using fun row _ => sq_nonneg row)

/-- The norm of an error is not negative. -/
theorem rowsNorm_nonneg (rows : List ℝ) : 0 ≤ rowsNorm rows := by
  rw [rowsNorm_eq]
  exact Real.sqrt_nonneg _

/-- The squared norm of an error is the sum of its squares. -/
theorem rowsNorm_sq (rows : List ℝ) : rowsNorm rows ^ 2 = (rows.map (· ^ 2)).sum := by
  rw [rowsNorm_eq, Real.sq_sqrt (sum_sq_nonneg rows)]

/-- The length of an error bounds each of its rows. -/
theorem abs_le_rowsNorm {row : ℝ} (h : row ∈ rows) : |row| ≤ rowsNorm rows := by
  rw [rowsNorm_eq]
  refine Real.abs_le_sqrt (List.single_le_sum ?_ _ (List.mem_map_of_mem (f := (· ^ 2)) h))
  simpa using fun r _ => sq_nonneg r

/-- The length of a stack bounds the length of each piece. -/
theorem rowsNorm_le_rowsNorm_flatten {pieces : List (List ℝ)} (h : rows ∈ pieces) :
    rowsNorm rows ≤ rowsNorm pieces.flatten := by
  rw [rowsNorm_eq, rowsNorm_eq]
  refine Real.sqrt_le_sqrt ?_
  -- the squares of a piece are one of the totals that the stack adds up
  rw [List.map_flatten, List.sum_flatten, List.map_map]
  refine List.single_le_sum (fun total htotal => ?_) _ (List.mem_map_of_mem h)
  obtain ⟨piece, -, rfl⟩ := List.mem_map.1 htotal
  exact sum_sq_nonneg piece

/-- A bound on every row bounds the length. -/
theorem rowsNorm_sq_le {bound : ℝ} (h : ∀ row ∈ rows, |row| ≤ bound) :
    rowsNorm rows ^ 2 ≤ rows.length * bound ^ 2 := by
  have hsquare : ∀ square ∈ rows.map (· ^ 2), square ≤ bound ^ 2 := by
    intro square hsquare
    obtain ⟨row, hrow, rfl⟩ := List.mem_map.1 hsquare
    exact sq_le_sq' (neg_le_of_abs_le (h row hrow)) (le_of_abs_le (h row hrow))
  rw [rowsNorm_sq]
  simpa using List.sum_le_card_nsmul _ _ hsquare

/-- As an error of three entries a vector has the norm it has in space. -/
theorem rowsNorm_toList (v : Vec3 ℝ) : rowsNorm v.toList = ‖v‖ := by
  rw [rowsNorm_eq, ← Real.sqrt_sq (norm_nonneg v), Vec3.norm_sq]
  simp [Vec3.toList, add_assoc]

/-- The rows of some of the axes have the length of the vector that is zero along the others. -/
theorem rowsNorm_filter_axes (p : Axis → Bool) (f : Axis → ℝ) :
    rowsNorm ((Axis.all.filter p).map f) = ‖Vec3.ofAlong fun a => if p a then f a else 0‖ := by
  rw [← rowsNorm_toList, rowsNorm_eq, rowsNorm_eq]
  simp only [Axis.all, List.filter_cons, List.filter_nil, Vec3.ofAlong, Vec3.toList]
  split_ifs <;> simp

end Linear

end KinematicManifold
