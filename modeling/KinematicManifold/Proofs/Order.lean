import KinematicManifold.Proofs.Exact

/-!
# The order of scalars

A value of a scalar type need not compare with anything: a length that comes out of an overflow may
be no number at all. What the library relies on is that the other values, the numbers, stand in a
line, and that a value to which something compares is a number. Real numbers are ordered so, and so
are floating-point numbers with their infinities and their two zeros.

A floating-point number is placed by its sign, its exponent and its mantissa, in this order.
Comparison of floating-point numbers is comparison of their places.

## Key results

- `Scalar.LawfulOrder`: what is asked of the comparisons of a scalar type
- `Scalar.LawfulOrder.of_place`: values that are placed in a line
- `FloatOrder.compare_eq`: floating-point numbers compare as their places do
- the instances for `ℝ` and `Float`
-/

namespace KinematicManifold

namespace Scalar

/-- A number is a value that compares with itself. -/
def IsNumber {K : Type} [Scalar K] (a : K) : Prop := a ≤ a

/-- A scalar type whose numbers stand in a line. -/
class LawfulOrder (K : Type) [Scalar K] : Prop where
  /-- The strict order contradicts the weak one the other way round. -/
  not_le {a b : K} : a < b → ¬b ≤ a
  /-- What is below a value is below every greater one. -/
  trans_le {a b c : K} : a < b → b ≤ c → a < c
  /-- What something is below is a number. -/
  isNumber {a b : K} : a < b → IsNumber b
  /-- Two numbers always compare. -/
  total {a b : K} : IsNumber a → IsNumber b → a ≤ b ∨ b < a

instance : LawfulOrder ℝ where
  not_le := not_le_of_gt
  trans_le := lt_of_lt_of_le
  isNumber _ := le_refl _
  total _ _ := le_or_gt _ _

/-- Values that compare as their places in a line do, where some values have no place. -/
theorem LawfulOrder.of_place {K α : Type} [Scalar K] [LinearOrder α] (place : K → Option α)
    (lt_iff : ∀ a b : K, a < b ↔ ∃ x ∈ place a, ∃ y ∈ place b, x < y)
    (le_iff : ∀ a b : K, a ≤ b ↔ ∃ x ∈ place a, ∃ y ∈ place b, x ≤ y) : LawfulOrder K where
  not_le hlt hle := by
    obtain ⟨x, hx, y, hy, hlt⟩ := (lt_iff _ _).1 hlt
    obtain ⟨y', hy', x', hx', hle⟩ := (le_iff _ _).1 hle
    -- a value has one place at most
    obtain rfl := Option.mem_unique hx hx'
    obtain rfl := Option.mem_unique hy hy'
    exact hle.not_gt hlt
  trans_le hlt hle := by
    obtain ⟨x, hx, y, hy, hlt⟩ := (lt_iff _ _).1 hlt
    obtain ⟨y', hy', z, hz, hle⟩ := (le_iff _ _).1 hle
    obtain rfl := Option.mem_unique hy hy'
    exact (lt_iff _ _).2 ⟨x, hx, z, hz, hlt.trans_le hle⟩
  isNumber hlt := by
    obtain ⟨-, -, y, hy, -⟩ := (lt_iff _ _).1 hlt
    exact (le_iff _ _).2 ⟨y, hy, y, hy, le_refl y⟩
  total ha hb := by
    obtain ⟨x, hx, -⟩ := (le_iff _ _).1 ha
    obtain ⟨y, hy, -⟩ := (le_iff _ _).1 hb
    -- numbers have places, which are in one order or the other
    rcases le_or_gt x y with hle | hlt
    · exact .inl ((le_iff _ _).2 ⟨x, hx, y, hy, hle⟩)
    · exact .inr ((lt_iff _ _).2 ⟨y, hy, x, hx, hlt⟩)

end Scalar

/-! ## Floating-point numbers -/

namespace FloatOrder

open Float.Model (UnpackedFloat)

/-- The place of a floating-point number in the line of numbers: infinities are outermost, and
finite numbers of one sign are told apart by the exponent first. -/
def place : UnpackedFloat → Option (ℤ ×ₗ ℤ ×ₗ ℤ)
  | .notANumber => none
  | .infinity .negative => some (toLex (-2, toLex (0, 0)))
  | .finite .negative mantissa exponent _ => some (toLex (-1, toLex (-exponent, -mantissa)))
  | .zero _ => some (toLex (0, toLex (0, 0)))
  | .finite .positive mantissa exponent _ => some (toLex (1, toLex (exponent, mantissa)))
  | .infinity .positive => some (toLex (2, toLex (0, 0)))

/-- Changing both signs turns a comparison of integers round. -/
private theorem compare_neg (a b : ℤ) : compare (-a) (-b) = compare b a := by
  simp only [compare, compareOfLessAndEq, neg_lt_neg_iff, neg_inj, eq_comm]

/-- Naturals compare as they do among the integers. -/
private theorem compare_cast (a b : ℕ) : compare (a : ℤ) (b : ℤ) = compare a b := by
  simp [compare, compareOfLessAndEq]

/-- Floating-point numbers compare as their places do. -/
theorem compare_eq (a b : UnpackedFloat) :
    a.compare b = do let x ← place a; let y ← place b; return compare x y := by
  rcases a with s | _ | s | ⟨s, m, e, _⟩ <;> rcases b with s' | _ | s' | ⟨s', m', e', _⟩ <;>
    (try cases s) <;> (try cases s') <;> try rfl
  case finite.finite.negative.negative =>
    -- among the negative numbers a greater exponent or mantissa comes first
    simp [UnpackedFloat.compare, place, Prod.Lex.compare_def, compareLex, compareOn, compare_neg,
      compare_cast, Ordering.swap_then, ← Std.OrientedCmp.eq_swap]
  case finite.finite.positive.positive =>
    simp [UnpackedFloat.compare, place, Prod.Lex.compare_def, compareLex, compareOn, compare_cast]

/-- Floating-point numbers are compared by the places of what they stand for. -/
theorem lt_iff {a b : Float} : a < b ↔
    ∃ x ∈ place a.toModel.unpack, ∃ y ∈ place b.toModel.unpack, x < y := by
  have hmodel : a < b ↔ a.toModel.unpack.lt b.toModel.unpack = true := decide_eq_true_iff
  rw [hmodel, UnpackedFloat.lt, compare_eq]
  cases place a.toModel.unpack <;> cases place b.toModel.unpack <;> simp [compare_lt_iff_lt]

/-- The same for the weak comparison. -/
theorem le_iff {a b : Float} : a ≤ b ↔
    ∃ x ∈ place a.toModel.unpack, ∃ y ∈ place b.toModel.unpack, x ≤ y := by
  have hmodel : a ≤ b ↔ a.toModel.unpack.le b.toModel.unpack = true := decide_eq_true_iff
  rw [hmodel, UnpackedFloat.le, compare_eq]
  cases place a.toModel.unpack <;> cases place b.toModel.unpack <;>
    simp [← Ordering.ne_gt_iff_isLE, compare_gt_iff_gt]

end FloatOrder

instance : Scalar.LawfulOrder Float :=
  .of_place (fun a => FloatOrder.place a.toModel.unpack) (fun _ _ => FloatOrder.lt_iff)
    fun _ _ => FloatOrder.le_iff

end KinematicManifold
