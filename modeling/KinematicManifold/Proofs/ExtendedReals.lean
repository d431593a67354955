import KinematicManifold.Proofs.Order

/-!
# Real numbers, infinities, and what is no number

What a caller gives need not be a finite number. Real arithmetic is extended to infinite values and
to a value that is no number, by the rules of floating-point arithmetic: what is no number spreads,
an infinity is none the less a number, and infinities that cancel or meet a zero leave no number.
Finite operands are computed with exactly, so that nothing overflows.

There is one zero only. It counts as positive where a quotient by it asks for a sign.

## Key results

- `Extended.isNumber_iff`, `Extended.isFinite_iff`: the numbers, and the finite ones
- the instance of `Scalar.LawfulOrder`
- `Extended.real_add`, `Extended.larger_real`, ...: finite numbers are computed with as real numbers
- `Extended.exists_real_of_add` and its like: what is finite was made of finite values
- `Extended.nonneg_iff`: the numbers that are not negative are closed under sums and roots
-/

namespace KinematicManifold

open Scalar (IsNumber)

/-- A real number, an infinity, or what is no number. -/
inductive Extended where
  | nan
  | infinite (negative : Bool)
  | real (value : ℝ)

namespace Extended

/-! ## Operations -/

section
open Classical

/-- The place of a number in the line of numbers. -/
noncomputable def place : Extended → Option EReal
  | nan => none
  | infinite true => some ⊥
  | infinite false => some ⊤
  | real a => some a

/-- The infinity that has the sign of a real number. -/
noncomputable def infiniteAlong (a : ℝ) (flipped : Bool) : Extended :=
  infinite (xor flipped (decide (a < 0)))

noncomputable def add : Extended → Extended → Extended
  | nan, _ | _, nan => nan
  | infinite s, infinite t => if s = t then infinite s else nan
  | infinite s, real _ | real _, infinite s => infinite s
  | real a, real b => real (a + b)

noncomputable def neg : Extended → Extended
  | nan => nan
  | infinite s => infinite !s
  | real a => real (-a)

noncomputable def sub : Extended → Extended → Extended
  | real a, real b => real (a - b)
  | a, b => add a (neg b)

noncomputable def mul : Extended → Extended → Extended
  | nan, _ | _, nan => nan
  | infinite s, infinite t => infinite (xor s t)
  | infinite s, real a | real a, infinite s => if a = 0 then nan else infiniteAlong a s
  | real a, real b => real (a * b)

noncomputable def div : Extended → Extended → Extended
  | nan, _ | _, nan => nan
  | infinite _, infinite _ => nan
  | infinite s, real b => infiniteAlong b s
  | real _, infinite _ => real 0
  -- a number other than zero over zero is infinite, on the side of the number
  | real a, real b => if b ≠ 0 then real (a / b) else if a = 0 then nan else infiniteAlong a false

noncomputable def sqrt : Extended → Extended
  | nan | infinite true => nan
  | infinite false => infinite false
  | real a => if 0 ≤ a then real √a else nan

/-- A function that has no value at an infinity. -/
noncomputable def onReal (f : ℝ → ℝ) : Extended → Extended
  | nan | infinite _ => nan
  | real a => real (f a)

/-- A number seen from far away, where every finite number is zero. -/
noncomputable def fromAfar : Extended → ℝ
  | infinite negative => if negative then -1 else 1
  | _ => 0

noncomputable def atan2 : Extended → Extended → Extended
  | nan, _ | _, nan => nan
  | real y, real x => real (Scalar.atan2 y x)
  -- far to the left the angle is a half turn on the side of the ordinate
  | real y, infinite true => real (if y < 0 then -Real.pi else Real.pi)
  | y, x => real (Scalar.atan2 y.fromAfar x.fromAfar)

noncomputable instance : Scalar Extended where
  add := add
  sub := sub
  mul := mul
  div := div
  neg := neg
  zero := real 0
  one := real 1
  lt a b := ∃ x ∈ place a, ∃ y ∈ place b, x < y
  le a b := ∃ x ∈ place a, ∃ y ∈ place b, x ≤ y
  -- literals are not rounded either
  ofScientific m s e := real (Scalar.toOfScientific.ofScientific m s e)
  sqrt := sqrt
  sin := onReal Real.sin
  cos := onReal Real.cos
  tan := onReal Real.tan
  atan2 := atan2
  rankTolerance := real 0
  decidableLT _ _ := propDecidable _
  decidableLE _ _ := propDecidable _

end

/-! ## Order -/

/-- Values are compared by their places, of which `NaN` has none. -/
theorem lt_iff {a b : Extended} : a < b ↔ ∃ x ∈ place a, ∃ y ∈ place b, x < y := Iff.rfl

/-- The same for the weak comparison. -/
theorem le_iff {a b : Extended} : a ≤ b ↔ ∃ x ∈ place a, ∃ y ∈ place b, x ≤ y := Iff.rfl

instance : Scalar.LawfulOrder Extended := .of_place place (fun _ _ => lt_iff) fun _ _ => le_iff

@[simp] theorem not_nan_lt (a : Extended) : ¬nan < a := by simp [lt_iff, place]

@[simp] theorem not_lt_nan (a : Extended) : ¬a < nan := by simp [lt_iff, place]

@[simp] theorem not_nan_le (a : Extended) : ¬nan ≤ a := by simp [le_iff, place]

@[simp] theorem not_le_nan (a : Extended) : ¬a ≤ nan := by simp [le_iff, place]

@[simp] theorem nan_add (a : Extended) : nan + a = nan := rfl

@[simp] theorem add_nan (a : Extended) : a + nan = nan := by cases a <;> rfl

@[simp] theorem nan_sub (a : Extended) : nan - a = nan := rfl

@[simp] theorem sub_nan (a : Extended) : a - nan = nan := by cases a <;> rfl

@[simp] theorem mul_nan (a : Extended) : a * nan = nan := by cases a <;> rfl

/-- Everything is a number but what is said to be none. -/
theorem isNumber_iff {a : Extended} : IsNumber a ↔ a ≠ nan := by
  rw [IsNumber, le_iff]
  rcases a with _ | ⟨_ | _⟩ | a <;> simp [place]

/-- A real number is a number. -/
theorem isNumber_real (a : ℝ) : IsNumber (real a) := isNumber_iff.2 (by simp)

/-- `NaN` is no number. -/
theorem not_isNumber_nan : ¬IsNumber nan := fun h => isNumber_iff.1 h rfl

/-! ## Finite numbers -/

section
variable (a b : ℝ)

@[simp] theorem real_add : real a + real b = real (a + b) := rfl
@[simp] theorem real_sub : real a - real b = real (a - b) := rfl
@[simp] theorem real_mul : real a * real b = real (a * b) := rfl
@[simp] theorem real_neg : -real a = real (-a) := rfl
@[simp] theorem real_zero : (0 : Extended) = real 0 := rfl
@[simp] theorem real_one : (1 : Extended) = real 1 := rfl
@[simp] theorem sin_real : Scalar.sin (real a) = real (Real.sin a) := rfl
@[simp] theorem cos_real : Scalar.cos (real a) = real (Real.cos a) := rfl
@[simp] theorem atan2_real : Scalar.atan2 (real a) (real b) = real (Scalar.atan2 a b) := rfl

@[simp] theorem real_lt : real a < real b ↔ a < b := by
  simp [lt_iff, place]

@[simp] theorem real_le : real a ≤ real b ↔ a ≤ b := by
  simp [le_iff, place]

/-- Division by a real number that is not zero stays among the reals. -/
theorem real_div (h : b ≠ 0) : real a / real b = real (a / b) := if_pos h

/-- The root of a real number that is not negative stays among the reals. -/
theorem sqrt_real (h : 0 ≤ a) : Scalar.sqrt (real a) = real √a := if_pos h

@[simp] theorem abs_real : Scalar.abs (real a) = real (Scalar.abs a) := by
  simp only [Scalar.abs, real_zero, real_lt, real_neg]
  split_ifs <;> rfl

@[simp] theorem larger_real : Scalar.larger (real a) (real b) = real (Scalar.larger a b) := by
  simp only [Scalar.larger, real_lt, real_le, real_add]
  split_ifs <;> rfl

@[simp] theorem smaller_real : Scalar.smaller (real a) (real b) = real (Scalar.smaller a b) := by
  simp only [Scalar.smaller, real_lt, real_le, real_add]
  split_ifs <;> rfl

@[simp] theorem isZero_real : Scalar.isZero (real a) = Scalar.isZero a := by
  simp [Scalar.isZero]

end

/-- A value is finite if it is a real number. -/
theorem isFinite_iff {a : Extended} : Scalar.isFinite a = true ↔ ∃ x, a = real x := by
  -- neither what is no number nor an infinity cancels against itself
  rcases a with _ | s | a
  · have hsub : nan - nan = nan := rfl
    simp [Scalar.isFinite, Scalar.isZero, hsub]
  · have hsub : infinite s - infinite s = nan := by cases s <;> rfl
    simp [Scalar.isFinite, Scalar.isZero, hsub]
  · simp [Scalar.isFinite]

/-! ## What is finite was made of finite values -/

section
variable {a b : Extended} {x : ℝ}

/-- Only real numbers add up to a real number. -/
theorem exists_real_of_add (h : a + b = real x) : (∃ y, a = real y) ∧ ∃ z, b = real z := by
  have hadd : add a b = real x := h
  rcases a with _ | s | y <;> rcases b with _ | t | z <;> simp only [add] at hadd
  case infinite.infinite => split_ifs at hadd
  case real.real => exact ⟨⟨y, rfl⟩, z, rfl⟩
  all_goals cases hadd

/-- Only real numbers have a real square. -/
theorem exists_real_of_mul_self (h : a * a = real x) : ∃ y, a = real y := by
  have hmul : mul a a = real x := h
  rcases a with _ | s | y
  · cases hmul
  · cases hmul
  · exact ⟨y, rfl⟩

/-- Only real numbers have a real root. -/
theorem exists_real_of_sqrt (h : Scalar.sqrt a = real x) : ∃ y, a = real y := by
  have hsqrt : sqrt a = real x := h
  rcases a with _ | ⟨_ | _⟩ | y
  · cases hsqrt
  · cases hsqrt
  · cases hsqrt
  · exact ⟨y, rfl⟩

end

/-! ## Numbers that are not negative -/

section
variable {a b : Extended}

/-- A number that is not negative is a real number or the positive infinity. -/
theorem nonneg_iff : 0 ≤ a ↔ a = infinite false ∨ ∃ x, 0 ≤ x ∧ a = real x := by
  rcases a with _ | ⟨_ | _⟩ | x <;> simp [le_iff, place]

/-- What is not below zero is a number. -/
theorem isNumber_of_nonneg (h : 0 ≤ a) : IsNumber a := by
  obtain rfl | ⟨x, -, rfl⟩ := nonneg_iff.1 h <;> exact isNumber_iff.2 (by simp)

/-- Sums of numbers that are not negative are not negative: no two infinities of opposite signs
meet. -/
theorem add_nonneg (ha : 0 ≤ a) (hb : 0 ≤ b) : 0 ≤ a + b := by
  rw [nonneg_iff] at ha hb ⊢
  obtain rfl | ⟨x, hx, rfl⟩ := ha <;> obtain rfl | ⟨y, hy, rfl⟩ := hb
  · exact .inl rfl
  · exact .inl rfl
  · exact .inl rfl
  · exact .inr ⟨x + y, by positivity, rfl⟩

/-- The square of a number is not negative. -/
theorem square_nonneg (h : IsNumber a) : 0 ≤ Scalar.square a := by
  rw [nonneg_iff]
  rcases a with _ | s | x
  · exact absurd h not_isNumber_nan
  · exact .inl (congrArg infinite (Bool.xor_self s))
  · exact .inr ⟨x * x, mul_self_nonneg x, rfl⟩

/-- The root of a number that is not negative is not negative. -/
theorem sqrt_nonneg (h : 0 ≤ a) : 0 ≤ Scalar.sqrt a := by
  obtain rfl | ⟨x, hx, rfl⟩ := nonneg_iff.1 h
  · exact nonneg_iff.2 (.inl rfl)
  · rw [sqrt_real x hx]
    exact (real_le 0 √x).2 (Real.sqrt_nonneg x)

/-- Squares of numbers have a sum. -/
theorem sum_squares_nonneg {l : List Extended} (h : ∀ a ∈ l, IsNumber a) :
    0 ≤ (l.map Scalar.square).sum := by
  induction l with
  | nil => exact (real_le 0 0).2 le_rfl
  | cons a rest ih =>
    rw [List.forall_mem_cons] at h
    rw [List.map_cons, List.sum_cons]
    exact add_nonneg (square_nonneg h.1) (ih h.2)

/-- What is no number among the squared values is passed on to the sum. -/
theorem sum_squares_eq_nan {l : List Extended} (h : nan ∈ l) :
    (l.map Scalar.square).sum = nan := by
  induction l with
  | nil => cases h
  | cons a rest ih =>
    rw [List.map_cons, List.sum_cons]
    rcases List.mem_cons.1 h with rfl | hrest
    · exact nan_add _
    · rw [ih hrest, add_nan]

end

/-! ## Infinite values -/

section
variable (a : ℝ) (s : Bool)

@[simp] theorem infinite_add_real : infinite s + real a = infinite s := rfl
@[simp] theorem real_add_infinite : real a + infinite s = infinite s := rfl
@[simp] theorem infinite_add_self : infinite s + infinite s = infinite s := if_pos rfl
@[simp] theorem real_sub_infinite : real a - infinite s = infinite !s := rfl

/-- The larger of two values is `NaN` when the first is. -/
@[simp] theorem larger_nan (b : Extended) : Scalar.larger nan b = nan := by simp [Scalar.larger]

/-- The smaller of two values is `NaN` when the first is. -/
@[simp] theorem smaller_nan (b : Extended) : Scalar.smaller nan b = nan := by
  simp [Scalar.smaller]

/-- Of an infinity and a real number the larger one is a matter of the sign. -/
@[simp] theorem larger_infinite :
    Scalar.larger (infinite s) (real a) = if s then real a else infinite false := by
  cases s <;> simp [Scalar.larger, lt_iff, le_iff, place]

/-- Of an infinity and a real number the smaller one is a matter of the sign. -/
@[simp] theorem smaller_infinite :
    Scalar.smaller (infinite s) (real a) = if s then infinite true else real a := by
  cases s <;> simp [Scalar.smaller, lt_iff, le_iff, place]

end

/-- A positive length is a finite part of every longer one. -/
theorem exists_real_of_div {a b : Extended} (ha : 0 < a) (hab : a < b) : ∃ x, a / b = real x := by
  rcases a with _ | ⟨_ | _⟩ | x
  · exact absurd ha (not_lt_nan 0)
  · -- nothing is longer than the positive infinity
    rcases b with _ | ⟨_ | _⟩ | y <;> simp [lt_iff, place] at hab
  · simp [lt_iff, place] at ha
  · rcases b with _ | s | y
    · exact absurd hab (not_lt_nan _)
    · exact ⟨0, rfl⟩
    · rw [real_zero, real_lt] at ha
      rw [real_lt] at hab
      exact ⟨x / y, real_div x y (ha.trans hab).ne'⟩

end Extended

end KinematicManifold
