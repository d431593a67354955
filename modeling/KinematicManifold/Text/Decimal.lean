import KinematicManifold.Text.Binary

/-!
# Decimal rounding and decimal text

Floating-point numbers are written in decimal by rounding their exact value, a half going to the
even neighbour. `toPlaces` keeps a number of places behind the point, `toSignificant` a number of
leading digits. `general` is the short form used inside descriptions: six leading digits without
trailing zeros, with an exponent for very small and for large numbers.

Main statement: `roundDiv_near`, a rounded quotient is within one half of the quotient.
-/

namespace KinematicManifold.Text

/-- The integer nearest to a quotient; of two that are equally near, the even one. -/
def roundDiv (numerator denominator : Nat) : Nat :=
  let floor := numerator / denominator
  let twice := 2 * (numerator % denominator)
  if twice < denominator then floor
  else if denominator < twice then floor + 1
  else floor + floor % 2

/-- A rounded quotient is off by no more than a half. -/
theorem roundDiv_near (numerator : Nat) {denominator : Nat} (h : 0 < denominator) :
    2 * numerator ≤ 2 * (denominator * roundDiv numerator denominator) + denominator ∧
    2 * (denominator * roundDiv numerator denominator) ≤ 2 * numerator + denominator := by
  have split := Nat.div_add_mod numerator denominator
  have bound := Nat.mod_lt numerator h
  simp only [roundDiv]
  split
  · omega
  · split
    · rw [Nat.mul_add]
      omega
    · rcases Nat.mod_two_eq_zero_or_one (numerator / denominator) with e | e <;>
        rw [e, Nat.mul_add] <;> omega

/-- The number `± digits * 10 ^ exponent`. -/
structure Decimal where
  /-- Whether the number is below zero. -/
  negative : Bool
  /-- The digits, read as one natural number. -/
  digits : Nat
  /-- The power of ten of the last digit. -/
  exponent : Int
  deriving DecidableEq, Repr

namespace Decimal

/-- The decimal digits of a natural number, most significant first. -/
def digitsOf (n : Nat) : List Char := Nat.toDigits 10 n

/-- The nearest multiple of `10 ^ exponent` to a quotient, as the number of these multiples. -/
def roundAt (numerator denominator : Nat) (exponent : Int) : Nat :=
  match exponent with
  | .ofNat e => roundDiv numerator (denominator * Nat.pow 10 e)
  | .negSucc e => roundDiv (numerator * Nat.pow 10 (e + 1)) denominator

/-- The power of ten of the leading digit of a positive quotient. -/
def leadingExponent (numerator denominator : Nat) : Int :=
  if denominator ≤ numerator then (digitsOf (numerator / denominator)).length - 1
  else
    let places := (digitsOf (denominator / numerator)).length - 1
    if denominator ≤ numerator * Nat.pow 10 places then -places else -(places + 1)

/-- A quotient rounded to a number of places behind the point. -/
def toPlaces (places : Nat) (negative : Bool) (numerator denominator : Nat) : Decimal :=
  ⟨negative, roundAt numerator denominator (-places), -places⟩

/-- A quotient rounded to a number of leading digits. Where rounding up carries into a new leading
digit, the trailing zero is dropped. -/
def toSignificant (count : Nat) (negative : Bool) (numerator denominator : Nat) : Decimal :=
  if numerator = 0 then ⟨negative, 0, 0⟩
  else
    let last := leadingExponent numerator denominator - (count - 1 : Nat)
    let digits := roundAt numerator denominator last
    if digits = Nat.pow 10 count then ⟨negative, Nat.pow 10 (count - 1), last + 1⟩
    else ⟨negative, digits, last⟩

/-- Text of a decimal as an integer times a power of ten. Zero has no sign. -/
def scientific (d : Decimal) : String :=
  if d.digits = 0 then "0e0"
  else
    let sign := if d.negative then "-" else ""
    s!"{sign}{d.digits}e{d.exponent}"

/-- Digits without the zeros at their end. -/
def dropTrailingZeros (digits : List Char) : List Char :=
  (digits.reverse.dropWhile (· = '0')).reverse

/-- A point and digits behind it, or nothing where no digit is left. -/
def fraction (digits : List Char) : List Char :=
  match dropTrailingZeros digits with
  | [] => []
  | kept => '.' :: kept

/-- A signed exponent of at least two digits. -/
def exponentText (exponent : Int) : List Char :=
  let sign := if exponent < 0 then '-' else '+'
  let digits := digitsOf exponent.natAbs
  'e' :: sign :: (if digits.length < 2 then '0' :: digits else digits)

/-- Short text of a decimal that holds `count` leading digits: positional while the leading digit
stands neither more than four places behind the point nor `count` or more before it. -/
def short (count : Nat) (d : Decimal) : String :=
  let sign := if d.negative then ['-'] else []
  let text :=
    if d.digits = 0 then ['0']
    else
      let digits := digitsOf d.digits
      let leading := d.exponent + (digits.length - 1 : Nat)
      if leading < -4 || count ≤ leading then
        digits.take 1 ++ fraction (digits.drop 1) ++ exponentText leading
      else if leading < 0 then
        '0' :: fraction (List.replicate (leading.natAbs - 1) '0' ++ digits)
      else
        digits.take (leading.toNat + 1) ++ fraction (digits.drop (leading.toNat + 1))
  String.ofList (sign ++ text)

end Decimal

/-- The short form of a floating-point number, with six leading digits. -/
def general (a : Float) : String :=
  match Binary.ofFloat a with
  | .notANumber => "nan"
  | .infinite negative => if negative then "-inf" else "inf"
  | .finite negative significand exponent =>
    let (numerator, denominator) := Binary.quotient significand exponent
    (Decimal.toSignificant 6 negative numerator denominator).short 6

end KinematicManifold.Text
