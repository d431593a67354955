/-!
# The exact value of a floating-point number

A finite floating-point number is an integer times a power of two. `Binary.ofFloat` reads the two
from its bits, so that what is asked about the number (is it whole, what are its decimal digits)
is answered in integer arithmetic.
-/

namespace KinematicManifold.Text

/-- What a floating-point number stands for. -/
inductive Binary where
  /-- The result of an operation without a value. -/
  | notANumber
  /-- An infinity of the given sign. -/
  | infinite (negative : Bool)
  /-- The number `± significand * 2 ^ exponent`. -/
  | finite (negative : Bool) (significand : Nat) (exponent : Int)
  deriving DecidableEq, Repr

namespace Binary

/-- The value of a word whose sign, exponent field and fraction field are given. An exponent field
of zero has no hidden leading bit, one of `2047` is kept for what is not finite. -/
def ofFields (negative : Bool) (exponentField fraction : Nat) : Binary :=
  if exponentField = 2047 then
    if fraction = 0 then .infinite negative else .notANumber
  else if exponentField = 0 then .finite negative fraction (-1074)
  else .finite negative (Nat.pow 2 52 + fraction) (exponentField - 1075)

/-- The exact value of a floating-point number. -/
def ofFloat (a : Float) : Binary :=
  let word := a.toBits.toNat
  ofFields (Nat.pow 2 63 ≤ word) (word / Nat.pow 2 52 % Nat.pow 2 11) (word % Nat.pow 2 52)

/-- The magnitude of a finite number as a quotient of naturals with a positive denominator. -/
def quotient (significand : Nat) (exponent : Int) : Nat × Nat :=
  match exponent with
  | .ofNat e => (significand * Nat.pow 2 e, 1)
  | .negSucc e => (significand, Nat.pow 2 (e + 1))

/-- The integer that a finite number is, if it is whole. -/
def toInt? : Binary → Option Int
  | .finite negative significand exponent =>
    let (numerator, denominator) := quotient significand exponent
    if numerator % denominator = 0 then
      let magnitude : Int := (numerator / denominator : Nat)
      some (if negative then -magnitude else magnitude)
    else none
  | _ => none

end Binary

end KinematicManifold.Text
