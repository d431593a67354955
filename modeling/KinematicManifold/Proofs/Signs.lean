import KinematicManifold.Proofs.Order

/-!
# The signs of scalars

A value that passes for finite compares with zero, so that it is negative or not. And a value that
is not negative is no less than what is opposite to it. These are the facts on which every interval
around zero rests that is drawn by its half extent. They hold of real numbers, and of floating-point
numbers with their infinities, their two zeros and the value that compares with nothing.

## Key results

- `Scalar.LawfulSigns`: what is asked of the signs of a scalar type
- `FloatOrder.le_zero_of_negative`: a floating-point number with a negative sign is not above zero
- the instances for `ℝ` and `Float`
-/

namespace KinematicManifold

namespace Scalar

/-- A scalar type whose finite values have a sign, of which the opposite is the other one. -/
class LawfulSigns (K : Type) [Scalar K] extends LawfulOrder K where
  /-- Zero is a number. -/
  isNumber_zero : IsNumber (0 : K)
  /-- A value that cancels against itself is a number. -/
  isNumber_of_isFinite {a : K} : isFinite a = true → IsNumber a
  /-- A value that is not negative is no less than its opposite. -/
  not_lt_neg {a : K} : 0 ≤ a → ¬a < -a

instance : LawfulSigns ℝ where
  isNumber_zero := le_refl _
  isNumber_of_isFinite _ := le_refl _
  not_lt_neg h := not_lt.2 ((neg_nonpos.2 h).trans h)

/-- A finite value that is not negative is zero or more. -/
theorem nonneg_of_not_lt {K : Type} [Scalar K] [LawfulSigns K] {a : K} (hfinite : isFinite a = true)
    (hsign : ¬a < 0) : 0 ≤ a :=
  (LawfulOrder.total LawfulSigns.isNumber_zero
    (LawfulSigns.isNumber_of_isFinite hfinite)).resolve_right hsign

end Scalar

/-! ## Floating-point numbers -/

namespace FloatOrder

open Float.Model (UnpackedFloat Format)
open Float.Model.UnpackedFloat (Sign packComponents unpackSign)

/-- The place of zero. -/
private theorem place_zero : place (0 : Float).toModel.unpack = some (toLex (0, toLex (0, 0))) := by
  decide +kernel

/-- `NaN` has no place among the numbers. -/
private theorem place_notANumber :
    place (Float.Model.pack .notANumber).unpack = none := by
  decide +kernel

/-- What is no number does not cancel. -/
theorem place_sub_self {a : Float} (h : place a.toModel.unpack = none) :
    place (a - a).toModel.unpack = none := by
  have hnot : a.toModel.unpack = .notANumber := by
    rcases hu : a.toModel.unpack with s | _ | s | ⟨s, m, e, _⟩ <;> rw [hu] at h <;>
      (try cases s) <;> first | rfl | cases h
  have hsub : (a - a).toModel = .pack (.sub .binary64 a.toModel.unpack a.toModel.unpack) := rfl
  rw [hsub, hnot]
  exact place_notANumber

/-- The sign that is packed is read again. -/
theorem unpackSign_packComponents (spec : Format) (sign : Sign)
    (exponent : BitVec spec.exponentBits) (mantissa : BitVec spec.mantissaBitsWithoutImplicit) :
    unpackSign (packComponents spec sign exponent mantissa) = sign.toBitVec := by
  ext i hi
  obtain rfl := Nat.lt_one_iff.1 hi
  simp [unpackSign, packComponents, BitVec.getLsbD_append, BitVec.getElem_append]

/-- The sign of a number. -/
def sign? : UnpackedFloat → Option Sign
  | .notANumber => none
  | .infinity sign | .zero sign | .finite sign _ _ _ => some sign

/-- Packing a number keeps its sign. -/
theorem unpackSign_pack (spec : Format) {u : UnpackedFloat} {sign : Sign}
    (h : sign? u = some sign) : unpackSign (u.pack spec) = sign.toBitVec := by
  rcases u with s | _ | s | ⟨s, m, e, _⟩ <;> cases h
  · exact unpackSign_packComponents ..
  · exact unpackSign_packComponents ..
  · simp only [UnpackedFloat.pack]
    split_ifs <;> exact unpackSign_packComponents ..

/-- A number with a negative sign is not above zero. -/
theorem le_zero_of_negative {spec : Format} {word : BitVec spec.numBits}
    (hsign : unpackSign word = Sign.toBitVec .negative) :
    ∀ x ∈ place (.unpack spec word), x ≤ toLex (0, toLex (0, 0)) := by
  have hbelow (sign : ℤ) (hsign : sign < 0) (y : ℤ ×ₗ ℤ) :
      (toLex (sign, y) : ℤ ×ₗ ℤ ×ₗ ℤ) ≤ toLex (0, toLex (0, 0)) :=
    (Prod.Lex.toLex_lt_toLex.2 (.inl hsign)).le
  have hread : Sign.ofBitVec (unpackSign word) = .negative := by
    rw [hsign]
    rfl
  simp only [UnpackedFloat.unpack, hread]
  -- a negative word is an infinity, a zero, or a number below zero
  split_ifs <;> intro x hx <;> cases hx
  · exact hbelow (-2) (by decide) _
  · exact le_refl _
  · exact hbelow (-1) (by decide) _
  · exact hbelow (-1) (by decide) _

/-- What is opposite to a number that is not below zero is not above zero. -/
theorem place_neg_le {a : Float} {x : ℤ ×ₗ ℤ ×ₗ ℤ} (hx : x ∈ place a.toModel.unpack)
    (h : toLex (0, toLex (0, 0)) ≤ x) :
    ∀ y ∈ place (-a).toModel.unpack, y ≤ toLex (0, toLex (0, 0)) := by
  have hneg : (-a).toModel = Float.Model.pack a.toModel.unpack.neg := rfl
  rw [hneg]
  -- the sign of the opposite is negative, unless the number is a zero
  have hpacked {u : UnpackedFloat} (hu : sign? u = some .negative) :
      ∀ y ∈ place (Float.Model.pack u).unpack, y ≤ toLex (0, toLex (0, 0)) :=
    le_zero_of_negative (unpackSign_pack .binary64 hu)
  rcases hu : a.toModel.unpack with s | _ | s | ⟨s, m, e, hm⟩ <;> rw [hu] at hx <;>
    (try cases s) <;> cases hx
  · exact absurd h (by decide)
  · exact hpacked rfl
  · exact fun y hy => by cases hy; decide
  · exact hpacked rfl
  · exact absurd h (not_le.2 (Prod.Lex.toLex_lt_toLex.2 (.inl (by decide : (-1 : ℤ) < 0))))
  · exact hpacked rfl

end FloatOrder

open FloatOrder in
instance : Scalar.LawfulSigns Float where
  isNumber_zero := le_iff.2 ⟨_, place_zero, _, place_zero, le_refl _⟩
  isNumber_of_isFinite {a} hfinite := by
    cases hplace : place a.toModel.unpack with
    | some x => exact le_iff.2 ⟨x, hplace, x, hplace, le_refl x⟩
    | none =>
      have hzero : a - a ≤ 0 := of_decide_eq_true (Bool.and_eq_true_iff.1 hfinite).1
      obtain ⟨x, hx, -⟩ := le_iff.1 hzero
      rw [place_sub_self hplace] at hx
      cases hx
  not_lt_neg {a} hle hlt := by
    obtain ⟨z, hz, x, hx, hle⟩ := le_iff.1 hle
    obtain rfl := Option.mem_unique place_zero hz
    obtain ⟨x', hx', y, hy, hlt⟩ := lt_iff.1 hlt
    obtain rfl := Option.mem_unique hx hx'
    exact ((place_neg_le hx hle y hy).trans hle).not_gt hlt

end KinematicManifold
