import KinematicManifold.Projection.Bounds
import KinematicManifold.Projection.Residual
import KinematicManifold.Tensor.Reading

/-!
# Sampling a manifold within bounds

Configurations are drawn between two bounds and projected, one after the other, until a projection
succeeds and its outcome lies within the bounds. When no attempt is left, the outcome of the last
one is reported.

Draws are given as fractions of the way from the lower to the upper bounds, so that the search is a
function of its input.

Main statements:
- `search_of_accepted`: an accepted outcome ends the search;
- `search_zero`: the last outcome is reported, accepted or not.
-/

namespace KinematicManifold

variable {K : Type} [Scalar K] {n : Nat}

/-- The array that lies the given fractions of the way from the lower to the upper bounds. -/
def drawBetween (lower upper fractions : Tensor K) : Except Fault (Tensor K) := do
  let widths ← Tensor.map₂ (· - ·) upper lower
  let parts ← Tensor.map₂ (· * ·) fractions widths
  Tensor.map₂ (· + ·) lower parts

/-- What sampling reports: an outcome, and the number of draws that were used. -/
structure Sample (K : Type) (n : Nat) where
  outcome : Outcome K n
  draws : Nat

/-- The first accepted outcome of the attempts from number `k` on, of which `more` may follow the
first; if none is accepted, the last. -/
def search (attempt : Nat → Except Fault (Outcome K n))
    (accept : Outcome K n → Except Fault Bool) :
    (more k : Nat) → Except Fault (Sample K n)
  | more, k => do
    let outcome ← attempt k
    if ← accept outcome then return ⟨outcome, k + 1⟩
    else
      match more with
      | 0 => return ⟨outcome, k + 1⟩
      | more + 1 => search attempt accept more (k + 1)

omit [Scalar K] in
/-- A search ends at the first attempt that is accepted, however many more it had. -/
theorem search_of_accepted {attempt : Nat → Except Fault (Outcome K n)}
    {accept : Outcome K n → Except Fault Bool} {k : Nat} {outcome : Outcome K n} (more : Nat)
    (ha : attempt k = .ok outcome) (hc : accept outcome = .ok true) :
    search attempt accept more k = .ok ⟨outcome, k + 1⟩ := by
  unfold search
  simp only [ha, hc, bind, Except.bind, if_true]
  rfl

omit [Scalar K] in
/-- The last attempt is answered whether it is accepted or not. -/
theorem search_zero {attempt : Nat → Except Fault (Outcome K n)}
    {accept : Outcome K n → Except Fault Bool} {k : Nat} {outcome : Outcome K n} {accepted : Bool}
    (ha : attempt k = .ok outcome) (hc : accept outcome = .ok accepted) :
    search attempt accept 0 k = .ok ⟨outcome, k + 1⟩ := by
  unfold search
  cases accepted <;> simp only [ha, hc, bind, Except.bind] <;> rfl

namespace Residual

/-- An outcome is accepted when it is a success and lies within the bounds, up to the tolerance. -/
def acceptWithin (lower upper : Tensor K) (tolerance : K) (o : Outcome K n) : Except Fault Bool :=
  if o.success then
    (Tensor.ofConfiguration o.configuration).withinBounds lower upper tolerance
  else .ok false

/-- A configuration drawn between bounds and projected. -/
def projectDraw (r : Residual K n) (s : Settings K) (lower upper : Tensor K)
    (fractions : Nested K) : Except Fault (Outcome K n) := do
  let fractions ← fractions.toTensor
  let drawn ← drawBetween lower upper fractions
  let q ← drawn.toConfiguration n
  r.project s q

/-- A configuration of the manifold within bounds. The `k`-th attempt draws the `k`-th fractions,
which are not read before. -/
def sample (r : Residual K n) (s : Settings K) (lower upper : Nested K) (maxAttempts : Budget)
    (fractions : Nat → Nested K) : Except Fault (Sample K n) := do
  if maxAttempts.isBelowOne then .error .attemptsTooFew
  else
    let lower ← lower.toTensor
    let upper ← upper.toTensor
    let attempts ← maxAttempts.toAttempts
    search (fun k => r.projectDraw s lower upper (fractions k))
      (acceptWithin lower upper s.tolerance) (attempts - 1) 0

end Residual

end KinematicManifold
