import KinematicManifold.Projection.Bounds
import KinematicManifold.Proofs.Exact
import KinematicManifold.Tensor.Reading

/-!
# Bounds on configurations

Configurations of one length are combined entry by entry, and a configuration is within bounds when
each of its entries is.

## Key results

- `Tensor.exists_map₂_ofConfiguration`: combining two configurations
- `Tensor.withinBounds_ofConfiguration_iff`: a configuration within bounds
-/

namespace KinematicManifold

namespace Tensor

/-- A configuration is a single row. -/
theorem shape_ofConfiguration {K : Type} {n : Nat} (q : Vector K n) :
    (ofConfiguration q).shape = [n] := by
  simp [ofConfiguration, ofList]

section
variable {K : Type} [Zero K] {n : Nat}

/-- The entry of a configuration at its place. -/
theorem entryAt_ofConfiguration (q : Vector K n) (i : Fin n) :
    (ofConfiguration q).entryAt [i.val] = q.get i := by
  have hplace : offset [n] [i.val] = i := by
    -- an axis of size one has only the place zero
    by_cases hone : n = 1
    · subst hone
      simp [offset, Subsingleton.elim i 0]
    · simp [offset, hone]
  rw [entryAt, shape_ofConfiguration]
  simp [hplace, ofConfiguration, ofList, Vector.get_eq_getElem]

/-- The indices of a single row are the numbers below its length. -/
theorem indices_singleton (n : Nat) : indices [n] = (List.finRange n).map ([·.val]) := by
  have hmap : (List.finRange n).map ([·.val]) = (List.range n).map ([·]) := by
    rw [← List.map_coe_finRange_eq_range, List.map_map]
    rfl
  rw [hmap, List.map_eq_flatMap]
  simp [indices]

/-- Configurations are combined entry by entry. -/
theorem exists_map₂_ofConfiguration {M : Type} (f : K → K → M) (a b : Vector K n) :
    ∃ t, map₂ f (ofConfiguration a) (ofConfiguration b) = .ok t ∧
      t.data = (List.finRange n).map fun i => f (a.get i) (b.get i) := by
  refine ⟨generate [n] fun i => f ((ofConfiguration a).entryAt i) ((ofConfiguration b).entryAt i),
    ?_, ?_⟩
  · simp only [map₂, shape_ofConfiguration, joinShapes?_self]
  · simp only [generate, indices_singleton, List.map_map]
    refine List.map_congr_left fun i _ => ?_
    simp only [Function.comp_apply, entryAt_ofConfiguration]

end

/-- A configuration is within bounds, up to a tolerance, when every entry is. -/
theorem withinBounds_ofConfiguration_iff {n : Nat} {q lower upper : Vector ℝ n} {tolerance : ℝ} :
    (ofConfiguration q).withinBounds (ofConfiguration lower) (ofConfiguration upper) tolerance =
        .ok true ↔
      ∀ i, lower.get i - tolerance ≤ q.get i ∧ q.get i ≤ upper.get i + tolerance := by
  obtain ⟨above, habove, hlower⟩ := exists_map₂_ofConfiguration
    (fun value bound : ℝ => decide (bound - tolerance ≤ value)) q lower
  obtain ⟨below, hbelow, hupper⟩ := exists_map₂_ofConfiguration
    (fun value bound : ℝ => decide (value ≤ bound + tolerance)) q upper
  -- each test is of all entries at once, and their entries are known
  simp only [withinBounds, isAbove, isBelow, habove, hbelow, bind, Except.bind, pure, Except.pure,
    hlower, hupper, forall_and]
  split_ifs with hall
  · simp_all
  · simp_all

end Tensor

end KinematicManifold
