import KinematicManifold.Proofs.Iterates
import KinematicManifold.Proofs.NewtonStep

/-!
# Other coordinates

A configuration can be written in other coordinates, with more entries perhaps. If the steps change
by a linear map that keeps scalar products, and every gradient changes in the same way, then the
Newton step for the changed gradients is the changed Newton step: it is the only one that lies in
their span and solves their normal equations. It is as long as before, so that it is shortened as
before. A projection in the other coordinates then goes through the same configurations.

A row and its opposite ask for the same. So the rows in the other coordinates may have other signs:
the normal equations and the length of the error do not know them.

## Key results

- `Linear.IsStep.embed`, `newtonStep_embed`: the step in other coordinates
- `capStep_embed`: shortening it
- `newtonStep_signed`: the signs of the rows do not matter
- `Residual.Mirrors`, `Residual.Embeds`: the same error in other coordinates, with rows that change
  sign or without
- `Residual.Mirrors.project`: the projection in other coordinates
- `Leaf.embeds`, `Constraint.mirrors`: constraints in other coordinates
-/

namespace KinematicManifold

open Matrix

variable {n n' : Nat}

namespace Linear

/-! ## Steps in other coordinates -/

/-- A linear change of the coordinates of steps that keeps scalar products. -/
structure Embedding (n n' : Nat) where
  map : (Fin n → ℝ) →ₗ[ℝ] (Fin n' → ℝ)
  dotProduct_map : ∀ u v, map u ⬝ᵥ map v = u ⬝ᵥ v

namespace Embedding

variable (φ : Embedding n n')

/-- A step in the other coordinates. -/
noncomputable def embed (v : Vector ℝ n) : Vector ℝ n' := .ofFn (φ.map v.get)

/-- The entries of an embedded vector are the embedded entries. -/
@[simp] theorem get_embed (v : Vector ℝ n) : (φ.embed v).get = φ.map v.get := get_ofFn _

/-- Embedding commutes with scaling. -/
theorem embed_scale (c : ℝ) (v : Vector ℝ n) : φ.embed (scale c v) = scale c (φ.embed v) := by
  apply ext_get
  rw [get_embed, get_scale, get_scale, get_embed, map_smul]

/-- A step is as long as before. -/
theorem norm_embed (v : Vector ℝ n) : norm (φ.embed v) = norm v := by
  rw [norm, norm, dot_eq, dot_eq, get_embed, φ.dotProduct_map]

end Embedding

variable {φ : Embedding n n'} {gradients : List (Vector ℝ n)}

/-- The gradients in the other coordinates span what the gradients span. -/
theorem map_mem_span_embed {x : Fin n → ℝ} (h : x ∈ span gradients) :
    φ.map x ∈ span (gradients.map φ.embed) := by
  have hspan : span gradients ≤ (span (gradients.map φ.embed)).comap φ.map := by
    refine span_le.2 fun g hg => ?_
    rw [Submodule.mem_comap, ← φ.get_embed]
    exact get_mem_span (List.mem_map_of_mem hg)
  exact hspan h

/-- On embedded vectors the normal matrix of embedded gradients is that of the gradients. -/
theorem normalMatrix_embed_mulVec (gradients : List (Vector ℝ n)) (x : Fin n → ℝ) :
    normalMatrix (gradients.map φ.embed) *ᵥ φ.map x = φ.map (normalMatrix gradients *ᵥ x) := by
  induction gradients with
  | nil => simp [normalMatrix]
  | cons g rest ih =>
    rw [List.map_cons, normalMatrix_cons, normalMatrix_cons, add_mulVec, add_mulVec, ih, map_add,
      vecMulVec_mulVec, vecMulVec_mulVec, φ.get_embed, φ.dotProduct_map]
    simp

/-- An error is pulled back by embedded gradients to the embedded pull-back. -/
theorem get_pullback_embed (gradients : List (Vector ℝ n)) (error : List ℝ) :
    (pullback (gradients.map φ.embed) error).get = φ.map (pullback gradients error).get :=
  get_pullback_map φ.map φ.get_embed gradients error

/-- What answers an error does so in the other coordinates. -/
theorem IsStep.embed {square : ℝ} {error : List ℝ} {step : Vector ℝ n}
    (h : IsStep square gradients error step) :
    IsStep square (gradients.map φ.embed) error (φ.embed step) where
  mem_span := by
    rw [φ.get_embed]
    exact map_mem_span_embed h.mem_span
  normal := by
    rw [φ.get_embed, normalMatrix_embed_mulVec, get_pullback_embed, ← map_smul, ← map_add,
      h.normal, map_neg]

end Linear

open Linear

/-- The Newton step in other coordinates is the Newton step, with the same damping or none. -/
theorem newtonStep_embed (φ : Embedding n n') (damping : ℝ) {gradients : List (Vector ℝ n)}
    {error : List ℝ} (hlength : gradients.length = error.length) :
    newtonStep damping (gradients.map φ.embed) error =
      (newtonStep damping gradients error).map (Option.map φ.embed) := by
  have hlength' : (gradients.map φ.embed).length = error.length := by rw [List.length_map, hlength]
  obtain ⟨step, hok, hstep⟩ := exists_newtonStep damping hlength
  obtain ⟨step', hok', hstep'⟩ := exists_newtonStep damping hlength'
  rw [hok, hok', hstep'.unique hstep.embed (dampingSquare_nonneg damping) rfl rfl]
  rfl

/-- A step is as long as its embedding, so that both are capped alike. -/
theorem capStep_embed (φ : Embedding n n') (maxStep : Option ℝ) (step : Vector ℝ n) :
    capStep maxStep (φ.embed step) = φ.embed (capStep maxStep step) := by
  cases maxStep with
  | none => rfl
  | some longest =>
    simp only [capStep, φ.norm_embed]
    split_ifs
    · rw [φ.embed_scale]
    · rfl

/-! ## Rows that change sign -/

namespace Linear

variable {signs : List ℝ} (hsigns : ∀ sign ∈ signs, sign * sign = 1)
include hsigns

/-- An error is as long as before. -/
theorem rowsNorm_signed {error : List ℝ} (hlength : error.length = signs.length) :
    rowsNorm (List.zipWith (· * ·) signs error) = rowsNorm error := by
  rw [rowsNorm_eq, rowsNorm_eq]
  congr 1
  induction signs generalizing error with
  | nil => rw [List.length_eq_zero_iff.1 hlength]; rfl
  | cons sign rest ih =>
    obtain ⟨value, values, rfl⟩ := List.exists_cons_of_length_eq_add_one hlength
    rw [List.forall_mem_cons] at hsigns
    -- a sign does not show in the square
    have hsquare : (sign * value) ^ 2 = value ^ 2 := by
      rw [mul_pow, sq sign, hsigns.1, one_mul]
    simp only [List.zipWith_cons_cons, List.map_cons, List.sum_cons, hsquare,
      ih hsigns.2 (Nat.succ.inj hlength)]

variable {gradients : List (Vector ℝ n)} (hlength : gradients.length = signs.length)
include hlength

/-- Changing the signs of rows leaves the normal matrix as it is. -/
theorem normalMatrix_signed : normalMatrix (List.zipWith scale signs gradients) =
    normalMatrix gradients := by
  induction signs generalizing gradients with
  | nil => rw [List.length_eq_zero_iff.1 hlength]; rfl
  | cons sign rest ih =>
    obtain ⟨g, others, rfl⟩ := List.exists_cons_of_length_eq_add_one hlength
    rw [List.forall_mem_cons] at hsigns
    rw [List.zipWith_cons_cons, normalMatrix_cons, normalMatrix_cons,
      ih hsigns.2 (Nat.succ.inj hlength), get_scale, smul_vecMulVec, vecMulVec_smul, smul_smul,
      hsigns.1, one_smul]

/-- Changing the signs of rows and of their errors together leaves the pull-back as it is. -/
theorem pullback_signed {error : List ℝ} (herror : error.length = signs.length) :
    pullback (List.zipWith scale signs gradients) (List.zipWith (· * ·) signs error) =
      pullback gradients error := by
  apply ext_get
  induction signs generalizing gradients error with
  | nil => rw [List.length_eq_zero_iff.1 hlength, List.length_eq_zero_iff.1 herror]; rfl
  | cons sign rest ih =>
    obtain ⟨g, others, rfl⟩ := List.exists_cons_of_length_eq_add_one hlength
    obtain ⟨value, values, rfl⟩ := List.exists_cons_of_length_eq_add_one herror
    -- a sign meets itself in each product
    rw [List.forall_mem_cons] at hsigns
    rw [List.zipWith_cons_cons, List.zipWith_cons_cons, get_pullback_cons, get_pullback_cons,
      ih hsigns.2 (Nat.succ.inj hlength) (Nat.succ.inj herror), get_scale, smul_smul,
      mul_right_comm, hsigns.1, one_mul]

end Linear

/-- The signs of the rows do not matter to a step. -/
theorem newtonStep_signed {signs : List ℝ} (hsigns : ∀ sign ∈ signs, sign * sign = 1)
    (damping : ℝ) {gradients : List (Vector ℝ n)} {error : List ℝ}
    (hlength : gradients.length = signs.length) (herror : error.length = signs.length) :
    newtonStep damping (List.zipWith scale signs gradients) (List.zipWith (· * ·) signs error) =
      newtonStep damping gradients error := by
  refine newtonStep_congr damping ?_ (hlength.trans herror.symm)
    (normalMatrix_signed hsigns hlength) (pullback_signed hsigns hlength herror)
  rw [List.length_zipWith, List.length_zipWith, hlength, herror]

/-- An error and its gradients, in two systems of coordinates: each row is the same in both, or the
opposite, as its sign says. -/
structure MirroredBy (φ : Embedding n n') (signs : List ℝ) (error error' : Except Fault (List ℝ))
    (gradients : Except Fault (List (Vector ℝ n)))
    (gradients' : Except Fault (List (Vector ℝ n'))) : Prop where
  sign_mul_self : ∀ sign ∈ signs, sign * sign = 1
  length_error : ∀ rows, error = .ok rows → rows.length = signs.length
  length_gradients : ∀ rows, gradients = .ok rows → rows.length = signs.length
  error_eq : error' = error.map (List.zipWith (· * ·) signs)
  gradients_eq :
    gradients' = gradients.map fun rows => List.zipWith scale signs (rows.map φ.embed)

/-- Each row is the same in both systems of coordinates, or the opposite. -/
def Mirrored (φ : Embedding n n') (error error' : Except Fault (List ℝ))
    (gradients : Except Fault (List (Vector ℝ n)))
    (gradients' : Except Fault (List (Vector ℝ n'))) : Prop :=
  ∃ signs, MirroredBy φ signs error error' gradients gradients'

/-- No rows mirror no rows. -/
theorem Mirrored.nil (φ : Embedding n n') : Mirrored φ (.ok []) (.ok []) (.ok []) (.ok []) := by
  refine ⟨[], by simp, fun rows hrows => ?_, fun rows hrows => ?_, rfl, rfl⟩
  · exact (congrArg List.length (Except.ok.inj hrows)).symm
  · exact (congrArg List.length (Except.ok.inj hrows)).symm

section
variable {φ : Embedding n n'}

/-- Where both parts of a stack have as many rows as signs, the stack has. -/
private theorem length_stack {α : Type} {x y : Except Fault (List α)} {signs₁ signs₂ : List ℝ}
    (hx : ∀ rows, x = .ok rows → rows.length = signs₁.length)
    (hy : ∀ rows, y = .ok rows → rows.length = signs₂.length) {rows : List α}
    (h : (do return (← x) ++ (← y)) = Except.ok rows) :
    rows.length = (signs₁ ++ signs₂).length := by
  obtain ⟨first, hfirst, h⟩ := bind_eq_ok_iff.1 h
  obtain ⟨second, hsecond, h⟩ := bind_eq_ok_iff.1 h
  obtain rfl := Except.ok.inj h
  rw [List.length_append, List.length_append, hx _ hfirst, hy _ hsecond]

/-- Rows that are stacked. -/
theorem MirroredBy.append {signs₁ signs₂ : List ℝ} {e₁ e₁' e₂ e₂' : Except Fault (List ℝ)}
    {g₁ g₂ : Except Fault (List (Vector ℝ n))} {g₁' g₂' : Except Fault (List (Vector ℝ n'))}
    (h₁ : MirroredBy φ signs₁ e₁ e₁' g₁ g₁') (h₂ : MirroredBy φ signs₂ e₂ e₂' g₂ g₂') :
    MirroredBy φ (signs₁ ++ signs₂) (do return (← e₁) ++ (← e₂)) (do return (← e₁') ++ (← e₂'))
      (do return (← g₁) ++ (← g₂)) (do return (← g₁') ++ (← g₂')) where
  sign_mul_self := List.forall_mem_append.2 ⟨h₁.sign_mul_self, h₂.sign_mul_self⟩
  length_error rows hrows := length_stack h₁.length_error h₂.length_error hrows
  length_gradients rows hrows := length_stack h₁.length_gradients h₂.length_gradients hrows
  error_eq := by
    -- the first fault is the same on both sides, and rows without fault are stacked
    rw [h₁.error_eq, h₂.error_eq]
    rcases e₁ with fault | first
    · rfl
    · rcases e₂ with fault | second
      · rfl
      · exact congrArg Except.ok (List.zipWith_append (h₁.length_error _ rfl).symm).symm
  gradients_eq := by
    rw [h₁.gradients_eq, h₂.gradients_eq]
    rcases g₁ with fault | first
    · rfl
    · rcases g₂ with fault | second
      · rfl
      · -- signs and gradients are cut at the same place
        have hlength : signs₁.length = (first.map φ.embed).length := by
          rw [List.length_map, h₁.length_gradients _ rfl]
        refine congrArg Except.ok ((List.zipWith_append hlength).symm.trans ?_)
        simp only [List.map_append]

end

/-! ## Projections in other coordinates -/

namespace Residual

/-- An error in other coordinates: a configuration has a place there, from which the steps in those
coordinates lead on, and where the rows are the same or the opposite. -/
structure Mirrors (φ : Embedding n n') (place : Vector ℝ n → Vector ℝ n') (r : Residual ℝ n)
    (r' : Residual ℝ n') : Prop where
  place_add : ∀ q step, place (q + step) = place q + φ.embed step
  mirrored : ∀ q, Mirrored φ (r.evaluate q) (r'.evaluate (place q)) (r.jacobian q)
    (r'.jacobian (place q))

namespace Mirrors

variable {φ : Embedding n n'} {place : Vector ℝ n → Vector ℝ n'} {r : Residual ℝ n}
  {r' : Residual ℝ n'} (h : r.Mirrors φ place r')
include h

/-- The configuration that follows in the other coordinates is the one that follows. -/
theorem next (s : Settings ℝ) {q : Vector ℝ n} {error error' : List ℝ}
    (herror : r.evaluate q = .ok error) (herror' : r'.evaluate (place q) = .ok error') :
    r'.next s (place q) error' = (r.next s q error).map (Option.map place) := by
  obtain ⟨signs, hrows⟩ := h.mirrored q
  have hevaluate := hrows.error_eq
  rw [herror, herror'] at hevaluate
  obtain rfl := Except.ok.inj hevaluate
  rw [Residual.next, Residual.next, hrows.gradients_eq]
  cases hgradients : r.jacobian q with
  | error fault => rfl
  | ok gradients =>
    have hlength := hrows.length_error _ herror
    have hlength' := hrows.length_gradients _ hgradients
    have hembedded : (gradients.map φ.embed).length = signs.length := by
      rw [List.length_map, hlength']
    -- first the signs are dropped, then the coordinates are changed
    have hstep := (newtonStep_signed hrows.sign_mul_self s.damping hembedded hlength).trans
      (newtonStep_embed φ s.damping (hlength'.trans hlength.symm))
    simp only [bind, Except.bind, Except.map, hstep]
    rcases newtonStep s.damping gradients error with fault | _ | step
    · rfl
    · rfl
    · simp only [pure, Except.pure, Option.map_some, capStep_embed, h.place_add]

/-- What a mirrored residual finds at a mirrored configuration is what the residual finds, mirrored.
-/
theorem find (s : Settings ℝ) (q : Vector ℝ n) :
    r'.find s (place q) = (r.find s q).map (Finding.map place) := by
  obtain ⟨signs, hrows⟩ := h.mirrored q
  have hevaluate := hrows.error_eq
  cases herror : r.evaluate q with
  | error fault =>
    -- a fault is found on both sides
    rw [herror] at hevaluate
    rw [find_eq_error herror, find_eq_error hevaluate]
    rfl
  | ok error =>
    -- the signs change neither the norm nor where the step leads
    rw [herror] at hevaluate
    rw [find_eq_ok herror, find_eq_ok hevaluate, h.next s herror hevaluate,
      rowsNorm_signed hrows.sign_mul_self (hrows.length_error _ herror)]
    rfl

/-- A projection in the other coordinates is the projection. -/
theorem project (s : Settings ℝ) (q : Vector ℝ n) :
    r'.project s (place q) = (r.project s q).map (Outcome.map place) := by
  have hrun : (r'.run s s.maxIterations (place q) 0).mapError id =
      ((r.run s s.maxIterations q 0).map (Outcome.map place)).mapError id :=
    run_map id place 0 fun p _ => by rw [h.find]
  rwa [mapError_id, mapError_id] at hrun

/-- Where an error can be had everywhere, both projections have an outcome. -/
theorem exists_project (hr : r.IsTotal) (s : Settings ℝ) (q : Vector ℝ n) :
    ∃ o, r.project s q = .ok o ∧ r'.project s (place q) =
      .ok ⟨o.status, place o.configuration, o.errorNorm, o.iterations⟩ := by
  obtain ⟨o, ho⟩ := hr.exists_project s q
  exact ⟨o, ho, (h.project s q).trans (congrArg _ ho)⟩

end Mirrors

/-- An error whose rows are all the same in other coordinates. -/
structure Embeds (φ : Embedding n n') (place : Vector ℝ n → Vector ℝ n') (r : Residual ℝ n)
    (r' : Residual ℝ n') : Prop where
  place_add : ∀ q step, place (q + step) = place q + φ.embed step
  evaluate : ∀ q, r'.evaluate (place q) = r.evaluate q
  jacobian : ∀ q, r'.jacobian (place q) = (r.jacobian q).map (List.map φ.embed)

/-- Of rows that can be had the number can be told. -/
theorem IsMatched.exists_length {r : Residual ℝ n} (hr : r.IsMatched) (q : Vector ℝ n) :
    ∃ count, (∀ rows, r.evaluate q = .ok rows → rows.length = count) ∧
      ∀ rows, r.jacobian q = .ok rows → rows.length = count := by
  cases herror : r.evaluate q with
  | ok error =>
    -- the count is that of the error, if there is one
    refine ⟨error.length, fun rows hrows => ?_, fun rows hrows => hr q error rows herror hrows⟩
    rw [Except.ok.inj hrows]
  | error fault =>
    cases hgradients : r.jacobian q with
    | ok gradients =>
      -- else that of the gradients
      refine ⟨gradients.length, fun rows hrows => ?_, fun rows hrows => ?_⟩
      · cases hrows
      · rw [Except.ok.inj hrows]
    | error fault =>
      refine ⟨0, fun rows hrows => ?_, fun rows hrows => ?_⟩
      · cases hrows
      · cases hrows

/-- Combining one value with each entry of a list maps the list. -/
private theorem zipWith_replicate_length {α β γ : Type} (f : α → β → γ) (a : α) (l : List β) :
    List.zipWith f (List.replicate l.length a) l = l.map (f a) := by
  induction l with
  | nil => rfl
  | cons b rest ih =>
    rw [List.length_cons, List.replicate_succ, List.zipWith_cons_cons, ih, List.map_cons]

/-- Rows that are the same keep their signs. -/
theorem Embeds.mirrors {φ : Embedding n n'} {place : Vector ℝ n → Vector ℝ n'} {r : Residual ℝ n}
    {r' : Residual ℝ n'} (h : r.Embeds φ place r') (hr : r.IsMatched) :
    r.Mirrors φ place r' where
  place_add := h.place_add
  mirrored q := by
    obtain ⟨count, hlength, hlength'⟩ := hr.exists_length q
    -- nothing changes its sign
    refine ⟨List.replicate count 1, fun sign hsign => ?_, fun rows hrows => ?_,
      fun rows hrows => ?_, ?_, ?_⟩
    · rw [List.eq_of_mem_replicate hsign, one_mul]
    · rw [List.length_replicate, hlength _ hrows]
    · rw [List.length_replicate, hlength' _ hrows]
    · rw [h.evaluate]
      cases herror : r.evaluate q with
      | error fault => rfl
      | ok error =>
        rw [Except.map, ← hlength _ herror, zipWith_replicate_length]
        simp only [one_mul, List.map_id']
    · rw [h.jacobian]
      cases hgradients : r.jacobian q with
      | error fault => rfl
      | ok gradients =>
        have hcount : count = (gradients.map φ.embed).length := by
          rw [List.length_map, hlength' _ hgradients]
        have hone : scale (1 : ℝ) = (id : Vector ℝ n' → Vector ℝ n') := by
          funext v
          exact ext_get (by rw [get_scale, one_smul, id])
        rw [Except.map, Except.map, hcount, zipWith_replicate_length, hone, List.map_id]

end Residual

/-! ## Single constraints in other coordinates -/

/-- Single constraints with the same intervals are the same in other coordinates, if their raw
errors are. -/
theorem Leaf.embeds {φ : Embedding n n'} {place : Vector ℝ n → Vector ℝ n'} {l : Leaf ℝ n}
    {l' : Leaf ℝ n'} (hadd : ∀ q step, place (q + step) = place q + φ.embed step)
    (hintervals : l'.intervals = l.intervals)
    (herror : ∀ q, l'.rawError (place q) = l.rawError q)
    (hjacobian : ∀ q, l'.rawJacobian (place q) = (l.rawJacobian q).map (List.map φ.embed)) :
    (Constraint.leaf l).residual.Embeds φ place (Constraint.leaf l').residual where
  place_add := hadd
  evaluate q := by
    change l'.evaluate (place q) = l.evaluate q
    rw [evaluate, evaluate, hintervals, herror]
  jacobian q := by
    change l'.jacobian (place q) = (l.jacobian q).map (List.map φ.embed)
    rw [jacobian, jacobian, hintervals, herror, hjacobian]
    -- a gradient and its multiples change in the same way
    rcases l.rawError q with fault | raw
    · rfl
    · rcases l.rawJacobian q with fault | gradients
      · rfl
      · simp only [bind, Except.bind, Except.map, pure, Except.pure, List.map_zipWith,
          List.zipWith_map_right, φ.embed_scale]

/-- Constraints are mirrored if their single constraints are, one by one. -/
theorem Constraint.mirrors {φ : Embedding n n'} {place : Vector ℝ n → Vector ℝ n'}
    (hadd : ∀ q step, place (q + step) = place q + φ.embed step) {c : Constraint ℝ n}
    {c' : Constraint ℝ n'}
    (hleaves : List.Forall₂ (fun l l' => ∀ q, Mirrored φ (Leaf.evaluate l q)
      (Leaf.evaluate l' (place q)) (Leaf.jacobian l q) (Leaf.jacobian l' (place q)))
      c.leaves c'.leaves) : c.residual.Mirrors φ place c'.residual where
  place_add := hadd
  mirrored q := by
    change Mirrored φ (c.evaluate q) (c'.evaluate (place q)) (c.jacobian q)
      (c'.jacobian (place q))
    rw [evaluate_eq_leaves, evaluate_eq_leaves, jacobian_eq_leaves, jacobian_eq_leaves]
    -- leaf by leaf, the signs of a stack being stacked as well
    generalize c.leaves = leaves at hleaves ⊢
    generalize c'.leaves = leaves' at hleaves ⊢
    induction hleaves with
    | nil => exact .nil φ
    | cons hfirst _ ih =>
      rw [mapM_flatten_cons, mapM_flatten_cons, mapM_flatten_cons, mapM_flatten_cons]
      obtain ⟨signs, hfirst⟩ := hfirst q
      obtain ⟨others, hrest⟩ := ih
      exact ⟨signs ++ others, hfirst.append hrest⟩

end KinematicManifold
