import KinematicManifold.Projection.Residual
import KinematicManifold.Proofs.Exact
import KinematicManifold.Proofs.Fallible

/-!
# What a projection reports

A projection either ends where it is or goes on from the next iterate with one iteration less:
`Residual.run_succ_cases` says once what an iteration can do. What holds of every way to end then
holds of every outcome.

## Key results

- `Residual.run_succ_cases`: what an iteration can do
- `Residual.run_succ`: a run goes on from the next configuration
- `Residual.run_exit`: the ways in which a run may end
- `Residual.run_reports`: an outcome gives the length of the error where it ends, which a success
  has found below the tolerance
- `SettingsDescription.valid_of_build_eq_ok`, `Settings.Valid.exists_build`: what holds of accepted
  settings, and of no others
-/

namespace KinematicManifold

variable {K : Type} [Scalar K] {n : Nat}

namespace Residual

variable {r : Residual K n} {s : Settings K} {budget taken : Nat} {q : Vector K n}
  {o : Outcome K n}

/-- What an iteration can do: it ends because the error is short enough or because there is no step,
or it takes a step and goes on. -/
theorem run_succ_cases (h : r.run s (budget + 1) q taken = .ok o) :
    ∃ error, r.evaluate q = .ok error ∧
      (¬s.tolerance ≤ Linear.rowsNorm error ∧ o = finish s q (Linear.rowsNorm error) taken ∨
        s.tolerance ≤ Linear.rowsNorm error ∧ ∃ gradients, r.jacobian q = .ok gradients ∧
          (newtonStep s.damping gradients error = .ok none ∧
              o = ⟨.singular, q, Linear.rowsNorm error, taken⟩ ∨
            ∃ step, newtonStep s.damping gradients error = .ok (some step) ∧
              r.run s budget (q + capStep s.maxStep step) (taken + 1) = .ok o)) := by
  obtain ⟨error, herror, h⟩ := bind_eq_ok_iff.1 h
  refine ⟨error, herror, ?_⟩
  -- an error that is not long ends the run before any gradient is asked for
  by_cases hlong : s.tolerance ≤ Linear.rowsNorm error
  · simp only [if_pos hlong] at h
    obtain ⟨gradients, hgradients, h⟩ := bind_eq_ok_iff.1 h
    obtain ⟨step, hstep, h⟩ := bind_eq_ok_iff.1 h
    refine .inr ⟨hlong, gradients, hgradients, ?_⟩
    cases step with
    | none => exact .inl ⟨hstep, (Except.ok.inj h).symm⟩
    | some step => exact .inr ⟨step, hstep, h⟩
  · simp only [if_neg hlong] at h
    exact .inl ⟨hlong, (Except.ok.inj h).symm⟩

/-- The configuration that follows one with a long error, if there is a step. -/
def next (r : Residual K n) (s : Settings K) (q : Vector K n) (error : List K) :
    Except Fault (Option (Vector K n)) := do
  let gradients ← r.jacobian q
  let step ← newtonStep s.damping gradients error
  return step.map fun step => q + capStep s.maxStep step

/-- Where the error is long, a run goes on from the next configuration. -/
theorem run_succ {error : List K} (budget taken : Nat) (herror : r.evaluate q = .ok error)
    (hlong : s.tolerance ≤ Linear.rowsNorm error) :
    r.run s (budget + 1) q taken = (do
      match ← r.next s q error with
      | none => return ⟨.singular, q, Linear.rowsNorm error, taken⟩
      | some p => r.run s budget p (taken + 1)) := by
  simp only [run, next, herror, bind, Except.bind, if_pos hlong]
  cases r.jacobian q with
  | error fault => rfl
  | ok gradients =>
    cases hstep : newtonStep s.damping gradients error with
    | error fault => simp only [hstep]
    | ok step => cases step <;> simp only [hstep] <;> rfl

/-- A run fails where the error at its start cannot be evaluated, whatever its budget is. -/
theorem run_of_evaluate_eq_error {fault : Fault} (budget taken : Nat)
    (hfault : r.evaluate q = .error fault) : r.run s budget q taken = .error fault := by
  cases budget <;> simp only [run, hfault] <;> rfl

/-- The ways in which a run of at most `last` steps may end: it stops, since the error is not as
long as the tolerance or since all steps are taken, or there is no step. -/
inductive Exit (r : Residual K n) (s : Settings K) (last : Nat) : Outcome K n → Prop where
  | stopped {q : Vector K n} {error : List K} {taken : Nat} (herror : r.evaluate q = .ok error)
      (htaken : taken ≤ last) (hlast : s.tolerance ≤ Linear.rowsNorm error → taken = last) :
      Exit r s last (finish s q (Linear.rowsNorm error) taken)
  | singular {q : Vector K n} {error : List K} {gradients : List (Vector K n)} {taken : Nat}
      (herror : r.evaluate q = .ok error) (hlong : s.tolerance ≤ Linear.rowsNorm error)
      (hgradients : r.jacobian q = .ok gradients)
      (hstep : newtonStep s.damping gradients error = .ok none) (htaken : taken < last) :
      Exit r s last ⟨.singular, q, Linear.rowsNorm error, taken⟩

/-- Every run ends in one of these ways. -/
theorem run_exit (h : r.run s budget q taken = .ok o) : Exit r s (taken + budget) o := by
  -- an iteration hands the next iterate and the higher count to what is left of the budget
  induction budget generalizing q taken with
  | zero =>
    obtain ⟨error, herror, h⟩ := bind_eq_ok_iff.1 h
    obtain rfl := Except.ok.inj h
    exact .stopped herror le_rfl fun _ => rfl
  | succ budget ih =>
    obtain ⟨error, herror, hcases⟩ := run_succ_cases h
    obtain ⟨hshort, rfl⟩ | ⟨hlong, gradients, hgradients, ⟨hstep, rfl⟩ | ⟨step, -, hrest⟩⟩ := hcases
    · exact .stopped herror (by omega) fun hlong => absurd hlong hshort
    · exact .singular herror hlong hgradients hstep (by omega)
    · have hexit := ih hrest
      rwa [show taken + 1 + budget = taken + (budget + 1) by omega] at hexit

/-- An outcome gives the length of the error at its configuration, and is a success only if the
error is shorter than the tolerance there. -/
def Reports (r : Residual K n) (s : Settings K) (o : Outcome K n) : Prop :=
  ∃ error, r.evaluate o.configuration = .ok error ∧ o.errorNorm = Linear.rowsNorm error ∧
    (o.status = .success → Linear.rowsNorm error < s.tolerance)

/-- The status that a run ends with tells whether the norm is below the tolerance. -/
theorem status_finish {norm : K} :
    (finish s q norm taken).status = if norm < s.tolerance then .success else .budgetSpent := rfl

/-- A run that ends reports the configuration it is at, and the norm of the error there. -/
theorem reports_finish {error : List K} (h : r.evaluate q = .ok error) :
    r.Reports s (finish s q (Linear.rowsNorm error) taken) := by
  refine ⟨error, h, rfl, fun hsuccess => ?_⟩
  by_contra hlong
  simp [status_finish, hlong] at hsuccess

/-- Every outcome reports what holds where it ends. -/
theorem run_reports (h : r.run s budget q taken = .ok o) : r.Reports s o := by
  cases run_exit h with
  | stopped herror => exact reports_finish herror
  | singular herror => exact ⟨_, herror, rfl, nofun⟩

end Residual

/-! ## Accepted settings -/

/-- What holds of accepted settings. -/
theorem SettingsDescription.valid_of_build_eq_ok {d : SettingsDescription K} {s : Settings K}
    (h : d.build = .ok s) : s.Valid := by
  -- the settings are checked one after the other, and each check keeps what it is given
  obtain ⟨tolerance, htolerance, h⟩ := bind_eq_ok_iff.1 h
  obtain ⟨maxIterations, hbudget, h⟩ := bind_eq_ok_iff.1 h
  obtain ⟨damping, hdamping, h⟩ := bind_eq_ok_iff.1 h
  obtain ⟨maxStep, hstep, h⟩ := bind_eq_ok_iff.1 h
  obtain rfl := Except.ok.inj h
  obtain ⟨hpos, rfl⟩ := checkTolerance_eq_ok_iff.1 htolerance
  refine ⟨hpos, (Budget.check_eq_ok_iff.1 hbudget).1, ?_, ?_⟩
  · unfold checkDamping at hdamping
    split_ifs at hdamping with hnonneg
    obtain rfl := Except.ok.inj hdamping
    exact hnonneg
  · rintro step hmem
    cases hgiven : d.maxStep.or (Settings.standard : Settings K).maxStep with
    | none =>
      rw [hgiven] at hstep
      obtain rfl := Except.ok.inj hstep
      cases hmem
    | some given =>
      rw [hgiven] at hstep
      simp only [checkMaxStep] at hstep
      split_ifs at hstep with hpos
      obtain rfl := Except.ok.inj hstep
      obtain rfl := Option.some.inj hmem
      exact hpos

/-- Settings of which that holds are accepted as they are, when they are described in full. -/
theorem Settings.Valid.build_describe {s : Settings K} (hs : s.Valid) :
    s.describe.build = .ok s := by
  have htolerance : checkTolerance s.tolerance = .ok s.tolerance := if_pos hs.tolerance_pos
  have hdamping : checkDamping s.damping = .ok s.damping := if_pos hs.damping_nonneg
  have hbudget : (Budget.integer s.maxIterations).check = .ok s.maxIterations :=
    Budget.check_eq_ok_iff.2 ⟨hs.maxIterations_pos, rfl⟩
  -- a longest step need not be given
  have hstep : checkMaxStep s.maxStep = .ok s.maxStep := by
    cases hgiven : s.maxStep with
    | none => rfl
    | some step => exact if_pos (hs.maxStep_pos step hgiven)
  simp only [Settings.describe, SettingsDescription.build, Option.getD_some, htolerance, hbudget,
    hdamping, Settings.standard, Option.or_none, hstep]
  rfl

/-- Valid settings are what some description is accepted as. -/
theorem Settings.Valid.exists_build {s : Settings K} (hs : s.Valid) :
    ∃ d : SettingsDescription K, d.build = .ok s :=
  ⟨_, hs.build_describe⟩

/-- The standard settings are accepted. -/
theorem Settings.valid_standard : (Settings.standard : Settings ℝ).Valid where
  tolerance_pos := by norm_num [Settings.standard]
  maxIterations_pos := by norm_num [Settings.standard]
  damping_nonneg := by norm_num [Settings.standard]
  maxStep_pos := by simp [Settings.standard]

end KinematicManifold
