import KinematicManifold.Proofs.Order
import KinematicManifold.Proofs.Outcome

/-!
# Iterations of a projection

An iteration depends on nothing but the configuration that it starts from, and an outcome describes
the configuration where the last one ends. So a projection that ends because its budget is spent may
be taken up again, and the two projections together are the one that has both budgets.

All of this holds for errors whose length is no number as well, which end a projection early. The
scalars need only be ordered as `Scalar.LawfulOrder` says, which floating-point numbers are.

## Key results

- `Residual.Accounts`: what an outcome says of the configuration where a projection ends
- `Residual.project_accounts`: every outcome does so
- `Residual.run_add`: a run with two budgets
- `Residual.project_resume`: a projection taken up again
-/

namespace KinematicManifold

open Scalar (IsNumber LawfulOrder)

variable {K : Type} [Scalar K] {n : Nat}

namespace Residual

variable {r : Residual K n} {s : Settings K} {q : Vector K n} {o : Outcome K n} {taken : Nat}

/-! ## What an outcome says -/

/-- What an outcome says of the configuration where a projection ends. -/
structure Accounts (r : Residual K n) (s : Settings K) (o : Outcome K n) : Prop where
  /-- The length that is reported is that of the error. -/
  errorNorm_eq : ∃ error, r.evaluate o.configuration = .ok error ∧
    o.errorNorm = Linear.rowsNorm error
  /-- No more steps are taken than the budget allows. -/
  iterations_le : o.iterations ≤ s.maxIterations
  /-- A success is an error shorter than the tolerance. -/
  success_iff : o.status = .success ↔ o.errorNorm < s.tolerance
  /-- A singular end leaves an error that is not short and a part of the budget, and there is no
  step from there. -/
  singular : o.status = .singular → s.tolerance ≤ o.errorNorm ∧ o.iterations < s.maxIterations ∧
    ∃ error gradients, r.evaluate o.configuration = .ok error ∧
      r.jacobian o.configuration = .ok gradients ∧
      newtonStep s.damping gradients error = .ok none
  /-- Where the length is a number, the budget is spent when the status says so. -/
  budgetSpent_iff : IsNumber o.errorNorm →
    (o.status = .budgetSpent ↔ s.tolerance ≤ o.errorNorm ∧ o.iterations = s.maxIterations)
  /-- A success is a success at once when it is projected again, with any settings that are no less
  tolerant. -/
  again : o.status = .success → ∀ s' : Settings K, s.tolerance ≤ s'.tolerance →
    r.project s' o.configuration = .ok ⟨.success, o.configuration, o.errorNorm, 0⟩

/-- A run ends in success exactly when the last error norm is below the tolerance. -/
theorem success_finish_iff {norm : K} :
    (finish s q norm taken).status = .success ↔ norm < s.tolerance := by
  rw [status_finish]
  split_ifs with hlt <;> simp [hlt]

/-- Otherwise it ends as one that has spent its budget. -/
theorem budgetSpent_finish_iff {norm : K} :
    (finish s q norm taken).status = .budgetSpent ↔ ¬norm < s.tolerance := by
  rw [status_finish]
  split_ifs with hlt <;> simp [hlt]

/-- A run that comes to its end is never reported as singular. -/
theorem not_singular_finish {norm : K} : (finish s q norm taken).status ≠ .singular := by
  rw [status_finish]
  split_ifs <;> nofun

section
variable [LawfulOrder K] {error : List K}

/-- Where the error is shorter than the tolerance, a run succeeds without a step. -/
theorem run_of_lt (budget taken : Nat) (h : r.evaluate q = .ok error)
    (hlt : Linear.rowsNorm error < s.tolerance) :
    r.run s budget q taken = .ok ⟨.success, q, Linear.rowsNorm error, taken⟩ := by
  rw [run_of_not_le budget taken h (LawfulOrder.not_le hlt), finish, if_pos hlt]

/-- The outcome where an iteration stops gives account, if what stops it is a length that is short
or no number, or a budget that is spent. -/
theorem accounts_finish (htolerance : IsNumber s.tolerance) (herror : r.evaluate q = .ok error)
    (htaken : taken ≤ s.maxIterations)
    (hlast : s.tolerance ≤ Linear.rowsNorm error → taken = s.maxIterations) :
    r.Accounts s (finish s q (Linear.rowsNorm error) taken) where
  errorNorm_eq := ⟨error, herror, rfl⟩
  iterations_le := htaken
  success_iff := success_finish_iff
  singular hsingular := absurd hsingular not_singular_finish
  budgetSpent_iff hnumber := by
    rw [budgetSpent_finish_iff]
    constructor
    · -- a number that is not shorter than the tolerance is as long
      intro hnot
      have hlong := (LawfulOrder.total htolerance hnumber).resolve_right hnot
      exact ⟨hlong, hlast hlong⟩
    · exact fun h hlt => LawfulOrder.not_le hlt h.1
  again hsuccess s' hle := by
    have hlt := success_finish_iff.1 hsuccess
    exact run_of_lt _ _ herror (LawfulOrder.trans_le hlt hle)

/-- Every outcome gives account of the configuration where the projection ends. -/
theorem project_accounts (hs : s.Valid) (h : r.project s q = .ok o) : r.Accounts s o := by
  have hexit : Exit r s s.maxIterations o := by simpa using run_exit h
  cases hexit with
  | stopped herror htaken hlast =>
    -- a run that stops by itself has its norm for a reason
    exact accounts_finish (LawfulOrder.isNumber hs.tolerance_pos) herror htaken hlast
  | @singular q error gradients taken herror hlong hgradients hstep htaken =>
    -- a singular step ends it before, above the tolerance
    exact {
      errorNorm_eq := ⟨error, herror, rfl⟩
      iterations_le := htaken.le
      success_iff := iff_of_false nofun fun hlt => LawfulOrder.not_le hlt hlong
      singular := fun _ => ⟨hlong, htaken, error, gradients, herror, hgradients, hstep⟩
      budgetSpent_iff := fun _ => iff_of_false nofun fun h => htaken.ne h.2
      again := nofun }

end

end Residual

/-- The root of a joint value, which is no number where the value is below zero. -/
def rootOfValue : Residual Float 1 where
  evaluate q := .ok [Scalar.sqrt (q.get 0)]
  jacobian q := .ok [.ofFn fun _ => 0.5 / Scalar.sqrt (q.get 0)]

/-- The standard settings are accepted. -/
theorem Settings.valid_standard_float : (Settings.standard : Settings Float).Valid where
  tolerance_pos := by decide +kernel
  maxIterations_pos := by decide
  damping_nonneg := by decide +kernel
  maxStep_pos := nofun

/-- The first step from one leads below zero, where the length of the error is no number. -/
theorem project_accounts_rootOfValue :
    (Settings.standard : Settings Float).Valid ∧
    ∃ o, rootOfValue.project .standard (.ofFn fun _ => 1) = .ok o ∧
      (o.status = .budgetSpent ∧ o.iterations = 1 ∧ ¬IsNumber o.errorNorm) ∧
      rootOfValue.Accounts .standard o := by
  have hrun : (rootOfValue.project .standard (.ofFn fun _ => 1)).toOption.any (fun o =>
      o.status = .budgetSpent ∧ o.iterations = 1 ∧ ¬o.errorNorm ≤ o.errorNorm) = true := by
    decide +kernel
  refine ⟨Settings.valid_standard_float, ?_⟩
  cases ho : rootOfValue.project .standard (.ofFn fun _ => 1) with
  | error fault => simp [ho, Except.toOption] at hrun
  | ok o =>
    refine ⟨o, rfl, ?_, Residual.project_accounts Settings.valid_standard_float ho⟩
    simpa [ho, Except.toOption, IsNumber] using hrun

/-! ## Interrupted projections -/

/-- An outcome that some steps went before. -/
def Outcome.after (earlier : Nat) (o : Outcome K n) : Outcome K n :=
  { o with iterations := earlier + o.iterations }

namespace Residual

variable {r : Residual K n} {s : Settings K}

/-- A run does not look at the budget that its settings set. -/
theorem run_setBudget (maxIterations budget : Nat) (q : Vector K n) (taken : Nat) :
    r.run { s with maxIterations } budget q taken = r.run s budget q taken := by
  induction budget generalizing q taken with
  | zero => rfl
  | succ budget ih =>
    simp only [run, ih]
    rfl

/-- The steps that went before a run are only counted. -/
theorem run_after (budget : Nat) (q : Vector K n) (earlier taken : Nat) :
    r.run s budget q (earlier + taken) = (r.run s budget q taken).map (·.after earlier) := by
  induction budget generalizing q taken with
  | zero => cases herror : r.evaluate q <;> simp only [run, herror] <;> rfl
  | succ budget ih =>
    cases herror : r.evaluate q with
    | error fault =>
      rw [run_of_evaluate_eq_error _ _ herror, run_of_evaluate_eq_error _ _ herror]
      rfl
    | ok error =>
      by_cases hlong : s.tolerance ≤ Linear.rowsNorm error
      · rw [run_succ _ _ herror hlong, run_succ _ _ herror hlong]
        -- only a run that goes on counts on
        rcases r.next s q error with fault | _ | p
        · rfl
        · rfl
        · exact ih p (taken + 1)
      · rw [run_of_not_le _ _ herror hlong, run_of_not_le _ _ herror hlong]
        rfl

variable [LawfulOrder K]

/-- A run with two budgets spends the first one, and then the second one from where the first run
ends. -/
theorem run_add (first second : Nat) (q : Vector K n) (taken : Nat) :
    r.run s (first + second) q taken = (do
      let o ← r.run s first q taken
      if o.status = .budgetSpent then r.run s second o.configuration o.iterations
      else return o) := by
  induction first generalizing q taken with
  | zero =>
    rw [Nat.zero_add]
    cases herror : r.evaluate q with
    | error fault =>
      rw [run_of_evaluate_eq_error _ _ herror, run_of_evaluate_eq_error _ _ herror]
      rfl
    | ok error =>
      rw [run_zero taken herror]
      by_cases hlt : Linear.rowsNorm error < s.tolerance
      · rw [run_of_lt second taken herror hlt]
        simp [finish, hlt, bind, Except.bind, pure, Except.pure]
      · simp [finish, hlt, bind, Except.bind]
  | succ first ih =>
    cases herror : r.evaluate q with
    | error fault =>
      rw [run_of_evaluate_eq_error _ _ herror, run_of_evaluate_eq_error _ _ herror]
      rfl
    | ok error =>
      by_cases hlong : s.tolerance ≤ Linear.rowsNorm error
      · rw [show first + 1 + second = first + second + 1 by omega, run_succ _ _ herror hlong,
          run_succ _ _ herror hlong]
        rcases r.next s q error with fault | _ | p
        · rfl
        · rfl
        · exact ih p (taken + 1)
      · -- what stops the first run stops the second one at once, in the same way
        rw [run_of_not_le _ _ herror hlong, run_of_not_le _ _ herror hlong]
        have hsecond := run_of_not_le second taken herror hlong
        show Except.ok _ = if _ then r.run s second q taken else Except.ok _
        rw [hsecond, ite_self]

/-- A projection with two budgets is a projection with the first one, taken up again with the second
one where that is spent. Its steps are those of both, and a fault of either is its fault. -/
theorem project_resume (r : Residual K n) (s : Settings K) (q : Vector K n) (first second : Nat) :
    r.project { s with maxIterations := first + second } q = (do
      let o ← r.project { s with maxIterations := first } q
      if o.status = .budgetSpent then
        let resumed ← r.project { s with maxIterations := second } o.configuration
        return resumed.after o.iterations
      else return o) := by
  simp only [project, run_setBudget, run_add first second]
  cases r.run s first q 0 with
  | error fault => rfl
  | ok o =>
    -- the second run counts from where the first has ended
    have hafter := run_after (r := r) (s := s) second o.configuration o.iterations 0
    rw [Nat.add_zero] at hafter
    simp only [bind, Except.bind, hafter]
    cases r.run s second o.configuration 0 <;> rfl

end Residual

/-- A projection that ends early, since the length of its error is no number, is taken up again. -/
theorem project_resume_rootOfValue :
    LawfulOrder Float ∧
    rootOfValue.project { Settings.standard with maxIterations := 1 + 49 } (.ofFn fun _ => 1) = (do
      let o ← rootOfValue.project { Settings.standard with maxIterations := 1 } (.ofFn fun _ => 1)
      if o.status = .budgetSpent then
        let resumed ← rootOfValue.project { Settings.standard with maxIterations := 49 }
          o.configuration
        return resumed.after o.iterations
      else return o) :=
  ⟨inferInstance, Residual.project_resume rootOfValue .standard (.ofFn fun _ => 1) 1 49⟩

end KinematicManifold
