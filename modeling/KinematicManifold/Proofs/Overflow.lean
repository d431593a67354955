import KinematicManifold.Constraint.Basic
import KinematicManifold.Proofs.Iterations

/-!
# Faults of a projection

Where the error and its gradients can always be had, a single thing makes a projection fail: a
finite damping whose square is too large for a number. The settings do not rule it out. It is found
when the first step is taken, so that the projection fails exactly if the error at the start is
long, and has an outcome otherwise.

## Key results

- `newtonStep_eq_ok`, `newtonStep_eq_error`: the steps of a damping without and with an overflow
- `Residual.exists_run_eq_ok`: without an overflow every run has an outcome
- `Residual.project_eq_error_iff`: when a projection fails, and with which fault
- `not_forall_project_eq_ok`: accepted settings do not keep a projection from failing
-/

namespace KinematicManifold

variable {K : Type} [Scalar K] {n : Nat}

/-! ## Steps -/

/-- Holds of a finite damping whose square exceeds every finite number. -/
def DampingOverflows (damping : K) : Prop :=
  0 < damping ∧ Scalar.isFinite damping = true ∧ Scalar.isFinite (Scalar.square damping) = false

/-- When the damping overflows no step is found, whatever the rows are. -/
theorem newtonStep_eq_error {damping : K} (h : DampingOverflows damping)
    (gradients : List (Vector K n)) (error : List K) :
    newtonStep damping gradients error = .error .dampingOverflow := by
  obtain ⟨hpos, hfinite, hsquare⟩ := h
  simp [newtonStep, squareDamping, hpos, hfinite, hsquare, bind, Except.bind]

/-- Otherwise nothing fails, whether there is a step or not. -/
theorem newtonStep_eq_ok {damping : K} (h : ¬DampingOverflows damping)
    (gradients : List (Vector K n)) (error : List K) :
    ∃ step, newtonStep damping gradients error = .ok step := by
  by_cases hpos : 0 < damping
  · -- the square is accepted, since the damping is infinite or the square is finite
    have hsquare : squareDamping damping = .ok (Scalar.square damping) := by
      refine if_neg fun hboth => h ⟨hpos, ?_⟩
      simpa using hboth
    exact ⟨_, by simp only [newtonStep, if_pos hpos, hsquare]; rfl⟩
  · exact ⟨_, by simp only [newtonStep, if_neg hpos]; rfl⟩

/-! ## Runs -/

namespace Residual

/-- The error can be had at every configuration, and so can its gradients, one for each row. -/
def IsTotal (r : Residual K n) : Prop :=
  ∀ q, ∃ error gradients, r.evaluate q = .ok error ∧ r.jacobian q = .ok gradients ∧
    gradients.length = error.length

variable {r : Residual K n} {s : Settings K} {q : Vector K n}

/-- A residual that always answers goes on to a next configuration, unless the damping overflows. -/
theorem exists_next_eq_ok (hr : r.IsTotal) (h : ¬DampingOverflows s.damping) (q : Vector K n)
    (error : List K) : ∃ p, r.next s q error = .ok p := by
  obtain ⟨-, gradients, -, hgradients, -⟩ := hr q
  obtain ⟨step, hstep⟩ := newtonStep_eq_ok h gradients error
  exact ⟨_, by simp only [next, hgradients, bind, Except.bind, hstep]; rfl⟩

/-- Without an overflow every run has an outcome. -/
theorem exists_run_eq_ok (hr : r.IsTotal) (h : ¬DampingOverflows s.damping) (budget : Nat)
    (q : Vector K n) (taken : Nat) : ∃ o, r.run s budget q taken = .ok o := by
  induction budget generalizing q taken with
  | zero =>
    obtain ⟨error, -, herror, -⟩ := hr q
    exact ⟨_, run_zero taken herror⟩
  | succ budget ih =>
    obtain ⟨error, -, herror, -⟩ := hr q
    -- a run goes on only while the error is long
    by_cases hlong : s.tolerance ≤ Linear.rowsNorm error
    · obtain ⟨p, hp⟩ := exists_next_eq_ok hr h q error
      rw [run_succ budget taken herror hlong, hp]
      cases p with
      | none => exact ⟨_, rfl⟩
      | some p => exact ih p (taken + 1)
    · exact ⟨_, run_of_not_le _ taken herror hlong⟩

/-- With an overflow a run fails where the error is long. -/
theorem run_eq_error (hr : r.IsTotal) (h : DampingOverflows s.damping) {error : List K}
    (herror : r.evaluate q = .ok error) (hlong : s.tolerance ≤ Linear.rowsNorm error)
    (budget taken : Nat) : r.run s (budget + 1) q taken = .error .dampingOverflow := by
  obtain ⟨-, gradients, -, hgradients, -⟩ := hr q
  rw [run_succ budget taken herror hlong, next, hgradients]
  simp only [bind, Except.bind, newtonStep_eq_error h gradients]

/-- With an overflow a projection fails where the error at the start is long. -/
theorem project_eq_error (hr : r.IsTotal) (hs : s.Valid) (h : DampingOverflows s.damping)
    {error : List K} (herror : r.evaluate q = .ok error)
    (hlong : s.tolerance ≤ Linear.rowsNorm error) : r.project s q = .error .dampingOverflow := by
  obtain ⟨budget, hbudget⟩ := Nat.exists_eq_add_of_le' hs.maxIterations_pos
  rw [project, hbudget, run_eq_error hr h herror hlong]

/-- Where the error at the start is not long, an overflow is never met. -/
theorem exists_project_eq_ok (hr : r.IsTotal)
    (h : ¬(DampingOverflows s.damping ∧
      ∃ error, r.evaluate q = .ok error ∧ s.tolerance ≤ Linear.rowsNorm error)) :
    ∃ o, r.project s q = .ok o := by
  obtain ⟨error, -, herror, -⟩ := hr q
  by_cases hlong : s.tolerance ≤ Linear.rowsNorm error
  · have hoverflow : ¬DampingOverflows s.damping := fun hoverflow =>
      h ⟨hoverflow, error, herror, hlong⟩
    exact exists_run_eq_ok hr hoverflow s.maxIterations q 0
  · exact ⟨_, run_of_not_le _ 0 herror hlong⟩

/-- A projection fails exactly when the square of the damping overflows and the error at the start
is long, and the overflow is its fault. In every other case it has an outcome. -/
theorem project_eq_error_iff (hr : r.IsTotal) (hs : s.Valid) (q : Vector K n) (fault : Fault) :
    (r.project s q = .error fault ↔ fault = .dampingOverflow ∧ DampingOverflows s.damping ∧
      ∃ error, r.evaluate q = .ok error ∧ s.tolerance ≤ Linear.rowsNorm error) ∧
    ((∃ o, r.project s q = .ok o) ↔ ¬(DampingOverflows s.damping ∧
      ∃ error, r.evaluate q = .ok error ∧ s.tolerance ≤ Linear.rowsNorm error)) := by
  -- whether a projection fails is decided before its first step
  by_cases hfails : DampingOverflows s.damping ∧
      ∃ error, r.evaluate q = .ok error ∧ s.tolerance ≤ Linear.rowsNorm error
  · have hproject : r.project s q = .error .dampingOverflow := by
      obtain ⟨h, error, herror, hlong⟩ := hfails
      exact project_eq_error hr hs h herror hlong
    simp only [hproject, Except.error.injEq, hfails, and_true, not_true_eq_false, iff_false]
    exact ⟨eq_comm, by simp⟩
  · obtain ⟨o, ho⟩ := exists_project_eq_ok hr hfails
    simp [ho, hfails]

end Residual

/-! ## A damping that overflows -/

/-- The error of joint limits can be had everywhere. -/
theorem isTotal_ofJointLimits (limits : JointLimits K n) :
    (Constraint.ofJointLimits limits).residual.IsTotal := by
  intro q
  refine ⟨_, _, rfl, rfl, ?_⟩
  simp [Leaf.intervals, JointLimits.intervals]

/-- A single joint that may take no value but zero. -/
def lockedJoint : Constraint Float 1 := .ofJointLimits ⟨.ofFn fun _ => 0, .ofFn fun _ => 0⟩

/-- Standard settings, but for a damping whose square is no finite number. -/
def excessiveDamping : Settings Float := { Settings.standard with damping := 1e200 }

/-- The excessive damping is among the settings that are accepted. -/
theorem valid_excessiveDamping : excessiveDamping.Valid where
  tolerance_pos := by decide +kernel
  maxIterations_pos := by decide
  damping_nonneg := by decide +kernel
  maxStep_pos := nofun

/-- Its square overflows. -/
theorem dampingOverflows_excessiveDamping : DampingOverflows excessiveDamping.damping := by
  unfold DampingOverflows
  decide +kernel

/-- The projection of a locked joint fails with these settings. -/
theorem project_eq_error_iff_lockedJoint :
    lockedJoint.residual.IsTotal ∧ excessiveDamping.Valid ∧
    DampingOverflows excessiveDamping.damping ∧
    (∃ error, lockedJoint.evaluate (.ofFn fun _ => 1) = .ok error ∧
      excessiveDamping.tolerance ≤ Linear.rowsNorm error) ∧
    lockedJoint.residual.project excessiveDamping (.ofFn fun _ => 1) = .error .dampingOverflow := by
  have hlong : ∃ error, lockedJoint.evaluate (.ofFn fun _ => 1) = .ok error ∧
      excessiveDamping.tolerance ≤ Linear.rowsNorm error := ⟨_, rfl, by decide +kernel⟩
  exact ⟨isTotal_ofJointLimits _, valid_excessiveDamping, dampingOverflows_excessiveDamping, hlong,
    (Residual.project_eq_error_iff (isTotal_ofJointLimits _) valid_excessiveDamping _ _).1.2
      ⟨rfl, dampingOverflows_excessiveDamping, hlong⟩⟩

/-- Settings that are accepted do not keep a projection from failing. -/
theorem not_forall_project_eq_ok :
    ¬∀ (d : SettingsDescription Float) (s : Settings Float) (n : Nat) (c : Constraint Float n)
      (q : Vector Float n), d.build = .ok s → c.residual.IsTotal →
        ∃ o, c.residual.project s q = .ok o := by
  intro h
  obtain ⟨d, hd⟩ := valid_excessiveDamping.exists_build
  obtain ⟨o, ho⟩ := h d _ 1 lockedJoint (.ofFn fun _ => 1) hd (isTotal_ofJointLimits _)
  -- the locked joint starts outside its limits, so that a step is tried
  have hfails : lockedJoint.residual.project excessiveDamping (.ofFn fun _ => 1) =
      .error .dampingOverflow :=
    Residual.project_eq_error (isTotal_ofJointLimits _) valid_excessiveDamping
      dampingOverflows_excessiveDamping rfl (by decide +kernel)
  rw [hfails] at ho
  cases ho

end KinematicManifold
