import KinematicManifold.Proofs.Iterates
import KinematicManifold.Proofs.NewtonStep

/-!
# The longest step

A longest step bounds every update of a projection: a Newton step that is too long is multiplied by
the factor that brings it to the longest length, and any other is taken as it is. So a projection
does not get further from its start than the longest step times the number of its iterations,
however it ends. Where no Newton step is too long, the longest step is not noticed.

`Residual.updates` lists the updates of a run, with the Newton step of each before it is shortened.

## Key results

- `exists_capStep_eq_scale`, `exists_capStep_some`: what a longest step does to a step
- `Residual.mem_updates`, `Residual.run_updates`: the updates of a run, and where they lead
- `Update.LeadTo.norm_sub_le`: short updates do not lead far
- `Residual.run_uncapped`: a longest step that no Newton step exceeds
- `Residual.project_capped`: what a longest step does to a projection
-/

namespace KinematicManifold

open Linear

variable {K : Type} [Scalar K] {n : Nat}

/-! ## Shortened steps -/

/-- A longest step multiplies a step by a factor, which is one unless the step is longer. -/
theorem exists_capStep_some {longest : ℝ} (hpos : 0 < longest) (step : Vector ℝ n) :
    ∃ t, 0 < t ∧ t ≤ 1 ∧ (step ≠ 0 → (t = 1 ↔ norm step ≤ longest)) ∧
      capStep (some longest) step = scale t step ∧ norm (scale t step) ≤ longest := by
  by_cases hlong : longest < norm step
  · have hlength : 0 < norm step := hpos.trans hlong
    have hfactor : longest / norm step < 1 := (div_lt_one hlength).2 hlong
    -- the quotient of the two lengths brings the step to the longest length
    refine ⟨longest / norm step, div_pos hpos hlength, hfactor.le, fun _ => ?_, if_pos hlong, ?_⟩
    · exact iff_of_false hfactor.ne (not_le.2 hlong)
    · rw [norm_scale (div_pos hpos hlength).le, div_mul_cancel₀ _ hlength.ne']
  · have hone : scale 1 step = step := ext_get (by rw [get_scale, one_smul])
    have hshort : norm step ≤ longest := not_lt.1 hlong
    refine ⟨1, zero_lt_one, le_rfl, fun _ => iff_of_true rfl hshort, ?_, ?_⟩
    · rw [hone]
      exact if_neg hlong
    · rwa [hone]

/-- The step that is taken is the Newton step times a factor. -/
theorem exists_capStep_eq_scale {maxStep : Option ℝ} (hpos : ∀ longest ∈ maxStep, 0 < longest)
    (step : Vector ℝ n) : ∃ t, 0 < t ∧ capStep maxStep step = scale t step := by
  cases maxStep with
  | none => exact ⟨1, zero_lt_one, ext_get (by rw [capStep, get_scale, one_smul])⟩
  | some longest =>
    obtain ⟨t, ht, -, -, hstep, -⟩ := exists_capStep_some (hpos longest rfl) step
    exact ⟨t, ht, hstep⟩

/-! ## Updates -/

/-- An update of a configuration: where it starts, the Newton step there, and where it leads. -/
structure Update (K : Type) (n : Nat) where
  start : Vector K n
  /-- The Newton step, before it is shortened. -/
  step : Vector K n
  stop : Vector K n

/-- Updates lead from one configuration to another, each of them from where the one before it has
led. -/
inductive Update.LeadTo {K : Type} {n : Nat} :
    Vector K n → List (Update K n) → Vector K n → Prop
  | nil (q : Vector K n) : LeadTo q [] q
  | cons {q last : Vector K n} {u : Update K n} {rest : List (Update K n)}
      (hstart : u.start = q) (hrest : LeadTo u.stop rest last) : LeadTo q (u :: rest) last

namespace Residual

/-- The Newton step at a configuration, if the error is long there and there is one. -/
def stepAt (r : Residual K n) (s : Settings K) (q : Vector K n) :
    Except Fault (Option (Vector K n)) := do
  let error ← r.evaluate q
  if s.tolerance ≤ rowsNorm error then
    let gradients ← r.jacobian q
    newtonStep s.damping gradients error
  else return none

/-- The updates of a run, one after the other. A fault ends them as any other end does. -/
def updates (r : Residual K n) (s : Settings K) : (budget : Nat) → (q : Vector K n) →
    List (Update K n)
  | 0, _ => []
  | budget + 1, q =>
    match r.stepAt s q with
    | .ok (some step) =>
      let stop := q + capStep s.maxStep step
      ⟨q, step, stop⟩ :: updates r s budget stop
    | _ => []

variable {r : Residual K n} {s : Settings K} {budget taken : Nat} {q step : Vector K n}
  {o : Outcome K n}

/-- A step is taken exactly where the error is long enough and the solver finds one. -/
theorem stepAt_eq_some_iff : r.stepAt s q = .ok (some step) ↔
    ∃ error gradients, r.evaluate q = .ok error ∧ s.tolerance ≤ rowsNorm error ∧
      r.jacobian q = .ok gradients ∧ newtonStep s.damping gradients error = .ok (some step) := by
  constructor
  · intro h
    obtain ⟨error, herror, h⟩ := bind_eq_ok_iff.1 h
    -- a step is only looked for while the error is long
    split_ifs at h with hlong
    · obtain ⟨gradients, hgradients, hstep⟩ := bind_eq_ok_iff.1 h
      exact ⟨error, gradients, herror, hlong, hgradients, hstep⟩
    · cases h
  · rintro ⟨error, gradients, herror, hlong, hgradients, hstep⟩
    simp only [stepAt, herror, bind, Except.bind, if_pos hlong, hgradients, hstep]

/-- The updates of a run start with the step that is taken, and go on from where it leads. -/
theorem updates_of_stepAt (budget : Nat) (h : r.stepAt s q = .ok (some step)) :
    r.updates s (budget + 1) q = ⟨q, step, q + capStep s.maxStep step⟩ ::
      r.updates s budget (q + capStep s.maxStep step) := by
  rw [updates, h]

/-- Where no step is taken there are no updates. -/
theorem updates_of_forall_ne (budget : Nat) (h : ∀ step, r.stepAt s q ≠ .ok (some step)) :
    r.updates s budget q = [] := by
  cases budget with
  | zero => rfl
  | succ budget =>
    rw [updates]
    split
    · next hstep => exact absurd hstep (h _)
    · rfl

/-- Every update of a run goes by the Newton step where it starts, shortened where it is too
long. -/
theorem mem_updates {u : Update K n} (h : u ∈ r.updates s budget q) :
    r.stepAt s u.start = .ok (some u.step) ∧ u.stop = u.start + capStep s.maxStep u.step := by
  induction budget generalizing q with
  | zero => cases h
  | succ budget ih =>
    by_cases hstep : ∃ step, r.stepAt s q = .ok (some step)
    · obtain ⟨step, hstep⟩ := hstep
      -- the first update, or one of a run from where it leads
      rw [updates_of_stepAt budget hstep] at h
      rcases List.mem_cons.1 h with rfl | hrest
      · exact ⟨hstep, rfl⟩
      · exact ih hrest
    · -- a run that takes no step has no updates
      rw [updates_of_forall_ne _ (not_exists.1 hstep)] at h
      cases h

/-- The updates of a run lead to the configuration where it ends, and there are as many as steps are
counted. -/
theorem run_updates (h : r.run s budget q taken = .ok o) :
    o.iterations = taken + (r.updates s budget q).length ∧
      Update.LeadTo q (r.updates s budget q) o.configuration := by
  -- on the budget: each iteration that takes a step puts an update before those of the rest
  induction budget generalizing q taken with
  | zero =>
    obtain ⟨error, -, h⟩ := bind_eq_ok_iff.1 h
    obtain rfl := Except.ok.inj h
    exact ⟨rfl, .nil q⟩
  | succ budget ih =>
    obtain ⟨error, herror, hcases⟩ := run_succ_cases h
    -- where the run ends there is no step, and so no update
    have hends (hno : ∀ step, r.stepAt s q ≠ .ok (some step)) (hq : o.configuration = q)
        (htaken : o.iterations = taken) :
        o.iterations = taken + (r.updates s (budget + 1) q).length ∧
          Update.LeadTo q (r.updates s (budget + 1) q) o.configuration := by
      rw [updates_of_forall_ne _ hno, hq]
      exact ⟨htaken, .nil q⟩
    obtain ⟨hshort, rfl⟩ | ⟨hlong, gradients, hgradients, ⟨hnone, rfl⟩ | ⟨step, hstep, hrest⟩⟩ :=
      hcases
    · refine hends (fun step hstep => ?_) rfl rfl
      obtain ⟨error', -, herror', hlong, -⟩ := stepAt_eq_some_iff.1 hstep
      obtain rfl := Except.ok.inj (herror.symm.trans herror')
      exact hshort hlong
    · refine hends (fun step hstep => ?_) rfl rfl
      obtain ⟨error', gradients', herror', -, hgradients', hsome⟩ := stepAt_eq_some_iff.1 hstep
      obtain rfl := Except.ok.inj (herror.symm.trans herror')
      obtain rfl := Except.ok.inj (hgradients.symm.trans hgradients')
      rw [hnone] at hsome
      cases hsome
    · have hat : r.stepAt s q = .ok (some step) :=
        stepAt_eq_some_iff.2 ⟨error, gradients, herror, hlong, hgradients, hstep⟩
      obtain ⟨hcount, hlead⟩ := ih hrest
      rw [updates_of_stepAt budget hat]
      refine ⟨?_, .cons rfl hlead⟩
      rw [hcount, List.length_cons, Nat.add_right_comm, Nat.add_assoc]

end Residual

/-! ## Displacements -/

/-- Updates that are no longer than some length do not lead further than as many of them can. -/
theorem Update.LeadTo.norm_sub_le {q last : Vector ℝ n} {us : List (Update ℝ n)} {longest : ℝ}
    (h : LeadTo q us last) (hshort : ∀ u ∈ us, norm (u.stop - u.start) ≤ longest) :
    norm (last - q) ≤ longest * us.length := by
  induction h with
  | nil q =>
    rw [sub_eq_zero_iff.2 rfl, norm_eq_zero_iff_get.2 get_zero, List.length_nil, Nat.cast_zero,
      mul_zero]
  | @cons q last u rest hstart _ ih =>
    rw [List.forall_mem_cons] at hshort
    subst hstart
    -- the way from the start goes through where the first update ends
    have hway : last - u.start = (u.stop - u.start) + (last - u.stop) :=
      ext_get (by simp only [get_sub, get_add, sub_add_sub_cancel'])
    calc norm (last - u.start) ≤ norm (u.stop - u.start) + norm (last - u.stop) := by
          rw [hway]
          exact Linear.norm_add_le _ _
      _ ≤ longest + longest * rest.length := add_le_add hshort.1 (ih hshort.2)
      _ = longest * (u :: rest).length := by
          rw [List.length_cons, Nat.cast_add_one]
          ring

namespace Residual

variable {r : Residual ℝ n} {s : Settings ℝ} {longest : ℝ}

/-- A longest step that no Newton step on the way exceeds is not noticed. -/
theorem run_uncapped (hcap : s.maxStep = some longest) (budget taken : Nat) (q : Vector ℝ n)
    (h : ∀ u ∈ r.updates { s with maxStep := none } budget q, norm u.step ≤ longest) :
    r.run s budget q taken = r.run { s with maxStep := none } budget q taken := by
  -- the two runs end alike, in a fault or not, until one of them takes a step
  induction budget generalizing q taken with
  | zero => rfl
  | succ budget ih =>
    cases herror : r.evaluate q with
    | error fault =>
      rw [run_of_evaluate_eq_error _ _ herror, run_of_evaluate_eq_error _ _ herror]
    | ok error =>
      by_cases hlong : s.tolerance ≤ rowsNorm error
      · rw [run_succ budget taken herror hlong,
          run_succ (s := { s with maxStep := none }) budget taken herror hlong]
        cases hgradients : r.jacobian q with
        | error fault => simp only [next, hgradients, bind, Except.bind]
        | ok gradients =>
          rcases hstep : newtonStep s.damping gradients error with fault | _ | step
          · simp only [next, hgradients, hstep, bind, Except.bind]
          · simp only [next, hgradients, hstep, bind, Except.bind]
            rfl
          · -- both runs take the whole step, and go on from the same configuration
            have hat : r.stepAt { s with maxStep := none } q = .ok (some step) :=
              stepAt_eq_some_iff.2 ⟨error, gradients, herror, hlong, hgradients, hstep⟩
            rw [updates_of_stepAt budget hat, List.forall_mem_cons] at h
            have hwhole : capStep s.maxStep step = step := by
              rw [hcap]
              exact if_neg (not_lt.2 h.1)
            simp only [next, hgradients, hstep, bind, Except.bind, pure, Except.pure,
              Option.map_some, hwhole]
            exact ih (taken + 1) _ h.2
      · rw [run_of_not_le _ _ herror hlong,
          run_of_not_le (s := { s with maxStep := none }) _ _ herror hlong]
        rfl

/-- What a longest step does to a projection. Each update is the Newton step where it starts, times
a factor that is one exactly when the step is not too long, and is no longer than the longest step;
the updates lead to the configuration where the projection ends, which is no further from the start
than as many of the longest steps as there are iterations. If no Newton step of the projection
without a longest step is too long, the two projections are the same. -/
theorem project_capped (r : Residual ℝ n) {s : Settings ℝ} (hs : s.Valid)
    (hcap : s.maxStep = some longest) (q : Vector ℝ n) :
    let uncapped : Settings ℝ := { s with maxStep := none }
    let updates := r.updates s s.maxIterations q
    (∀ u ∈ updates,
      (∃ error gradients, r.evaluate u.start = .ok error ∧ s.tolerance ≤ rowsNorm error ∧
        r.jacobian u.start = .ok gradients ∧
        newtonStep s.damping gradients error = .ok (some u.step)) ∧
      ∃ t, 0 < t ∧ t ≤ 1 ∧ (u.step ≠ 0 → (t = 1 ↔ norm u.step ≤ longest)) ∧
        u.stop = u.start + scale t u.step ∧ norm (scale t u.step) ≤ longest) ∧
    (∀ o, r.project s q = .ok o →
      o.iterations = updates.length ∧ Update.LeadTo q updates o.configuration ∧
      norm (o.configuration - q) ≤ longest * o.iterations) ∧
    ((∀ u ∈ r.updates uncapped s.maxIterations q, norm u.step ≤ longest) →
      r.project s q = r.project uncapped q) := by
  intro uncapped updates
  have hpos : 0 < longest := hs.maxStep_pos longest hcap
  -- each step is shortened, if at all, to the longest one
  have hupdates : ∀ u ∈ updates, ∃ t, 0 < t ∧ t ≤ 1 ∧
      (u.step ≠ 0 → (t = 1 ↔ norm u.step ≤ longest)) ∧
      u.stop = u.start + scale t u.step ∧ norm (scale t u.step) ≤ longest := by
    intro u hu
    obtain ⟨t, ht, hle, hone, hstep, hshort⟩ := exists_capStep_some hpos u.step
    refine ⟨t, ht, hle, hone, ?_, hshort⟩
    rw [(mem_updates hu).2, hcap, hstep]
  refine ⟨fun u hu => ⟨stepAt_eq_some_iff.1 (mem_updates hu).1, hupdates u hu⟩, fun o ho => ?_,
    run_uncapped hcap s.maxIterations 0 q⟩
  obtain ⟨hcount, hlead⟩ := run_updates ho
  rw [Nat.zero_add] at hcount
  -- so no update goes farther than that
  have hshort : ∀ u ∈ updates, norm (u.stop - u.start) ≤ longest := by
    intro u hu
    obtain ⟨t, -, -, -, hstop, hshort⟩ := hupdates u hu
    rwa [hstop, show u.start + scale t u.step - u.start = scale t u.step from
      ext_get (by rw [get_sub, get_add, add_sub_cancel_left])]
  exact ⟨hcount, hlead, hcount ▸ hlead.norm_sub_le hshort⟩

/-- Steps of at most one between two parallel lines, from a configuration away from both. -/
theorem project_capped_parallelLines :
    let s : Settings ℝ := { Settings.standard with maxStep := some 1 }
    let q : Vector ℝ 2 := .ofFn fun _ => 1
    s.Valid ∧ s.maxStep = some 1 ∧
    ∃ o, parallelLines.residual.project s q = .ok o ∧
      o.iterations = (parallelLines.residual.updates s s.maxIterations q).length ∧
      norm (o.configuration - q) ≤ 1 * o.iterations := by
  intro s q
  have hvalid : s.Valid := { Settings.valid_standard with
    maxStep_pos := by simp [s] }
  have htotal : parallelLines.residual.IsTotal := fun _ => ⟨_, _, rfl, rfl, rfl⟩
  obtain ⟨-, hends, -⟩ := project_capped parallelLines.residual hvalid rfl q
  obtain ⟨o, ho⟩ := exists_run_eq_ok htotal (not_dampingOverflows s.damping) s.maxIterations q 0
  obtain ⟨hcount, -, hnear⟩ := hends o ho
  exact ⟨hvalid, rfl, o, ho, hcount, hnear⟩

end Residual

end KinematicManifold
