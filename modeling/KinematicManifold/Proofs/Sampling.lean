import KinematicManifold.Constraint.Use
import KinematicManifold.Proofs.Clamping
import KinematicManifold.Proofs.Locality

/-!
# Sampling within limits

A search tries one attempt after the other until one is accepted, and ends with the last one
otherwise, or with the first fault. An attempt to sample a manifold is accepted if the projection of
the draw succeeds and ends within the bounds. Where the bounds are limits that the constraint has
itself, at whatever depth, a success always ends within them, so that the first success is taken.

## Key results

- `SearchEnd`, `exists_searchEnd`: the ways in which a search may end
- `Object.sample_eq_search`: what is searched for a sample between limits
- `Constraint.acceptWithin_eq_success`: a success is never refused
- `Object.sample_jointLimits`: a sample within the limits of a constraint
-/

namespace KinematicManifold

/-! ## Searching -/

section
variable {K : Type} {n : Nat} {attempt : Nat → Except Fault (Outcome K n)}
  {accept : Outcome K n → Except Fault Bool}

/-- An attempt that is refused, so that the next one is tried. -/
def Refused (attempt : Nat → Except Fault (Outcome K n)) (accept : Outcome K n → Except Fault Bool)
    (k : Nat) : Prop :=
  ∃ o, attempt k = .ok o ∧ accept o = .ok false

/-- The ways in which a search may end with an attempt: it ends in a fault, or the question whether
it is accepted does, or it is accepted, or it is the last one. -/
inductive SearchEnd (attempt : Nat → Except Fault (Outcome K n))
    (accept : Outcome K n → Except Fault Bool) (last : Nat) :
    Nat → Except Fault (Sample K n) → Prop
  | failed {k : Nat} {fault : Fault} : attempt k = .error fault →
      SearchEnd attempt accept last k (.error fault)
  | undecided {k : Nat} {o : Outcome K n} {fault : Fault} : attempt k = .ok o →
      accept o = .error fault → SearchEnd attempt accept last k (.error fault)
  | accepted {k : Nat} {o : Outcome K n} : attempt k = .ok o → accept o = .ok true →
      SearchEnd attempt accept last k (.ok ⟨o, k + 1⟩)
  | exhausted {o : Outcome K n} : attempt last = .ok o → accept o = .ok false →
      SearchEnd attempt accept last last (.ok ⟨o, last + 1⟩)

/-- A search ends with an attempt that is not refused. -/
theorem searchEnd_of_not_refused {first : Nat} (h : ¬Refused attempt accept first)
    (more last : Nat) :
    SearchEnd attempt accept last first (search attempt accept more first) := by
  unfold search
  -- an attempt that is not refused is the last
  cases hattempt : attempt first with
  | error fault => exact .failed hattempt
  | ok o =>
    simp only [bind, Except.bind]
    cases haccept : accept o with
    | error fault => exact .undecided hattempt haccept
    | ok accepted =>
      cases accepted with
      | true => exact .accepted hattempt haccept
      | false => exact absurd ⟨o, hattempt, haccept⟩ h

/-- A search goes on after an attempt that is refused. -/
theorem search_succ_of_refused {first : Nat} (h : Refused attempt accept first) (more : Nat) :
    search attempt accept (more + 1) first = search attempt accept more (first + 1) := by
  obtain ⟨o, hattempt, haccept⟩ := h
  rw [search]
  simp only [hattempt, haccept, bind, Except.bind]
  rfl

/-- Every search ends in one of these ways, and has refused the attempts before. -/
theorem exists_searchEnd (attempt : Nat → Except Fault (Outcome K n))
    (accept : Outcome K n → Except Fault Bool) (more first : Nat) :
    ∃ k ≤ first + more, (∀ j, first ≤ j → j < k → Refused attempt accept j) ∧
      SearchEnd attempt accept (first + more) k (search attempt accept more first) := by
  -- each attempt that is refused hands one less to the next number
  induction more generalizing first with
  | zero =>
    refine ⟨first, le_rfl, fun j hfirst hlt => absurd hlt (not_lt.2 hfirst), ?_⟩
    by_cases hrefused : Refused attempt accept first
    · obtain ⟨o, hattempt, haccept⟩ := hrefused
      rw [search_zero hattempt haccept]
      exact .exhausted hattempt haccept
    · exact searchEnd_of_not_refused hrefused 0 _
  | succ more ih =>
    by_cases hrefused : Refused attempt accept first
    · obtain ⟨k, hk, hbefore, hend⟩ := ih (first + 1)
      rw [search_succ_of_refused hrefused, show first + (more + 1) = first + 1 + more by omega]
      refine ⟨k, hk, fun j hfirst hlt => ?_, hend⟩
      obtain rfl | hlater := Nat.eq_or_lt_of_le hfirst
      · exact hrefused
      · exact hbefore j hlater hlt
    · exact ⟨first, Nat.le_add_right _ _, fun j hfirst hlt => absurd hlt (not_lt.2 hfirst),
        searchEnd_of_not_refused hrefused _ _⟩

/-- A search that accepts nothing ends with the last attempt. -/
theorem search_of_refused (h : ∀ k o, attempt k = .ok o → accept o = .ok false) {more first : Nat}
    {sample : Sample K n} (hsample : search attempt accept more first = .ok sample) :
    sample.draws = first + more + 1 ∧ attempt (first + more) = .ok sample.outcome := by
  obtain ⟨k, -, -, hend⟩ := exists_searchEnd attempt accept more first
  rw [hsample] at hend
  cases hend with
  | accepted hattempt haccepted => cases haccepted.symm.trans (h _ _ hattempt)
  | exhausted hattempt _ => exact ⟨rfl, hattempt⟩

/-- A search whose attempts have outcomes, which are accepted or not, has a result. -/
theorem exists_search_eq_ok (h : ∀ k, ∃ o, attempt k = .ok o ∧ ∃ accepted, accept o = .ok accepted)
    (more first : Nat) : ∃ sample, search attempt accept more first = .ok sample := by
  -- a search could only end without a sample at an attempt that fails
  obtain ⟨k, -, -, hend⟩ := exists_searchEnd attempt accept more first
  obtain ⟨o, hattempt, accepted, haccept⟩ := h k
  generalize search attempt accept more first = result at hend
  cases hend with
  | failed hfailed => cases hfailed.symm.trans hattempt
  | undecided hattempt' hfailed =>
    obtain rfl := Except.ok.inj (hattempt'.symm.trans hattempt)
    cases hfailed.symm.trans haccept
  | accepted _ _ => exact ⟨_, rfl⟩
  | exhausted _ _ => exact ⟨_, rfl⟩

end

/-! ## Draws -/

section
variable {K : Type} [Scalar K] {n : Nat}

/-- A budget that is not below one and can be counted out allows an attempt. -/
theorem Budget.pos_of_toAttempts_eq_ok {b : Budget} {attempts : Nat} (hone : b.isBelowOne = false)
    (h : b.toAttempts = .ok attempts) : 1 ≤ attempts := by
  -- a truth value counts as a number, and a float is no number of attempts
  cases b with
  | truth value =>
    obtain rfl : value = true := by simpa [isBelowOne] using hone
    obtain rfl := Except.ok.inj h
    exact le_rfl
  | integer value =>
    have hvalue : 1 ≤ value := by simpa [isBelowOne] using hone
    obtain rfl := Except.ok.inj h
    omega
  | float value => cases h

/-- The configuration that lies the given fractions of the way from the lower to the upper
limits. -/
def JointLimits.between (limits : JointLimits K n) (fractions : Vector K n) : Vector K n :=
  .ofFn fun i => limits.lower.get i +
    fractions.get i * (limits.upper.get i - limits.lower.get i)

/-- A draw between limits is a configuration between them, which is projected. -/
theorem Residual.projectDraw_ofConfiguration (r : Residual K n) (s : Settings K)
    (limits : JointLimits K n) (fractions : Vector K n) :
    r.projectDraw s (.ofConfiguration limits.lower) (.ofConfiguration limits.upper)
        (.ofConfiguration fractions) = r.project s (limits.between fractions) := by
  have hget (f : Fin n → K) (i : Fin n) : (Vector.ofFn f).get i = f i := by
    simp [Vector.get_eq_getElem]
  simp only [projectDraw, drawBetween, Nested.toTensor_ofConfiguration, bind, Except.bind,
    Tensor.map₂_ofConfiguration, Tensor.toConfiguration_ofConfiguration, hget]
  rfl

/-- A sample between limits is a search among the projections of draws between them. -/
theorem Object.sample_eq_search (o : Object K) (given : Option (Settings K))
    (limits : JointLimits K o.joints) {maxAttempts : Budget} {attempts : Nat}
    (hone : maxAttempts.isBelowOne = false) (hattempts : maxAttempts.toAttempts = .ok attempts)
    (fractions : Nat → Vector K o.joints) :
    o.sample given (.ofConfiguration limits.lower) (.ofConfiguration limits.upper) maxAttempts
        (fun k => .ofConfiguration (fractions k)) =
      search (fun k => o.constraint.residual.project (given.getD o.settings)
          (limits.between (fractions k)))
        (Residual.acceptWithin (.ofConfiguration limits.lower) (.ofConfiguration limits.upper)
          (given.getD o.settings).tolerance) (attempts - 1) 0 := by
  simp only [Object.sample, Residual.sample, hone, hattempts, Nested.toTensor_ofConfiguration, bind,
    Except.bind, Residual.projectDraw_ofConfiguration]
  rfl

end

/-! ## Limits of the constraint -/

section
variable {n : Nat} {c : Constraint ℝ n} {limits : JointLimits ℝ n}
  (hmem : .jointLimits limits ∈ c.leaves) (hordered : ∀ i, limits.lower.get i ≤ limits.upper.get i)
include hmem hordered

/-- Where a projection succeeds, the nearest configuration within limits of the constraint is nearer
than the tolerance. -/
theorem Constraint.norm_sub_nearest_lt_of_success {s : Settings ℝ} {q : Vector ℝ n}
    {p : Outcome ℝ n} (hp : c.residual.project s q = .ok p) (hsuccess : p.success = true) :
    Linear.norm (p.configuration - limits.nearest p.configuration) < s.tolerance := by
  obtain ⟨error, herror, -, hshort⟩ := Residual.run_reports hp
  exact norm_sub_nearest_lt hmem hordered herror
    (hshort (by simpa [Outcome.success] using hsuccess))

/-- A success is never refused for the limits of the constraint. -/
theorem Constraint.acceptWithin_eq_success {s : Settings ℝ} {q : Vector ℝ n} {p : Outcome ℝ n}
    (hp : c.residual.project s q = .ok p) :
    Residual.acceptWithin (.ofConfiguration limits.lower) (.ofConfiguration limits.upper)
      s.tolerance p = .ok p.success := by
  unfold Residual.acceptWithin
  split_ifs with hsuccess
  · rw [limits.withinBounds_of_norm_sub_nearest_le _ hordered
      (norm_sub_nearest_lt_of_success hmem hordered hp hsuccess).le, hsuccess]
  · rw [Bool.eq_false_iff.2 hsuccess]

end

/-- A sample between limits that the constraint has at some depth, with given settings or its own,
is decided by the projections of the draws alone. All draws before the last that is used are
projected without success. The last fails, or it is the first success, or no attempt is left and all
of them were without success. A success ends within the limits, up to the tolerance, and to move it
within them exactly moves it by less than the tolerance. -/
theorem Object.sample_jointLimits {o : Object ℝ} {limits : JointLimits ℝ o.joints}
    (hmem : .jointLimits limits ∈ o.constraint.leaves)
    (hordered : ∀ i, limits.lower.get i ≤ limits.upper.get i) (given : Option (Settings ℝ))
    {maxAttempts : Budget} {attempts : Nat} (hone : maxAttempts.isBelowOne = false)
    (hattempts : maxAttempts.toAttempts = .ok attempts) (fractions : Nat → Vector ℝ o.joints) :
    let s := given.getD o.settings
    let attempt (k : Nat) := o.constraint.residual.project s (limits.between (fractions k))
    let lower : Tensor ℝ := .ofConfiguration limits.lower
    let upper : Tensor ℝ := .ofConfiguration limits.upper
    let result := o.sample given (.ofConfiguration limits.lower) (.ofConfiguration limits.upper)
      maxAttempts fun k => .ofConfiguration (fractions k)
    ∃ k < attempts, (∀ j < k, ∃ p, attempt j = .ok p ∧ p.success = false) ∧
      ((∃ fault, attempt k = .error fault ∧ result = .error fault) ∨
      (∃ p, attempt k = .ok p ∧ p.success = true ∧ result = .ok ⟨p, k + 1⟩ ∧
        (Tensor.ofConfiguration p.configuration).withinBounds lower upper s.tolerance = .ok true ∧
        ∃ moved, (Tensor.ofConfiguration p.configuration).enforceBounds lower upper =
            .ok (.ofConfiguration moved) ∧
          (Tensor.ofConfiguration moved).withinBounds lower upper 0 = .ok true ∧
          Linear.norm (p.configuration - moved) < s.tolerance) ∨
      ∃ p, attempt k = .ok p ∧ p.success = false ∧ k + 1 = attempts ∧
        result = .ok ⟨p, attempts⟩) := by
  intro s attempt lower upper result
  have hpos : 1 ≤ attempts := Budget.pos_of_toAttempts_eq_ok hone hattempts
  -- the question whether an attempt is accepted never fails, and a success always is
  have haccept (j : Nat) (p : Outcome ℝ o.joints) (hp : attempt j = .ok p) :
      Residual.acceptWithin lower upper s.tolerance p = .ok p.success :=
    Constraint.acceptWithin_eq_success hmem hordered hp
  have hsearch : result = search attempt (Residual.acceptWithin lower upper s.tolerance)
      (attempts - 1) 0 := o.sample_eq_search given limits hone hattempts fractions
  obtain ⟨k, hk, hbefore, hend⟩ :=
    exists_searchEnd attempt (Residual.acceptWithin lower upper s.tolerance) (attempts - 1) 0
  rw [← hsearch] at hend
  refine ⟨k, by omega, fun j hj => ?_, ?_⟩
  · obtain ⟨p, hp, hrefused⟩ := hbefore j (Nat.zero_le j) hj
    exact ⟨p, hp, Except.ok.inj ((haccept j p hp).symm.trans hrefused)⟩
  · generalize result = ended at hend
    cases hend with
    | failed hattempt => exact .inl ⟨_, hattempt, rfl⟩
    | undecided hattempt hfault => cases (haccept k _ hattempt).symm.trans hfault
    | @accepted _ p hattempt haccepted =>
      have hsuccess : p.success = true :=
        Except.ok.inj ((haccept k p hattempt).symm.trans haccepted)
      have hnear : Linear.norm (p.configuration - limits.nearest p.configuration) < s.tolerance :=
        Constraint.norm_sub_nearest_lt_of_success hmem hordered hattempt hsuccess
      exact .inr (.inl ⟨p, hattempt, hsuccess, rfl,
        limits.withinBounds_of_norm_sub_nearest_le _ hordered hnear.le,
        limits.nearest p.configuration, limits.enforceBounds_eq_nearest p.configuration,
        limits.withinBounds_nearest p.configuration hordered, hnear⟩)
    | @exhausted p hattempt hrefused =>
      have hfail : p.success = false :=
        Except.ok.inj ((haccept _ p hattempt).symm.trans hrefused)
      have hlast : 0 + (attempts - 1) + 1 = attempts := by omega
      exact .inr (.inr ⟨p, hattempt, hfail, hlast, by rw [hlast]⟩)

/-- The arm is sampled between the limits of its joints, which stand one level down in its task. No
draw can fail, so that one of the three is reported. -/
theorem Object.sample_jointLimits_arm :
    .jointLimits rangeLimits ∈ armTask.leaves ∧
    (∀ i, rangeLimits.lower.get i ≤ rangeLimits.upper.get i) ∧
    (Budget.integer 3).isBelowOne = false ∧ (Budget.integer 3).toAttempts = .ok 3 ∧
    ∃ k < 3, ∃ p, Object.sample (⟨2, armTask, [], .standard⟩ : Object ℝ) none
        (.ofConfiguration rangeLimits.lower) (.ofConfiguration rangeLimits.upper) (.integer 3)
        (fun _ => .ofConfiguration (.ofFn ![1, 0])) = .ok ⟨p, k + 1⟩ ∧
      (p.success = false → k + 1 = 3) := by
  have hmem : .jointLimits rangeLimits ∈ armTask.leaves := by
    simp [armTask, Constraint.ofJointLimits, Constraint.leaves, Constraint.leavesAll]
  have hordered : ∀ i, rangeLimits.lower.get i ≤ rangeLimits.upper.get i := by
    intro i
    fin_cases i <;> simp [rangeLimits]
  have hone : (Budget.integer 3).isBelowOne = false := rfl
  refine ⟨hmem, hordered, hone, rfl, ?_⟩
  obtain ⟨k, hk, -, hend⟩ :=
    Object.sample_jointLimits (o := ⟨2, armTask, [], .standard⟩) hmem hordered none hone rfl
      fun _ => .ofFn ![1, 0]
  obtain ⟨fault, hattempt, -⟩ | ⟨p, -, hsuccess, hresult, -⟩ | ⟨p, -, -, hlast, hresult⟩ := hend
  · -- a chain with rigid origins never refuses a configuration
    have htotal := builtOn_armTask.isTotal isRigid_turnThenSlide
    let s : Settings ℝ := .standard
    obtain ⟨p, hp⟩ := Residual.exists_run_eq_ok htotal (not_dampingOverflows s.damping)
      s.maxIterations (rangeLimits.between (.ofFn ![1, 0])) 0
    cases hattempt.symm.trans hp
  · exact ⟨k, hk, p, hresult, fun hfail => by simp [hsuccess] at hfail⟩
  · exact ⟨k, hk, p, hlast ▸ hresult, fun _ => hlast⟩

end KinematicManifold
