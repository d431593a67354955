import KinematicManifold.Proofs.Iterates
import KinematicManifold.Proofs.Leaves
import KinematicManifold.Proofs.NewtonStep

/-!
# Stacked rows

An intersection stacks the rows of its members. Over the real numbers a projection does not see in
which order, since neither the length of the error nor the step depends on it. Nor does it see the
rows of a member that is satisfied wherever the projection looks: the excess over an interval whose
bounds are in order is zero only where its slope is zero, so that these rows have neither a value
nor a gradient.

## Key results

- `Constraint.HasRows`, `Constraint.HasRows.intersection`: the rows of a constraint, and how they
  are stacked
- `Constraint.HasRows.find_eq_ok`: what a projection finds depends on the rows alone
- `Constraint.get_eq_of_visits`: a joint that no gradient knows of is not moved
- `Constraint.hasRows_of_satisfied`: the rows of a satisfied constraint
- `Constraint.project_of_satisfied`: satisfied members do not disturb a projection
- `Constraint.project_perm`: the order of the members does not matter
-/

namespace KinematicManifold

variable {n : Nat}

/-! ## Gradients wherever there is an error -/

section
variable {K : Type} [Scalar K] {q : Vector K n}

/-- The gradients of a raw error can be had wherever the raw error can. -/
theorem Leaf.exists_rawJacobian_eq_ok {l : Leaf K n} {raw : List K} (h : l.rawError q = .ok raw) :
    ∃ gradients, l.rawJacobian q = .ok gradients := by
  -- the gradients ask for nothing that the error has not asked for
  cases l with
  | box c =>
    obtain ⟨state, hstate, -⟩ := bind_eq_ok_iff.1 h
    exact ⟨_, bind_eq_ok_iff.2 ⟨state, hstate, rfl⟩⟩
  | orientation c =>
    obtain ⟨state, hstate, h⟩ := bind_eq_ok_iff.1 h
    obtain ⟨deviation, hdeviation, -⟩ := bind_eq_ok_iff.1 h
    exact ⟨_, bind_eq_ok_iff.2 ⟨state, hstate, bind_eq_ok_iff.2 ⟨deviation, hdeviation, rfl⟩⟩⟩
  | jointLimits limits => exact ⟨_, rfl⟩
  | affine c => exact ⟨_, rfl⟩

/-- Where a single constraint evaluates it has a Jacobian. -/
theorem Leaf.exists_jacobian_eq_ok {l : Leaf K n} {error : List K} (h : l.evaluate q = .ok error) :
    ∃ gradients, l.jacobian q = .ok gradients := by
  obtain ⟨raw, hraw, -⟩ := bind_eq_ok_iff.1 h
  obtain ⟨gradients, hgradients⟩ := exists_rawJacobian_eq_ok hraw
  exact ⟨_, bind_eq_ok_iff.2 ⟨raw, hraw, bind_eq_ok_iff.2 ⟨gradients, hgradients, rfl⟩⟩⟩

namespace Constraint

/-- The gradients of a constraint can be had wherever its error can. -/
theorem exists_jacobian_eq_ok {c : Constraint K n} {error : List K} (h : c.evaluate q = .ok error) :
    ∃ gradients, c.jacobian q = .ok gradients := by
  have hleaves : ∀ l ∈ c.leaves, ∃ gradients, l.jacobian q = .ok gradients := by
    intro l hl
    obtain ⟨rows, hrows, -⟩ := exists_evaluate_eq_ok h hl
    exact Leaf.exists_jacobian_eq_ok hrows
  obtain ⟨gradients, hgradients⟩ := exists_forall₂ hleaves
  exact ⟨_, jacobian_eq_ok_iff.2 ⟨gradients, hgradients, rfl⟩⟩

/-! ## Rows -/

/-- A constraint has some rows at a configuration: each is a gradient and a value. -/
def HasRows (c : Constraint K n) (q : Vector K n) (rows : List (Vector K n × K)) : Prop :=
  c.evaluate q = .ok (rows.map Prod.snd) ∧ c.jacobian q = .ok (rows.map Prod.fst)

/-- A constraint has rows wherever its error can be had. -/
theorem exists_hasRows {c : Constraint K n} {error : List K} (h : c.evaluate q = .ok error) :
    ∃ rows, c.HasRows q rows := by
  obtain ⟨gradients, hgradients⟩ := exists_jacobian_eq_ok h
  have hlength := length_jacobian h hgradients
  refine ⟨gradients.zip error, ?_, ?_⟩
  · rw [h, List.map_snd_zip hlength.ge]
  · rw [hgradients, List.map_fst_zip hlength.le]

/-- A constraint has an error and gradients everywhere, one gradient for each row, if its single
constraints have an error everywhere. -/
theorem isTotal_residual {c : Constraint K n}
    (h : ∀ l ∈ c.leaves, ∀ q, ∃ error, l.evaluate q = .ok error) : c.residual.IsTotal := by
  intro q
  obtain ⟨rows, hrows⟩ := exists_forall₂ fun l hl => h l hl q
  have herror : c.evaluate q = .ok rows.flatten := evaluate_eq_ok_iff.2 ⟨rows, hrows, rfl⟩
  obtain ⟨gradients, hgradients⟩ := exists_jacobian_eq_ok herror
  exact ⟨rows.flatten, gradients, herror, hgradients, length_jacobian herror hgradients⟩

/-- An intersection stacks the rows of its members. -/
theorem HasRows.intersection {members : List (Constraint K n)}
    {pieces : List (List (Vector K n × K))}
    (h : List.Forall₂ (fun c piece => c.HasRows q piece) members pieces) :
    (intersection members).HasRows q pieces.flatten := by
  constructor
  · -- the values of the rows are stacked
    rw [evaluate_intersection, mapM_flatten_eq_ok_iff]
    refine ⟨pieces.map (List.map Prod.snd), ?_, List.map_flatten.symm⟩
    rw [List.forall₂_map_right_iff]
    exact h.imp fun _ _ hrows => hrows.1
  · -- and so are their gradients
    rw [jacobian_intersection, mapM_flatten_eq_ok_iff]
    refine ⟨pieces.map (List.map Prod.fst), ?_, List.map_flatten.symm⟩
    rw [List.forall₂_map_right_iff]
    exact h.imp fun _ _ hrows => hrows.2

/-- The members of an intersection have rows wherever its error can be had. -/
theorem exists_pieces {members : List (Constraint K n)} {error : List K}
    (h : (intersection members).evaluate q = .ok error) :
    ∃ pieces, List.Forall₂ (fun c piece => c.HasRows q piece) members pieces := by
  rw [evaluate_intersection, mapM_flatten_eq_ok_iff] at h
  obtain ⟨errors, herrors, -⟩ := h
  refine exists_forall₂ fun c hc => ?_
  obtain ⟨error, -, herror⟩ := forall₂_exists_mem herrors hc
  exact exists_hasRows herror

/-- What a projection finds depends on the rows alone. -/
theorem HasRows.find_eq_ok {c : Constraint K n} {rows : List (Vector K n × K)} (s : Settings K)
    (h : c.HasRows q rows) :
    c.residual.find s q = .ok ⟨Linear.rowsNorm (rows.map Prod.snd),
      (newtonStep s.damping (rows.map Prod.fst) (rows.map Prod.snd)).map
        (Option.map fun step => q + capStep s.maxStep step)⟩ := by
  have hjacobian : c.residual.jacobian q = .ok (rows.map Prod.fst) := h.2
  rw [Residual.find_eq_ok h.1, Residual.next, hjacobian]
  simp only [bind, Except.bind, Except.ok.injEq, Finding.mk.injEq, true_and]
  cases newtonStep s.damping (rows.map Prod.fst) (rows.map Prod.snd) <;> rfl

end Constraint

end

/-! ## Joints that stay where they are -/

/-- A joint that no gradient knows of, as long as it stays where it is, does so throughout a
projection. -/
theorem Constraint.get_eq_of_visits {c : Constraint ℝ n} {s : Settings ℝ} {budget : Nat}
    {q last : Vector ℝ n} {j : Fin n}
    (h : ∀ p gradients, p.get j = q.get j → c.jacobian p = .ok gradients →
      ∀ g ∈ gradients, g.get j = 0)
    (hvisits : c.residual.Visits s budget q last) : last.get j = q.get j := by
  refine hvisits.invariant (P := fun p => p.get j = q.get j) rfl ?_
  intro p found p' hp hfind hnext
  obtain ⟨error, herror, rfl⟩ := Residual.find_eq_ok_iff.1 hfind
  obtain ⟨gradients, hgradients, hnext⟩ := bind_eq_ok_iff.1 hnext
  obtain ⟨answer, hanswer, hnext⟩ := bind_eq_ok_iff.1 hnext
  obtain ⟨step, rfl, rfl⟩ := Option.map_eq_some_iff.1 (Except.ok.inj hnext)
  -- no gradient moves the entry, so that no step does
  have hstep : step.get j = 0 :=
    newtonStep_get_eq_zero (length_jacobian herror hgradients) (h p gradients hp hgradients) hanswer
  rw [Linear.get_add, Pi.add_apply, get_capStep_eq_zero hstep, add_zero, hp]

/-! ## Values and lengths -/

/-- The value of an affine form is its offset and the product of its gradient with the
configuration. -/
theorem AffineRow.valueAt_eq (row : AffineRow ℝ n) (q : Vector ℝ n) :
    row.valueAt q = row.offset + row.gradient.get ⬝ᵥ q.get := by
  -- adding one by one from the left is adding the sum
  have hfold (pairs : List (ℝ × ℝ)) (start : ℝ) :
      pairs.foldl (fun sum (a, x) => sum + a * x) start =
        start + (pairs.map fun (a, x) => a * x).sum := by
    induction pairs generalizing start with
    | nil => rw [List.foldl_nil, List.map_nil, List.sum_nil, add_zero]
    | cons pair rest ih => rw [List.foldl_cons, ih, List.map_cons, List.sum_cons, add_assoc]
  rw [AffineRow.valueAt, hfold, ← Linear.dot_eq, Linear.dot, ← Vector.sum_toList,
    Vector.toList_zip, Vector.toList_zipWith, List.map_zip_eq_zipWith]
  rfl

namespace Linear

/-- The order of the rows does not matter to the norm. -/
theorem rowsNorm_perm {error error' : List ℝ} (h : error.Perm error') :
    rowsNorm error = rowsNorm error' := by
  rw [rowsNorm_eq, rowsNorm_eq, (h.map _).sum_eq]

/-- Rows of zeros add nothing to the norm. -/
theorem rowsNorm_append_zero (error : List ℝ) {zeros : List ℝ} (h : ∀ value ∈ zeros, value = 0) :
    rowsNorm (error ++ zeros) = rowsNorm error := by
  have hzeros : (zeros.map (· ^ 2)).sum = 0 := by
    refine List.sum_eq_zero ?_
    rw [List.forall_mem_map]
    intro value hvalue
    rw [h value hvalue, zero_pow two_ne_zero]
  rw [rowsNorm_eq, rowsNorm_eq, List.map_append, List.sum_append, hzeros, add_zero]

end Linear

/-! ## Satisfied constraints -/

section
variable {q : Vector ℝ n} {error : List ℝ}

/-- No interval of a single constraint has crossed bounds. -/
def Leaf.IsOrdered (l : Leaf ℝ n) : Prop :=
  ∀ interval ∈ l.intervals, interval.lower ≤ interval.upper

/-- Where a single constraint has no error it has no gradients, since no interval is left where its
excess is zero. -/
theorem Leaf.eq_zero_of_mem_jacobian {l : Leaf ℝ n} {gradients : List (Vector ℝ n)}
    (hordered : l.IsOrdered) (herror : l.evaluate q = .ok error) (hzero : ∀ row ∈ error, row = 0)
    (hgradients : l.jacobian q = .ok gradients) : ∀ g ∈ gradients, g = 0 := by
  obtain ⟨raw, hraw, h⟩ := bind_eq_ok_iff.1 herror
  obtain ⟨same, hsame, h'⟩ := bind_eq_ok_iff.1 hgradients
  obtain ⟨rawGradients, -, h'⟩ := bind_eq_ok_iff.1 h'
  obtain rfl := Except.ok.inj (hraw.symm.trans hsame)
  obtain rfl := Except.ok.inj h
  obtain rfl := Except.ok.inj h'
  intro g hg
  obtain ⟨slope, gradient, hpair, rfl⟩ := mem_zipWith_iff.1 hg
  -- the slope is that of an interval and a raw value side by side
  obtain ⟨interval, value, hrow, rfl⟩ := mem_zipWith_iff.1 (List.of_mem_zip hpair).1
  have hexcess : interval.excess value = 0 :=
    hzero _ (mem_zipWith_iff.2 ⟨interval, value, hrow, rfl⟩)
  have hcontains :=
    (Interval.excess_eq_zero_iff (hordered interval (List.of_mem_zip hrow).1)).1 hexcess
  refine Linear.ext_get ?_
  rw [Interval.slope_of_contains hcontains, Linear.get_scale, zero_smul, Linear.get_zero]

namespace Constraint

/-- Where a constraint has no error its rows have neither a value nor a gradient, at whatever
depth. -/
theorem hasRows_of_satisfied {c : Constraint ℝ n} (hordered : ∀ l ∈ c.leaves, l.IsOrdered)
    (herror : c.evaluate q = .ok error) (hzero : ∀ row ∈ error, row = 0) :
    ∃ rows, c.HasRows q rows ∧ (∀ row ∈ rows, row.1 = 0) ∧ ∀ row ∈ rows, row.2 = 0 := by
  obtain ⟨rows, hvalues, hgradients⟩ := exists_hasRows herror
  refine ⟨rows, ⟨hvalues, hgradients⟩, ?_, ?_⟩
  · intro row hrow
    -- its gradient is one of a single constraint, which has no error either
    obtain ⟨l, hl, piece, hjacobian, hmem⟩ :=
      exists_leaf_of_mem_jacobian hgradients (List.mem_map_of_mem hrow)
    obtain ⟨values, hevaluate, hsubset⟩ := exists_evaluate_eq_ok herror hl
    exact Leaf.eq_zero_of_mem_jacobian (hordered l hl) hevaluate
      (fun value hvalue => hzero value (hsubset hvalue)) hjacobian _ hmem
  · obtain rfl := Except.ok.inj (hvalues.symm.trans herror)
    rwa [List.forall_mem_map] at hzero

end Constraint

end

/-! ## Projections onto stacks -/

namespace Constraint

variable {a b : Constraint ℝ n} {q : Vector ℝ n} {s : Settings ℝ}

/-- Rows in another order are found to be the same. -/
theorem HasRows.find_perm {rows rows' : List (Vector ℝ n × ℝ)} (ha : a.HasRows q rows)
    (hb : b.HasRows q rows') (h : rows.Perm rows') : a.residual.find s q = b.residual.find s q := by
  rw [ha.find_eq_ok, hb.find_eq_ok, newtonStep_perm s.damping h, Linear.rowsNorm_perm (h.map _)]

/-- A constraint that is satisfied adds nothing to what is found. -/
theorem find_append_satisfied (hordered : ∀ l ∈ b.leaves, l.IsOrdered) {error : List ℝ}
    (herror : b.evaluate q = .ok error) (hzero : ∀ row ∈ error, row = 0) :
    (intersection [a, b]).residual.find s q = a.residual.find s q ∧
      (intersection [b, a]).residual.find s q = a.residual.find s q := by
  obtain ⟨others, hothers, hgradients, hvalues⟩ := hasRows_of_satisfied hordered herror hzero
  cases ha : a.evaluate q with
  | error fault =>
    -- the satisfied member has no fault, so that the other one fails in either place
    have hfault : a.residual.find s q = .error fault := Residual.find_eq_error ha
    rw [hfault]
    constructor
    · refine Residual.find_eq_error ?_
      simp only [residual, evaluate, evaluateAll, ha, bind, Except.bind]
    · refine Residual.find_eq_error ?_
      simp only [residual, evaluate, evaluateAll, ha, herror, bind, Except.bind]
  | ok error =>
    obtain ⟨rows, hrows⟩ := exists_hasRows ha
    have hfirst : (intersection [a, b]).HasRows q [rows, others].flatten :=
      .intersection (.cons hrows (.cons hothers .nil))
    have hsecond : (intersection [b, a]).HasRows q [others, rows].flatten :=
      .intersection (.cons hothers (.cons hrows .nil))
    have hkey : (intersection [a, b]).residual.find s q = a.residual.find s q := by
      have hzeros : ∀ value ∈ others.map Prod.snd, value = 0 := by rwa [List.forall_mem_map]
      rw [hfirst.find_eq_ok, hrows.find_eq_ok, List.flatten_cons, List.flatten_singleton,
        newtonStep_append_zero s.damping rows hgradients, List.map_append,
        Linear.rowsNorm_append_zero _ hzeros]
    refine ⟨hkey, ?_⟩
    rw [← hkey]
    exact hsecond.find_perm hfirst (List.Perm.swap _ _ _).flatten

/-- A member that is satisfied wherever a projection looks does not disturb it, be it the first or
the last one. -/
theorem project_of_satisfied (hordered : ∀ l ∈ b.leaves, l.IsOrdered)
    (hsatisfied : ∀ p, a.residual.Visits s s.maxIterations q p →
      ∃ error, b.evaluate p = .ok error ∧ ∀ row ∈ error, row = 0) :
    (intersection [a, b]).residual.project s q = a.residual.project s q ∧
      (intersection [b, a]).residual.project s q = a.residual.project s q := by
  constructor
  · refine Residual.run_congr fun p hp => ?_
    obtain ⟨error, herror, hzero⟩ := hsatisfied p hp
    exact (find_append_satisfied hordered herror hzero).1
  · refine Residual.run_congr fun p hp => ?_
    obtain ⟨error, herror, hzero⟩ := hsatisfied p hp
    exact (find_append_satisfied hordered herror hzero).2

/-- The first of two joints is to stand at one. -/
noncomputable def firstAtOne : Constraint ℝ 2 :=
  leaf (.affine ⟨[⟨.ofFn ![1, 0], 0, ⟨1, 1⟩⟩], none⟩)

/-- The second of two joints is to stand between minus one and one. -/
noncomputable def secondInRange : Constraint ℝ 2 :=
  intersection [leaf (.affine ⟨[⟨.ofFn ![0, 1], 0, ⟨-1, 1⟩⟩], none⟩)]

/-- The range of the second joint has its bounds in order. -/
theorem isOrdered_secondInRange : ∀ l ∈ secondInRange.leaves, l.IsOrdered := by
  norm_num [secondInRange, leaves, leavesAll, Leaf.IsOrdered, Leaf.intervals]

/-- While the first joint goes to its place, the second one stays at zero. -/
theorem get_one_of_visits_firstAtOne {p : Vector ℝ 2} {budget : Nat}
    (h : firstAtOne.residual.Visits s budget 0 p) : p.get 1 = 0 := by
  rw [get_eq_of_visits (j := 1) ?_ h, Linear.get_zero, Pi.zero_apply]
  intro p gradients _ hgradients
  obtain rfl := Except.ok.inj hgradients
  simp [Leaf.intervals]

/-- It is kept, with rows of zeros, while the second joint is at zero. -/
theorem evaluate_secondInRange {p : Vector ℝ 2} (h : p.get 1 = 0) :
    ∃ error, secondInRange.evaluate p = .ok error ∧ ∀ row ∈ error, row = 0 := by
  have hvalue : (⟨.ofFn ![0, 1], 0, ⟨-1, 1⟩⟩ : AffineRow ℝ 2).valueAt p = 0 := by
    simp [AffineRow.valueAt_eq, dotProduct, Fin.sum_univ_two, h]
  have hcontains : (⟨-1, 1⟩ : Interval ℝ).Contains 0 := ⟨by norm_num, by norm_num⟩
  refine ⟨[0], ?_, by simp⟩
  rw [secondInRange, evaluate_intersection]
  simp [Leaf.evaluate, Leaf.rawError, Leaf.intervals, evaluate, hvalue, bind, Except.bind,
    Except.map, pure, Except.pure, Interval.excess_of_contains hcontains]

/-- The second joint is in its range while the first one goes to its place. -/
theorem project_of_satisfied_secondInRange :
    (∀ l ∈ secondInRange.leaves, l.IsOrdered) ∧
    (∀ p, firstAtOne.residual.Visits .standard (Settings.standard : Settings ℝ).maxIterations 0 p →
      ∃ error, secondInRange.evaluate p = .ok error ∧ ∀ row ∈ error, row = 0) ∧
    (intersection [firstAtOne, secondInRange]).residual.project .standard 0 =
        firstAtOne.residual.project .standard 0 ∧
      (intersection [secondInRange, firstAtOne]).residual.project .standard 0 =
        firstAtOne.residual.project .standard 0 := by
  have hsatisfied : ∀ p, firstAtOne.residual.Visits .standard
      (Settings.standard : Settings ℝ).maxIterations 0 p →
        ∃ error, secondInRange.evaluate p = .ok error ∧ ∀ row ∈ error, row = 0 := by
    intro p hp
    exact evaluate_secondInRange (get_one_of_visits_firstAtOne hp)
  exact ⟨isOrdered_secondInRange, hsatisfied,
    project_of_satisfied isOrdered_secondInRange hsatisfied⟩

/-- Members in another order are found to be the same. -/
theorem find_perm {members members' : List (Constraint ℝ n)} (h : members.Perm members')
    {found : Finding ℝ n} (hfind : (intersection members).residual.find s q = .ok found) :
    (intersection members').residual.find s q = .ok found := by
  obtain ⟨error, herror, -⟩ := Residual.find_eq_ok_iff.1 hfind
  obtain ⟨pieces, hpieces⟩ := exists_pieces herror
  obtain ⟨pieces', hpieces', hperm⟩ := List.perm_comp_forall₂ h.symm hpieces
  rw [← hfind]
  exact (HasRows.intersection hpieces').find_perm (.intersection hpieces) hperm.flatten

/-- The order of the members does not matter to the outcome of a projection. -/
theorem project_perm {members members' : List (Constraint ℝ n)} (h : members.Perm members')
    (s : Settings ℝ) (q : Vector ℝ n) (o : Outcome ℝ n) :
    (intersection members).residual.project s q = .ok o ↔
      (intersection members').residual.project s q = .ok o :=
  Residual.run_eq_ok_iff fun _ _ _ => ⟨find_perm h, find_perm h.symm⟩

/-- Two rows with the same gradient before and after a third one, and least-squares steps. -/
theorem project_perm_parallelLines :
    [parallelLines, firstAtOne].Perm [firstAtOne, parallelLines] ∧
    ∃ o, (intersection [parallelLines, firstAtOne]).residual.project
        { Settings.standard with damping := 0 } 0 = .ok o ∧
      (intersection [firstAtOne, parallelLines]).residual.project
        { Settings.standard with damping := 0 } 0 = .ok o := by
  have hperm : [parallelLines, firstAtOne].Perm [firstAtOne, parallelLines] := .swap _ _ _
  -- affine constraints evaluate everywhere
  have htotal : (intersection [parallelLines, firstAtOne]).residual.IsTotal := by
    refine isTotal_residual ?_
    simp only [leaves, leavesAll, parallelLines, firstAtOne, List.cons_append, List.nil_append,
      List.forall_mem_cons]
    exact ⟨fun q => ⟨_, rfl⟩, fun q => ⟨_, rfl⟩, List.forall_mem_nil _⟩
  obtain ⟨o, ho⟩ := Residual.exists_run_eq_ok htotal (not_dampingOverflows _)
    (Settings.standard : Settings ℝ).maxIterations 0 0
  exact ⟨hperm, o, ho, (project_perm hperm _ 0 o).1 ho⟩

end Constraint

end KinematicManifold
