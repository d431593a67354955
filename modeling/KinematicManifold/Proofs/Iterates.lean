import KinematicManifold.Proofs.Outcome

/-!
# The iterates of a projection

A run looks at one configuration after the other. Of each it finds the length of the error and the
configuration that follows, and nothing else decides how it goes on. So two runs go the same way if
they find the same at every configuration that one of them visits, and what every step keeps holds
of every configuration that is visited, the last one included.

## Key results

- `Residual.run_succ_of_find`: a run goes by what it finds
- `Residual.Visits`, `Residual.run_visits`: the configurations that a run looks at
- `Residual.Visits.invariant`: what every step keeps
- `Residual.run_map`, `Residual.run_mapError_congr`: runs that go the same way
-/

namespace KinematicManifold

variable {K : Type} [Scalar K] {n n' : Nat}

/-- What an iteration finds at a configuration. -/
structure Finding (K : Type) (n : Nat) where
  /-- The length of the error. -/
  norm : K
  /-- The configuration that follows if the error is long, if there is a step. -/
  next : Except Fault (Option (Vector K n))

/-- What is found when the configurations are read in another way. -/
def Finding.map (φ : Vector K n → Vector K n') (f : Finding K n) : Finding K n' :=
  ⟨f.norm, f.next.map (Option.map φ)⟩

omit [Scalar K] in
/-- Moving nothing leaves a finding as it is. -/
@[simp] theorem Finding.map_id : Finding.map id = (id : Finding K n → Finding K n) := by
  funext f
  rw [Finding.map, Option.map_id, Except.map_id]
  rfl

/-- An outcome whose configuration is read in another way. -/
def Outcome.map (φ : Vector K n → Vector K n') (o : Outcome K n) : Outcome K n' :=
  ⟨o.status, φ o.configuration, o.errorNorm, o.iterations⟩

omit [Scalar K] in
/-- Moving nothing leaves an outcome as it is. -/
@[simp] theorem Outcome.map_id : Outcome.map id = (id : Outcome K n → Outcome K n) := rfl

namespace Residual

variable {r : Residual K n} {s : Settings K} {budget taken : Nat} {q last : Vector K n}
  {o : Outcome K n}

/-! ## What a run finds -/

/-- What an iteration finds at a configuration. -/
def find (r : Residual K n) (s : Settings K) (q : Vector K n) : Except Fault (Finding K n) := do
  let error ← r.evaluate q
  return ⟨Linear.rowsNorm error, r.next s q error⟩

/-- Where the residual evaluates, it finds the norm of the error and the next configuration. -/
theorem find_eq_ok {error : List K} (h : r.evaluate q = .ok error) :
    r.find s q = .ok ⟨Linear.rowsNorm error, r.next s q error⟩ := by
  rw [find, h]
  rfl

/-- Where the residual fails, it finds nothing. -/
theorem find_eq_error {fault : Fault} (h : r.evaluate q = .error fault) :
    r.find s q = .error fault := by
  rw [find, h]
  rfl

/-- A finding tells what the error was. -/
theorem find_eq_ok_iff {f : Finding K n} : r.find s q = .ok f ↔
    ∃ error, r.evaluate q = .ok error ∧ f = ⟨Linear.rowsNorm error, r.next s q error⟩ := by
  cases h : r.evaluate q with
  | error fault => simp [find_eq_error h]
  | ok error => simp [find_eq_ok h, eq_comm]

/-- A run that finds nothing where it starts fails, whatever its budget is. -/
theorem run_of_find_eq_error {fault : Fault} (budget taken : Nat)
    (h : r.find s q = .error fault) : r.run s budget q taken = .error fault := by
  cases herror : r.evaluate q with
  | error other =>
    rw [find_eq_error herror] at h
    obtain rfl := Except.error.inj h
    exact run_of_evaluate_eq_error _ _ herror
  | ok error => simp [find_eq_ok herror] at h

section
variable {f : Finding K n} (hfind : r.find s q = .ok f)
include hfind

/-- Without a budget a run ends with what it finds where it starts. -/
theorem run_zero_of_find (taken : Nat) : r.run s 0 q taken = .ok (finish s q f.norm taken) := by
  obtain ⟨error, herror, rfl⟩ := find_eq_ok_iff.1 hfind
  exact run_zero taken herror

/-- A run ends where the norm it finds is not at least the tolerance. -/
theorem run_of_find_of_not_le (budget taken : Nat) (hshort : ¬s.tolerance ≤ f.norm) :
    r.run s budget q taken = .ok (finish s q f.norm taken) := by
  obtain ⟨error, herror, rfl⟩ := find_eq_ok_iff.1 hfind
  exact run_of_not_le budget taken herror hshort

/-- Where the error that is found is long, a run goes on from what follows. -/
theorem run_succ_of_find (budget taken : Nat) (hlong : s.tolerance ≤ f.norm) :
    r.run s (budget + 1) q taken = (do
      match ← f.next with
      | none => return ⟨.singular, q, f.norm, taken⟩
      | some p => r.run s budget p (taken + 1)) := by
  obtain ⟨error, herror, rfl⟩ := find_eq_ok_iff.1 hfind
  exact run_succ budget taken herror hlong

end

/-! ## The configurations that a run looks at -/

/-- A run with a budget, from a configuration, looks at another one. -/
inductive Visits (r : Residual K n) (s : Settings K) : Nat → Vector K n → Vector K n → Prop
  | start (budget : Nat) (q : Vector K n) : Visits r s budget q q
  | later {budget : Nat} {q p last : Vector K n} {f : Finding K n} (hfind : r.find s q = .ok f)
      (hlong : s.tolerance ≤ f.norm) (hnext : f.next = .ok (some p))
      (hrest : Visits r s budget p last) : Visits r s (budget + 1) q last

/-- A run ends at a configuration that it looked at. -/
theorem run_visits (h : r.run s budget q taken = .ok o) :
    r.Visits s budget q o.configuration := by
  induction budget generalizing q taken with
  | zero =>
    obtain ⟨error, -, h⟩ := bind_eq_ok_iff.1 h
    obtain rfl := Except.ok.inj h
    exact .start 0 q
  | succ budget ih =>
    obtain ⟨error, herror, hcases⟩ := run_succ_cases h
    obtain ⟨-, rfl⟩ | ⟨hlong, gradients, hgradients, ⟨-, rfl⟩ | ⟨step, hstep, hrest⟩⟩ := hcases
    · -- a run that stops is where it started
      exact .start _ q
    · exact .start _ q
    · -- or it goes on from where its first step leads
      refine .later (find_eq_ok herror) hlong ?_ (ih hrest)
      simp only [next, hgradients, hstep, bind, Except.bind]
      rfl

/-- What every step keeps holds of every configuration that a run looks at. -/
theorem Visits.invariant {P : Vector K n → Prop} (h : r.Visits s budget q last) (hstart : P q)
    (hstep : ∀ q f p, P q → r.find s q = .ok f → f.next = .ok (some p) → P p) : P last := by
  induction h with
  | start => exact hstart
  | later hfind _ hnext _ ih => exact ih (hstep _ _ _ hstart hfind hnext)

/-! ## Runs that go the same way -/

/-- Two runs go the same way, if they find the same wherever the first one looks: the configurations
of the second are those of the first, read in another way, and faults are compared as `g` shows
them. -/
theorem run_map {ε : Type} (g : Fault → ε) (φ : Vector K n → Vector K n') {r' : Residual K n'}
    (taken : Nat)
    (h : ∀ p, r.Visits s budget q p →
      (r'.find s (φ p)).mapError g = ((r.find s p).map (Finding.map φ)).mapError g) :
    (r'.run s budget (φ q) taken).mapError g =
      ((r.run s budget q taken).map (Outcome.map φ)).mapError g := by
  induction budget generalizing q taken with
  | zero =>
    rcases mapError_eq_iff.1 (h q (.start 0 q)) with ⟨f', hfind', hmap⟩ | ⟨a, b, hfind', hmap, hg⟩
    · obtain ⟨f, hfind, rfl⟩ := map_eq_ok_iff.1 hmap
      rw [run_zero_of_find hfind, run_zero_of_find hfind']
      rfl
    · rw [run_of_find_eq_error _ _ hfind', run_of_find_eq_error _ _ (map_eq_error_iff.1 hmap)]
      exact congrArg Except.error hg
  | succ budget ih =>
    rcases mapError_eq_iff.1 (h q (.start _ q)) with ⟨f', hfind', hmap⟩ | ⟨a, b, hfind', hmap, hg⟩
    · obtain ⟨f, hfind, rfl⟩ := map_eq_ok_iff.1 hmap
      by_cases hlong : s.tolerance ≤ f.norm
      · -- the runs go on together, or end together for want of a step
        rw [run_succ_of_find hfind _ _ hlong, run_succ_of_find hfind' _ _ hlong, Finding.map]
        rcases hnext : f.next with fault | _ | p
        · rfl
        · rfl
        · exact ih _ fun last hlast => h last (.later hfind hlong hnext hlast)
      · rw [run_of_find_of_not_le hfind _ _ hlong, run_of_find_of_not_le hfind' _ _ hlong]
        rfl
    · rw [run_of_find_eq_error _ _ hfind', run_of_find_eq_error _ _ (map_eq_error_iff.1 hmap)]
      exact congrArg Except.error hg

/-- Two runs are alike up to their faults, if what they find is wherever the first one looks. -/
theorem run_mapError_congr {ε : Type} (g : Fault → ε) {r' : Residual K n} (taken : Nat)
    (h : ∀ p, r.Visits s budget q p → (r'.find s p).mapError g = (r.find s p).mapError g) :
    (r'.run s budget q taken).mapError g = (r.run s budget q taken).mapError g := by
  have hmap := run_map g id taken fun p hp => by
    rw [Finding.map_id, Except.map_id]
    exact h p hp
  rwa [Outcome.map_id, Except.map_id] at hmap

/-- Two runs are the same, if what they find is wherever the first one looks. -/
theorem run_congr {r' : Residual K n} (h : ∀ p, r.Visits s budget q p → r'.find s p = r.find s p) :
    r'.run s budget q taken = r.run s budget q taken := by
  have hmap := run_mapError_congr id taken fun p hp => by rw [h p hp]
  rwa [mapError_id, mapError_id] at hmap

/-- Two runs have the same outcomes, if what they find is the same wherever the first one looks, or
nothing can be found by either. -/
theorem run_eq_ok_iff {r' : Residual K n}
    (h : ∀ p, r.Visits s budget q p → ∀ f, r'.find s p = .ok f ↔ r.find s p = .ok f) :
    r'.run s budget q taken = .ok o ↔ r.run s budget q taken = .ok o := by
  have hmap := run_mapError_congr (fun _ => ()) taken fun p hp =>
    mapError_const_eq_iff.2 (h p hp)
  exact mapError_const_eq_iff.1 hmap o

end Residual

end KinematicManifold
