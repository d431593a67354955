import KinematicManifold.Proofs.BuiltStores
import KinematicManifold.Proofs.Iterations

/-!
# Projection in place

A projection in place reads a stored array, projects what it holds, and overwrites it. It is a
computation on the stored value, in which what was written before a fault would stay written. Since
the array is overwritten once, after everything that may fail, a fault leaves it as it was.

The answer is whether the projection succeeds. An object can also be asked whether it is satisfied
at the configuration that is left in the array. It then measures the error again, with the tolerance
that it has, so that both have to give the same verdict, also where the length of the error is no
number.

The array may be one that the object was made from: an offset or limits that were not copied. What
the object asks for then depends on what the array holds. While the projection runs, this is what
the array held at the start, so that it goes as it would with a copy. But when the array is
overwritten the object is another one, and the verdict is that of the object as it was.

## Key results

- `Reply.projectShared_on`: what a projection in place does to a stored value
- `Reply.projectShared_eq`: shared memory does not matter to the projection itself
- `Store.Built.projectWith_eq`, `Store.Built.projectInPlace_eq`: by reference, a projection is the
  one that an object makes of its own
- `Object.isSatisfied_of_project`: a success against the question whether an object is satisfied
- `Store.Built.projectInPlace_agrees`: all ways to project an array agree
- `not_forall_isSatisfied_of_projectShared`: but for the question that is asked afterwards, if
  memory is shared
-/

namespace KinematicManifold

open Scalar (IsNumber LawfulOrder)

/-! ## Computations on a stored value -/

/-- A computation that reads and writes a stored value, and may end in a fault. -/
abbrev OnStored (K : Type) := ExceptT Fault (StateM (Stored K))

/-- The result of a computation, and what is stored afterwards. -/
def OnStored.on {K α : Type} (m : OnStored K α) (stored : Stored K) : Except Fault α × Stored K :=
  m.run.run stored

/-- A stored array with other numbers. -/
def Stored.overwrite {K : Type} (content : Tensor K) : Stored K → Stored K
  | list entries => list entries
  | array elements writable _ => array elements writable content

/-- The last configuration of an outcome is written, and whether it is a success is returned. -/
def Outcome.store {K : Type} {n : Nat} (o : Outcome K n) : OnStored K Bool := do
  modify (Stored.overwrite (.ofConfiguration o.configuration))
  return o.success

/-- What may fail does not reach the stored value, and nothing follows where it fails. -/
theorem OnStored.on_lift_bind {K α β : Type} (e : Except Fault α) (f : α → OnStored K β)
    (stored : Stored K) : ((liftM e : OnStored K α) >>= f).on stored = match e with
      | .error fault => (.error fault, stored)
      | .ok value => (f value).on stored := by
  cases e <;> rfl

section
variable {K : Type} [Scalar K] {n : Nat}

namespace Reply

/-- What an object asks for, as the projections of arrays see it. -/
def residual (r : Reply K n) : Residual K n :=
  ⟨fun q => r.evaluate (.ofConfiguration q), fun q => r.jacobian (.ofConfiguration q)⟩

/-- The projection of what an array holds, with the given settings or with standard ones. -/
def projectWith (r : Reply K n) (given : Option (Settings K)) (t : Tensor K) :
    Except Fault (Outcome K n) := do
  let q ← t.toConfiguration n
  r.residual.project (given.getD .standard) q

/-- A projection in place, of an array that may share its memory with an object: it answers as `r t`
while the array holds `t`. The projection ends before the array is overwritten. -/
def projectShared (r : Tensor K → Reply K n) : OnStored K Bool := do
  let content ← (← get).openArray
  let outcome ← (r content).project content
  outcome.store

/-- A projection in place, of an array that has its memory for itself. -/
def projectInPlace (r : Reply K n) : OnStored K Bool := projectShared fun _ => r

end Reply

/-- What projects with settings that are fixed. -/
structure Projector (K : Type) where
  config : Settings K

namespace Projector

/-- The projector that has the given settings, or standard ones. -/
def ofSettings (given : Option (Settings K)) : Projector K := ⟨given.getD .standard⟩

/-- The projection of what an array holds. -/
def project (p : Projector K) (r : Reply K n) (t : Tensor K) : Except Fault (Outcome K n) :=
  r.projectWith (some p.config) t

end Projector

/-! ## What is stored afterwards -/

omit [Scalar K] in
/-- An open array is overwritten by what its projection ends with. Where there is no outcome, the
stored value stays as it is. -/
theorem Reply.projectShared_on (r : Tensor K → Reply K n) (stored : Stored K) :
    (projectShared r).on stored =
      match stored.openArray >>= fun content => (r content).project content with
      | .error fault => (.error fault, stored)
      | .ok outcome =>
        (.ok outcome.success, stored.overwrite (.ofConfiguration outcome.configuration)) := by
  have hread : (projectShared r).on stored = ((liftM stored.openArray : OnStored K _) >>=
      fun content => (liftM ((r content).project content) : OnStored K _) >>= Outcome.store).on
        stored := rfl
  -- what fails before the array is written leaves it as it is
  rw [hread, OnStored.on_lift_bind]
  cases stored.openArray with
  | error fault => rfl
  | ok content =>
    refine (OnStored.on_lift_bind ((r content).project content) Outcome.store stored).trans ?_
    cases hproject : (r content).project content with
    | error fault => simp only [bind, Except.bind, hproject]
    | ok outcome =>
      simp only [bind, Except.bind, hproject]
      rfl

omit [Scalar K] in
/-- Projecting in place opens the array, projects what it holds and writes the outcome back, or
leaves the array as it is on any fault. -/
theorem Reply.projectInPlace_on (r : Reply K n) (stored : Stored K) :
    r.projectInPlace.on stored = match stored.openArray >>= r.project with
      | .error fault => (.error fault, stored)
      | .ok outcome =>
        (.ok outcome.success, stored.overwrite (.ofConfiguration outcome.configuration)) :=
  projectShared_on (fun _ => r) stored

omit [Scalar K] in
/-- Whether memory is shared or not, an array goes the way it would alone, with the object as it is
while the array holds what it held at the start. -/
theorem Reply.projectShared_eq (r : Tensor K → Reply K n) (content : Tensor K) :
    (projectShared r).on (.array .float64 true content) =
      (r content).projectInPlace.on (.array .float64 true content) := by
  rw [projectShared_on, projectInPlace_on]
  rfl

omit [Scalar K] in
/-- Only an array of double precision that may be written is open. -/
theorem Stored.openArray_eq_ok_iff {stored : Stored K} {content : Tensor K} :
    stored.openArray = .ok content ↔ stored = .array .float64 true content := by
  constructor
  · intro h
    unfold openArray at h
    -- lists have no array to write to
    split at h
    · cases h
    · split_ifs at h with helements hwritable
      · obtain rfl := Except.ok.inj h
        rw [not_not.1 helements, hwritable]
  · rintro rfl
    rfl

/-! ## One verdict -/

/-- Where a projection ends, the object is satisfied exactly if the projection is a success. -/
theorem Object.isSatisfied_of_project [LawfulOrder K] {o : Object K} {s : Store K} {number : Nat}
    (hvalid : o.settings.Valid) {t : Tensor K} {outcome : Outcome K o.joints}
    (h : (o.reply s number).project t = .ok outcome) :
    (o.reply s number).isSatisfied (.ofConfiguration outcome.configuration) =
      .ok outcome.success := by
  obtain ⟨config, hconfig, h⟩ := bind_eq_ok_iff.1 h
  obtain rfl : o.settings = config := Except.ok.inj (hvalid.build_describe.symm.trans hconfig)
  obtain ⟨q, -, hrun⟩ := bind_eq_ok_iff.1 h
  have haccounts := Residual.project_accounts hvalid hrun
  obtain ⟨error, herror, hnorm⟩ := haccounts.errorNorm_eq
  have hevaluate : s.evaluate number (.ofConfiguration outcome.configuration) = .ok error := herror
  -- the length of the error is measured again, and compared with the same tolerance
  have hverdict : decide (Linear.rowsNorm error < o.settings.tolerance) = outcome.success := by
    rw [← hnorm, Outcome.success, Bool.eq_iff_iff, decide_eq_true_iff, beq_iff_eq,
      haccounts.success_iff]
  simp only [reply, hevaluate, bind, Except.bind, hverdict]
  rfl

/-- A projector and the projection of arrays do what the object does, with its own settings. -/
theorem Object.reply_project_eq_projectWith {o : Object K} (s : Store K) (number : Nat)
    (hvalid : o.settings.Valid) (t : Tensor K) :
    (o.reply s number).project t = (o.reply s number).projectWith (some o.settings) t := by
  simp only [reply, hvalid.build_describe, bind, Except.bind]
  rfl

/-- The projection of an array, with any settings, is the one that the object makes of its own. -/
theorem Store.Built.projectWith_eq {s : Store K} (hs : s.Built fun _ l => l.IsNamed)
    {number : Nat} {o : Object K} (ho : s.get? number = some o) (config : Settings K)
    {given : Nested K} {t : Tensor K} (ht : given.toTensor = .ok t) :
    (o.reply s number).projectWith (some config) t = o.projectWith config given := by
  have hresidual : (o.reply s number).residual = o.constraint.residual :=
    hs.residual_eq (fun _ _ h => h) ho
  simp only [Reply.projectWith, hresidual, Object.projectWith, Object.read, ht, bind, Except.bind,
    Option.getD_some]

/-- A projection in place by reference is the one that the object makes of its own. -/
theorem Store.Built.projectInPlace_eq {s : Store K} (hs : s.Built fun _ l => l.IsNamed)
    {number : Nat} {o : Object K} (ho : s.get? number = some o) (stored : Stored K) :
    (o.reply s number).projectInPlace.on stored = match o.projectStored stored with
      | .error fault => (.error fault, stored)
      | .ok (success, after) => (.ok success, after) := by
  have hproject (t : Tensor K) := hs.reply_project_eq (fun _ _ h => h) ho t
  rw [Reply.projectInPlace_on, Object.projectStored, Stored.projectInPlace]
  cases hopen : stored.openArray with
  | error fault => rfl
  | ok content =>
    -- the object reads the array that was opened
    obtain rfl := Stored.openArray_eq_ok_iff.1 hopen
    have hok : (Except.ok content >>= (o.reply s number).project) =
      (o.reply s number).project content := rfl
    rw [hok, hproject content]
    cases hq : content.toConfiguration o.joints with
    | error fault => simp only [bind, Except.bind, hq]
    | ok q =>
      simp only [bind, Except.bind, hq]
      cases o.constraint.residual.project o.settings q <;> rfl

omit [Scalar K] in
/-- An open array after its projection. -/
theorem Reply.projectInPlace_on_array (r : Reply K n) (content : Tensor K) :
    r.projectInPlace.on (.array .float64 true content) = match r.project content with
      | .error fault => (.error fault, .array .float64 true content)
      | .ok outcome =>
        (.ok outcome.success, .array .float64 true (.ofConfiguration outcome.configuration)) :=
  r.projectInPlace_on (.array .float64 true content)

/-- Where a projection in place ends, its answer is that of the projection of the array, and the
verdict of the object at what the array holds now. -/
theorem Object.exists_of_projectInPlace [LawfulOrder K] {o : Object K} {s : Store K} {number : Nat}
    (hvalid : o.settings.Valid) {content : Tensor K} {success : Bool}
    (h : ((o.reply s number).projectInPlace.on (.array .float64 true content)).1 = .ok success) :
    ∃ outcome updated,
      (o.reply s number).project content = .ok outcome ∧ outcome.success = success ∧
      ((o.reply s number).projectInPlace.on (.array .float64 true content)).2 =
        .array .float64 true updated ∧
      updated = .ofConfiguration outcome.configuration ∧
      (o.reply s number).isSatisfied updated = .ok success := by
  rw [Reply.projectInPlace_on_array] at h ⊢
  cases hproject : (o.reply s number).project content with
  | error fault =>
    rw [hproject] at h
    cases h
  | ok outcome =>
    rw [hproject] at h
    cases h
    exact ⟨outcome, _, rfl, rfl, rfl, rfl, isSatisfied_of_project hvalid hproject⟩

/-- All ways to project an array agree, for every object of a store that was built, whatever
settings it has got. A projection in place fails exactly where the projection of the array does,
with the same fault, and then nothing that is stored has changed. Otherwise the array holds the last
configuration of that projection, on success and on failure alike. The answer is whether it is a
success, and whether the object is satisfied at what the array holds now. A projector that has the
settings of the object gives the same outcome or fault, and so does projecting with these
settings.

An array may share its memory with the object, so that the object is this one only while the array
holds what it does. Then the same is returned and the same is written, but the answer is the verdict
of the object as it was, and not of what it has become. -/
theorem Store.Built.projectInPlace_agrees [LawfulOrder K] {s : Store K}
    (hs : s.Built fun _ l => l.IsNamed) {number : Nat} {o : Object K}
    (ho : s.get? number = some o) :
    let r := o.reply s number
    (∀ stored, r.projectInPlace.on stored = match o.projectStored stored with
      | .error fault => (.error fault, stored)
      | .ok (success, after) => (.ok success, after)) ∧
    (∀ stored fault, (r.projectInPlace.on stored).1 = .error fault →
      (r.projectInPlace.on stored).2 = stored) ∧
    (∀ content : Tensor K,
      let ended := r.projectInPlace.on (.array .float64 true content)
      (∀ fault, ended.1 = .error fault ↔ r.project content = .error fault) ∧
      ∀ success, ended.1 = .ok success → ∃ outcome updated,
        r.project content = .ok outcome ∧ outcome.success = success ∧
        ended.2 = .array .float64 true updated ∧
        updated = .ofConfiguration outcome.configuration ∧
        r.isSatisfied updated = .ok success) ∧
    (∀ (shared : Tensor K → Reply K o.joints) (content : Tensor K), shared content = r →
      let ended := (Reply.projectShared shared).on (.array .float64 true content)
      ended = r.projectInPlace.on (.array .float64 true content) ∧
      ∀ success, ended.1 = .ok success → ∃ updated, ended.2 = .array .float64 true updated ∧
        r.isSatisfied updated = .ok success) ∧
    ∃ config, r.projectionConfig = .ok config ∧ ∀ content,
      (Projector.ofSettings (some config)).project r content = r.project content ∧
      r.projectWith (some config) content = r.project content := by
  have hvalid : o.settings.Valid := (hs.linkedIn number o ho).valid
  intro r
  refine ⟨hs.projectInPlace_eq ho, fun stored fault hfault => ?_,
    fun content => ⟨fun fault => ?_, fun success => Object.exists_of_projectInPlace hvalid⟩,
    fun shared content hshared => ?_, o.settings, hvalid.build_describe, fun content => ?_⟩
  · -- on a fault nothing is written
    rw [Reply.projectInPlace_on] at hfault ⊢
    cases hend : stored.openArray >>= r.project with
    | error fault => rfl
    | ok outcome => simp [hend] at hfault
  · -- a writable array of the right type opens, and only the projection may fail
    rw [Reply.projectInPlace_on_array]
    cases r.project content <;> simp
  · -- memory that is shared is read before it is written
    have hsame := Reply.projectShared_eq shared content
    rw [hshared] at hsame
    refine ⟨hsame, fun success hsuccess => ?_⟩
    rw [hsame] at hsuccess ⊢
    obtain ⟨-, updated, -, -, hstored, -, hsatisfied⟩ :=
      Object.exists_of_projectInPlace hvalid hsuccess
    exact ⟨updated, hstored, hsatisfied⟩
  · have hsame := o.reply_project_eq_projectWith s number hvalid content
    exact ⟨hsame.symm, hsame.symm⟩

end

/-! ## A limit that compares with nothing -/

/-- A joint whose lower limit is no number, as an object with the standard settings. -/
def limitlessObject : Object Float :=
  ⟨1, .ofJointLimits ⟨.ofFn fun _ => 0 / 0, .ofFn fun _ => 0⟩, [], .standard⟩

def limitlessStore : Store Float := ⟨[limitlessObject]⟩

/-- The store without limits is built in steps that are accepted. -/
theorem built_limitlessStore : limitlessStore.Built fun _ l => l.IsNamed :=
  .leaf .empty trivial Settings.valid_standard_float.build_describe

/-- The length of the error is no number, so that no step is taken. The array is overwritten with
what it held, and the object is not satisfied there. -/
theorem projectInPlace_agrees_limitless :
    let r := limitlessObject.reply limitlessStore 0
    let stored : Stored Float := .array .float64 true (.ofConfiguration (.ofFn fun _ : Fin 1 => 1))
    limitlessStore.get? 0 = some limitlessObject ∧
    ∃ outcome : Outcome Float 1, (outcome.iterations = 0 ∧ ¬IsNumber outcome.errorNorm) ∧
      r.projectInPlace.on stored =
        (.ok false, .array .float64 true (.ofConfiguration outcome.configuration)) ∧
      r.isSatisfied (.ofConfiguration outcome.configuration) = .ok false := by
  intro r stored
  have hget : limitlessStore.get? 0 = some limitlessObject := rfl
  let content : Tensor Float := .ofConfiguration (.ofFn fun _ : Fin 1 => 1)
  -- the error of the limitless object is no number, so that the run ends at once
  have hrun : (r.project content).toOption.any (fun o =>
      o.iterations = 0 ∧ ¬o.errorNorm ≤ o.errorNorm ∧ o.success = false) = true := by
    decide +kernel
  obtain ⟨-, -, hended, -, -⟩ := built_limitlessStore.projectInPlace_agrees hget
  have hstored := r.projectInPlace_on stored
  have hopen : stored.openArray >>= r.project = r.project content := rfl
  rw [hopen] at hstored
  cases hproject : r.project content with
  | error fault => simp [hproject, Except.toOption] at hrun
  | ok outcome =>
    simp only [hproject, Except.toOption, Option.any_some, decide_eq_true_eq] at hrun
    obtain ⟨hiterations, hnumber, hfailed⟩ := hrun
    rw [hproject] at hstored
    simp only [hfailed] at hstored
    obtain ⟨outcome', updated, hproject', -, -, rfl, hsatisfied⟩ :=
      (hended content).2 false (congrArg Prod.fst hstored)
    obtain rfl : outcome = outcome' := Except.ok.inj (hproject.symm.trans hproject')
    exact ⟨hget, outcome, ⟨hiterations, hnumber⟩, hstored, hsatisfied⟩

/-! ## An offset that is not copied -/

/-- A slide along an axis, on the slide before it. -/
def slideAlong (name : String) (axis : Vec3 Float) : Joint Float :=
  ⟨name, name, .identity, axis, -1, 1, .prismatic⟩

/-- Three slides, along the three axes. -/
def gantry : Chain Float 3 where
  base := "base"
  joints := .ofFn ![slideAlong "x" ⟨1, 0, 0⟩, slideAlong "y" ⟨0, 1, 0⟩, slideAlong "z" ⟨0, 0, 1⟩]
  joints_pos := Nat.succ_pos 2
  linkNames_nodup := by decide

/-- The point at an offset from the last slide is kept at the origin. -/
def pointConstraint (offset : Vec3 Float) : Constraint Float 3 :=
  .leaf (.box ⟨⟨"z", ⟨0, 0, 0⟩, .identity, offset⟩, .ofChain gantry (.last 3)⟩)

/-- The offset that an array of three numbers holds. -/
def offsetIn (t : Tensor Float) : Vec3 Float :=
  ⟨t.data.getD 0 0, t.data.getD 1 0, t.data.getD 2 0⟩

/-- An object whose offset is kept in an array, while the array holds some numbers. -/
def pointObject (t : Tensor Float) : Object Float :=
  ⟨3, pointConstraint (offsetIn t), [], .standard⟩

def pointStore (t : Tensor Float) : Store Float := ⟨[pointObject t]⟩

/-- So is the store of the constraint on a point. -/
theorem built_pointStore (t : Tensor Float) : (pointStore t).Built fun _ l => l.IsNamed := by
  have hlink : (Model.chain gantry).link? "z" = some (.ofChain gantry (.last 3)) := rfl
  exact .leaf .empty (Model.isNamed_of_link? hlink) Settings.valid_standard_float.build_describe

/-- An object need not be satisfied where an array that shares its memory was projected to with
success. The array holds the offset of the point too. At the end the slides stand where they would
have to for the old offset, and the new one leads away from the origin. -/
theorem not_forall_isSatisfied_of_projectShared :
    ¬ ∀ (n number : Nat) (s : Tensor Float → Store Float) (c : Tensor Float → Constraint Float n)
      (members : List Nat) (settings : Settings Float),
      (∀ t, (s t).Built fun _ l => l.IsNamed) →
      (∀ t, (s t).get? number = some ⟨n, c t, members, settings⟩) →
      let shared := fun t => (⟨n, c t, members, settings⟩ : Object Float).reply (s t) number
      ∀ (content updated : Tensor Float) (success : Bool),
        (Reply.projectShared shared).on (.array .float64 true content) =
          (.ok success, .array .float64 true updated) →
        (shared updated).isSatisfied updated = .ok success := by
  intro hall
  let shared : Tensor Float → Reply Float 3 := fun t => (pointObject t).reply (pointStore t) 0
  let content : Tensor Float := .ofConfiguration (.ofFn fun _ : Fin 3 => 1)
  -- the projection succeeds, and moves the point that it was about
  have hrun : ((shared content).project content).toOption.any (fun o => o.success &&
      ((shared (.ofConfiguration o.configuration)).isSatisfied
        (.ofConfiguration o.configuration)).toOption == some false) = true := by
    decide +kernel
  -- the claim would have the moved point satisfied
  have hverdict := hall 3 0 pointStore (fun t => pointConstraint (offsetIn t)) [] .standard
    built_pointStore (fun _ => rfl) content
  have hstored := (Reply.projectShared_eq shared content).trans
    ((shared content).projectInPlace_on_array content)
  cases hproject : (shared content).project content with
  | error fault => simp [hproject, Except.toOption] at hrun
  | ok outcome =>
    simp only [hproject, Except.toOption, Option.any_some, Bool.and_eq_true, beq_iff_eq] at hrun
    obtain ⟨hsuccess, hunsatisfied⟩ := hrun
    simp only [hproject, hsuccess] at hstored
    have hsatisfied : (shared (.ofConfiguration outcome.configuration)).isSatisfied
        (.ofConfiguration outcome.configuration) = .ok true := hverdict _ true hstored
    rw [hsatisfied] at hunsatisfied
    cases hunsatisfied

end KinematicManifold
