import KinematicManifold.Proofs.Overflow
import KinematicManifold.Proofs.Sharing

/-!
# Settings after many calls

The tolerance and the budget of an object are set by calls, with whatever argument a caller has: any
number, one that compares with nothing or is infinite, a truth value. A call answers as building
settings from the argument alone would, everything else being standard. Where that is refused, the
call is refused with the same fault, and the object keeps its settings; where it is accepted, the
object takes over the one value and keeps the rest.

So the settings of an object are accepted at any time, and they hold the last values that were
accepted. The induction is over the calls.

## Key results

- `Store.change_eq_build`: a call against settings that are built from its argument
- `Settings.project_foldl_tune`: what is left of a setting after many calls
- `Store.get?_callAll`: calls of other objects do not matter
- `Store.Built.settings_afterCalls`: the settings of an object at any time
-/

namespace KinematicManifold

variable {K : Type} [Scalar K]

/-! ## Calls -/

/-- A number as it is given. -/
inductive Amount (K : Type) where
  /-- A truth value, which counts as one or as zero. -/
  | truth (value : Bool)
  | number (value : K)

/-- The number that is meant. -/
def Amount.value : Amount K → K
  | truth value => if value then 1 else 0
  | number value => value

/-- A call that sets the tolerance or the budget of an object. -/
inductive SetterCall (K : Type) where
  | tolerance (given : Amount K)
  | maxIterations (given : Budget)

namespace SetterCall

/-- The change that is asked for. -/
def change : SetterCall K → Change K
  | tolerance given => .tolerance given.value
  | maxIterations given => .maxIterations given

/-- Settings about which nothing is said but what the call says. -/
def description : SetterCall K → SettingsDescription K
  | tolerance given => { tolerance := some given.value }
  | maxIterations given => { maxIterations := some given }

/-- Settings that take over from others what the call is about. -/
def adopt (call : SetterCall K) (config s : Settings K) : Settings K :=
  match call with
  | tolerance _ => { s with tolerance := config.tolerance }
  | maxIterations _ => { s with maxIterations := config.maxIterations }

/-- The tolerance that a call sets, if it sets one. -/
def tolerance? (call : SetterCall K) : Option K :=
  match call with
  | tolerance _ => call.description.build.toOption.map (·.tolerance)
  | maxIterations _ => none

/-- The budget that a call sets, if it sets one. -/
def maxIterations? (call : SetterCall K) : Option Nat :=
  match call with
  | tolerance _ => none
  | maxIterations _ => call.description.build.toOption.map (·.maxIterations)

/-- The calls of one object, in order. -/
def ofObject (number : Nat) (calls : List (Nat × SetterCall K)) : List (SetterCall K) :=
  (calls.filter (·.1 = number)).map Prod.snd

end SetterCall

/-- Changes that are asked for one after the other, each of an object of its own. -/
def Store.callAll (s : Store K) (calls : List (Nat × SetterCall K)) : Store K :=
  s.changeAll (calls.map fun entry => (entry.1, entry.2.change))

namespace Settings

/-- The settings after a call. A call that is refused leaves them as they are. -/
def tune (s : Settings K) (call : SetterCall K) : Settings K :=
  match call.description.build with
  | .ok config => call.adopt config s
  | .error _ => s

variable (s : Settings K) (call : SetterCall K)

/-! ## One call -/

/-- A call that sets a tolerance replaces it, any other call keeps it. -/
theorem tolerance_tune : (s.tune call).tolerance = call.tolerance?.getD s.tolerance := by
  cases call with
  | tolerance given =>
    simp only [tune, SetterCall.tolerance?]
    cases (SetterCall.tolerance given).description.build <;> rfl
  | maxIterations given =>
    simp only [tune]
    cases (SetterCall.maxIterations given : SetterCall K).description.build <;> rfl

/-- The same for the budget. -/
theorem maxIterations_tune :
    (s.tune call).maxIterations = call.maxIterations?.getD s.maxIterations := by
  cases call with
  | tolerance given =>
    simp only [tune]
    cases (SetterCall.tolerance given).description.build <;> rfl
  | maxIterations given =>
    simp only [tune, SetterCall.maxIterations?]
    cases (SetterCall.maxIterations given : SetterCall K).description.build <;> rfl

/-- A call reaches the tolerance or the budget, and sets what is accepted only. -/
theorem retuned_tune : s.Retuned (s.tune call) := by
  unfold tune
  split
  · next config hconfig =>
    -- what was accepted is valid, and the rest stays
    have hvalid := SettingsDescription.valid_of_build_eq_ok hconfig
    cases call with
    | tolerance given =>
      exact ⟨rfl, rfl, fun hs => ⟨hvalid.tolerance_pos, hs.maxIterations_pos, hs.damping_nonneg,
        hs.maxStep_pos⟩⟩
    | maxIterations given =>
      exact ⟨rfl, rfl, fun hs => ⟨hs.tolerance_pos, hvalid.maxIterations_pos, hs.damping_nonneg,
        hs.maxStep_pos⟩⟩
  · -- a refused call changes nothing
    exact .refl s

/-! ## Many calls -/

/-- Calls one after the other change nothing but the tolerance and the budget. -/
theorem retuned_foldl_tune (calls : List (SetterCall K)) : s.Retuned (calls.foldl tune s) := by
  induction calls generalizing s with
  | nil => exact .refl s
  | cons call rest ih => exact (s.retuned_tune call).trans (ih (s.tune call))

/-- A setting of which every call keeps what it does not set is the last one that was set. -/
theorem project_foldl_tune {α : Type} {project : Settings K → α} {set? : SetterCall K → Option α}
    (hstep : ∀ s call, project (tune s call) = (set? call).getD (project s))
    (calls : List (SetterCall K)) :
    project (calls.foldl tune s) = (calls.filterMap set?).getLast?.getD (project s) := by
  induction calls generalizing s with
  | nil => rfl
  | cons call rest ih =>
    rw [List.foldl_cons, ih, hstep]
    cases hset : set? call with
    | none => rw [List.filterMap_cons_none hset, Option.getD_none]
    | some value =>
      rw [List.filterMap_cons_some hset, List.getLast?_cons, Option.getD_some, Option.getD_some]

end Settings

/-! ## Calls against descriptions -/

section
variable (hstandard : (Settings.standard : Settings K).Valid)
include hstandard

/-- Settings of which the tolerance alone is given. -/
theorem SettingsDescription.build_tolerance (tolerance : K) :
    ({ tolerance := some tolerance } : SettingsDescription K).build =
      (checkTolerance tolerance).map fun tolerance => { Settings.standard with tolerance } := by
  have hbudget : (Budget.integer (Settings.standard : Settings K).maxIterations).check =
      .ok (Settings.standard : Settings K).maxIterations :=
    Budget.check_eq_ok_iff.2 ⟨hstandard.maxIterations_pos, rfl⟩
  have hdamping : checkDamping (Settings.standard : Settings K).damping =
      .ok (Settings.standard : Settings K).damping := if_pos hstandard.damping_nonneg
  simp only [build, Option.getD_some, Option.getD_none, hbudget, hdamping]
  cases checkTolerance tolerance <;> rfl

/-- Settings of which the budget alone is given. -/
theorem SettingsDescription.build_maxIterations (budget : Budget) :
    ({ maxIterations := some budget } : SettingsDescription K).build =
      budget.check.map fun maxIterations => { Settings.standard with maxIterations } := by
  have htolerance : checkTolerance (Settings.standard : Settings K).tolerance =
      .ok (Settings.standard : Settings K).tolerance := if_pos hstandard.tolerance_pos
  have hdamping : checkDamping (Settings.standard : Settings K).damping =
      .ok (Settings.standard : Settings K).damping := if_pos hstandard.damping_nonneg
  simp only [build, Option.getD_some, Option.getD_none, htolerance, hdamping]
  cases budget.check <;> rfl

namespace Store

variable {s : Store K} {number : Nat} {o : Object K}

/-- A call of an object answers as the settings that are built from its argument: it fails with
their fault, or the object takes over from them what the call is about. -/
theorem change_eq_build (ho : s.get? number = some o) (call : SetterCall K) :
    s.change number call.change = call.description.build.map fun config =>
      s.update number (call.adopt config o.settings) := by
  cases call with
  | tolerance given =>
    simp only [SetterCall.change, SetterCall.description, Store.change, setTolerance, ho,
      Settings.setTolerance, SettingsDescription.build_tolerance hstandard]
    cases checkTolerance given.value <;> rfl
  | maxIterations given =>
    simp only [SetterCall.change, SetterCall.description, Store.change, setMaxIterations, ho,
      Settings.setMaxIterations, SettingsDescription.build_maxIterations hstandard]
    cases given.check <;> rfl

/-- After a call of an object, accepted or not, it has the settings that the call leaves. -/
theorem get?_tryChange (ho : s.get? number = some o) (call : SetterCall K) :
    (s.tryChange number call.change).get? number =
      some { o with settings := o.settings.tune call } := by
  rw [tryChange, change_eq_build hstandard ho, Settings.tune]
  cases call.description.build with
  | error fault => exact ho
  | ok config =>
    simp only [Except.map, get?_update, ho, Option.map_some]

/-- The settings of an object after calls of any objects: those of its own count, in order. -/
theorem get?_callAll (ho : s.get? number = some o) (calls : List (Nat × SetterCall K)) :
    (s.callAll calls).get? number = some { o with
      settings := (SetterCall.ofObject number calls).foldl Settings.tune o.settings } := by
  induction calls generalizing s o with
  | nil => exact ho
  | cons entry rest ih =>
    obtain ⟨other, call⟩ := entry
    have hfirst : s.callAll ((other, call) :: rest) =
        (s.tryChange other call.change).callAll rest := rfl
    by_cases hsame : other = number
    · subst hsame
      rw [hfirst, ih (get?_tryChange hstandard ho call), SetterCall.ofObject, SetterCall.ofObject,
        List.filter_cons_of_pos (by simp), List.map_cons, List.foldl_cons]
    · -- a call of another object leaves this one as it is
      have hchanges : ∀ entry ∈ [(other, call.change)], entry.1 ≠ number := by simpa using hsame
      have hother : (s.tryChange other call.change).get? number = some o :=
        (get?_changeAll hchanges).trans ho
      rw [hfirst, ih hother, SetterCall.ofObject, SetterCall.ofObject,
        List.filter_cons_of_neg (by simpa using hsame)]

end Store

end

namespace Store

/-- However objects are called, with whatever arguments, the settings of each are accepted, so that
they can be described in full and are accepted again: they hold the tolerance and the budget that
were accepted last, and the damping and the longest step with which the object was built. And a
further call is refused exactly if settings that are built from its argument alone are, with the
same fault, and then it changes nothing; otherwise the object takes over from them what the call is
about. -/
theorem Built.settings_afterCalls {P : (n : Nat) → Leaf Float n → Prop} {s : Store Float}
    (hs : s.Built P) {number : Nat} {o : Object Float} (ho : s.get? number = some o)
    (calls : List (Nat × SetterCall Float)) :
    let s' := s.callAll calls
    let own := SetterCall.ofObject number calls
    ∃ settings, s'.get? number = some { o with settings } ∧ settings.Valid ∧
      (Object.reply { o with settings } s' number).projectionConfig = .ok settings ∧
      settings.tolerance =
        (own.filterMap SetterCall.tolerance?).getLast?.getD o.settings.tolerance ∧
      settings.maxIterations =
        (own.filterMap SetterCall.maxIterations?).getLast?.getD o.settings.maxIterations ∧
      settings.damping = o.settings.damping ∧ settings.maxStep = o.settings.maxStep ∧
      ∀ call : SetterCall Float,
        (∀ fault, s'.change number call.change = .error fault ↔
          call.description.build = .error fault) ∧
        (∀ fault, call.description.build = .error fault → s'.tryChange number call.change = s') ∧
        ∀ config, call.description.build = .ok config →
          s'.change number call.change = .ok (s'.update number (call.adopt config settings)) := by
  have hstandard := Settings.valid_standard_float
  intro s' own
  -- only the calls of the object itself have left a trace in its settings
  have hget : s'.get? number = some { o with settings := own.foldl Settings.tune o.settings } :=
    get?_callAll hstandard ho calls
  have hretuned := o.settings.retuned_foldl_tune own
  have hvalid := hretuned.valid (hs.linkedIn number o ho).valid
  refine ⟨_, hget, hvalid, hvalid.build_describe,
    o.settings.project_foldl_tune Settings.tolerance_tune own,
    o.settings.project_foldl_tune Settings.maxIterations_tune own,
    hretuned.damping_eq, hretuned.maxStep_eq, fun call => ?_⟩
  have hcall := change_eq_build hstandard hget call
  refine ⟨fun fault => ?_, fun fault hfault => ?_, fun config hconfig => ?_⟩
  · rw [hcall, map_eq_error_iff]
  · rw [tryChange, hcall, hfault]
    rfl
  · rw [hcall, hconfig]
    rfl

/-! ## A joint whose settings are changed -/

/-- The joint that is locked, as an object with the standard settings. -/
def lockedObject : Object Float := ⟨1, lockedJoint, [], .standard⟩

def lockedStore : Store Float := ⟨[lockedObject]⟩

/-- The store of the example is built in steps that are accepted. -/
theorem built_lockedStore : lockedStore.Built fun _ _ => True :=
  .leaf .empty trivial Settings.valid_standard_float.build_describe

/-- Twenty is accepted as a floating-point number, and so is a truth value for a tolerance. -/
def mixedCalls : List (Nat × SetterCall Float) :=
  [(0, .tolerance (.truth true)), (0, .maxIterations (.float 20)),
    (0, .maxIterations (.float (1 / 0))), (0, .tolerance (.number (0 / 0))),
    (1, .maxIterations (.integer 7)), (0, .maxIterations (.truth true))]

/-- Of the calls, those are refused whose argument is infinite, compares with nothing or is a truth
value for a budget, and one is of another object. -/
theorem settings_afterCalls_lockedStore :
    lockedStore.get? 0 = some lockedObject ∧
    ∃ settings, (lockedStore.callAll mixedCalls).get? 0 = some { lockedObject with settings } ∧
      settings.Valid ∧ settings.tolerance = 1 ∧ settings.maxIterations = 20 ∧
      (lockedStore.callAll mixedCalls).change 0 (.maxIterations (.float (1 / 0))) =
        .error .budgetInfinite := by
  have hlocked : lockedStore.get? 0 = some lockedObject := rfl
  obtain ⟨settings, hget, hvalid, -, htolerance, hbudget, -, -, hcall⟩ :=
    built_lockedStore.settings_afterCalls hlocked mixedCalls
  refine ⟨hlocked, settings, hget, hvalid, htolerance.trans ?_, hbudget.trans ?_,
    ((hcall (.maxIterations (.float (1 / 0)))).1 _).2 ?_⟩
  · decide +kernel
  · decide +kernel
  · rfl

end Store

end KinematicManifold
