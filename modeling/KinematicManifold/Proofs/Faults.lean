import KinematicManifold.Proofs.Leaves
import KinematicManifold.Proofs.TreeLayout

/-!
# What can go wrong at a configuration

A constraint is asked about a configuration, which has the right number of values, and has found its
link already. Three things may still go wrong, whatever the scalars are. The link has no state: it
is a frame of a tree with a single velocity, or a chain whose axes are no vectors would have to move
it. A deviation has no rotation vector, since it is not right-handed. And the square of a damping is
too large for a number.

## Key results

- `FaultsOnly`: the faults that a computation may end with
- `Foreseen`: the one fault that a computation ends with, if it ends with one
- `Link.foreseen_state`: whether a link has a state does not depend on the configuration
- `Leaf.faultsOnly_evaluate`, `Constraint.faultsOnly_evaluate`: the faults of an error
- `Residual.faultsOnly_project`: the faults of a projection
-/

namespace KinematicManifold

section
variable {ε α β γ : Type}

/-- If a computation fails, it is with a fault of a kind. -/
def FaultsOnly (p : ε → Prop) (x : Except ε α) : Prop := ∀ fault, x = .error fault → p fault

namespace FaultsOnly

variable {p : ε → Prop} {x : Except ε α}

/-- A result is no fault at all. -/
theorem ok (p : ε → Prop) (a : α) : FaultsOnly p (.ok a : Except ε α) := by
  intro fault h
  cases h

/-- The faults may be described more loosely. -/
theorem imp {p' : ε → Prop} (h : FaultsOnly p x) (hp : ∀ fault, p fault → p' fault) :
    FaultsOnly p' x :=
  fun fault hx => hp fault (h fault hx)

/-- Two computations in a row fail with the faults of the first or of the second. -/
theorem bind {next : α → Except ε β} (h : FaultsOnly p x)
    (hnext : ∀ a, x = .ok a → FaultsOnly p (next a)) : FaultsOnly p (x >>= next) := by
  cases x with
  | error fault =>
    intro other hother
    obtain rfl := Except.error.inj hother
    exact h fault rfl
  | ok a => exact hnext a rfl

/-- Changing the result adds no fault. -/
theorem map {f : α → β} (h : FaultsOnly p x) : FaultsOnly p (x.map f) :=
  fun fault hx => h fault (map_eq_error_iff.1 hx)

/-- Collecting from a list fails only as one of its entries does. -/
theorem mapM {f : α → Except ε β} {l : List α} (h : ∀ a ∈ l, FaultsOnly p (f a)) :
    FaultsOnly p (l.mapM f) := by
  induction l with
  | nil => exact ok p []
  | cons a rest ih =>
    rw [List.forall_mem_cons] at h
    rw [List.mapM_cons]
    exact h.1.bind fun b _ => (ih h.2).bind fun bs _ => ok p (b :: bs)

end FaultsOnly

/-- A computation fails with the fault that is foreseen, or else it succeeds with a result of a
kind. -/
def Foreseen (fault? : Option ε) (p : β → Prop) (x : Except ε β) : Prop :=
  match fault? with
  | some fault => x = .error fault
  | none => ∃ b, p b ∧ x = .ok b

namespace Foreseen

section
variable {fault? : Option ε} {p p' : β → Prop} {x : Except ε β} (h : Foreseen fault? p x)
include h

/-- A foreseen computation fails with the foreseen fault, or has a result with the property. -/
theorem cases : (∃ fault, fault? = some fault ∧ x = .error fault) ∨
    (fault? = none ∧ ∃ b, p b ∧ x = .ok b) := by
  cases fault? with
  | some fault => exact .inl ⟨fault, rfl, h⟩
  | none => exact .inr ⟨rfl, h⟩

/-- The fault it fails with is the one foreseen, and no other. -/
theorem error_iff {fault : ε} : x = .error fault ↔ fault? = some fault := by
  obtain ⟨other, rfl, rfl⟩ | ⟨rfl, b, -, rfl⟩ := h.cases <;> simp

/-- A result has the property. -/
theorem of_eq_ok {b : β} (hb : x = .ok b) : p b := by
  obtain ⟨other, -, rfl⟩ | ⟨-, b', hp, rfl⟩ := h.cases
  · cases hb
  · cases hb
    exact hp

/-- The property may be described more loosely. -/
theorem imp (hp : ∀ b, p b → p' b) : Foreseen fault? p' x := by
  obtain ⟨other, rfl, hx⟩ | ⟨rfl, b, hb, hx⟩ := h.cases
  · exact hx
  · exact ⟨b, hp b hb, hx⟩

/-- There is no other fault than the one that is foreseen. -/
theorem faultsOnly : FaultsOnly (fault? = some ·) x := fun _ => h.error_iff.1

/-- What a result is known to be may depend on where it comes from. -/
theorem imp_of_eq_ok (hp : ∀ b, x = .ok b → p' b) : Foreseen fault? p' x := by
  obtain ⟨other, rfl, hx⟩ | ⟨rfl, b, -, hx⟩ := h.cases
  · exact hx
  · exact ⟨b, hp b hx, hx⟩

/-- A next step that succeeds whenever no fault is foreseen adds none. -/
theorem bind {next : β → Except ε γ} {p' : γ → Prop}
    (hnext : ∀ b, p b → fault? = none → ∃ c, p' c ∧ next b = .ok c) :
    Foreseen fault? p' (x >>= next) := by
  obtain ⟨other, rfl, rfl⟩ | ⟨rfl, b, hb, rfl⟩ := h.cases
  · rfl
  · exact hnext b hb rfl

/-- Changing the result keeps the fault that is foreseen. -/
theorem map {f : β → γ} {p' : γ → Prop} (hp : ∀ b, p b → p' (f b)) :
    Foreseen fault? p' (x.map f) := by
  obtain ⟨other, rfl, rfl⟩ | ⟨rfl, b, hb, rfl⟩ := h.cases
  · rfl
  · exact ⟨f b, hp b hb, rfl⟩

end

/-- Where no fault is foreseen, there is a result. -/
theorem exists_eq_ok {p : β → Prop} {x : Except ε β} (h : Foreseen none p x) :
    ∃ b, p b ∧ x = .ok b := h

/-- A traversal fails with the first fault that is foreseen. -/
theorem mapM {fault? : α → Option ε} {p : α → β → Prop} {f : α → Except ε β} {l : List α}
    (h : ∀ a ∈ l, Foreseen (fault? a) (p a) (f a)) :
    Foreseen (l.findSome? fault?) (List.Forall₂ p l) (l.mapM f) := by
  induction l with
  | nil => exact ⟨[], .nil, rfl⟩
  | cons a rest ih =>
    rw [List.forall_mem_cons] at h
    rw [List.findSome?_cons, List.mapM_cons]
    obtain ⟨fault, hfault, hfirst⟩ | ⟨hfault, b, hb, hfirst⟩ := h.1.cases
    · -- the first entry fails as foreseen
      rw [hfault, hfirst]
      rfl
    · simp only [hfault, hfirst]
      obtain ⟨fault, hfault, hrest⟩ | ⟨hfault, bs, hbs, hrest⟩ := (ih h.2).cases
      · -- or a later one does, as the first has no fault
        rw [hfault, hrest]
        rfl
      · rw [hfault, hrest]
        exact ⟨b :: bs, .cons hb hbs, rfl⟩

end Foreseen

end

variable {K : Type} [Scalar K] {n : Nat}

/-! ## Constraints -/

/-- The logarithm of a matrix refuses nothing but left-handed ones. -/
theorem Rotation.faultsOnly_log? (m : Mat3 K) : FaultsOnly (· = .notRightHanded) (log? m) := by
  refine FaultsOnly.bind ?_ fun q _ => .ok _ _
  unfold quaternion
  split
  · exact .ok _ _
  · intro fault hfault
    exact (Except.error.inj hfault).symm

/-- The fault of asking for the state of a link, if there is one. -/
def Link.fault? : Link K n → Option Fault
  | ofTree c _ => if c.tree.velocityCount = 1 then some .singleColumn else none
  | immovable => some .incompatibleShapes
  | ofChain _ _ | still => none

/-- A link has a state at every configuration, or at none. -/
theorem Link.foreseen_state (link : Link K n) (q : Vector K n) :
    Foreseen link.fault? (fun _ => True) (link.state q) := by
  cases link with
  | ofChain chain l => exact ⟨_, trivial, rfl⟩
  | ofTree c frame =>
    -- whether a tree has a single velocity does not depend on the configuration
    rw [state_ofTree, c.frameState_eq, fault?]
    split
    · rfl
    · exact ⟨_, trivial, rfl⟩
  | still => exact ⟨_, trivial, rfl⟩
  | immovable => rfl

namespace Leaf

/-- The fault of asking for the state of the link of a single constraint, if there is one. -/
def fault? : Leaf K n → Option Fault
  | box c => c.link.fault?
  | orientation c => c.link.fault?
  | jointLimits _ | affine _ => none

/-- What a single constraint may fail with at a configuration: the fault of its link, or a deviation
without a rotation vector. -/
def MayFail (l : Leaf K n) (fault : Fault) : Prop :=
  l.fault? = some fault ∨ fault = .notRightHanded ∧ ∃ c, l = orientation c

/-- Whatever is read off the state of the link fails only as the state does. -/
theorem faultsOnly_box {α : Type} (c : BoxConstraint K n) (q : Vector K n)
    (f : LinkState K n → α) :
    FaultsOnly (box c).MayFail (do
      let state ← c.link.state q
      return f state) :=
  ((c.link.foreseen_state q).faultsOnly.imp fun _ => .inl).bind fun _ _ => .ok _ _

/-- Whatever is read off the state of the link and the deviation fails only as one of them does. -/
theorem faultsOnly_orientation {α : Type} (c : OrientationConstraint K n) (q : Vector K n)
    (f : LinkState K n → Vec3 K → α) :
    FaultsOnly (orientation c).MayFail (do
      let state ← c.link.state q
      let deviation ← c.deviation state.pose
      return f state deviation) := by
  refine ((c.link.foreseen_state q).faultsOnly.imp fun _ => .inl).bind fun _ _ => ?_
  refine ((Rotation.faultsOnly_log? _).imp fun _ h => ?_).bind fun _ _ => .ok _ _
  exact .inr ⟨h, c, rfl⟩

/-- The raw error of a single constraint fails only as the constraint may. -/
theorem faultsOnly_rawError (l : Leaf K n) (q : Vector K n) :
    FaultsOnly l.MayFail (l.rawError q) := by
  cases l with
  | box c => exact faultsOnly_box c q fun state => c.placeInBox state.pose
  | orientation c => exact faultsOnly_orientation c q fun _ deviation => deviation.toList
  | jointLimits limits => exact .ok _ _
  | affine c => exact .ok _ _

/-- So does its raw Jacobian. -/
theorem faultsOnly_rawJacobian (l : Leaf K n) (q : Vector K n) :
    FaultsOnly l.MayFail (l.rawJacobian q) := by
  cases l with
  | box c => exact faultsOnly_box c q c.velocitiesInBox
  | orientation c => exact faultsOnly_orientation c q _
  | jointLimits limits => exact .ok _ _
  | affine c => exact .ok _ _

/-- Evaluating a single constraint fails only as the constraint may. -/
theorem faultsOnly_evaluate (l : Leaf K n) (q : Vector K n) :
    FaultsOnly l.MayFail (l.evaluate q) :=
  (l.faultsOnly_rawError q).bind fun _ _ => .ok _ _

/-- The Jacobian of a single constraint fails only as the constraint may. -/
theorem faultsOnly_jacobian (l : Leaf K n) (q : Vector K n) :
    FaultsOnly l.MayFail (l.jacobian q) :=
  (l.faultsOnly_rawError q).bind fun _ _ => (l.faultsOnly_rawJacobian q).bind fun _ _ => .ok _ _

end Leaf

namespace Constraint

/-- What a constraint may fail with at a configuration: what one of its single constraints may. -/
def MayFail (c : Constraint K n) (fault : Fault) : Prop := ∃ l ∈ c.leaves, l.MayFail fault

/-- Evaluating a constraint fails only as one of its leaves may. -/
theorem faultsOnly_evaluate (c : Constraint K n) (q : Vector K n) :
    FaultsOnly c.MayFail (c.evaluate q) := by
  rw [evaluate_eq_leaves]
  exact (FaultsOnly.mapM fun l hl => (l.faultsOnly_evaluate q).imp fun _ h => ⟨l, hl, h⟩).map

/-- The Jacobian of a constraint fails only as one of its leaves may. -/
theorem faultsOnly_jacobian (c : Constraint K n) (q : Vector K n) :
    FaultsOnly c.MayFail (c.jacobian q) := by
  rw [jacobian_eq_leaves]
  exact (FaultsOnly.mapM fun l hl => (l.faultsOnly_jacobian q).imp fun _ h => ⟨l, hl, h⟩).map

end Constraint

/-! ## Projections -/

/-- A step fails only when its damping overflows. -/
theorem faultsOnly_newtonStep (damping : K) (gradients : List (Vector K n)) (error : List K) :
    FaultsOnly (· = .dampingOverflow) (newtonStep damping gradients error) := by
  have hsquare : FaultsOnly (· = .dampingOverflow) (squareDamping damping) := by
    unfold squareDamping
    dsimp only
    split
    · intro fault hfault
      exact (Except.error.inj hfault).symm
    · exact .ok _ _
  unfold newtonStep
  split
  · -- with a damping, its square is what may overflow
    exact hsquare.bind fun _ _ => .ok _ _
  · exact .ok _ _

namespace Residual

variable {r : Residual K n} {p : Fault → Prop} (hevaluate : ∀ q, FaultsOnly p (r.evaluate q))
  (hjacobian : ∀ q, FaultsOnly p (r.jacobian q))
include hevaluate hjacobian

/-- A run has the faults of the residual, and one of its own. -/
theorem faultsOnly_run (s : Settings K) (budget : Nat) (q : Vector K n) (taken : Nat) :
    FaultsOnly (fun fault => p fault ∨ fault = .dampingOverflow) (r.run s budget q taken) := by
  -- every iteration asks for the error, and gradients and a step are asked for where it is long
  have herror (q : Vector K n) :
      FaultsOnly (fun fault => p fault ∨ fault = .dampingOverflow) (r.evaluate q) :=
    (hevaluate q).imp fun _ => .inl
  induction budget generalizing q taken with
  | zero => exact (herror q).bind fun _ _ => .ok _ _
  | succ budget ih =>
    refine (herror q).bind fun error _ => ?_
    dsimp only
    split
    · refine ((hjacobian q).imp fun _ => .inl).bind fun gradients _ => ?_
      refine ((faultsOnly_newtonStep _ _ _).imp fun _ => .inr).bind fun step _ => ?_
      cases step with
      | none => exact .ok _ _
      | some step => exact ih _ _
    · exact .ok _ _

/-- A projection adds the overflow of the damping to the faults of the residual. -/
theorem faultsOnly_project (s : Settings K) (q : Vector K n) :
    FaultsOnly (fun fault => p fault ∨ fault = .dampingOverflow) (r.project s q) :=
  faultsOnly_run hevaluate hjacobian s s.maxIterations q 0

end Residual

end KinematicManifold
