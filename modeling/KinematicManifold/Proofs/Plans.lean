import KinematicManifold.Proofs.Nesting

/-!
# Constraints built on two models

A plan says how constraints are built on a model: which link a specification is about, which limits
are put on the joints, what is intersected. The links have labels, and each model has names for
them.

A model has a part in a constraint only by the states of its links, and by its joint limits where a
plan asks for them. So a plan that is carried out on two models whose links always have the same
state gives constraints that ask for the same.

## Key results

- `Constraint.residual_intersection_congr`: an intersection depends on what its members ask for
- `Constraint.intersect_together`: it is accepted when one of members that ask for the same is
- `Plan.build_mapPositions_together`: a plan goes on two models as its positions do
- `Plan.build_together`: a plan goes the same way on models with the same links
- `Together.answers`: constraints that are built alike answer alike
-/

namespace KinematicManifold

variable {K L : Type}

/-- How a constraint is built on a model, whose links are given by labels. -/
inductive Plan (K L : Type) where
  | position (link : L) (spec : PositionSpec K)
  | orientation (link : L) (spec : OrientationSpec K)
  | jointLimits (limits : (n : Nat) × JointLimits K n)
  | modelLimits
  | intersection (members : List (Plan K L))

namespace Plan

mutual

/-- The plan asks for the joint limits of the model. -/
def ReadsLimits : Plan K L → Prop
  | position .. | orientation .. | jointLimits _ => False
  | modelLimits => True
  | intersection members => ReadsLimitsAny members

/-- One of the plans asks for the joint limits of the model. -/
def ReadsLimitsAny : List (Plan K L) → Prop
  | [] => False
  | first :: rest => ReadsLimits first ∨ ReadsLimitsAny rest

end

mutual

/-- The plan asks for the position of a link. -/
def HasPosition : Plan K L → Prop
  | orientation .. | jointLimits _ | modelLimits => False
  | position .. => True
  | intersection members => HasPositionAny members

/-- One of the plans asks for the position of a link. -/
def HasPositionAny : List (Plan K L) → Prop
  | [] => False
  | first :: rest => HasPosition first ∨ HasPositionAny rest

end

mutual

/-- The plan asks for the rotation of a link. -/
def HasOrientation : Plan K L → Prop
  | position .. | jointLimits _ | modelLimits => False
  | orientation .. => True
  | intersection members => HasOrientationAny members

/-- One of the plans asks for the rotation of a link. -/
def HasOrientationAny : List (Plan K L) → Prop
  | [] => False
  | first :: rest => HasOrientation first ∨ HasOrientationAny rest

end

mutual

/-- The plan with other position specifications for the same links. -/
def mapPositions (f : PositionSpec K → PositionSpec K) : Plan K L → Plan K L
  | position link spec => position link (f spec)
  | orientation link spec => orientation link spec
  | jointLimits limits => jointLimits limits
  | modelLimits => modelLimits
  | intersection members => intersection (mapPositionsAll f members)

/-- The plans with other position specifications for the same links. -/
def mapPositionsAll (f : PositionSpec K → PositionSpec K) : List (Plan K L) → List (Plan K L)
  | [] => []
  | first :: rest => mapPositions f first :: mapPositionsAll f rest

end

mutual

/-- Changing no position changes nothing. -/
theorem mapPositions_id : (plan : Plan K L) → plan.mapPositions id = plan
  | position link spec => by rw [mapPositions, id]
  | orientation link spec => by rw [mapPositions]
  | jointLimits limits => by rw [mapPositions]
  | modelLimits => by rw [mapPositions]
  | intersection members => by rw [mapPositions, mapPositionsAll_id members]

/-- The same for the members of an intersection. -/
private theorem mapPositionsAll_id : (plans : List (Plan K L)) → mapPositionsAll id plans = plans
  | [] => rfl
  | first :: rest => by rw [mapPositionsAll, mapPositions_id first, mapPositionsAll_id rest]

end

variable [Scalar K] {n : Nat}

mutual

/-- The constraint that a plan builds on a model, where the label of a link stands for a name. -/
def build (model : Model K n) (name : L → String) : Plan K L →
    Except Fault ((n : Nat) × Constraint K n)
  | position link spec =>
    (Constraint.ofPosition model { spec with link := name link }).map (Sigma.mk n)
  | orientation link spec =>
    (Constraint.ofOrientation model { spec with link := name link }).map (Sigma.mk n)
  | jointLimits ⟨count, limits⟩ => .ok ⟨count, .ofJointLimits limits⟩
  | modelLimits => (Constraint.ofModelLimits model).map (Sigma.mk n)
  | intersection members => do
    let members ← buildAll model name members
    Constraint.intersect members

/-- The constraints that some plans build on a model, one after the other. -/
def buildAll (model : Model K n) (name : L → String) : List (Plan K L) →
    Except Fault (List ((n : Nat) × Constraint K n))
  | [] => .ok []
  | first :: rest => do
    let first ← build model name first
    let rest ← buildAll model name rest
    return first :: rest

end

end Plan

variable [Scalar K]

/-! ## Constraints that ask for the same -/

/-- Two constraints are over the same joints, have as many rows, and ask for the same. -/
inductive Constraint.Alike : (n : Nat) × Constraint K n → (n : Nat) × Constraint K n → Prop
  | mk {n : Nat} {c c' : Constraint K n} : c.dimension = c'.dimension → c.residual = c'.residual →
    Alike ⟨n, c⟩ ⟨n, c'⟩

namespace Constraint

variable {n : Nat}

/-- What a single constraint asks for depends on its raw error and on its intervals. -/
theorem alike_of_leaf {l l' : Leaf K n} (hintervals : l.intervals = l'.intervals)
    (herror : ∀ q, l.rawError q = l'.rawError q)
    (hjacobian : ∀ q, l.rawJacobian q = l'.rawJacobian q) : Alike ⟨n, leaf l⟩ ⟨n, leaf l'⟩ := by
  -- what a leaf asks for is its raw rows, compared with its intervals
  have hevaluate : (leaf l).evaluate = (leaf l').evaluate := by
    funext q
    simp only [evaluate, Leaf.evaluate, herror, hintervals]
  have hgradients : (leaf l).jacobian = (leaf l').jacobian := by
    funext q
    simp only [jacobian, Leaf.jacobian, herror, hjacobian, hintervals]
  constructor
  · simp only [dimension, Leaf.dimension, hintervals]
  · rw [residual, residual, hevaluate, hgradients]

/-- What an intersection asks for depends on what its members ask for. -/
theorem residual_intersection_congr {members members' : List (Constraint K n)}
    (h : List.Forall₂ (fun c c' => c.residual = c'.residual) members members') :
    (intersection members).residual = (intersection members').residual := by
  have hresiduals : members.map residual = members'.map residual := by
    rwa [← List.forall₂_eq_eq_eq, List.forall₂_map_left_iff, List.forall₂_map_right_iff]
  -- an intersection stacks the residuals of its members, and no more is known of them
  have hevaluate (cs : List (Constraint K n)) (q : Vector K n) : (intersection cs).evaluate q =
      ((cs.map residual).mapM fun r : Residual K n => r.evaluate q).map List.flatten := by
    rw [evaluate_intersection, List.mapM_map]
    rfl
  have hjacobian (cs : List (Constraint K n)) (q : Vector K n) : (intersection cs).jacobian q =
      ((cs.map residual).mapM fun r : Residual K n => r.jacobian q).map List.flatten := by
    rw [jacobian_intersection, List.mapM_map]
    rfl
  have hevaluate' : (intersection members).evaluate = (intersection members').evaluate := by
    funext q
    rw [hevaluate, hevaluate, hresiduals]
  have hjacobian' : (intersection members).jacobian = (intersection members').jacobian := by
    funext q
    rw [hjacobian, hjacobian, hresiduals]
  rw [residual, residual, hevaluate', hjacobian']

/-- Constraints can be intersected when others that ask for the same can. -/
theorem intersect_together {members members' : List ((n : Nat) × Constraint K n)}
    (h : List.Forall₂ Alike members members') :
    Together Alike (intersect members) (intersect members') := by
  cases h with
  | nil => exact .error _
  | cons hfirst hrest =>
    obtain @⟨n, first, first', hdimension, hresidual⟩ := hfirst
    refine Together.bind (R := List.Forall₂ fun c c' =>
      c.dimension = c'.dimension ∧ c.residual = c'.residual) (.mapM hrest ?_) ?_
    · rintro _ _ @⟨other, c, c', hrows, hrest⟩
      -- members over other joints are refused alike
      by_cases hjoints : other = n
      · subst hjoints
        simpa using Together.ok ⟨hrows, hrest⟩
      · simpa [hjoints] using Together.error _
    · intro others others' hothers
      refine .ok (.mk ?_ (residual_intersection_congr (.cons hresidual (hothers.imp ?_))))
      · -- members that are alike have as many rows
        have hdimensions : others.map dimension = others'.map dimension := by
          rw [← List.forall₂_eq_eq_eq, List.forall₂_map_left_iff, List.forall₂_map_right_iff]
          exact hothers.imp fun _ _ h => h.1
        simp only [dimension_intersection, List.map_cons, hdimension, hdimensions]
      · exact fun _ _ h => h.2

end Constraint

/-! ## Models with the same links -/

/-- A link of one model and a link of another always have the same state. -/
def Model.SameLink {n : Nat} (model model' : Model K n) (name name' : String) : Prop :=
  ∃ link link', model.link? name = some link ∧ model'.link? name' = some link' ∧
    ∀ q, link.state q = link'.state q

namespace Model

variable {n : Nat} {model model' : Model K n} {name name' : String}

/-- Two models that have the same link under two names find it, or fail to, together. -/
theorem requireLink_together (h : model.SameLink model' name name') :
    Together (fun link link' => ∀ q, link.state q = link'.state q)
      (model.requireLink name) (model'.requireLink name') := by
  obtain ⟨link, link', hlink, hlink', hstate⟩ := h
  rw [requireLink, requireLink, hlink, hlink']
  exact .ok hstate

/-- A position specification goes on one model as another does on another model. -/
def PutsPosition (model model' : Model K n) (spec spec' : PositionSpec K) : Prop :=
  Together (fun c c' => Constraint.Alike ⟨n, c⟩ ⟨n, c'⟩) (Constraint.ofPosition model spec)
    (Constraint.ofPosition model' spec')

/-- An orientation specification goes on one model as another does on another model. -/
def PutsOrientation (model model' : Model K n) (spec spec' : OrientationSpec K) : Prop :=
  Together (fun c c' => Constraint.Alike ⟨n, c⟩ ⟨n, c'⟩) (Constraint.ofOrientation model spec)
    (Constraint.ofOrientation model' spec')

/-- A position on the same link is the same constraint in both models. -/
theorem putsPosition_of_sameLink (spec : PositionSpec K) (h : model.SameLink model' name name') :
    model.PutsPosition model' { spec with link := name } { spec with link := name' } := by
  refine (requireLink_together h).bind fun link link' hstate => (Together.refl _).bind fun _ _ _ =>
    .ok (Constraint.alike_of_leaf rfl (fun q => ?_) fun q => ?_)
  · simp only [Leaf.rawError, BoxConstraint.rawError, hstate]
    rfl
  · simp only [Leaf.rawJacobian, BoxConstraint.rawJacobian, hstate]
    rfl

/-- So is an orientation. -/
theorem putsOrientation_of_sameLink (spec : OrientationSpec K)
    (h : model.SameLink model' name name') :
    model.PutsOrientation model' { spec with link := name } { spec with link := name' } := by
  refine (requireLink_together h).bind fun link link' hstate => (Together.refl _).bind fun _ _ _ =>
    .ok (Constraint.alike_of_leaf rfl (fun q => ?_) fun q => ?_)
  · simp only [Leaf.rawError, OrientationConstraint.rawError, hstate]
    rfl
  · simp only [Leaf.rawJacobian, OrientationConstraint.rawJacobian, hstate]
    rfl

end Model

namespace Plan

variable {n : Nat} {model model' : Model K n} {name name' : L → String}

variable {f : PositionSpec K → PositionSpec K}

mutual

/-- A plan goes on one model as it does with other positions on another model, if each position
does, and the rotations and the limits of the model do, all as far as the plan asks for them. -/
theorem build_mapPositions_together :
    (plan : Plan K L) →
    (plan.HasPosition → ∀ link (spec : PositionSpec K),
      model.PutsPosition model' { spec with link := name link }
        { f spec with link := name' link }) →
    (plan.HasOrientation → ∀ link (spec : OrientationSpec K),
      model.PutsOrientation model' { spec with link := name link }
        { spec with link := name' link }) →
    (plan.ReadsLimits → model.lower = model'.lower ∧ model.upper = model'.upper) →
    Together Constraint.Alike (plan.build model name) ((plan.mapPositions f).build model' name')
  | position link spec, hpositions, _, _ => by
    rw [mapPositions, build, build]
    exact (hpositions trivial link spec).map fun _ _ h => h
  | orientation link spec, _, horientations, _ => by
    rw [mapPositions, build, build]
    exact (horientations trivial link spec).map fun _ _ h => h
  | jointLimits limits, _, _, _ => by
    rw [mapPositions, build, build]
    exact .ok (.mk rfl rfl)
  | modelLimits, _, _, hlimits => by
    -- the limits are read off the model
    obtain ⟨hlower, hupper⟩ := hlimits trivial
    rw [mapPositions, build, build, Constraint.ofModelLimits, Constraint.ofModelLimits,
      JointLimits.ofModel, JointLimits.ofModel, hlower, hupper]
    exact (Together.refl _).map fun _ _ h => h ▸ .mk rfl rfl
  | intersection members, hpositions, horientations, hlimits => by
    rw [mapPositions, build, build]
    exact (buildAll_mapPositions_together members hpositions horientations hlimits).bind
      fun _ _ h => Constraint.intersect_together h

/-- The members of an intersection are built in both models, or refused in both. -/
private theorem buildAll_mapPositions_together :
    (plans : List (Plan K L)) →
    (HasPositionAny plans → ∀ link (spec : PositionSpec K),
      model.PutsPosition model' { spec with link := name link }
        { f spec with link := name' link }) →
    (HasOrientationAny plans → ∀ link (spec : OrientationSpec K),
      model.PutsOrientation model' { spec with link := name link }
        { spec with link := name' link }) →
    (ReadsLimitsAny plans → model.lower = model'.lower ∧ model.upper = model'.upper) →
    Together (List.Forall₂ Constraint.Alike) (buildAll model name plans)
      (buildAll model' name' (mapPositionsAll f plans))
  | [], _, _, _ => .ok .nil
  | first :: rest, hpositions, horientations, hlimits => by
    rw [mapPositionsAll, buildAll, buildAll]
    -- what a list of plans asks for, its first plan or the others ask for
    refine (build_mapPositions_together first (fun h => hpositions (.inl h))
      (fun h => horientations (.inl h)) fun h => hlimits (.inl h)).bind fun _ _ hfirst => ?_
    refine (buildAll_mapPositions_together rest (fun h => hpositions (.inr h))
      (fun h => horientations (.inr h)) fun h => hlimits (.inr h)).bind fun _ _ hrest => ?_
    exact .ok (.cons hfirst hrest)

end

/-- A plan goes the same way on two models, if the links it asks for always have the same state, and
the joint limits it reads are the same. -/
theorem build_together (plan : Plan K L)
    (hlinks : plan.HasPosition ∨ plan.HasOrientation →
      ∀ link, model.SameLink model' (name link) (name' link))
    (hlimits : plan.ReadsLimits → model.lower = model'.lower ∧ model.upper = model'.upper) :
    Together Constraint.Alike (plan.build model name) (plan.build model' name') := by
  have htogether := build_mapPositions_together (f := id) plan
    (fun h link spec => Model.putsPosition_of_sameLink spec (hlinks (.inl h) link))
    (fun h link spec => Model.putsOrientation_of_sameLink spec (hlinks (.inr h) link)) hlimits
  rwa [mapPositions_id] at htogether

end Plan

/-- Where two constraints are built alike, the objects that use them answer alike. -/
theorem Together.answers {x y : Except Fault ((n : Nat) × Constraint K n)}
    (h : Together Constraint.Alike x y) :
    (∀ fault, x = .error fault ↔ y = .error fault) ∧
    ∀ m c, x = .ok ⟨m, c⟩ → ∃ c', y = .ok ⟨m, c'⟩ ∧ c.dimension = c'.dimension ∧
      ∀ (members members' : List Nat) (settings settings' config : Settings K) (q : Nested K),
        let o : Object K := ⟨m, c, members, settings⟩
        let o' : Object K := ⟨m, c', members', settings'⟩
        o.evaluate q = o'.evaluate q ∧ o.jacobian q = o'.jacobian q ∧
          o.projectWith config q = o'.projectWith config q := by
  refine ⟨fun _ => h.error_iff, fun m c hc => ?_⟩
  obtain ⟨_, hy, ⟨hdimension, hresidual⟩⟩ := h.exists_of_eq_ok hc
  exact ⟨_, hy, hdimension, Object.answers_congr hresidual⟩

end KinematicManifold
