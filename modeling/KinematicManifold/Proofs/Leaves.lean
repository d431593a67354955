import KinematicManifold.Constraint.Basic
import KinematicManifold.Proofs.Descriptions
import KinematicManifold.Proofs.RotationGroup

/-!
# The single constraints of a constraint

However intersections are nested, a constraint stacks the rows of its single constraints from left
to right: its error, its gradients and its number of rows follow from `Constraint.leaves` alone.

A constraint is built on a model when the constructors made it: from specifications that were
accepted, and from constraints that are built on the model themselves. What the constructors check
then holds of every single constraint in it.

## Key results

- `Constraint.evaluate_eq_leaves`, `Constraint.jacobian_eq_leaves` and
  `Constraint.dimension_eq_leaves`: a constraint stacks its single constraints
- `Constraint.evaluate_eq_ok_iff`, `Constraint.jacobian_eq_ok_iff`: when the rows can be had
- `Constraint.exists_evaluate_eq_ok`, `Constraint.exists_leaf_of_mem_jacobian`: where the rows come
  from
- `Constraint.length_evaluate`, `Constraint.length_jacobian`: there are a number and a gradient for
  each row
- `Constraint.BuiltOn.leaves`, `Constraint.BuiltOn.isAccepted`: what holds of the single constraints
  of an accepted constraint
-/

namespace KinematicManifold

namespace Constraint

variable {K : Type} {n : Nat}

mutual

/-- The single constraints of a constraint, from left to right. -/
def leaves : Constraint K n → List (Leaf K n)
  | leaf l => [l]
  | intersection members => leavesAll members

/-- The single constraints of some constraints, from left to right. -/
def leavesAll : List (Constraint K n) → List (Leaf K n)
  | [] => []
  | c :: rest => leaves c ++ leavesAll rest

end

/-- The leaves of single constraints are these. -/
theorem leavesAll_map_leaf (ls : List (Leaf K n)) : leavesAll (ls.map leaf) = ls := by
  induction ls with
  | nil => rfl
  | cons l rest ih => rw [List.map_cons, leavesAll, leaves, ih, List.singleton_append]

/-- The leaves of the members are the leaves of one member or another. -/
theorem mem_leavesAll {l : Leaf K n} {members : List (Constraint K n)} :
    l ∈ leavesAll members ↔ ∃ c ∈ members, l ∈ c.leaves := by
  induction members with
  | nil => simp [leavesAll]
  | cons c rest ih => simp [leavesAll, ih]

section
variable {p : Leaf K n → Prop}

/-- A single constraint is its only leaf. -/
theorem forall_leaves_leaf {l : Leaf K n} (h : p l) : ∀ l' ∈ (leaf l).leaves, p l' := by
  rwa [leaves, List.forall_mem_singleton]

/-- What holds of the leaves of every member holds of the leaves of an intersection. -/
theorem forall_leaves_intersection {members : List (Constraint K n)}
    (h : ∀ c ∈ members, ∀ l ∈ c.leaves, p l) : ∀ l ∈ (intersection members).leaves, p l := by
  intro l hl
  obtain ⟨c, hc, hl⟩ := mem_leavesAll.1 hl
  exact h c hc l hl

end

section
variable {β : Type} {f : Constraint K n → Except Fault (List β)}
  {g : Leaf K n → Except Fault (List β)}

mutual

/-- Whatever an intersection stacks from its members, a constraint stacks from its single
constraints. -/
theorem eq_mapM_leaves (hleaf : ∀ l, f (leaf l) = g l)
    (hintersection : ∀ members, f (intersection members) = (members.mapM f).map List.flatten) :
    (c : Constraint K n) → f c = (c.leaves.mapM g).map List.flatten
  | leaf l => by
    rw [hleaf, leaves, mapM_flatten_singleton]
  | intersection members => by
    rw [hintersection, leaves, mapM_eq_mapM_leavesAll hleaf hintersection members]

/-- The same for the members of an intersection. -/
private theorem mapM_eq_mapM_leavesAll (hleaf : ∀ l, f (leaf l) = g l)
    (hintersection : ∀ members, f (intersection members) = (members.mapM f).map List.flatten) :
    (members : List (Constraint K n)) →
      (members.mapM f).map List.flatten = ((leavesAll members).mapM g).map List.flatten
  | [] => rfl
  | c :: rest => by
    rw [mapM_flatten_cons, eq_mapM_leaves hleaf hintersection c,
      mapM_eq_mapM_leavesAll hleaf hintersection rest, leavesAll, mapM_flatten_append]

end

end

variable [Scalar K]

/-- A constraint stacks the errors of its single constraints. -/
theorem evaluate_eq_leaves (c : Constraint K n) (q : Vector K n) :
    c.evaluate q = (c.leaves.mapM (Leaf.evaluate · q)).map List.flatten :=
  eq_mapM_leaves (f := (evaluate · q)) (fun l => by rw [evaluate])
    (fun members => evaluate_intersection members q) c

/-- A constraint stacks the gradients of its single constraints. -/
theorem jacobian_eq_leaves (c : Constraint K n) (q : Vector K n) :
    c.jacobian q = (c.leaves.mapM (Leaf.jacobian · q)).map List.flatten :=
  eq_mapM_leaves (f := (jacobian · q)) (fun l => by rw [jacobian])
    (fun members => jacobian_intersection members q) c

/-- What a constraint asks for depends on its single constraints alone. -/
theorem residual_congr {c c' : Constraint K n} (h : c.leaves = c'.leaves) :
    c.residual = c'.residual := by
  have hevaluate : c.evaluate = c'.evaluate := by
    funext q
    rw [evaluate_eq_leaves, evaluate_eq_leaves, h]
  have hjacobian : c.jacobian = c'.jacobian := by
    funext q
    rw [jacobian_eq_leaves, jacobian_eq_leaves, h]
  rw [residual, residual, hevaluate, hjacobian]

/-- An intersection has as many rows as its members together. -/
theorem dimension_intersection (members : List (Constraint K n)) :
    (intersection members).dimension = (members.map dimension).sum := by
  simp only [dimension]
  induction members with
  | nil => rfl
  | cons c rest ih => simp only [dimensionAll, ih, List.map_cons, List.sum_cons]

mutual

/-- A constraint has the rows of its single constraints. -/
theorem dimension_eq_leaves : (c : Constraint K n) → c.dimension = (c.leaves.map Leaf.dimension).sum
  | leaf l => by simp [dimension, leaves]
  | intersection members => by
    rw [dimension, leaves, dimensionAll_eq_leaves members]

/-- The same for the members of an intersection. -/
private theorem dimensionAll_eq_leaves : (members : List (Constraint K n)) →
    dimensionAll members = ((leavesAll members).map Leaf.dimension).sum
  | [] => rfl
  | c :: rest => by
    rw [dimensionAll, leavesAll, List.map_append, List.sum_append, dimension_eq_leaves c,
      dimensionAll_eq_leaves rest]

end

section
variable {c : Constraint K n} {q : Vector K n}

/-- The error of a constraint can be had exactly when those of its single constraints can. -/
theorem evaluate_eq_ok_iff {error : List K} : c.evaluate q = .ok error ↔
    ∃ rows, List.Forall₂ (fun l r => l.evaluate q = .ok r) c.leaves rows ∧
      rows.flatten = error := by
  rw [evaluate_eq_leaves, mapM_flatten_eq_ok_iff]

/-- The gradients of a constraint can be had exactly when those of its single constraints can. -/
theorem jacobian_eq_ok_iff {gradients : List (Vector K n)} : c.jacobian q = .ok gradients ↔
    ∃ rows, List.Forall₂ (fun l r => l.jacobian q = .ok r) c.leaves rows ∧
      rows.flatten = gradients := by
  rw [jacobian_eq_leaves, mapM_flatten_eq_ok_iff]

/-- Where the error of a constraint can be had, it has the rows of every single constraint. -/
theorem exists_evaluate_eq_ok {error : List K} (h : c.evaluate q = .ok error) {l : Leaf K n}
    (hl : l ∈ c.leaves) : ∃ rows, l.evaluate q = .ok rows ∧ rows ⊆ error := by
  obtain ⟨pieces, hpieces, rfl⟩ := evaluate_eq_ok_iff.1 h
  obtain ⟨rows, hmem, hrows⟩ := forall₂_exists_mem hpieces hl
  exact ⟨rows, hrows, fun row hrow => List.mem_flatten_of_mem hmem hrow⟩

/-- Each gradient of a constraint is one of a single constraint. -/
theorem exists_leaf_of_mem_jacobian {gradients : List (Vector K n)}
    (h : c.jacobian q = .ok gradients) {g : Vector K n} (hg : g ∈ gradients) :
    ∃ l ∈ c.leaves, ∃ rows, l.jacobian q = .ok rows ∧ g ∈ rows := by
  obtain ⟨pieces, hpieces, rfl⟩ := jacobian_eq_ok_iff.1 h
  obtain ⟨rows, hmem, hg⟩ := List.mem_flatten.1 hg
  obtain ⟨l, hl, hrows⟩ := forall₂_exists_mem hpieces.flip hmem
  exact ⟨l, hl, rows, hrows, hg⟩

end

end Constraint

/-! ## One number and one gradient for each row -/

section
variable {K : Type} [Scalar K] {n : Nat} {q : Vector K n} {rows : List K}
  {gradients : List (Vector K n)}

/-- The raw error of a single constraint has as many rows as the constraint. -/
theorem Leaf.length_rawError {l : Leaf K n} (h : l.rawError q = .ok rows) :
    rows.length = l.dimension := by
  -- there is a row for each interval
  cases l with
  | box c =>
    obtain ⟨state, -, h⟩ := bind_eq_ok_iff.1 h
    obtain rfl := Except.ok.inj h
    simp [dimension, intervals]
  | orientation c =>
    obtain ⟨state, -, h⟩ := bind_eq_ok_iff.1 h
    obtain ⟨deviation, -, h⟩ := bind_eq_ok_iff.1 h
    obtain rfl := Except.ok.inj h
    rfl
  | jointLimits limits =>
    obtain rfl := Except.ok.inj h
    simp [dimension, intervals, JointLimits.intervals]
  | affine c =>
    obtain rfl := Except.ok.inj h
    simp [dimension, intervals]

/-- So has the error. -/
theorem Leaf.length_evaluate {l : Leaf K n} (h : l.evaluate q = .ok rows) :
    rows.length = l.dimension := by
  obtain ⟨raw, hraw, h⟩ := bind_eq_ok_iff.1 h
  obtain rfl := Except.ok.inj h
  rw [List.length_zipWith, length_rawError hraw, dimension, min_self]

/-- The error of a constraint has one number for each of its rows. -/
theorem Constraint.length_evaluate {c : Constraint K n} (h : c.evaluate q = .ok rows) :
    rows.length = c.dimension := by
  obtain ⟨pieces, hpieces, rfl⟩ := evaluate_eq_ok_iff.1 h
  -- both sides add up over the single constraints
  clear h
  rw [dimension_eq_leaves, List.length_flatten]
  generalize c.leaves = leaves at hpieces
  induction hpieces with
  | nil => rfl
  | cons hpiece _ ih => simp only [List.map_cons, List.sum_cons, Leaf.length_evaluate hpiece, ih]

/-- The raw Jacobian has one gradient for each row of the raw error. -/
theorem Leaf.length_rawJacobian {l : Leaf K n} (hrows : l.rawError q = .ok rows)
    (hgradients : l.rawJacobian q = .ok gradients) : gradients.length = rows.length := by
  cases l with
  | box c =>
    obtain ⟨state, hstate, hrows⟩ := bind_eq_ok_iff.1 hrows
    obtain ⟨state', hstate', hgradients⟩ := bind_eq_ok_iff.1 hgradients
    obtain rfl := Except.ok.inj hrows
    obtain rfl := Except.ok.inj hgradients
    -- boxes have a row for each constrained axis
    simp
  | orientation c =>
    obtain ⟨state, hstate, hrows⟩ := bind_eq_ok_iff.1 hrows
    obtain ⟨deviation, hdeviation, hrows⟩ := bind_eq_ok_iff.1 hrows
    obtain ⟨state', hstate', hgradients⟩ := bind_eq_ok_iff.1 hgradients
    obtain ⟨deviation', hdeviation', hgradients⟩ := bind_eq_ok_iff.1 hgradients
    obtain rfl := Except.ok.inj hrows
    obtain rfl := Except.ok.inj hgradients
    -- orientations have one for each axis
    simp [Axis.all, Vec3.toList]
  | jointLimits limits =>
    obtain rfl := Except.ok.inj hrows
    obtain rfl := Except.ok.inj hgradients
    simp
  | affine c =>
    obtain rfl := Except.ok.inj hrows
    obtain rfl := Except.ok.inj hgradients
    simp

/-- So has the Jacobian for each row of the error. -/
theorem Leaf.length_jacobian {l : Leaf K n} (hrows : l.evaluate q = .ok rows)
    (hgradients : l.jacobian q = .ok gradients) : gradients.length = rows.length := by
  obtain ⟨raw, hraw, hrows⟩ := bind_eq_ok_iff.1 hrows
  obtain ⟨raw', hraw', hgradients⟩ := bind_eq_ok_iff.1 hgradients
  obtain ⟨rawGradients, hrawGradients, hgradients⟩ := bind_eq_ok_iff.1 hgradients
  obtain rfl := Except.ok.inj (hraw.symm.trans hraw')
  obtain rfl := Except.ok.inj hrows
  obtain rfl := Except.ok.inj hgradients
  simp [length_rawJacobian hraw hrawGradients]

/-- A constraint has one gradient for each row. -/
theorem Constraint.length_jacobian {c : Constraint K n} (hrows : c.evaluate q = .ok rows)
    (hgradients : c.jacobian q = .ok gradients) : gradients.length = rows.length := by
  rw [evaluate_eq_ok_iff] at hrows
  rw [jacobian_eq_ok_iff] at hgradients
  obtain ⟨errors, herrors, rfl⟩ := hrows
  obtain ⟨jacobians, hjacobians, rfl⟩ := hgradients
  -- the rows and the gradients are stacked along the same single constraints
  generalize c.leaves = leaves at herrors hjacobians
  induction herrors generalizing jacobians with
  | nil =>
    cases hjacobians
    rfl
  | cons hfirst hrest ih =>
    cases hjacobians with
    | cons hfirst' hrest' =>
      simp only [List.flatten_cons, List.length_append, Leaf.length_jacobian hfirst hfirst',
        ih _ hrest']

/-- Who has the gradients of a constraint has its error, since the slopes depend on it. -/
theorem Constraint.exists_evaluate_of_jacobian {c : Constraint K n}
    (h : c.jacobian q = .ok gradients) : ∃ rows, c.evaluate q = .ok rows := by
  obtain ⟨pieces, hpieces, -⟩ := jacobian_eq_ok_iff.1 h
  have herror : ∀ l ∈ c.leaves, ∃ rows, l.evaluate q = .ok rows := by
    intro l hl
    obtain ⟨piece, -, hpiece⟩ := forall₂_exists_mem hpieces hl
    obtain ⟨raw, hraw, -⟩ := bind_eq_ok_iff.1 hpiece
    exact ⟨_, bind_eq_ok_iff.2 ⟨raw, hraw, rfl⟩⟩
  obtain ⟨errors, herrors⟩ := exists_forall₂ herror
  exact ⟨errors.flatten, evaluate_eq_ok_iff.2 ⟨errors, herrors, rfl⟩⟩

/-- The gradients of a constraint are as many as its rows. -/
theorem Constraint.length_jacobian_eq_dimension {c : Constraint K n}
    (h : c.jacobian q = .ok gradients) : gradients.length = c.dimension := by
  obtain ⟨rows, hrows⟩ := exists_evaluate_of_jacobian h
  rw [length_jacobian hrows h, length_evaluate hrows]

end

/-! ## Accepted constraints -/

/-- What holds of a single constraint on a chain that is accepted: its link is the one of the chain
with the name, a target has length one, tolerances are not negative and limits are not crossed. -/
def Leaf.IsAccepted {n : Nat} (chain : Chain ℝ n) : Leaf ℝ n → Prop
  | box c => ∃ link, chain.link? c.spec.link = some link ∧ c.link = .ofChain chain link
  | orientation c =>
      (∃ link, chain.link? c.spec.link = some link ∧ c.link = .ofChain chain link) ∧
      c.spec.target.normSq = 1 ∧ ∀ axis, 0 ≤ c.spec.tolerances.along axis
  | jointLimits limits => ∀ i, limits.lower.get i ≤ limits.upper.get i
  | affine _ => False

namespace Constraint

/-- A constraint that the constructors build on a model, from specifications that are accepted. -/
inductive BuiltOn {K : Type} [Scalar K] {n : Nat} (model : Model K n) : Constraint K n → Prop
  | position {d : PositionDescription K} {spec : PositionSpec K} {c : Constraint K n} :
      d.build = .ok spec → ofPosition model spec = .ok c → BuiltOn model c
  | orientation {d : OrientationDescription K} {spec : OrientationSpec K} {c : Constraint K n} :
      d.build = .ok spec → ofOrientation model spec = .ok c → BuiltOn model c
  | jointLimits {d : JointLimitsDescription K} {limits : JointLimits K n} :
      d.build = .ok ⟨n, limits⟩ → BuiltOn model (ofJointLimits limits)
  | modelLimits {c : Constraint K n} : ofModelLimits model = .ok c → BuiltOn model c
  | intersection {members : List (Constraint K n)} {c : Constraint K n} :
      intersect (members.map (Sigma.mk n)) = .ok ⟨n, c⟩ →
      (∀ member ∈ members, BuiltOn model member) → BuiltOn model c

/-- Constraints over the same joints are intersected as they are, if there is one. -/
theorem intersect_map_mk {K : Type} {n : Nat} {members : List (Constraint K n)}
    (h : members ≠ []) : intersect (members.map (Sigma.mk n)) = .ok ⟨n, intersection members⟩ := by
  obtain ⟨first, rest, rfl⟩ := List.exists_cons_of_ne_nil h
  refine bind_eq_ok_iff.2 ⟨rest, ?_, rfl⟩
  rw [mapM_eq_ok_iff, List.forall₂_map_left_iff, List.forall₂_same]
  intro c _
  simp

/-- An intersection of nothing is refused, and any other one keeps its members as they are. -/
theorem intersect_map_mk_eq_ok_iff {K : Type} {n : Nat} {members : List (Constraint K n)}
    {c : Constraint K n} : intersect (members.map (Sigma.mk n)) = .ok ⟨n, c⟩ ↔
      members ≠ [] ∧ intersection members = c := by
  constructor
  · intro h
    have hne : members ≠ [] := by
      rintro rfl
      cases h
    rw [intersect_map_mk hne] at h
    cases h
    exact ⟨hne, rfl⟩
  · rintro ⟨hne, rfl⟩
    exact intersect_map_mk hne

end Constraint

/-- A link that has to be there is the one of the chain with the name. -/
theorem Model.requireLink_eq_ok_iff {n : Nat} {chain : Chain ℝ n} {name : String}
    {link : Link ℝ n} : (Model.chain chain).requireLink name = .ok link ↔
      ∃ k, chain.link? name = some k ∧ link = .ofChain chain k := by
  unfold requireLink link?
  cases hfound : chain.link? name with
  | none => simp [hfound]
  | some k => simp [hfound, eq_comm]

/-- A constraint is over a joint and has a row. -/
theorem Constraint.checkSize_eq_ok_iff {joints rows : Nat} :
    checkSize joints rows = .ok () ↔ 1 ≤ joints ∧ 1 ≤ rows := by
  unfold checkSize
  split_ifs with hjoints hrows
  · simp [hjoints]
  · simp [hrows]
  · simp only [true_iff]
    omega

namespace Constraint

section
variable {K : Type} [Scalar K] {n : Nat} {model : Model K n} {c : Constraint K n}

/-- A constraint on a link is made if the link is there, and there is a joint and a row. -/
private theorem onLink_eq_ok_iff {name : String} {rows : Nat} {make : Link K n → Leaf K n} :
    (do
      let link ← model.requireLink name
      checkSize n rows
      return leaf (make link)) = Except.ok c ↔
      ∃ link, model.requireLink name = .ok link ∧ (1 ≤ n ∧ 1 ≤ rows) ∧ leaf (make link) = c := by
  constructor
  · intro h
    obtain ⟨link, hlink, h⟩ := bind_eq_ok_iff.1 h
    obtain ⟨⟨⟩, hsize, h⟩ := bind_eq_ok_iff.1 h
    exact ⟨link, hlink, checkSize_eq_ok_iff.1 hsize, Except.ok.inj h⟩
  · rintro ⟨link, hlink, hsize, rfl⟩
    exact bind_eq_ok_iff.2 ⟨link, hlink,
      bind_eq_ok_iff.2 ⟨(), checkSize_eq_ok_iff.2 hsize, rfl⟩⟩

/-- A specification makes a constraint if its link is there and not all axes are free. -/
theorem ofPosition_eq_ok_iff {spec : PositionSpec K} : ofPosition model spec = .ok c ↔
    ∃ link, model.requireLink spec.link = .ok link ∧
      (1 ≤ n ∧ 1 ≤ spec.constrainedAxes.length) ∧ leaf (.box ⟨spec, link⟩) = c :=
  onLink_eq_ok_iff

/-- The same of an orientation, all of whose components have a tolerance. -/
theorem ofOrientation_eq_ok_iff {spec : OrientationSpec K} : ofOrientation model spec = .ok c ↔
    ∃ link, model.requireLink spec.link = .ok link ∧
      (1 ≤ n ∧ 1 ≤ spec.tolerances.toList.length) ∧ leaf (.orientation ⟨spec, link⟩) = c :=
  onLink_eq_ok_iff

/-- The limits of a model make a constraint if they are accepted. -/
theorem ofModelLimits_eq_ok_iff : ofModelLimits model = .ok c ↔
    ∃ limits, JointLimits.check ⟨model.lower, model.upper⟩ = .ok limits ∧
      leaf (.jointLimits limits) = c := by
  constructor
  · intro h
    obtain ⟨limits, hlimits, h⟩ := bind_eq_ok_iff.1 h
    exact ⟨limits, hlimits, Except.ok.inj h⟩
  · rintro ⟨limits, hlimits, rfl⟩
    exact bind_eq_ok_iff.2 ⟨limits, hlimits, rfl⟩

end

end Constraint

/-- A normalised quaternion has length one. -/
theorem Quaternion.normSq_of_normalized {q u : Quaternion ℝ} (h : q.normalized = .ok u) :
    u.normSq = 1 := by
  obtain ⟨hdirection, rfl⟩ := normalized_eq_ok_iff.1 h
  exact q.normSq_divide_norm (q.norm_pos_of_hasDirection hdirection)

/-- An accepted target has length one, and accepted tolerances are not negative. -/
theorem OrientationDescription.of_build_eq_ok {d : OrientationDescription ℝ}
    {spec : OrientationSpec ℝ} (h : d.build = .ok spec) :
    spec.target.normSq = 1 ∧ ∀ axis, 0 ≤ spec.tolerances.along axis := by
  have hchecked := isChecked_of_build h
  obtain ⟨given, hnormalized⟩ := hchecked.exists_normalized
  exact ⟨Quaternion.normSq_of_normalized hnormalized, fun axis => not_lt.1 (hchecked.not_neg axis)⟩

/-- Accepted limits are not crossed. -/
theorem JointLimits.of_check_eq_ok {n : Nat} {given limits : JointLimits ℝ n}
    (h : given.check = .ok limits) (i : Fin n) : limits.lower.get i ≤ limits.upper.get i := by
  obtain ⟨⟨-, hcrossed⟩, rfl⟩ := check_eq_ok_iff.1 h
  exact not_lt.1 (crossed_eq_nil_iff.1 hcrossed i)

/-- A single constraint that the constructors make on a model, from what they accept. -/
inductive Leaf.BuiltOn {K : Type} [Scalar K] {n : Nat} (model : Model K n) : Leaf K n → Prop
  | box {d : PositionDescription K} {spec : PositionSpec K} {link : Link K n} :
      d.build = .ok spec → model.requireLink spec.link = .ok link →
      Constraint.checkSize n spec.constrainedAxes.length = .ok () →
      Leaf.BuiltOn model (.box ⟨spec, link⟩)
  | orientation {d : OrientationDescription K} {spec : OrientationSpec K} {link : Link K n} :
      d.build = .ok spec → model.requireLink spec.link = .ok link →
      Constraint.checkSize n spec.tolerances.toList.length = .ok () →
      Leaf.BuiltOn model (.orientation ⟨spec, link⟩)
  | jointLimits {given limits : JointLimits K n} : given.check = .ok limits →
      Leaf.BuiltOn model (.jointLimits limits)

namespace Constraint

variable {K : Type} {n : Nat}

/-- The single constraints of a constraint that the constructors build are built by them. -/
theorem BuiltOn.leaves [Scalar K] {model : Model K n} {c : Constraint K n}
    (h : c.BuiltOn model) : ∀ l ∈ c.leaves, l.BuiltOn model := by
  induction h with
  | position hspec hbuilt =>
    obtain ⟨link, hlink, hsize, rfl⟩ := ofPosition_eq_ok_iff.1 hbuilt
    exact forall_leaves_leaf (.box hspec hlink (checkSize_eq_ok_iff.2 hsize))
  | orientation hspec hbuilt =>
    obtain ⟨link, hlink, hsize, rfl⟩ := ofOrientation_eq_ok_iff.1 hbuilt
    exact forall_leaves_leaf (.orientation hspec hlink (checkSize_eq_ok_iff.2 hsize))
  | jointLimits hbuilt =>
    obtain ⟨given, hchecked⟩ := JointLimitsDescription.exists_check_eq_ok hbuilt
    exact forall_leaves_leaf (.jointLimits hchecked)
  | modelLimits hbuilt =>
    obtain ⟨limits, hchecked, rfl⟩ := ofModelLimits_eq_ok_iff.1 hbuilt
    exact forall_leaves_leaf (.jointLimits hchecked)
  | intersection hbuilt _ ih =>
    obtain ⟨-, rfl⟩ := intersect_map_mk_eq_ok_iff.1 hbuilt
    exact forall_leaves_intersection ih

/-- What the constructors check holds of every single constraint. -/
theorem BuiltOn.isAccepted {chain : Chain ℝ n} {c : Constraint ℝ n}
    (h : c.BuiltOn (.chain chain)) : ∀ l ∈ c.leaves, l.IsAccepted chain := by
  intro l hl
  cases h.leaves l hl with
  | box _ hlink _ => exact Model.requireLink_eq_ok_iff.1 hlink
  | orientation hspec hlink _ =>
    exact ⟨Model.requireLink_eq_ok_iff.1 hlink, OrientationDescription.of_build_eq_ok hspec⟩
  | jointLimits hchecked => exact JointLimits.of_check_eq_ok hchecked

end Constraint

end KinematicManifold
