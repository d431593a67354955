import KinematicManifold.Constraint.Use
import KinematicManifold.Proofs.Fallible

/-!
# Answers by reference

An object in a store refers to its members by number, and a single constraint refers to a link by
name. What an object answers about an array can be had from these references alone: an intersection
asks its members one after the other, and a single constraint asks its model for the link.
Everybody who is asked looks at the shape of the array again, the model looks the link up again, and
rows of different lengths are not stacked. The settings of an object are read when it is asked, and
are checked once more before it projects.

Objects refer to objects before them only. So they are gone through from the last to the first, and
an object can ask those that are left.

## Key results

- `Link.stateAt_eq`: a link that is found
- `Leaf.evaluateAt_eq`, `Leaf.jacobianAt_eq`: a single constraint whose link is found
- `Store.stack_leaf`, `Store.stack_intersection`: who asks whom
-/

namespace KinematicManifold

variable {K : Type} [Scalar K] {n : Nat}

/-! ## Asking a model for a link -/

/-- The state of the link of a name, at the configuration that an array holds. The link is looked up
before the array is looked at. -/
def Model.stateAt (m : Model K n) (t : Tensor K) (name : String) : Except Fault (LinkState K n) :=
  match m.link? name with
  | none => .error (m.unknownLink name)
  | some link => do
    let q ← t.toConfiguration n
    link.state q

namespace Link

/-- The state that the model of a link gives to the link of a name. -/
def stateAt (link : Link K n) (t : Tensor K) (name : String) : Except Fault (LinkState K n) :=
  match link with
  | ofChain chain _ => (Model.chain chain).stateAt t name
  | ofTree tree _ => (Model.tree tree).stateAt t name
  | still | immovable => do
    let q ← t.toConfiguration n
    link.state q

/-- A link is the one that its model has under a name. -/
def IsNamed (link : Link K n) (name : String) : Prop :=
  match link with
  | ofChain chain l => chain.link? name = some l
  | ofTree tree frame => tree.tree.frame? name = some frame
  | still | immovable => True

/-- Where the link is found, nothing can go wrong but that the array is no configuration. -/
theorem stateAt_eq {link : Link K n} {name : String} (h : link.IsNamed name) (t : Tensor K) :
    link.stateAt t name = (do
      let q ← t.toConfiguration n
      link.state q) := by
  cases link with
  | ofChain chain l =>
    -- the link is looked up again by its name
    have hfound : (Model.chain chain).link? name = some (.ofChain chain l) := by
      rw [Model.link?, h, Option.map_some]
    rw [stateAt, Model.stateAt, hfound]
  | ofTree tree frame =>
    have hfound : (Model.tree tree).link? name = some (.ofTree tree frame) := by
      rw [Model.link?, h, Option.map_some]
    rw [stateAt, Model.stateAt, hfound]
  | still | immovable => rfl

end Link

namespace Model

variable {m : Model K n} {name : String} {link : Link K n}

/-- A link that was looked up by a name has that name. -/
theorem isNamed_of_link? (h : m.link? name = some link) : link.IsNamed name := by
  cases m with
  | chain c =>
    obtain ⟨l, hl, rfl⟩ := Option.map_eq_some_iff.1 h
    exact hl
  | tree c =>
    obtain ⟨frame, hframe, rfl⟩ := Option.map_eq_some_iff.1 h
    exact hframe
  | immovable c =>
    -- the base is still, and any other link of the chain is immovable
    simp only [link?] at h
    split_ifs at h
    · cases h
      trivial
    · cases h
      trivial

/-- A link that has to be there is found. -/
theorem link?_of_requireLink (h : m.requireLink name = .ok link) : m.link? name = some link := by
  unfold requireLink at h
  split at h
  · next found hfound =>
    obtain rfl := Except.ok.inj h
    exact hfound
  · cases h

end Model

/-! ## Asking a single constraint -/

namespace Leaf

/-- The raw error at the configuration that an array holds. -/
def rawErrorAt (leaf : Leaf K n) (t : Tensor K) : Except Fault (List K) := do
  let q ← t.toConfiguration n
  match leaf with
  | box c =>
    let state ← c.link.stateAt t c.spec.link
    return c.placeInBox state.pose
  | orientation c =>
    let state ← c.link.stateAt t c.spec.link
    let deviation ← c.deviation state.pose
    return deviation.toList
  | jointLimits _ => return q.toList
  | affine c => return c.rows.map (·.valueAt q)

/-- The gradients of the raw error at the configuration that an array holds. -/
def rawJacobianAt (leaf : Leaf K n) (t : Tensor K) : Except Fault (List (Vector K n)) := do
  let _ ← t.toConfiguration n
  match leaf with
  | box c =>
    let state ← c.link.stateAt t c.spec.link
    return c.velocitiesInBox state
  | orientation c =>
    let state ← c.link.stateAt t c.spec.link
    let deviation ← c.deviation state.pose
    let inverse := Rotation.inverseLeftJacobian deviation
    let rates := state.jacobian.map fun twist => inverse.apply twist.angular
    return Axis.all.map fun axis => rates.map (·.along axis)
  | jointLimits _ => return unitRows n
  | affine c => return c.rows.map (·.gradient)

/-- The error at the configuration that an array holds. -/
def evaluateAt (leaf : Leaf K n) (t : Tensor K) : Except Fault (List K) := do
  let raw ← leaf.rawErrorAt t
  return List.zipWith Interval.excess leaf.intervals raw

/-- The gradients of the error at the configuration that an array holds. -/
def jacobianAt (leaf : Leaf K n) (t : Tensor K) : Except Fault (List (Vector K n)) := do
  let raw ← leaf.rawErrorAt t
  let gradients ← leaf.rawJacobianAt t
  return List.zipWith Linear.scale (List.zipWith Interval.slope leaf.intervals raw) gradients

/-- The link of a single constraint is the one that its model has under the name. -/
def IsNamed : Leaf K n → Prop
  | box c => c.link.IsNamed c.spec.link
  | orientation c => c.link.IsNamed c.spec.link
  | jointLimits _ | affine _ => True

variable {leaf : Leaf K n} (h : leaf.IsNamed) {t : Tensor K}
include h

/-- With an array that is a configuration, the raw error is the one at that configuration. -/
theorem rawErrorAt_eq {q : Vector K n} (hq : t.toConfiguration n = .ok q) :
    leaf.rawErrorAt t = leaf.rawError q := by
  -- the provider reads the array once more, to the same end
  cases leaf with
  | box c =>
    simp only [rawErrorAt, rawError, BoxConstraint.rawError, Link.stateAt_eq h, hq, bind,
      Except.bind]
  | orientation c =>
    simp only [rawErrorAt, rawError, OrientationConstraint.rawError, Link.stateAt_eq h, hq, bind,
      Except.bind]
  | jointLimits limits => simp only [rawErrorAt, hq, bind, Except.bind]; rfl
  | affine c => simp only [rawErrorAt, hq, bind, Except.bind]; rfl

/-- So is the raw Jacobian. -/
theorem rawJacobianAt_eq {q : Vector K n} (hq : t.toConfiguration n = .ok q) :
    leaf.rawJacobianAt t = leaf.rawJacobian q := by
  cases leaf with
  | box c =>
    simp only [rawJacobianAt, rawJacobian, BoxConstraint.rawJacobian, Link.stateAt_eq h, hq, bind,
      Except.bind]
  | orientation c =>
    simp only [rawJacobianAt, rawJacobian, OrientationConstraint.rawJacobian, Link.stateAt_eq h, hq,
      bind, Except.bind]
  | jointLimits limits => simp only [rawJacobianAt, hq, bind, Except.bind]; rfl
  | affine c => simp only [rawJacobianAt, hq, bind, Except.bind]; rfl

/-- Evaluating at an array is reading it and evaluating there. -/
theorem evaluateAt_eq : leaf.evaluateAt t = (do
    let q ← t.toConfiguration n
    leaf.evaluate q) := by
  cases hq : t.toConfiguration n with
  | error fault => simp only [evaluateAt, rawErrorAt, hq, bind, Except.bind]
  | ok q =>
    rw [evaluateAt, rawErrorAt_eq h hq]
    rfl

/-- The same for the Jacobian. -/
theorem jacobianAt_eq : leaf.jacobianAt t = (do
    let q ← t.toConfiguration n
    leaf.jacobian q) := by
  cases hq : t.toConfiguration n with
  | error fault => simp only [jacobianAt, rawErrorAt, hq, bind, Except.bind]
  | ok q =>
    rw [jacobianAt, rawErrorAt_eq h hq, rawJacobianAt_eq h hq]
    rfl

end Leaf

/-! ## Asking an object -/

namespace Store

/-- What an object stacks, when the objects are listed from the last to the first: a single
constraint has rows of its own, and an intersection asks its members, which come before it. A number
that stands for nothing has no rows. -/
def stackFrom {α : Type} (own : (n : Nat) → Leaf K n → Except Fault (List α)) (t : Tensor K) :
    List (Object K) → Nat → Except Fault (List α)
  | [], _ => .ok []
  | o :: earlier, number =>
    if number = earlier.length then
      match o.constraint with
      | .leaf l => own o.joints l
      | .intersection _ => do
        let _ ← t.toConfiguration o.joints
        (o.members.mapM (stackFrom own t earlier)).map List.flatten
    else stackFrom own t earlier number

/-- What the object of a number stacks. -/
def stack {α : Type} (s : Store K) (own : (n : Nat) → Leaf K n → Except Fault (List α))
    (number : Nat) (t : Tensor K) : Except Fault (List α) :=
  stackFrom own t s.objects.reverse number

/-- The error of an object at the configuration that an array holds. -/
def evaluate (s : Store K) (number : Nat) (t : Tensor K) : Except Fault (List K) :=
  s.stack (fun _ l => l.evaluateAt t) number t

/-- Rows over some number of joints, as rows over `n` joints. Rows of another length cannot be
stacked with these. -/
def fitRows {m : Nat} (rows : List (Vector K m)) : Except Fault (List (Vector K n)) :=
  if h : m = n then .ok (h ▸ rows) else .error .incompatibleShapes

/-- The gradients of an object, over `n` joints, at the configuration that an array holds. -/
def jacobian (s : Store K) (n number : Nat) (t : Tensor K) : Except Fault (List (Vector K n)) :=
  s.stack (fun _ l => l.jacobianAt t >>= fitRows) number t

/-- The residual of an object. -/
def residual (s : Store K) (n number : Nat) : Residual K n :=
  ⟨fun q => s.evaluate number (.ofConfiguration q),
    fun q => s.jacobian n number (.ofConfiguration q)⟩

end Store

/-- What an object over `n` joints answers by reference. -/
structure Reply (K : Type) (n : Nat) where
  evaluate : Tensor K → Except Fault (List K)
  jacobian : Tensor K → Except Fault (List (Vector K n))
  isSatisfied : Tensor K → Except Fault Bool
  projectionConfig : Except Fault (Settings K)
  project : Tensor K → Except Fault (Outcome K n)

/-- What an object in a store answers by reference. Its settings are described in full and checked
again before it projects, and before it looks at the array. -/
def Object.reply (o : Object K) (s : Store K) (number : Nat) : Reply K o.joints where
  evaluate := s.evaluate number
  jacobian := s.jacobian o.joints number
  isSatisfied t := do
    let error ← s.evaluate number t
    return decide (Linear.rowsNorm error < o.settings.tolerance)
  projectionConfig := o.settings.describe.build
  project t := do
    let config ← o.settings.describe.build
    let q ← t.toConfiguration o.joints
    (s.residual o.joints number).project config q

/-- What the object of a number answers by reference. -/
def Store.reply? (s : Store K) (number : Nat) : Option ((n : Nat) × Reply K n) :=
  (s.get? number).map fun o => ⟨o.joints, o.reply s number⟩

/-! ## Who asks whom -/

namespace Store

section
variable {α : Type} {own : (n : Nat) → Leaf K n → Except Fault (List α)} {t : Tensor K}

omit [Scalar K] in
/-- What is built later is not asked. -/
theorem stackFrom_append (later : List (Object K)) {earlier : List (Object K)} {number : Nat}
    (h : number < earlier.length) :
    stackFrom own t (later ++ earlier) number = stackFrom own t earlier number := by
  induction later with
  | nil => rfl
  | cons o later ih =>
    have hne : number ≠ (later ++ earlier).length := by
      rw [List.length_append]
      omega
    rw [List.cons_append, stackFrom, if_neg hne, ih]

variable {s : Store K} {number : Nat}

omit [Scalar K] in
/-- The objects after the one that is asked do not matter. -/
theorem stack_eq_take {k : Nat} (hk : number < k) (hs : k ≤ s.objects.length) :
    s.stack own number t = stackFrom own t (s.objects.take k).reverse number := by
  have hsplit : s.objects.reverse = (s.objects.drop k).reverse ++ (s.objects.take k).reverse := by
    rw [← List.reverse_append, List.take_append_drop]
  have hlt : number < (s.objects.take k).reverse.length := by
    rw [List.length_reverse, List.length_take]
    omega
  rw [stack, hsplit, stackFrom_append _ hlt]

omit [Scalar K] in
/-- An object asks those before it. -/
theorem stack_of_get? {o : Object K} (h : s.get? number = some o) :
    s.stack own number t = (match o.constraint with
      | .leaf l => own o.joints l
      | .intersection _ => do
        let _ ← t.toConfiguration o.joints
        (o.members.mapM (stackFrom own t (s.objects.take number).reverse)).map List.flatten) := by
  obtain ⟨hlt, rfl⟩ := List.getElem?_eq_some_iff.1 h
  -- of the objects up to this one, it is the last and stands first in the reversed list
  have hlast : (s.objects.take (number + 1)).reverse =
      s.objects[number] :: (s.objects.take number).reverse := by
    rw [List.take_succ_eq_append_getElem hlt, List.reverse_append, List.reverse_singleton,
      List.singleton_append]
  have hlength : number = (s.objects.take number).reverse.length := by
    rw [List.length_reverse, List.length_take]
    omega
  rw [stack_eq_take (Nat.lt_succ_self number) hlt, hlast, stackFrom, if_pos hlength]

omit [Scalar K] in
/-- A single constraint stacks its own rows. -/
theorem stack_leaf {l : Leaf K n} {members : List Nat} {settings : Settings K}
    (h : s.get? number = some ⟨n, .leaf l, members, settings⟩) :
    s.stack own number t = own n l :=
  stack_of_get? h

omit [Scalar K] in
/-- An intersection looks at the array once and then asks its members in order, all of which are
older than itself. -/
theorem stack_intersection {cs : List (Constraint K n)} {members : List Nat}
    {settings : Settings K} (h : s.get? number = some ⟨n, .intersection cs, members, settings⟩)
    (hmembers : ∀ m ∈ members, m < number) :
    s.stack own number t = (do
      let _ ← t.toConfiguration n
      (members.mapM (s.stack own · t)).map List.flatten) := by
  have hlt : number < s.objects.length := (List.getElem?_eq_some_iff.1 h).1
  have hask : members.mapM (stackFrom own t (s.objects.take number).reverse) =
      members.mapM (s.stack own · t) := by
    refine mapM_eq_mapM (List.forall₂_same.2 fun m hm => ?_)
    rw [stack_eq_take (hmembers m hm) (Nat.le_of_lt hlt)]
  rw [stack_of_get? h, hask]

end

end Store

end KinematicManifold
