import KinematicManifold.Constraint.Use
import KinematicManifold.Proofs.Leaves

/-!
# Nested intersections

However deep intersections are nested, what they ask for is what the intersection of their single
constraints asks for, one after the other from left to right.

In use, a nested intersection is assembled from objects that each have settings of their own. The
objects go into a store, members first, and are intersected by number. Whatever settings they are
given, then or later, the assembled object answers as the flat one does, and projects as it does
with the same settings.

## Key results

- `Constraint.residual_flat`, `Constraint.dimension_flat`: what is nested is flat
- `Constraint.residual_singleton`: an intersection of one member is its member
- `Assembly.add_eq_ok`: every assembly is accepted, and is found in the store
- `Assembly.answers_flat`: its answers are those of the flat intersection
-/

namespace KinematicManifold

variable {K : Type} {n : Nat}

/-! ## Flat intersections -/

namespace Constraint

/-- The intersection of the single constraints of a constraint, from left to right. -/
def flat (c : Constraint K n) : Constraint K n := intersection (c.leaves.map leaf)

/-- Flattening a constraint keeps its leaves and their order. -/
theorem leaves_flat (c : Constraint K n) : c.flat.leaves = c.leaves := by
  rw [flat, leaves, leavesAll_map_leaf]

/-- The single constraints of a constraint can be intersected, if there is one. -/
theorem intersect_leaves {c : Constraint K n} (h : c.leaves ≠ []) :
    intersect (c.leaves.map fun l => ⟨n, leaf l⟩) = .ok ⟨n, c.flat⟩ := by
  have hmembers : c.leaves.map leaf ≠ [] := fun hnil => h (List.map_eq_nil_iff.1 hnil)
  rw [flat, ← intersect_map_mk hmembers, List.map_map]
  rfl

variable [Scalar K]

/-- A nested intersection asks for what the flat one does. -/
theorem residual_flat (c : Constraint K n) : c.flat.residual = c.residual :=
  residual_congr c.leaves_flat

/-- Flattening a constraint keeps the number of its rows. -/
theorem dimension_flat (c : Constraint K n) : c.flat.dimension = c.dimension := by
  rw [dimension_eq_leaves, dimension_eq_leaves, leaves_flat]

/-- An intersection of one member asks for what its member does. -/
theorem residual_singleton (c : Constraint K n) : (intersection [c]).residual = c.residual :=
  residual_congr (by rw [leaves, leavesAll, leavesAll, List.append_nil])

end Constraint

/-- Objects over the same joints answer alike if they ask for the same. -/
theorem Object.answers_congr [Scalar K] {c c' : Constraint K n} (h : c.residual = c'.residual)
    (members members' : List Nat) (settings settings' config : Settings K) (q : Nested K) :
    let o : Object K := ⟨n, c, members, settings⟩
    let o' : Object K := ⟨n, c', members', settings'⟩
    o.evaluate q = o'.evaluate q ∧ o.jacobian q = o'.jacobian q ∧
      o.projectWith config q = o'.projectWith config q := by
  have hevaluate : c.evaluate = c'.evaluate := congrArg Residual.evaluate h
  have hjacobian : c.jacobian = c'.jacobian := congrArg Residual.jacobian h
  simp only [evaluate, jacobian, projectWith, hevaluate, hjacobian, h]
  exact ⟨rfl, rfl, rfl⟩

/-! ## Objects stay in a store -/

namespace Store

/-- The store in which some objects have other settings, one change after the other. -/
def updateAll (s : Store K) (changes : List (Nat × Settings K)) : Store K :=
  changes.foldl (fun s (number, settings) => s.update number settings) s

/-- An object is what it is, whatever the settings are that objects are given. -/
theorem exists_get?_updateAll {s : Store K} {number : Nat} {o : Object K}
    (h : s.get? number = some o) (changes : List (Nat × Settings K)) :
    ∃ settings, (s.updateAll changes).get? number = some { o with settings } := by
  induction changes generalizing s o with
  | nil => exact ⟨o.settings, h⟩
  | cons change rest ih =>
    -- a change is of this object or of another one
    by_cases hsame : number = change.1
    · refine ih (s := s.update change.1 change.2) (o := { o with settings := change.2 }) ?_
      rw [hsame] at h ⊢
      rw [get?_update, h]
      rfl
    · refine ih ?_
      rw [get?_update_of_ne _ hsame, h]

/-- What is found in a store is found in every longer one. -/
theorem get?_of_prefix {s s' : Store K} (h : s.objects <+: s'.objects) {number : Nat}
    {o : Object K} (hget : s.get? number = some o) : s'.get? number = some o := by
  obtain ⟨later, hlater⟩ := h
  obtain ⟨hlt, -⟩ := List.getElem?_eq_some_iff.1 hget
  rw [get?, ← hlater, List.getElem?_append_left hlt]
  exact hget

end Store

/-! ## Assemblies -/

/-- A constraint as it is put together: a single constraint, or an intersection that has a member,
each with settings of its own. -/
inductive Assembly (K : Type) (n : Nat) where
  | leaf (leaf : Leaf K n) (settings : Settings K)
  | intersection (first : Assembly K n) (rest : List (Assembly K n)) (settings : Settings K)

namespace Assembly

mutual

/-- What an assembly asks for. -/
def constraint : Assembly K n → Constraint K n
  | leaf l _ => .leaf l
  | intersection first rest _ => .intersection (constraint first :: constraintAll rest)

/-- What some assemblies ask for, one after the other. -/
def constraintAll : List (Assembly K n) → List (Constraint K n)
  | [] => []
  | a :: rest => constraint a :: constraintAll rest

end

/-- The settings that an assembly has itself. -/
def settings : Assembly K n → Settings K
  | leaf _ settings => settings
  | intersection _ _ settings => settings

mutual

/-- What is assembled has a leaf, since every intersection has a first member. -/
theorem leaves_constraint_ne_nil : (a : Assembly K n) → a.constraint.leaves ≠ []
  | leaf _ _ => by
    rw [constraint, Constraint.leaves]
    exact List.cons_ne_nil _ _
  | intersection first _ _ => by
    rw [constraint, Constraint.leaves, Constraint.leavesAll]
    exact List.append_ne_nil_of_left_ne_nil (leaves_constraint_ne_nil first) _

end

/-- An assembly is found in a store under a number. -/
def FoundIn (a : Assembly K n) (s : Store K) (number : Nat) : Prop :=
  ∃ members, s.get? number = some ⟨n, a.constraint, members, a.settings⟩

/-- What is found in a store is found when the store has grown. -/
theorem FoundIn.of_prefix {s s' : Store K} (h : s.objects <+: s'.objects) {number : Nat}
    {a : Assembly K n} (hfound : a.FoundIn s number) : a.FoundIn s' number := by
  obtain ⟨members, hget⟩ := hfound
  exact ⟨members, Store.get?_of_prefix h hget⟩

mutual

/-- The store with an assembly in it, members first, and the number of the assembly. -/
def add : Assembly K n → Store K → Except Fault (Store K × Nat)
  | leaf l settings, s => .ok (s.addLeaf (.leaf l) settings)
  | intersection first rest settings, s => do
    let (s, number) ← add first s
    let (s, numbers) ← addAll rest s
    s.addIntersection (number :: numbers) settings

/-- The store with some assemblies in it, one after the other, and their numbers. -/
def addAll : List (Assembly K n) → Store K → Except Fault (Store K × List Nat)
  | [], s => .ok (s, [])
  | a :: rest, s => do
    let (s, number) ← add a s
    let (s, numbers) ← addAll rest s
    return (s, number :: numbers)

end

/-- The objects under the numbers of some assemblies ask for what the assemblies do. -/
theorem map_filterMap_get? {s : Store K} {numbers : List Nat} {members : List (Assembly K n)}
    (h : List.Forall₂ (fun number a => FoundIn a s number) numbers members) :
    (numbers.filterMap s.get?).map
        (fun o => (⟨o.joints, o.constraint⟩ : (n : Nat) × Constraint K n)) =
      (constraintAll members).map (Sigma.mk n) := by
  induction h with
  | nil => rfl
  | cons hfound _ ih =>
    obtain ⟨inner, hget⟩ := hfound
    rw [List.filterMap_cons_some hget, List.map_cons, ih]
    rfl

/-- Assemblies that are found in a store can be intersected. -/
theorem addIntersection_eq_ok {s : Store K} {number : Nat} {numbers : List Nat}
    {first : Assembly K n} {rest : List (Assembly K n)} (settings : Settings K)
    (h : List.Forall₂ (fun number a => FoundIn a s number) (number :: numbers) (first :: rest)) :
    s.addIntersection (number :: numbers) settings = .ok (s.add
      ⟨n, (intersection first rest settings).constraint, number :: numbers, settings⟩) := by
  have hintersect : Constraint.intersect ((constraintAll (first :: rest)).map (Sigma.mk n)) =
      .ok ⟨n, (intersection first rest settings).constraint⟩ :=
    Constraint.intersect_map_mk (List.cons_ne_nil _ _)
  rw [Store.addIntersection, map_filterMap_get? h, hintersect]
  rfl

mutual

/-- Every assembly is accepted. It is found in the longer store, where all that was there before is
found as it was. -/
theorem add_eq_ok : (a : Assembly K n) → (s : Store K) → ∃ s' number, a.add s = .ok (s', number) ∧
    s.objects <+: s'.objects ∧ a.FoundIn s' number
  | leaf l settings, s => ⟨_, _, rfl, List.prefix_append _ _, [], Store.get?_add _ _⟩
  | intersection first rest settings, s => by
    obtain ⟨s₁, number, hfirst, hlonger, hfound⟩ := add_eq_ok first s
    obtain ⟨s₂, numbers, hrest, hlonger', hfounds⟩ := addAll_eq_ok rest s₁
    have hmembers := addIntersection_eq_ok settings (.cons (hfound.of_prefix hlonger') hfounds)
    refine ⟨_, _, ?_, (hlonger.trans hlonger').trans (List.prefix_append _ _),
      number :: numbers, Store.get?_add _ _⟩
    rw [add, hfirst]
    simp only [bind, Except.bind, hrest]
    exact hmembers

/-- The members of an intersection are added one by one, each being found from then on. -/
private theorem addAll_eq_ok : (members : List (Assembly K n)) → (s : Store K) →
    ∃ s' numbers, addAll members s = .ok (s', numbers) ∧ s.objects <+: s'.objects ∧
      List.Forall₂ (fun number a => FoundIn a s' number) numbers members
  | [], s => ⟨s, [], rfl, List.prefix_rfl, .nil⟩
  | a :: rest, s => by
    obtain ⟨s₁, number, hfirst, hlonger, hfound⟩ := add_eq_ok a s
    obtain ⟨s₂, numbers, hrest, hlonger', hfounds⟩ := addAll_eq_ok rest s₁
    refine ⟨s₂, number :: numbers, ?_, hlonger.trans hlonger',
      .cons (hfound.of_prefix hlonger') hfounds⟩
    rw [addAll, hfirst]
    simp only [bind, Except.bind, hrest]
    rfl

end

/-- Nesting does not matter. The single constraints of an assembly can be intersected, and that
intersection has as many rows as the assembly, those of all the single constraints. The assembly is
accepted into every store. Whatever settings any object is given later, it answers as the flat
intersection does, and an intersection of nothing but the assembly projects as it does itself. -/
theorem answers_flat [Scalar K] (a : Assembly K n) (s : Store K) :
    Constraint.intersect (a.constraint.leaves.map fun l => ⟨n, .leaf l⟩) =
      .ok ⟨n, a.constraint.flat⟩ ∧
    a.constraint.dimension = (a.constraint.leaves.map Leaf.dimension).sum ∧
    a.constraint.flat.dimension = a.constraint.dimension ∧
    ∃ s' number members, a.add s = .ok (s', number) ∧
      ∀ changes : List (Nat × Settings K), ∃ own,
        (s'.updateAll changes).get? number = some ⟨n, a.constraint, members, own⟩ ∧
        ∀ (others : List Nat) (settings config : Settings K) (q : Nested K),
          let o : Object K := ⟨n, a.constraint, members, own⟩
          let flat : Object K := ⟨n, a.constraint.flat, others, settings⟩
          let alone : Object K := ⟨n, .intersection [a.constraint], [number], settings⟩
          (o.evaluate q = flat.evaluate q ∧ o.jacobian q = flat.jacobian q ∧
            o.projectWith config q = flat.projectWith config q) ∧
          alone.projectWith config q = o.projectWith config q := by
  obtain ⟨s', number, hadd, -, members, hget⟩ := a.add_eq_ok s
  refine ⟨Constraint.intersect_leaves a.leaves_constraint_ne_nil,
    Constraint.dimension_eq_leaves _, Constraint.dimension_flat _, s', number, members, hadd,
    fun changes => ?_⟩
  -- changes of settings leave what the object asks for
  obtain ⟨own, hown⟩ := Store.exists_get?_updateAll hget changes
  refine ⟨own, hown, fun others settings config q => ⟨?_, ?_⟩⟩
  · -- flattened, and alone in an intersection, it has the same residual
    exact Object.answers_congr (Constraint.residual_flat _).symm _ _ _ _ config q
  · exact (Object.answers_congr (Constraint.residual_singleton _) _ _ _ _ config q).2.2

end Assembly

end KinematicManifold
