import KinematicManifold.Constraint.Basic

/-!
# Constraints with settings of their own

A constraint in use carries the settings of its own projections. Members of an intersection are
shared: the same object may stand in several intersections and be used alone, and its settings may
be changed through any of them. A store keeps the objects by number; an intersection holds the
numbers of its members, and what it asks of a configuration is fixed when it is built.

Main statements:
- `get?_add`, `get?_add_of_lt`: a new object is found under its number, and the others stay;
- `get?_update_of_ne`: changing the settings of one object leaves the others as they are;
- `get?_update`: of the object itself nothing but the settings changes.
-/

namespace KinematicManifold

/-- A constraint in use: what it asks for, the numbers of its members, and its settings. -/
structure Object (K : Type) where
  joints : Nat
  constraint : Constraint K joints
  members : List Nat
  settings : Settings K

/-- The constraints in use, by number. -/
structure Store (K : Type) where
  objects : List (Object K)

namespace Store

variable {K : Type}

/-- The store before anything is built. -/
def empty : Store K := ⟨[]⟩

/-- The object of a number. -/
def get? (s : Store K) (number : Nat) : Option (Object K) := s.objects[number]?

/-- A store with a further object, and the number of that object. -/
def add (s : Store K) (object : Object K) : Store K × Nat :=
  (⟨s.objects ++ [object]⟩, s.objects.length)

/-- The number of a member at the end of a path of member positions. -/
def member? (s : Store K) (number : Nat) : List Nat → Option Nat
  | [] => some number
  | position :: rest => do
    let object ← s.get? number
    let member ← object.members[position]?
    s.member? member rest

/-- The store in which one object has other settings. -/
def update (s : Store K) (number : Nat) (settings : Settings K) : Store K :=
  ⟨s.objects.modify number fun object => { object with settings }⟩

/-! ## Objects stay -/

/-- A new object is found under the number it was given. -/
theorem get?_add (s : Store K) (object : Object K) :
    (s.add object).1.get? (s.add object).2 = some object := by
  simp [add, get?]

/-- Adding an object leaves those found under smaller numbers as they are. -/
theorem get?_add_of_lt {s : Store K} {number : Nat} (object : Object K)
    (h : number < s.objects.length) : (s.add object).1.get? number = s.get? number := by
  simp [add, get?, List.getElem?_append_left h]

/-- Changing the settings of one object leaves every other one as it is. -/
theorem get?_update_of_ne {s : Store K} {number other : Nat} (settings : Settings K)
    (h : other ≠ number) : (s.update number settings).get? other = s.get? other := by
  simp [update, get?, Ne.symm h]

/-- The object whose settings are changed keeps what it asks for, its joints and its members. -/
theorem get?_update (s : Store K) (number : Nat) (settings : Settings K) :
    (s.update number settings).get? number =
      (s.get? number).map fun object => { object with settings } := by
  simp [update, get?]

/-! ## Building -/

variable [Scalar K]

/-- A constraint without members, with the given settings. -/
def addLeaf {n : Nat} (s : Store K) (constraint : Constraint K n) (settings : Settings K) :
    Store K × Nat :=
  s.add ⟨n, constraint, [], settings⟩

/-- The intersection of objects. Numbers that stand for nothing are left out. -/
def addIntersection (s : Store K) (members : List Nat) (settings : Settings K) :
    Except Fault (Store K × Nat) := do
  let objects := members.filterMap s.get?
  let ⟨n, constraint⟩ ← Constraint.intersect (objects.map fun o => ⟨o.joints, o.constraint⟩)
  return s.add ⟨n, constraint, members, settings⟩

/-- The constraint that a bundle puts on a model: a single one as it is, several as an intersection.
All of them have the given settings. -/
def addBundle {n : Nat} (s : Store K) (model : Model K n) (bundle : Bundle K)
    (settings : Settings K) : Except Fault (Store K × Nat) := do
  let constraints ← bundle.members model
  match constraints with
  | [constraint] => return s.addLeaf constraint settings
  | _ =>
    -- The members get the next numbers, in order.
    let first := s.objects.length
    let store := constraints.foldl (fun s c => (s.addLeaf c settings).1) s
    store.addIntersection (List.range' first constraints.length) settings

/-! ## Settings -/

/-- The store in which an object has another tolerance. -/
def setTolerance (s : Store K) (number : Nat) (tolerance : K) : Except Fault (Store K) :=
  match s.get? number with
  | none => .ok s
  | some object => (object.settings.setTolerance tolerance).map (s.update number)

/-- The store in which an object has another budget. -/
def setMaxIterations (s : Store K) (number : Nat) (budget : Budget) : Except Fault (Store K) :=
  match s.get? number with
  | none => .ok s
  | some object => (object.settings.setMaxIterations budget).map (s.update number)

end Store

end KinematicManifold
