import Mathlib
import KinematicManifold.Kinematics.Tree
import KinematicManifold.Proofs.Fallible

/-!
# Coordinates and velocities of a tree

The coordinates of the joints of a tree follow one another, and so do their velocities, though a
joint may have more of one than of the other. What is written at the place of a joint's coordinate
is read by this joint alone, and what stands at the place of its velocity is its own twist. Of
several values that are written for one joint, the last one is read.

## Key results

- `getElem?_scatter`: what is read after some entries are written
- `JointTree.coordinateIndex_inj`: joints have coordinates of their own
- `JointTree.getElem?_coordinateLimits`: and limits of their own
- `ControlledTree.valueAt_state`: the value of a joint is the last one that is chosen for it
- `JointTree.branch_succ`, `JointTree.branch_induction`: branches grow from one another
- `JointTree.sound_branch`, `JointTree.getD_frameTwists`: the twist of a joint
- `ControlledTree.frameState_eq`: a frame has a state unless the tree has a single velocity
- `ControlledTree.isSingle_of_control`: what is controlled has a single coordinate and velocity
-/

namespace KinematicManifold

/-! ## Writing entries -/

/-- Scattering values keeps the number of entries. -/
@[simp] theorem length_scatter {α : Type} (entries : List α) (places : List Nat)
    (values : List α) : (scatter entries places values).length = entries.length := by
  unfold scatter
  generalize places.zip values = written
  induction written generalizing entries with
  | nil => rfl
  | cons entry rest ih => rw [List.foldl_cons, ih, List.length_set]

/-- After entries are written at their places, the last one written to a place is read there. -/
theorem getElem?_scatter {ι α : Type} (place : ι → Nat) (value : ι → α) (entries : List α)
    (l : List ι) {p : Nat} (hp : p < entries.length) :
    (scatter entries (l.map place) (l.map value))[p]? =
      ((l.reverse.find? fun i => place i = p).map value).or entries[p]? := by
  -- the last entry is written last, so that the induction is from the end
  induction l using List.reverseRecOn with
  | nil => rfl
  | append_singleton l i ih =>
    have hlast : scatter entries ((l ++ [i]).map place) ((l ++ [i]).map value) =
        (scatter entries (l.map place) (l.map value)).set (place i) (value i) := by
      rw [scatter, scatter, List.zip_map', List.zip_map', List.map_append, List.foldl_append]
      rfl
    rw [hlast, List.reverse_append, List.reverse_singleton, List.singleton_append,
      List.find?_cons]
    by_cases h : place i = p
    · subst h
      simp [hp]
    · simp [h, ih]

/-! ## Places -/

variable {K : Type}

namespace JointTree

variable {t : JointTree K} {i j : Nat}

/-- The total over joints is a sum. -/
theorem total_eq_sum (count : Articulation K → Nat) (joints : List (TreeJoint K)) :
    total count joints = (joints.map (count ·.articulation)).sum := by
  induction joints with
  | nil => rfl
  | cons joint rest ih => rw [total, ih, List.map_cons, List.sum_cons]

/-- Let there be a piece for each joint, as long as is counted for the joint. In the list that the
pieces make, the first entry of a piece stands behind all that is counted for the joints before. -/
theorem getElem?_flatten_total {β : Type} {count : Articulation K → Nat}
    {joints : List (TreeJoint K)} {pieces : List (List β)}
    (hlengths : pieces.map List.length = joints.map (count ·.articulation)) {piece : List β}
    (hpiece : pieces[j]? = some piece) (hpos : 0 < piece.length) :
    pieces.flatten[total count (joints.take j)]? = piece[0]? := by
  obtain ⟨hj, rfl⟩ := List.getElem?_eq_some_iff.1 hpiece
  have hstart : total count (joints.take j) = ((pieces.map List.length).take j).sum := by
    rw [total_eq_sum, List.map_take, hlengths]
  -- what comes before is dropped, and the piece is the first one left
  rw [hstart, ← Nat.add_zero (List.sum _), ← List.getElem?_drop, List.drop_sum_flatten,
    List.drop_eq_getElem_cons hj, List.flatten_cons, List.getElem?_append_left hpos]

/-- Every joint has a coordinate. -/
theorem coordinates_pos (a : Articulation K) : 0 < a.coordinates := by
  cases a <;> simp [Articulation.coordinates]

/-- Later joints have their coordinates later. -/
theorem coordinateIndex_lt (hij : i < j) (hj : j ≤ t.joints.length) :
    t.coordinateIndex i < t.coordinateIndex j := by
  have hi : i < t.joints.length := lt_of_lt_of_le hij hj
  -- the joints before the later one contain the earlier joint and all before it
  have hsplit : t.joints.take j =
      (t.joints.take j).take (i + 1) ++ (t.joints.take j).drop (i + 1) :=
    (List.take_append_drop _ _).symm
  rw [List.take_take, Nat.min_eq_left hij, List.take_succ_eq_append_getElem hi] at hsplit
  have hpos := coordinates_pos t.joints[i].articulation
  rw [coordinateIndex, coordinateIndex, total_eq_sum, total_eq_sum, hsplit]
  simp only [List.map_append, List.sum_append, List.map_cons, List.map_nil, List.sum_singleton]
  omega

/-- Two joints have different coordinates. -/
theorem coordinateIndex_inj (hi : i < t.joints.length) (hj : j < t.joints.length) :
    t.coordinateIndex i = t.coordinateIndex j ↔ i = j := by
  constructor
  · intro h
    -- indices grow with the joints, as each has a coordinate
    rcases lt_trichotomy i j with hlt | heq | hgt
    · have := coordinateIndex_lt hlt hj.le
      omega
    · exact heq
    · have := coordinateIndex_lt hgt hi.le
      omega
  · intro h
    rw [h]

/-- At the place of the first coordinate of a joint stands its own limit. -/
theorem getElem?_coordinateLimits (limit : TreeJoint K → K) {joint : TreeJoint K}
    (hjoint : t.joints[j]? = some joint) :
    (t.coordinateLimits limit)[t.coordinateIndex j]? = some (limit joint) := by
  have hpos := coordinates_pos joint.articulation
  have hlengths : (t.joints.map fun joint => List.replicate joint.articulation.coordinates
      (limit joint)).map List.length = t.joints.map (·.articulation.coordinates) := by
    simp [Function.comp_def]
  rw [coordinateLimits, List.flatMap_def, coordinateIndex, getElem?_flatten_total hlengths
    (by rw [List.getElem?_map, hjoint, Option.map_some]) (by rwa [List.length_replicate]),
    List.getElem?_replicate_of_lt hpos]

variable [Scalar K]

/-- The first coordinate of a joint is among those of the tree. -/
theorem coordinateIndex_lt_length_neutral (hj : j < t.joints.length) :
    t.coordinateIndex j < t.neutral.length := by
  have hend : t.neutral.length = t.coordinateIndex t.joints.length := by
    rw [length_neutral, coordinateIndex, List.take_length]
  rw [hend]
  exact coordinateIndex_lt hj le_rfl

end JointTree

/-! ## Values -/

namespace ControlledTree

variable [Scalar K] {n : Nat} (c : ControlledTree K n)

omit [Scalar K] in
/-- The last choice of a joint, if it is chosen. -/
def lastChoice (joint : Nat) : Option (Fin n) :=
  (List.finRange n).reverse.find? fun i => (c.controlled.get i).val = joint

/-- The state of a tree is the neutral one with the chosen values put at the coordinates of their
joints, in order. -/
theorem state_eq (q : Vector K n) : c.state q = scatter c.tree.neutral
    ((List.finRange n).map fun i => c.tree.coordinateIndex (c.controlled.get i).val)
    ((List.finRange n).map q.get) := by
  have htoList {α : Type} (v : Vector α n) : v.toList = (List.finRange n).map v.get := by
    apply List.ext_getElem
    · simp
    · intro i hi hi'
      simp [Vector.get_eq_getElem]
  -- places and values are listed choice by choice
  rw [state, htoList, htoList]
  congr 1
  refine List.map_congr_left fun i _ => ?_
  simp [coordinateIndices, Vector.get_eq_getElem]

/-- A joint has the last value that is chosen for it, and is at rest if it is not chosen. -/
theorem valueAt_state (q : Vector K n) {j : Nat} (hj : j < c.tree.joints.length) :
    c.tree.valueAt (c.state q) (j + 1) =
      ((c.lastChoice j).map q.get).getD (c.tree.valueAt c.tree.neutral (j + 1)) := by
  -- a choice writes to the place of a joint if it is a choice of this joint
  have hplace : (fun i : Fin n => decide (c.tree.coordinateIndex (c.controlled.get i).val =
      c.tree.coordinateIndex j)) = fun i => decide ((c.controlled.get i).val = j) := by
    funext i
    simp only [JointTree.coordinateIndex_inj (c.controlled.get i).isLt hj]
  have hin : c.tree.coordinateIndex j < c.tree.neutral.length :=
    JointTree.coordinateIndex_lt_length_neutral hj
  rw [JointTree.valueAt, Nat.add_sub_cancel, List.getD_eq_getElem?_getD, state_eq,
    getElem?_scatter _ _ _ _ hin, hplace, ← lastChoice, JointTree.valueAt, Nat.add_sub_cancel,
    List.getD_eq_getElem?_getD]
  cases c.lastChoice j <;> rfl

end ControlledTree

/-! ## Branches -/

variable [Scalar K] {joints : List (TreeJoint K)}

namespace JointTree

/-- The branches made first stay as they are. -/
theorem getElem?_extendBranches_of_lt (value : Nat → K) {done : List (Branch K)} {i : Nat}
    (hi : i < done.length) : (extendBranches value done joints)[i]? = done[i]? := by
  induction joints generalizing done with
  | nil => rfl
  | cons joint rest ih =>
    have hi' : i < (done ++ [(done.getD joint.parent .root).grow done.length joint
        (value done.length)]).length := by
      rw [List.length_append]
      omega
    rw [extendBranches, ih hi', List.getElem?_append_left hi]

/-- The branch of a joint grows from one of those made before it. -/
theorem getElem?_extendBranches (value : Nat → K) (done : List (Branch K)) {i : Nat}
    {joint : TreeJoint K} (hjoint : joints[i]? = some joint) :
    (extendBranches value done joints)[done.length + i]? =
      some ((((extendBranches value done joints).take (done.length + i)).getD joint.parent
        .root).grow (done.length + i) joint (value (done.length + i))) := by
  induction joints generalizing done i with
  | nil => cases hjoint
  | cons head rest ih =>
    -- the branch of the first joint is put behind those that are there
    let branch := (done.getD head.parent .root).grow done.length head (value done.length)
    have hlength : (done ++ [branch]).length = done.length + 1 := by simp
    have hlt : done.length < (done ++ [branch]).length := by omega
    rw [extendBranches]
    cases i with
    | zero =>
      obtain rfl := Option.some.inj hjoint
      -- which are all that the first joint can be carried by
      have hdone : (extendBranches value (done ++ [branch]) rest).take done.length = done := by
        apply List.ext_getElem?
        intro k
        by_cases hk : k < done.length
        · rw [List.getElem?_take_of_lt hk, getElem?_extendBranches_of_lt value (hk.trans hlt),
            List.getElem?_append_left hk]
        · rw [List.getElem?_take_eq_none (by omega), List.getElem?_eq_none (by omega)]
      rw [Nat.add_zero, hdone, getElem?_extendBranches_of_lt value hlt,
        List.getElem?_append_right le_rfl, Nat.sub_self]
      rfl
    | succ i =>
      have hnext := ih (done ++ [branch]) hjoint
      rwa [hlength, Nat.add_right_comm] at hnext

variable {t : JointTree K}

/-- The first branch is the root. -/
@[simp] theorem branch_zero (t : JointTree K) (value : Nat → K) : t.branch value 0 = .root := by
  rw [branch, branches, List.getD_eq_getElem?_getD, getElem?_extendBranches_of_lt value (by simp)]
  rfl

/-- A number beyond the joints stands for the root. -/
theorem branch_of_length_lt (value : Nat → K) {number : Nat} (h : t.joints.length < number) :
    t.branch value number = .root := by
  have hnone : (t.branches value)[number]? = none := by
    rw [List.getElem?_eq_none]
    rw [length_branches]
    omega
  rw [branch, List.getD_eq_getElem?_getD, hnone, Option.getD_none]

/-- The branch of a joint grows from that of its parent, which comes before it. -/
theorem branch_succ (value : Nat → K) {i : Nat} {joint : TreeJoint K}
    (hjoint : t.joints[i]? = some joint) : t.branch value (i + 1) =
      (if joint.parent ≤ i then t.branch value joint.parent else .root).grow (i + 1) joint
        (value (i + 1)) := by
  have hgrow := getElem?_extendBranches value [.root] hjoint
  rw [List.length_singleton, Nat.add_comm 1] at hgrow
  -- a parent that comes later is not there yet, and the root stands in for it
  have hparent : ((t.branches value).take (i + 1)).getD joint.parent .root =
      if joint.parent ≤ i then t.branch value joint.parent else .root := by
    rw [List.getD_eq_getElem?_getD]
    by_cases h : joint.parent ≤ i
    · rw [if_pos h, List.getElem?_take_of_lt (by omega), branch, List.getD_eq_getElem?_getD]
    · rw [if_neg h, List.getElem?_take_eq_none (by omega), Option.getD_none]
  rw [branch, List.getD_eq_getElem?_getD, branches, hgrow, Option.getD_some, ← hparent]
  rfl

/-- What holds of the root, and of a branch that grows when it holds of the branch from which it
grows, holds of the branches of all joints. The values of the joints may depend on parameters. -/
theorem branch_induction {E : Type*} (value : E → Nat → K) {P : Nat → (E → Branch K) → Prop}
    (hroot : P 0 fun _ => .root)
    (hgrow : ∀ (i : Nat) (joint : TreeJoint K) (number : Nat) (parent : E → Branch K),
      t.joints[i]? = some joint → number ≤ i → (joint.parent = 0 → parent = fun _ => .root) →
      P number parent → P (i + 1) fun y => (parent y).grow (i + 1) joint (value y (i + 1)))
    {number : Nat} (h : number ≤ t.joints.length) :
    P number fun y => t.branch (value y) number := by
  induction number using Nat.strong_induction_on with
  | _ number ih =>
    cases number with
    | zero => simpa only [branch_zero] using hroot
    | succ i =>
      have hjoint : t.joints[i]? = some t.joints[i] := List.getElem?_eq_getElem h
      simp only [branch_succ _ hjoint]
      -- a joint is carried by an earlier branch, or by the root
      by_cases hparent : t.joints[i].parent ≤ i
      · simp only [if_pos hparent]
        refine hgrow i t.joints[i] _ _ hjoint hparent (fun hzero => ?_)
          (ih _ (by omega) (by omega))
        simp only [hzero, branch_zero]
      · simp only [if_neg hparent]
        exact hgrow i t.joints[i] 0 _ hjoint (Nat.zero_le i) (fun _ => rfl) hroot

end JointTree

/-! ## Twists -/

/-- The screws on a branch are those of different joints up to a number, one screw for each velocity
of its joint. -/
structure Branch.Sound (joints : List (TreeJoint K)) (number : Nat) (b : Branch K) : Prop where
  le_number : ∀ entry ∈ b.screws, entry.1 ≤ number
  nodup : (b.screws.map Prod.fst).Nodup
  length_eq : ∀ entry ∈ b.screws, ∃ joint, joints[entry.1 - 1]? = some joint ∧
    entry.2.length = joint.articulation.velocities

namespace Branch.Sound

variable {number : Nat} {b : Branch K}

/-- The root is sound. -/
theorem root : (Branch.root : Branch K).Sound joints number where
  le_number := by simp [Branch.root]
  nodup := by simp [Branch.root]
  length_eq := by simp [Branch.root]

/-- A joint comes after all those that are on the branch of its parent. -/
theorem grow (h : b.Sound joints number) {i : Nat} (hi : number ≤ i) {joint : TreeJoint K}
    (hjoint : joints[i]? = some joint) (value : K) :
    (b.grow (i + 1) joint value).Sound joints (i + 1) where
  le_number := by
    simp only [Branch.grow, List.forall_mem_cons]
    -- the new number is above those that are there
    exact ⟨le_rfl, fun entry hentry => (h.le_number entry hentry).trans (by omega)⟩
  nodup := by
    simp only [Branch.grow, List.map_cons, List.nodup_cons, List.mem_map, not_exists, not_and]
    -- and so differs from them
    refine ⟨fun entry hentry => ?_, h.nodup⟩
    have hle := h.le_number entry hentry
    omega
  length_eq := by
    simp only [Branch.grow, List.forall_mem_cons]
    exact ⟨⟨joint, hjoint, Articulation.length_screws _ _⟩, h.length_eq⟩

omit [Scalar K] in
/-- What is found on a branch belongs to a joint. -/
theorem length_of_lookup (h : b.Sound joints number) {i : Nat} {joint : TreeJoint K}
    (hjoint : joints[i]? = some joint) {screws : List (Screw K)}
    (hfound : b.screws.lookup (i + 1) = some screws) :
    screws.length = joint.articulation.velocities := by
  obtain ⟨before, after, hsplit, -⟩ := List.lookup_eq_some_iff.1 hfound
  obtain ⟨owner, howner, hlength⟩ := h.length_eq (i + 1, screws) (by simp [hsplit])
  rw [Nat.add_sub_cancel, hjoint] at howner
  obtain rfl := Option.some.inj howner
  exact hlength

end Branch.Sound

namespace JointTree

variable {t : JointTree K} {state : List K} {frame : TreeFrame K}

/-- The screws that carry a joint are those of different joints of the tree. -/
theorem sound_branch (value : Nat → K) (number : Nat) :
    (t.branch value number).Sound t.joints number := by
  by_cases h : number ≤ t.joints.length
  · refine branch_induction (fun _ : Unit => value)
      (P := fun number b => ∀ y, (b y).Sound t.joints number) (fun _ => .root) ?_ h ()
    intro i joint number parent hjoint hle _ hparent y
    exact (hparent y).grow hle hjoint _
  · rw [branch_of_length_lt value (by omega)]
    exact .root

/-- A joint that carries a frame has one twist for each of its velocities. -/
theorem length_jointTwists {i : Nat} {joint : TreeJoint K} (hjoint : t.joints[i]? = some joint)
    (point : Vec3 K) : (jointTwists joint (i + 1) (t.branchOf state frame) point).length =
      joint.articulation.velocities := by
  unfold jointTwists
  split
  · next screws hfound => rw [List.length_map, (sound_branch _ _).length_of_lookup hjoint hfound]
  · rw [List.length_replicate]

/-- The twists of the joints are as many as their velocities, joint by joint. -/
theorem map_length_jointTwists (point : Vec3 K) :
    (t.joints.mapIdx fun i joint =>
      jointTwists joint (i + 1) (t.branchOf state frame) point).map List.length =
        t.joints.map (·.articulation.velocities) := by
  apply List.ext_getElem
  · simp
  · intro i hi hi'
    have hi : i < t.joints.length := by simpa using hi'
    simp only [List.getElem_map, List.getElem_mapIdx]
    exact length_jointTwists (List.getElem?_eq_getElem hi) _

omit [Scalar K] in
/-- The number of velocities that the joints of a tree have together. -/
def velocityCount (t : JointTree K) : Nat := total (·.velocities) t.joints

/-- A frame has a twist for each velocity of the tree. -/
theorem length_frameTwists : (t.frameTwists state frame).length = t.velocityCount := by
  rw [frameTwists, List.length_flatten, map_length_jointTwists, velocityCount, total_eq_sum]

/-- At the place of the first velocity of a joint stands the first of its own twists. -/
theorem getD_frameTwists {j : Nat} {joint : TreeJoint K} (hjoint : t.joints[j]? = some joint)
    (hpos : 0 < joint.articulation.velocities) :
    (t.frameTwists state frame).getD (t.velocityIndex j) 0 =
      (jointTwists joint (j + 1) (t.branchOf state frame) (t.framePose state frame).position).getD
        0 0 := by
  have hpiece : (t.joints.mapIdx fun i joint => jointTwists joint (i + 1)
      (t.branchOf state frame) (t.framePose state frame).position)[j]? = some (jointTwists joint
        (j + 1) (t.branchOf state frame) (t.framePose state frame).position) := by
    rw [List.getElem?_mapIdx, hjoint, Option.map_some]
  rw [List.getD_eq_getElem?_getD, List.getD_eq_getElem?_getD, frameTwists, velocityIndex,
    getElem?_flatten_total (map_length_jointTwists _) hpiece
      (by rwa [length_jointTwists hjoint])]

end JointTree

/-! ## Controlled joints -/

namespace ControlledTree

variable {n : Nat}

omit [Scalar K] in
/-- Every controlled joint has a single coordinate and a single velocity. -/
def IsSingle (c : ControlledTree K n) : Prop := ∀ i : Fin n,
  c.tree.joints[(c.controlled.get i).val].articulation.coordinates = 1 ∧
    c.tree.joints[(c.controlled.get i).val].articulation.velocities = 1

omit [Scalar K] in
/-- A joint may be chosen exactly when it has one coordinate and one velocity. -/
theorem checkSingle_eq_ok_iff {joint : TreeJoint K} : checkSingle joint = .ok () ↔
    joint.articulation.coordinates = 1 ∧ joint.articulation.velocities = 1 := by
  unfold checkSingle
  split <;> simp_all

omit [Scalar K] in
/-- A tree that can be controlled is the one that was given, and only joints with a single
coordinate and velocity are controlled. -/
theorem isSingle_of_control {t : JointTree K} {names : Option (List String)}
    {c : ControlledTree K n} (h : control t names = .ok ⟨n, c⟩) : c.tree = t ∧ c.IsSingle := by
  obtain ⟨chosen, -, h⟩ := bind_eq_ok_iff.1 h
  obtain ⟨⟨⟩, hchecked, h⟩ := bind_eq_ok_iff.1 h
  cases h
  refine ⟨rfl, fun i => checkSingle_eq_ok_iff.1 ?_⟩
  exact forM_eq_ok_iff.1 hchecked _ (List.getElem_mem _)

/-! ## The states of frames -/

/-- Where a frame stands, and the twists of the controlled joints: the state of the frame, if it has
one. -/
def frameMotion (c : ControlledTree K n) (q : Vector K n) (frame : TreeFrame K) : LinkState K n :=
  ⟨c.tree.framePose (c.state q) frame,
    c.velocityIndices.map ((c.tree.frameTwists (c.state q) frame).getD · 0)⟩

/-- The frames of a tree with a single velocity have no state, and those of other trees always have
one. -/
theorem frameState_eq (c : ControlledTree K n) (q : Vector K n) (frame : TreeFrame K) :
    c.frameState q frame =
      if c.tree.velocityCount = 1 then .error .singleColumn else .ok (c.frameMotion q frame) := by
  simp only [frameState, chooseColumns, JointTree.length_frameTwists]
  split <;> rfl

end ControlledTree

end KinematicManifold
