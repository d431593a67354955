import KinematicManifold.Proofs.Signs
import KinematicManifold.Proofs.WellSized

/-!
# The entries of a bundle

A bundle is put on a model one entry after the other: its positions, its orientations, its limits.
An entry fails for a link that the model has not, for a model without joints, and for limits that do
not fit the model. What the constructors check beyond this has been seen to when the bundle was
described: no bound lies above the other, there is a row, and there is an entry.

## Key results

- `BundleEntry.fault?`, `BundleEntry.Makes`: what an entry fails with, and what it makes
- `BundleDescription.isAccepted_of_build_eq_ok`: what the descriptions have seen to
- `BundleEntry.construct_eq`: the further checks of an accepted entry pass
- `Bundle.foreseen_members`: the members of a bundle, or the fault of its first entry that has one
-/

namespace KinematicManifold

open Scalar (LawfulSigns)

variable {K : Type} [Scalar K] {n : Nat}

/-! ## Checks -/

/-- The faults of constraints that are put together wrongly: of an intersection of nothing or over
different joints, of a constraint without rows, and of bounds. -/
def Fault.isOfAssembly : Fault → Bool
  | .intersectionEmpty | .intersectionJoints _ _ | .noErrorRow | .boundsShape _ _
  | .boundsCrossed => true
  | _ => false

/-- The interval around zero with an end that is not negative is not crossed. -/
theorem Interval.isCrossed_symmetric [LawfulSigns K] {bound : K} (h : 0 ≤ bound) :
    (symmetric bound).isCrossed = false :=
  decide_eq_false (LawfulSigns.not_lt_neg h)

namespace Constraint

/-- The checks of bounds: they are two plain lists of one length, no lower bound lies above the
upper one, and there is a joint and a row. -/
def checkBounds (joints : Nat) (lower upper : Tensor K) : Except Fault Unit :=
  if lower.shape ≠ upper.shape || lower.shape.length ≠ 1 then
    .error (.boundsShape lower.shape upper.shape)
  else
    let intervals := List.zipWith Interval.mk lower.data upper.data
    if intervals.any (·.isCrossed) then .error .boundsCrossed
    else checkSize joints intervals.length

/-- A single constraint whose bounds are checked. -/
def ofBounded (l : Leaf K n) : Except Fault (Constraint K n) := do
  checkBounds n (.ofList (l.intervals.map (·.lower))) (.ofList (l.intervals.map (·.upper)))
  return leaf l

/-- Of bounds that are not crossed, the number alone is checked. -/
theorem ofBounded_eq {l : Leaf K n} (h : ∀ i ∈ l.intervals, i.isCrossed = false) :
    ofBounded l = (checkSize n l.dimension).map fun _ => leaf l := by
  -- the bounds are those of the intervals they were taken from
  have hintervals : List.zipWith Interval.mk (l.intervals.map (·.lower))
      (l.intervals.map (·.upper)) = l.intervals := by
    rw [List.zipWith_map, List.zipWith_self]
    exact List.map_id l.intervals
  have hcrossed : l.intervals.any (·.isCrossed) = false := by simpa using h
  simp only [ofBounded, checkBounds, Tensor.ofList, hintervals, hcrossed, List.length_map,
    ne_eq, not_true_eq_false, decide_false, List.length_singleton, Bool.or_self, Bool.false_eq_true,
    if_false, Leaf.dimension]
  rfl

end Constraint

/-! ## Entries -/

/-- One of the things that a bundle asks for. -/
inductive BundleEntry (K : Type) where
  | position (spec : PositionSpec K)
  | orientation (spec : OrientationSpec K)
  /-- The limits of the model. -/
  | modelLimits
  | givenLimits (limits : (count : Nat) × JointLimits K count)

/-- What a bundle asks for, in order. -/
def Bundle.entries (b : Bundle K) : List (BundleEntry K) :=
  b.positions.map .position ++ b.orientations.map .orientation ++
    match b.limits with
    | .unlimited => []
    | .ofModel => [.modelLimits]
    | .given limits => [.givenLimits limits]

namespace BundleEntry

variable (model : Model K n)

/-- What an entry for a link fails with. -/
def linkFault? (link : String) : Option Fault :=
  if !model.hasLink link then some (.unknownModelLink link)
  else if n = 0 then some .noJoint
  else none

/-- What an entry fails with. -/
def fault? : BundleEntry K → Option Fault
  | position spec => linkFault? model spec.link
  | orientation spec => linkFault? model spec.link
  | modelLimits =>
    let limits : JointLimits K n := ⟨model.lower, model.upper⟩
    if n = 0 then some .jointLimitsEmpty
    else if limits.crossed ≠ [] then some (.jointLimitsCrossed limits.crossed)
    else none
  | givenLimits limits => if limits.1 ≠ n then some (.limitsCover limits.1 n) else none

/-- The single constraint that an entry makes. -/
inductive Makes : BundleEntry K → Leaf K n → Prop
  | position {spec : PositionSpec K} {link : Link K n} : model.link? spec.link = some link →
      Makes (.position spec) (.box ⟨spec, link⟩)
  | orientation {spec : OrientationSpec K} {link : Link K n} : model.link? spec.link = some link →
      Makes (.orientation spec) (.orientation ⟨spec, link⟩)
  | modelLimits : Makes .modelLimits (.jointLimits ⟨model.lower, model.upper⟩)
  | givenLimits (limits : JointLimits K n) : Makes (.givenLimits ⟨n, limits⟩) (.jointLimits limits)

/-- Holds of an entry whose link the model has, or whose limits fit the model. -/
def Fits : BundleEntry K → Prop
  | position spec => model.hasLink spec.link = true
  | orientation spec => model.hasLink spec.link = true
  | modelLimits => ∀ i, ¬model.upper.get i < model.lower.get i
  | givenLimits limits => limits.1 = n

/-- The constraint of an entry, with every check. -/
def construct : BundleEntry K → Except Fault ((count : Nat) × Constraint K count)
  | position spec => do
    let link ← model.requireLink spec.link
    (Constraint.ofBounded (.box ⟨spec, link⟩)).map (Sigma.mk n)
  | orientation spec => do
    let link ← model.requireLink spec.link
    (Constraint.ofBounded (.orientation ⟨spec, link⟩)).map (Sigma.mk n)
  | modelLimits => do
    let ⟨count, limits⟩ ←
      JointLimitsDescription.build ⟨.ofConfiguration model.lower, .ofConfiguration model.upper⟩
    (Constraint.ofBounded (.jointLimits limits)).map (Sigma.mk count)
  | givenLimits ⟨count, limits⟩ =>
    if count ≠ n then .error (.limitsCover count n)
    else (Constraint.ofBounded (.jointLimits limits)).map (Sigma.mk count)

/-- The constraint of an entry, as a bundle has it. -/
def member : BundleEntry K → Except Fault (Constraint K n)
  | position spec => Constraint.ofPosition model spec
  | orientation spec => Constraint.ofOrientation model spec
  | modelLimits => Constraint.ofModelLimits model
  | givenLimits ⟨count, limits⟩ =>
    if h : count = n then .ok (.ofJointLimits (h ▸ limits)) else .error (.limitsCover count n)

/-- What holds of an entry whose description is accepted. -/
def IsAccepted : BundleEntry K → Prop
  | position spec => spec.constrainedAxes ≠ []
  | orientation spec => ∀ bound ∈ spec.tolerances.toList, 0 ≤ bound
  | modelLimits => True
  | givenLimits ⟨count, limits⟩ => count ≠ 0 ∧ limits.crossed = []

end BundleEntry

/-- The members of a bundle are made entry by entry. -/
theorem Bundle.members_eq_mapM (b : Bundle K) (model : Model K n) :
    b.members model = b.entries.mapM (·.member model) := by
  obtain ⟨positions, orientations, limits⟩ := b
  simp only [members, entries, List.mapM_append, List.mapM_map, bind_assoc, pure_bind]
  refine bind_congr fun positions' => bind_congr fun orientations' => ?_
  -- the limits are one entry, or none
  cases limits with
  | unlimited => rfl
  | ofModel =>
    simp only [List.mapM_cons, List.mapM_nil, BundleEntry.member]
    cases Constraint.ofModelLimits model <;> rfl
  | given limits =>
    simp only [List.mapM_cons, List.mapM_nil, BundleEntry.member]
    split_ifs <;> rfl

/-! ## Accepted descriptions -/

section
variable [LawfulSigns K]

/-- A box that is accepted has an axis that is not free. -/
theorem PositionDescription.constrainedAxes_ne_nil {d : PositionDescription K}
    {spec : PositionSpec K} (h : d.build = .ok spec) : spec.constrainedAxes ≠ [] := by
  have hchecked := isChecked_of_build h
  obtain ⟨axis, hsign⟩ := hchecked.exists_not_neg
  -- what is not negative is at least zero, as extents are numbers
  have hfinite := List.all_eq_true.1 hchecked.isFinite _ (Vec3.mem_toList_iff.2 ⟨axis, rfl⟩)
  have hnonneg : 0 ≤ spec.halfExtents.along axis := Scalar.nonneg_of_not_lt hfinite hsign
  exact List.ne_nil_of_mem (List.mem_filter.2 ⟨Axis.mem_all axis, decide_eq_true hnonneg⟩)

/-- Tolerances that are accepted are not negative. -/
theorem OrientationDescription.nonneg_of_build_eq_ok {d : OrientationDescription K}
    {spec : OrientationSpec K} (h : d.build = .ok spec) :
    ∀ bound ∈ spec.tolerances.toList, 0 ≤ bound := by
  have hchecked := isChecked_of_build h
  intro bound hbound
  obtain ⟨axis, rfl⟩ := Vec3.mem_toList_iff.1 hbound
  exact Scalar.nonneg_of_not_lt (List.all_eq_true.1 hchecked.isFinite _ hbound)
    (hchecked.not_neg axis)

end

/-- Limits that are accepted are those of a joint at least, and are not crossed. -/
theorem JointLimitsDescription.crossed_of_build_eq_ok {d : JointLimitsDescription K}
    {limits : (count : Nat) × JointLimits K count} (h : d.build = .ok limits) :
    limits.1 ≠ 0 ∧ limits.2.crossed = [] := by
  obtain ⟨count, limits⟩ := limits
  obtain ⟨given, hchecked⟩ := exists_check_eq_ok h
  obtain ⟨haccepted, rfl⟩ := JointLimits.check_eq_ok_iff.1 hchecked
  exact haccepted

/-- The entries of a bundle whose description is accepted. -/
theorem BundleDescription.isAccepted_of_build_eq_ok [LawfulSigns K] {d : BundleDescription K}
    {b : Bundle K} (h : d.build = .ok b) : b.entries ≠ [] ∧ ∀ e ∈ b.entries, e.IsAccepted := by
  obtain ⟨positions, hpositions, h⟩ := bind_eq_ok_iff.1 h
  obtain ⟨orientations, horientations, h⟩ := bind_eq_ok_iff.1 h
  -- the limits are accepted, whatever they are
  have hlimits : ∃ limits : LimitChoice ((count : Nat) × JointLimits K count),
      (∀ l, limits = .given l → l.1 ≠ 0 ∧ l.2.crossed = []) ∧
      (if (Bundle.mk positions orientations limits).isEmpty then .error .bundleEmpty
        else .ok (Bundle.mk positions orientations limits)) = Except.ok (ε := Fault) b := by
    obtain ⟨_, _, given⟩ := d
    cases given with
    | unlimited => exact ⟨.unlimited, nofun, h⟩
    | ofModel => exact ⟨.ofModel, nofun, h⟩
    | given description =>
      obtain ⟨limits, hlimits, h⟩ := bind_eq_ok_iff.1 h
      obtain ⟨l, hl, rfl⟩ := map_eq_ok_iff.1 hlimits
      refine ⟨.given l, fun l' hl' => ?_, h⟩
      cases hl'
      exact JointLimitsDescription.crossed_of_build_eq_ok hl
  obtain ⟨limits, hlimits, h⟩ := hlimits
  split_ifs at h with hempty
  cases h
  rw [mapM_eq_ok_iff] at hpositions horientations
  constructor
  · -- a bundle without entries is empty
    intro hnone
    simp only [Bundle.entries, List.append_eq_nil_iff, List.map_eq_nil_iff] at hnone
    obtain ⟨⟨rfl, rfl⟩, hlast⟩ := hnone
    cases limits with
    | unlimited => exact hempty rfl
    | ofModel => cases hlast
    | given l => cases hlast
  · intro e he
    simp only [Bundle.entries, List.mem_append, List.mem_map] at he
    obtain (⟨spec, hspec, rfl⟩ | ⟨spec, hspec, rfl⟩) | he := he
    · obtain ⟨description, -, hbuild⟩ := forall₂_exists_mem hpositions.flip hspec
      exact PositionDescription.constrainedAxes_ne_nil hbuild
    · obtain ⟨description, -, hbuild⟩ := forall₂_exists_mem horientations.flip hspec
      exact OrientationDescription.nonneg_of_build_eq_ok hbuild
    · cases limits with
      | unlimited => cases he
      | ofModel =>
        obtain rfl := List.mem_singleton.1 he
        trivial
      | given l =>
        obtain rfl := List.mem_singleton.1 he
        exact hlimits l rfl

/-- The limits of a model are described by plain lists. -/
theorem JointLimitsDescription.build_ofConfiguration (lower upper : Vector K n) :
    build ⟨.ofConfiguration lower, .ofConfiguration upper⟩ =
      (JointLimits.check ⟨lower, upper⟩).map (Sigma.mk n) := by
  simp only [build, Nested.toTensor_ofConfiguration, bind, Except.bind,
    Tensor.shape_ofConfiguration, Tensor.toConfiguration_ofConfiguration]
  by_cases hn : n = 0
  · simp only [hn, if_true, JointLimits.check]
    rfl
  · simp only [hn, if_false, ne_eq, not_true_eq_false]
    cases JointLimits.check (⟨lower, upper⟩ : JointLimits K n) <;> rfl

/-- Limits have a row for each joint. -/
theorem Leaf.dimension_jointLimits (limits : JointLimits K n) :
    (Leaf.jointLimits limits).dimension = n := by
  simp [dimension, intervals, JointLimits.intervals]

/-- Limits that are not crossed pass the checks of their bounds. -/
theorem Constraint.ofBounded_jointLimits {limits : JointLimits K n} (hn : n ≠ 0)
    (hcrossed : limits.crossed = []) :
    ofBounded (.jointLimits limits) = .ok (.ofJointLimits limits) := by
  have hsize : checkSize n n = .ok () :=
    checkSize_eq_ok_iff.2 ⟨Nat.pos_of_ne_zero hn, Nat.pos_of_ne_zero hn⟩
  rw [ofBounded_eq (JointLimits.isCrossed_of_crossed_eq_nil hcrossed),
    Leaf.dimension_jointLimits, hsize]
  rfl

/-! ## Entry by entry -/

namespace BundleEntry

variable {model : Model K n} {e : BundleEntry K}

/-- An entry for a link fails for the link, or for a model without joints. -/
theorem foreseen_link {α : Type} {name : String} {rows : Nat} (hrows : rows ≠ 0)
    (make : Link K n → α) :
    Foreseen (linkFault? model name) (fun made => ∃ link, model.link? name = some link ∧
        make link = made)
      (do
        let link ← model.requireLink name
        Constraint.checkSize n rows
        return make link) := by
  unfold linkFault? Model.hasLink Model.requireLink Constraint.checkSize
  cases hlink : model.link? name with
  | none => rfl
  | some link =>
    -- there is a row, so that only the joints may be missing
    by_cases hn : n = 0
    · simp only [hn, if_true]
      rfl
    · simp only [hn, hrows, if_false]
      exact ⟨make link, ⟨link, rfl, rfl⟩, rfl⟩

/-- An accepted entry fails with its fault, or makes its single constraint. -/
theorem foreseen_member (h : e.IsAccepted) :
    Foreseen (e.fault? model) (fun c => ∃ l, e.Makes model l ∧ .leaf l = c) (e.member model) := by
  cases e with
  | position spec =>
    have hrows : spec.constrainedAxes.length ≠ 0 := mt List.length_eq_zero_iff.1 h
    refine (foreseen_link hrows fun link => Constraint.leaf (.box ⟨spec, link⟩)).imp ?_
    rintro _ ⟨link, hlink, rfl⟩
    exact ⟨_, .position hlink, rfl⟩
  | orientation spec =>
    have hrows : spec.tolerances.toList.length ≠ 0 := by simp [Vec3.toList]
    refine (foreseen_link hrows fun link => Constraint.leaf (.orientation ⟨spec, link⟩)).imp ?_
    rintro _ ⟨link, hlink, rfl⟩
    exact ⟨_, .orientation hlink, rfl⟩
  | modelLimits =>
    -- limits of a model are checked here for the first time, unlike those that are given
    unfold fault? member Constraint.ofModelLimits JointLimits.ofModel JointLimits.check
    by_cases hn : n = 0
    · simp only [hn, if_true]
      rfl
    · by_cases hcrossed : (⟨model.lower, model.upper⟩ : JointLimits K n).crossed = []
      · simp only [hn, hcrossed, if_false, ne_eq, not_true_eq_false, List.isEmpty_nil]
        exact ⟨_, ⟨_, .modelLimits, rfl⟩, rfl⟩
      · have hjoints := mt List.isEmpty_iff.1 hcrossed
        simp only [hn, hcrossed, hjoints, if_false, if_true, ne_eq, not_false_eq_true,
          Bool.not_false]
        rfl
  | givenLimits limits =>
    obtain ⟨count, limits⟩ := limits
    by_cases hcount : count = n
    · subst hcount
      simp only [fault?, member, ne_eq, not_true_eq_false, if_false, dif_pos]
      exact ⟨_, ⟨_, .givenLimits limits, rfl⟩, rfl⟩
    · simp only [fault?, member, ne_eq, hcount, not_false_eq_true, if_true, dif_neg]
      rfl

/-- A link is accepted exactly when the model has joints and has the link. -/
theorem linkFault?_eq_none_iff {name : String} :
    linkFault? model name = none ↔ n ≠ 0 ∧ model.hasLink name = true := by
  unfold linkFault?
  split_ifs with hlink hn <;> simp_all

/-- An accepted entry does not fail if it fits the model and the model has a joint. -/
theorem fault?_eq_none_iff (h : e.IsAccepted) : e.fault? model = none ↔ n ≠ 0 ∧ e.Fits model := by
  cases e with
  | position spec => exact linkFault?_eq_none_iff
  | orientation spec => exact linkFault?_eq_none_iff
  | modelLimits =>
    -- limits of the model may be crossed or for no joint at all
    let limits : JointLimits K n := ⟨model.lower, model.upper⟩
    have hcrossed := JointLimits.crossed_ne_nil_iff (l := limits)
    simp only [limits] at hcrossed
    simp only [fault?, Fits, hcrossed]
    split_ifs with hn hlt <;> simp_all
  | givenLimits limits =>
    have hpos : limits.1 ≠ 0 := h.1
    simp only [fault?, Fits]
    split_ifs with hcount
    · simp [hcount]
    · simp_all

/-- An entry fails with a value that does not fit, and not for how constraints are put together. -/
theorem category_of_fault?_eq_some {fault : Fault} (h : e.fault? model = some fault) :
    fault.category = .invalidValue ∧ fault.isOfAssembly = false := by
  -- positions and orientations share the faults of a link
  have hlink {name : String} (h : linkFault? model name = some fault) :
      fault.category = .invalidValue ∧ fault.isOfAssembly = false := by
    unfold linkFault? at h
    split_ifs at h <;> cases h <;> exact ⟨rfl, rfl⟩
  cases e with
  | position spec => exact hlink h
  | orientation spec => exact hlink h
  | modelLimits =>
    simp only [fault?] at h
    split_ifs at h <;> cases h <;> exact ⟨rfl, rfl⟩
  | givenLimits limits =>
    simp only [fault?] at h
    split_ifs at h
    cases h
    exact ⟨rfl, rfl⟩

/-- What an accepted entry makes is over a joint and has a row. -/
theorem size_of_makes {l : Leaf K n} (h : e.IsAccepted) (hfault : e.fault? model = none)
    (hl : e.Makes model l) : 1 ≤ n ∧ 1 ≤ l.dimension := by
  have hjoints : 1 ≤ n := Nat.pos_of_ne_zero ((fault?_eq_none_iff h).1 hfault).1
  cases hl with
  | @position spec link _ =>
    refine ⟨hjoints, ?_⟩
    -- an accepted box is bounded along an axis
    rw [Leaf.dimension, Leaf.intervals, BoxConstraint.length_intervals]
    exact List.length_pos_iff.2 h
  | orientation _ =>
    refine ⟨hjoints, ?_⟩
    simp [Leaf.dimension, Leaf.intervals, OrientationConstraint.intervals, Vec3.toList]
  | modelLimits =>
    rw [Leaf.dimension_jointLimits, and_self]
    exact hjoints
  | givenLimits limits =>
    rw [Leaf.dimension_jointLimits, and_self]
    exact hjoints

/-- The further checks of an entry for a link pass if its intervals are not crossed. -/
theorem construct_link {name : String} {rows : Nat} {make : Link K n → Leaf K n}
    (hbounds : ∀ link, ∀ i ∈ (make link).intervals, i.isCrossed = false)
    (hrows : ∀ link, (make link).dimension = rows) :
    (do
      let link ← model.requireLink name
      (Constraint.ofBounded (make link)).map (Sigma.mk n)) =
    (do
      let link ← model.requireLink name
      Constraint.checkSize n rows
      return Constraint.leaf (make link)).map (Sigma.mk n) := by
  cases model.requireLink name with
  | error fault => rfl
  | ok link =>
    simp only [bind, Except.bind, Constraint.ofBounded_eq (hbounds link), hrows]
    cases Constraint.checkSize n rows <;> rfl

/-- The further checks of an accepted entry pass. -/
theorem construct_eq [LawfulSigns K] (h : e.IsAccepted) :
    e.construct model = (e.member model).map (Sigma.mk n) := by
  cases e with
  | position spec =>
    refine construct_link (fun link => ?_) fun link => BoxConstraint.length_intervals _
    -- the extents along the constrained axes are the ones that are not negative
    simp only [Leaf.intervals, BoxConstraint.intervals, List.forall_mem_map]
    intro axis haxis
    exact Interval.isCrossed_symmetric (of_decide_eq_true (List.mem_filter.1 haxis).2)
  | orientation spec =>
    refine construct_link (fun link => ?_) fun link => List.length_map _
    simp only [Leaf.intervals, OrientationConstraint.intervals, List.forall_mem_map]
    exact fun bound hbound => Interval.isCrossed_symmetric (h bound hbound)
  | modelLimits =>
    simp only [construct, member, Constraint.ofModelLimits, JointLimits.ofModel,
      JointLimitsDescription.build_ofConfiguration]
    -- limits of the model are checked twice, the second time in vain
    cases hcheck : (⟨model.lower, model.upper⟩ : JointLimits K n).check with
    | error fault => rfl
    | ok limits =>
      obtain ⟨⟨hn, hcrossed⟩, rfl⟩ := JointLimits.check_eq_ok_iff.1 hcheck
      simp only [Except.map, bind, Except.bind,
        Constraint.ofBounded_jointLimits hn hcrossed]
      rfl
  | givenLimits limits =>
    obtain ⟨count, limits⟩ := limits
    -- given limits may be for another number of joints
    by_cases hcount : count = n
    · subst hcount
      simp only [construct, member, ne_eq, not_true_eq_false, if_false, dif_pos,
        Constraint.ofBounded_jointLimits h.1 h.2]
    · simp only [construct, member, ne_eq, hcount, not_false_eq_true, if_true, dif_neg]
      rfl

end BundleEntry

/-- The members of an accepted bundle are the single constraints of its entries. -/
theorem Bundle.foreseen_members {b : Bundle K} (haccepted : ∀ e ∈ b.entries, e.IsAccepted)
    (model : Model K n) : Foreseen (b.entries.findSome? (·.fault? model))
      (fun cs => ∃ ls, List.Forall₂ (fun e l => e.Makes model l) b.entries ls ∧ ls.map .leaf = cs)
      (b.members model) := by
  rw [members_eq_mapM]
  refine (Foreseen.mapM fun e he => BundleEntry.foreseen_member (haccepted e he)).imp ?_
  intro cs hcs
  -- what was made entry by entry are leaves
  generalize b.entries = entries at hcs
  induction hcs with
  | nil => exact ⟨[], .nil, rfl⟩
  | cons hfirst _ ih =>
    obtain ⟨l, hl, rfl⟩ := hfirst
    obtain ⟨ls, hls, rfl⟩ := ih
    exact ⟨l :: ls, .cons hl hls, rfl⟩

/-- An accepted bundle does not fail if its entries fit the model and the model has a joint. -/
theorem Bundle.findSome?_fault?_eq_none_iff {b : Bundle K} (hne : b.entries ≠ [])
    (haccepted : ∀ e ∈ b.entries, e.IsAccepted) (model : Model K n) :
    b.entries.findSome? (·.fault? model) = none ↔
      (∀ spec ∈ b.positions, model.hasLink spec.link = true) ∧
      (∀ spec ∈ b.orientations, model.hasLink spec.link = true) ∧ n ≠ 0 ∧
      (∀ limits, b.limits = .given limits → limits.1 = n) ∧
      (b.limits = .ofModel → ∀ i, ¬model.upper.get i < model.lower.get i) := by
  have hfits : b.entries.findSome? (·.fault? model) = none ↔
      n ≠ 0 ∧ ∀ e ∈ b.entries, e.Fits model := by
    rw [List.findSome?_eq_none_iff]
    have hiff (e) (he : e ∈ b.entries) : e.fault? model = none ↔ n ≠ 0 ∧ e.Fits model :=
      BundleEntry.fault?_eq_none_iff (haccepted e he)
    -- there is an entry, which asks for a joint as well
    obtain ⟨first, hfirst⟩ := List.exists_mem_of_ne_nil _ hne
    constructor
    · intro h
      exact ⟨((hiff first hfirst).1 (h first hfirst)).1, fun e he => ((hiff e he).1 (h e he)).2⟩
    · exact fun h e he => (hiff e he).2 ⟨h.1, h.2 e he⟩
  rw [hfits]
  obtain ⟨positions, orientations, limits⟩ := b
  simp only [entries, List.forall_mem_append, List.forall_mem_map, BundleEntry.Fits]
  -- the limits are an entry only if they are chosen
  cases limits with
  | unlimited =>
    simp only [ne_eq, List.not_mem_nil, IsEmpty.forall_iff, implies_true, and_true, reduceCtorEq]
    tauto
  | ofModel =>
    simp only [ne_eq, List.forall_mem_singleton, forall_const, reduceCtorEq, IsEmpty.forall_iff,
      implies_true, true_and]
    tauto
  | given limits =>
    simp only [ne_eq, List.forall_mem_singleton, LimitChoice.given.injEq, forall_eq', reduceCtorEq,
      IsEmpty.forall_iff, and_true]
    tauto

end KinematicManifold
