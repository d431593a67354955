import KinematicManifold.Proofs.BundleEntries

/-!
# Bundles on a model

The constraint that a bundle puts on a model is added to a store together with its members. The
first entry that does not fit the model decides what is reported. If all entries fit, the constraint
asks for them, one after the other, whether it is a single constraint or an intersection.

## Key results

- `Store.createBundle`: a bundle that is put on a model with every check
- `Store.createBundle_eq`: the further checks of an accepted bundle pass
- `Store.addBundle_accepted`: when a bundle fails on a model, and what it makes
-/

namespace KinematicManifold

open Scalar (LawfulSigns)

variable {K : Type} [Scalar K] {n : Nat}

/-! ## Stores -/

namespace Store

/-- The intersection of constraints that are added in order, of which the size is checked. -/
def createIntersection (s : Store K) (members : List ((count : Nat) × Constraint K count))
    (settings : Settings K) : Except Fault (Store K × Nat) := do
  let store := members.foldl (fun s c => (s.addLeaf c.2 settings).1) s
  let ⟨count, constraint⟩ ← Constraint.intersect members
  Constraint.checkSize count constraint.dimension
  return store.add ⟨count, constraint, List.range' s.objects.length members.length, settings⟩

/-- The constraint that a bundle puts on a model, with every check that there is. -/
def createBundle (s : Store K) (model : Model K n) (b : Bundle K) (settings : Settings K) :
    Except Fault (Store K × Nat) := do
  let members : List ((count : Nat) × Constraint K count) ←
    b.entries.mapM (·.construct model)
  match members with
  | [⟨_, constraint⟩] => return s.addLeaf constraint settings
  | _ => s.createIntersection members settings

/-- The store in which single constraints are added, and their intersection unless there is one
alone. -/
def bundled (s : Store K) (ls : List (Leaf K n)) (settings : Settings K) : Store K where
  objects := s.objects ++ ls.map (fun l => ⟨n, .leaf l, [], settings⟩) ++
    if ls.length = 1 then []
    else [⟨n, .intersection (ls.map .leaf), List.range' s.objects.length ls.length, settings⟩]

omit [Scalar K] in
/-- Adding constraints one by one appends them to the objects of the store, in order. -/
theorem foldl_addLeaf (s : Store K) (cs : List (Constraint K n)) (settings : Settings K) :
    cs.foldl (fun s c => (s.addLeaf c settings).1) s =
      ⟨s.objects ++ cs.map fun c => ⟨n, c, [], settings⟩⟩ := by
  induction cs generalizing s with
  | nil => simp
  | cons c rest ih =>
    rw [List.foldl_cons, ih]
    simp [addLeaf, add]

omit [Scalar K] in
/-- Objects that are added are found under the next numbers. -/
theorem filterMap_get?_range' (first added : List (Object K)) :
    (List.range' first.length added.length).filterMap (get? ⟨first ++ added⟩) = added := by
  induction added generalizing first with
  | nil => rfl
  | cons o rest ih =>
    have hrest := ih (first ++ [o])
    rw [List.append_assoc, List.singleton_append, List.length_append] at hrest
    have hget : get? ⟨first ++ o :: rest⟩ first.length = some o := by simp [get?]
    rw [List.length_cons, List.range'_succ, List.filterMap_cons_some hget]
    exact congrArg (o :: ·) hrest

section
variable (s : Store K) {cs : List (Constraint K n)} (hne : cs ≠ []) (settings : Settings K)
include hne

omit [Scalar K] in
/-- Constraints that were added in order are intersected. -/
theorem addIntersection_foldl_addLeaf :
    let store := cs.foldl (fun s c => (s.addLeaf c settings).1) s
    let members := List.range' s.objects.length cs.length
    store.addIntersection members settings =
      .ok (store.add ⟨n, .intersection cs, members, settings⟩) := by
  intro store members
  -- the numbers of the members stand for what was added
  have hobjects : members.filterMap store.get? = cs.map fun c => ⟨n, c, [], settings⟩ := by
    have hfind := filterMap_get?_range' s.objects (cs.map fun c => ⟨n, c, [], settings⟩)
    rw [List.length_map] at hfind
    simp only [store, members, foldl_addLeaf, hfind]
  simp only [addIntersection, hobjects, List.map_map, Function.comp_def]
  rw [Constraint.intersect_map_mk hne]
  rfl

/-- The size of an intersection of constraints is checked when they are added. -/
theorem createIntersection_eq
    (hsize : Constraint.checkSize n (Constraint.intersection cs).dimension = .ok ()) :
    s.createIntersection (cs.map (Sigma.mk n)) settings =
      .ok ((cs.foldl (fun s c => (s.addLeaf c settings).1) s).add
        ⟨n, .intersection cs, List.range' s.objects.length cs.length, settings⟩) := by
  simp only [createIntersection, Constraint.intersect_map_mk hne, bind, Except.bind, hsize,
    List.foldl_map, List.length_map]
  rfl

end

section
variable {s : Store K} {model : Model K n} {b : Bundle K} {ls : List (Leaf K n)}

/-- The members of a bundle are added in order, and their intersection unless there is one alone. -/
theorem addBundle_eq (hmembers : b.members model = .ok (ls.map .leaf)) (hne : ls ≠ [])
    (settings : Settings K) : s.addBundle model b settings =
      .ok (s.bundled ls settings, (s.bundled ls settings).objects.length - 1) := by
  simp only [addBundle, hmembers, bind, Except.bind]
  match ls, hne with
  | [l], _ => simp [bundled, addLeaf, add]; rfl
  | l :: l' :: rest, _ =>
    refine (addIntersection_foldl_addLeaf s (by simp) settings).trans ?_
    rw [foldl_addLeaf]
    simp [bundled, add]

variable [LawfulSigns K] (haccepted : ∀ e ∈ b.entries, e.IsAccepted)
include haccepted

/-- The members of a bundle are constructed as they are made. -/
theorem mapM_construct :
    b.entries.mapM (·.construct model) = (b.members model).map (List.map (Sigma.mk n)) := by
  rw [Bundle.members_eq_mapM]
  generalize b.entries = entries at haccepted
  induction entries with
  | nil => rfl
  | cons e rest ih =>
    rw [List.forall_mem_cons] at haccepted
    rw [List.mapM_cons, List.mapM_cons, BundleEntry.construct_eq haccepted.1, ih haccepted.2]
    -- the first entry that fails ends both
    cases e.member model with
    | error fault => rfl
    | ok c =>
      cases rest.mapM (·.member model) <;> rfl

/-- The checks of an intersection of single constraints pass, too. -/
theorem createBundle_eq_bundled (hmembers : b.members model = .ok (ls.map .leaf)) (hne : ls ≠ [])
    (hsize : ∀ l ∈ ls, 1 ≤ n ∧ 1 ≤ l.dimension) (settings : Settings K) :
    s.createBundle model b settings =
      .ok (s.bundled ls settings, (s.bundled ls settings).objects.length - 1) := by
  simp only [createBundle, mapM_construct haccepted, hmembers, Except.map, bind, Except.bind]
  match ls, hne with
  | [l], _ => simp [bundled, addLeaf, add]; rfl
  | l :: l' :: rest, _ =>
    -- the first member alone gives the intersection a row
    obtain ⟨hjoints, hrows⟩ := hsize l List.mem_cons_self
    have hcheck : Constraint.checkSize n
        (Constraint.intersection ((l :: l' :: rest).map .leaf)).dimension = .ok () :=
      Constraint.checkSize_eq_ok_iff.2 ⟨hjoints, hrows.trans (Nat.le_add_right _ _)⟩
    refine (createIntersection_eq s (by simp) settings hcheck).trans ?_
    rw [foldl_addLeaf]
    simp [bundled, add]

end

section
variable (s : Store K) {b : Bundle K} (hne : b.entries ≠ [])
  (haccepted : ∀ e ∈ b.entries, e.IsAccepted) (model : Model K n) (settings : Settings K)
include hne haccepted

/-- An accepted bundle fails with the fault of its first entry that has one, or its single
constraints are added. -/
theorem foreseen_addBundle :
    Foreseen (b.entries.findSome? (·.fault? model))
      (fun result => ∃ ls, List.Forall₂ (fun e l => e.Makes model l) b.entries ls ∧
        result = (s.bundled ls settings, (s.bundled ls settings).objects.length - 1))
      (s.addBundle model b settings) := by
  obtain ⟨fault, hfault, hmembers⟩ | ⟨hfault, _, ⟨ls, hls, rfl⟩, hmembers⟩ :=
    (b.foreseen_members haccepted model).cases
  · rw [hfault, addBundle, hmembers]
    rfl
  · rw [hfault]
    have hne' : ls ≠ [] := fun h => hne (List.forall₂_nil_right_iff.1 (h ▸ hls))
    exact ⟨_, ⟨ls, hls, rfl⟩, addBundle_eq hmembers hne' settings⟩

/-- The further checks of an accepted bundle pass. -/
theorem createBundle_eq [LawfulSigns K] :
    s.createBundle model b settings = s.addBundle model b settings := by
  obtain ⟨fault, hfault, hmembers⟩ | ⟨hfault, _, ⟨ls, hls, rfl⟩, hmembers⟩ :=
    (b.foreseen_members haccepted model).cases
  · rw [createBundle, mapM_construct haccepted, addBundle, hmembers]
    rfl
  · have hne' : ls ≠ [] := fun h => hne (List.forall₂_nil_right_iff.1 (h ▸ hls))
    rw [addBundle_eq hmembers hne']
    -- an entry without a fault makes a leaf with joints and rows
    refine createBundle_eq_bundled haccepted hmembers hne' (fun l hl => ?_) settings
    obtain ⟨e, he, hmakes⟩ := forall₂_exists_mem hls.flip hl
    have hfault := List.findSome?_eq_none_iff.1 hfault e he
    exact BundleEntry.size_of_makes (haccepted e he) hfault hmakes

end

omit [Scalar K] in
/-- The last object that a bundle adds has the single constraints that were added. -/
theorem get?_bundled (s : Store K) (ls : List (Leaf K n)) (settings : Settings K) :
    let s' := s.bundled ls settings
    ∃ c members, s'.get? (s'.objects.length - 1) = some ⟨n, c, members, settings⟩ ∧ c.leaves = ls ∧
      ((∃ l, c = .leaf l) ↔ ls.length = 1) := by
  intro s'
  -- a single leaf is the last object, and more of them are followed by their intersection
  by_cases hone : ls.length = 1
  · obtain ⟨l, rfl⟩ := List.length_eq_one_iff.1 hone
    exact ⟨.leaf l, [], by simp [s', bundled, get?], rfl, by simp⟩
  · refine ⟨.intersection (ls.map .leaf), List.range' s.objects.length ls.length, ?_,
      Constraint.leavesAll_map_leaf ls, by simp [hone]⟩
    simp [s', bundled, hone, get?]

/-- A bundle whose description is accepted fails on a model exactly if the model has no joint or not
the link of an entry, or if the limits do not fit the model. It fails with the fault of the first
such entry, which is always a value that does not fit; a check of how constraints are put together
never fails. Otherwise each entry makes its single constraint, in order and with the given settings,
and the constraint of the bundle asks for all of them: it is a single constraint if there is one
entry, else an intersection, and it asks for the same as the intersection in both cases. -/
theorem addBundle_accepted [LawfulSigns K] (s : Store K) (model : Model K n)
    {d : BundleDescription K} {b : Bundle K} (hb : d.build = .ok b) (settings : Settings K) :
    s.createBundle model b settings = s.addBundle model b settings ∧
    (∀ fault, s.addBundle model b settings = .error fault ↔
      b.entries.findSome? (·.fault? model) = some fault) ∧
    ((∃ fault, s.addBundle model b settings = .error fault) ↔
      (∃ spec ∈ b.positions, model.hasLink spec.link = false) ∨
      (∃ spec ∈ b.orientations, model.hasLink spec.link = false) ∨ n = 0 ∨
      (∃ limits, b.limits = .given limits ∧ limits.1 ≠ n) ∨
      (b.limits = .ofModel ∧ ∃ i, model.upper.get i < model.lower.get i)) ∧
    (∀ fault, s.addBundle model b settings = .error fault →
      fault.category = .invalidValue ∧ fault.isOfAssembly = false) ∧
    ∀ s' number, s.addBundle model b settings = .ok (s', number) → ∃ ls : List (Leaf K n),
      List.Forall₂ (fun e l => e.Makes model l) b.entries ls ∧ s' = s.bundled ls settings ∧
      number + 1 = s'.objects.length ∧ ∃ c members,
        s'.get? number = some ⟨n, c, members, settings⟩ ∧ c.leaves = ls ∧
        ((∃ l, c = .leaf l) ↔ b.entries.length = 1) ∧
        c.residual = (Constraint.intersection (ls.map .leaf)).residual := by
  obtain ⟨hne, haccepted⟩ := BundleDescription.isAccepted_of_build_eq_ok hb
  have hadd := foreseen_addBundle s hne haccepted model settings
  refine ⟨createBundle_eq s hne haccepted model settings, fun fault => hadd.error_iff, ?_,
    fun fault hfault => ?_, fun s' number hok => ?_⟩
  · -- what fails is spelled out entry by entry
    have hfails : (∃ fault, s.addBundle model b settings = .error fault) ↔
        b.entries.findSome? (·.fault? model) ≠ none := by
      simp only [hadd.error_iff]
      exact Option.ne_none_iff_exists'.symm
    rw [hfails, ne_eq, b.findSome?_fault?_eq_none_iff hne haccepted model]
    simp only [not_and_or, not_forall, not_not, exists_prop, Bool.not_eq_true, ne_eq]
  · obtain ⟨e, -, he⟩ := List.exists_of_findSome?_eq_some (hadd.error_iff.1 hfault)
    exact BundleEntry.category_of_fault?_eq_some he
  · -- without a fault, each entry has made its leaf
    obtain ⟨ls, hls, heq⟩ := hadd.of_eq_ok hok
    obtain ⟨rfl, rfl⟩ := Prod.mk.inj heq
    obtain ⟨c, members, hget, hleaves, hleaf⟩ := get?_bundled s ls settings
    rw [← hls.length_eq] at hleaf
    refine ⟨ls, hls, rfl, ?_, c, members, hget, hleaves, hleaf, Constraint.residual_congr ?_⟩
    · have hlast := (List.getElem?_eq_some_iff.1 hget).1
      omega
    · rw [hleaves, Constraint.leaves, Constraint.leavesAll_map_leaf]

/-! ## A hand and its limits -/

/-- The hand is kept in its box, and the joints in the limits of the model. -/
noncomputable def handBundle : Bundle ℝ := ⟨[handSpec], [], .ofModel⟩

/-- The description of the example bundle makes that bundle. -/
theorem build_handBundle :
    BundleDescription.build ⟨[handDescription], [], .ofModel⟩ = .ok handBundle := by
  simp only [BundleDescription.build, List.mapM_cons, List.mapM_nil, build_handDescription]
  rfl

/-- The box and the limits are added, and their intersection. -/
theorem addBundle_accepted_handBundle :
    BundleDescription.build ⟨[handDescription], [], .ofModel⟩ = .ok handBundle ∧
    ∃ s' c members, empty.addBundle (.chain turnThenSlide) handBundle .standard = .ok (s', 2) ∧
      s'.get? 2 = some ⟨2, c, members, .standard⟩ ∧
      c.leaves = [.box handConstraint, .jointLimits rangeLimits] := by
  refine ⟨build_handBundle, ?_⟩
  obtain ⟨-, -, hfails, -, hmakes⟩ :=
    empty.addBundle_accepted (.chain turnThenSlide) build_handBundle .standard
  have hchecked : (⟨(Model.chain turnThenSlide).lower, (Model.chain turnThenSlide).upper⟩ :
      JointLimits ℝ 2).check = .ok rangeLimits := by
    obtain ⟨limits, hlimits, h⟩ :=
      Constraint.ofModelLimits_eq_ok_iff.1 ofModelLimits_turnThenSlide
    cases h
    exact hlimits
  obtain ⟨⟨-, hcrossed⟩, hrange⟩ := JointLimits.check_eq_ok_iff.1 hchecked
  cases hresult : empty.addBundle (.chain turnThenSlide) handBundle .standard with
  | error fault =>
    -- the chain has the link, and its limits are not crossed
    obtain ⟨spec, hspec, hlink⟩ | ⟨_, hspec, _⟩ | hn | ⟨_, hgiven, _⟩ | ⟨_, hlimits⟩ :=
      hfails.1 ⟨fault, hresult⟩
    · obtain rfl := List.mem_singleton.1 hspec
      cases hlink
    · cases hspec
    · cases hn
    · cases hgiven
    · exact absurd hcrossed (JointLimits.crossed_ne_nil_iff.2 hlimits)
  | ok result =>
    obtain ⟨s', number⟩ := result
    obtain ⟨ls, hls, rfl, hnumber, c, members, hget, hleaves, -⟩ := hmakes s' number hresult
    obtain _ | ⟨hhand, _ | ⟨hlimits, ⟨⟩⟩⟩ := hls
    cases hhand with
    | position hlink =>
      cases hlink
      cases hlimits
      obtain rfl : number = 2 := by simpa [bundled, empty] using hnumber
      exact ⟨_, c, members, rfl, hget, by rw [hleaves, hrange]; rfl⟩

end Store

end KinematicManifold
