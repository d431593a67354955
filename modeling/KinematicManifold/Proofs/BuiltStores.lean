import KinematicManifold.Proofs.Leaves
import KinematicManifold.Proofs.Outcome
import KinematicManifold.Proofs.Reading
import KinematicManifold.Proofs.References

/-!
# Stores that were built

A store is made by building objects in it and by changing their settings. Its objects are linked:
each has settings that are accepted, and the members of an intersection come before it, and ask for
what they asked for when they were intersected.

An object answers without its members, since what it asks for is fixed when it is built. In a store
that was built, its answers are those that it gives by reference.

## Key results

- `Store.Built`: how a store is made
- `Store.change_cases`: what a change of settings can do
- `Store.Built.linkedIn`: the objects of a store that was built
- `Store.Built.evaluate_eq`, `Store.Built.jacobian_eq`: what is stacked from the members
- `Store.Built.reply_isOf`: both ways give the same answers
-/

namespace KinematicManifold

variable {K : Type} [Scalar K] {n : Nat}

/-- A change of the settings of an object. -/
inductive Change (K : Type) where
  | tolerance (value : K)
  | maxIterations (value : Budget)

/-- Settings that differ in an accepted tolerance or in an accepted budget only. -/
structure Settings.Retuned (s s' : Settings K) : Prop where
  damping_eq : s'.damping = s.damping
  maxStep_eq : s'.maxStep = s.maxStep
  valid : s.Valid → s'.Valid

namespace Store

/-- The store in which the settings of an object are changed. -/
def change (s : Store K) (number : Nat) : Change K → Except Fault (Store K)
  | .tolerance value => s.setTolerance number value
  | .maxIterations value => s.setMaxIterations number value

/-- A store that is made from the empty one by building objects and changing their settings, where
the single constraints are of some kind. -/
inductive Built (P : (n : Nat) → Leaf K n → Prop) : Store K → Prop
  | empty : Built P .empty
  | leaf {s : Store K} {n : Nat} {l : Leaf K n} {d : SettingsDescription K}
      {settings : Settings K} : Built P s → P n l → d.build = .ok settings →
      Built P (s.addLeaf (.leaf l) settings).1
  | intersection {s s' : Store K} {members : List Nat} {d : SettingsDescription K}
      {settings : Settings K} {number : Nat} : Built P s →
      (∀ m ∈ members, (s.get? m).isSome) → d.build = .ok settings →
      s.addIntersection members settings = .ok (s', number) → Built P s'
  | change {s s' : Store K} {number : Nat} {change : Change K} : Built P s →
      s.change number change = .ok s' → Built P s'

/-- The object of a number asks for what a constraint does. -/
def AsksFor (s : Store K) (number : Nat) (c : Constraint K n) : Prop :=
  ∃ members settings, s.get? number = some ⟨n, c, members, settings⟩

end Store

/-- An object of a store is linked to its members: they come before it, and ask for what it has from
them. -/
inductive Object.LinkedIn (P : (n : Nat) → Leaf K n → Prop) (s : Store K) (number : Nat) :
    Object K → Prop
  | leaf {n : Nat} {l : Leaf K n} {settings : Settings K} : P n l → settings.Valid →
      LinkedIn P s number ⟨n, .leaf l, [], settings⟩
  | intersection {n : Nat} {cs : List (Constraint K n)} {members : List Nat}
      {settings : Settings K} : cs ≠ [] →
      List.Forall₂ (fun m c => m < number ∧ s.AsksFor m c) members cs → settings.Valid →
      LinkedIn P s number ⟨n, .intersection cs, members, settings⟩

omit [Scalar K] in
/-- Constraints that are intersected are over the same joints. -/
theorem Constraint.eq_map_of_intersect {members : List ((n : Nat) × Constraint K n)}
    {c : (n : Nat) × Constraint K n} (h : intersect members = .ok c) :
    ∃ n cs, cs ≠ [] ∧ c = ⟨n, intersection cs⟩ ∧ members = cs.map (Sigma.mk n) := by
  cases members with
  | nil => cases h
  | cons first rest =>
    obtain ⟨n, first⟩ := first
    obtain ⟨others, hothers, h⟩ := bind_eq_ok_iff.1 h
    cases h
    refine ⟨n, first :: others, List.cons_ne_nil _ _, rfl, ?_⟩
    rw [List.map_cons, List.cons.injEq]
    refine ⟨rfl, ?_⟩
    -- each further member was found to be over as many joints as the first
    rw [mapM_eq_ok_iff] at hothers
    rw [← List.forall₂_eq_eq_eq, List.forall₂_map_right_iff]
    refine hothers.imp ?_
    rintro ⟨m, c⟩ c' hc
    dsimp only at hc
    split_ifs at hc with hm
    subst hm
    cases hc
    rfl

namespace Store

variable {P : (n : Nat) → Leaf K n → Prop} {s s' : Store K} {number : Nat} {o : Object K}

/-- What a change can do: nothing, where there is no object, or put other settings in the place of
those of the object. -/
theorem change_cases {change : Change K} (h : s.change number change = .ok s') :
    s' = s ∨ ∃ o settings, s.get? number = some o ∧ o.settings.Retuned settings ∧
      s' = s.update number settings := by
  cases hget : s.get? number with
  | none =>
    -- a number that stands for nothing changes nothing
    left
    cases change <;> simp only [Store.change, setTolerance, setMaxIterations, hget] at h <;>
      exact (Except.ok.inj h).symm
  | some o =>
    right
    cases change with
    | tolerance value =>
      -- what an accepted change sets is valid, and it sets nothing else
      simp only [Store.change, setTolerance, hget] at h
      obtain ⟨settings, hsettings, rfl⟩ := map_eq_ok_iff.1 h
      obtain ⟨tolerance, htolerance, hsettings⟩ := bind_eq_ok_iff.1 hsettings
      cases hsettings
      obtain ⟨hpos, rfl⟩ := checkTolerance_eq_ok_iff.1 htolerance
      exact ⟨o, { o.settings with tolerance }, rfl, ⟨rfl, rfl, fun ho =>
        ⟨hpos, ho.maxIterations_pos, ho.damping_nonneg, ho.maxStep_pos⟩⟩, rfl⟩
    | maxIterations value =>
      simp only [Store.change, setMaxIterations, hget] at h
      obtain ⟨settings, hsettings, rfl⟩ := map_eq_ok_iff.1 h
      obtain ⟨count, hcount, hsettings⟩ := bind_eq_ok_iff.1 hsettings
      cases hsettings
      have hpos : 1 ≤ count := (Budget.check_eq_ok_iff.1 hcount).1
      exact ⟨o, { o.settings with maxIterations := count }, rfl, ⟨rfl, rfl, fun ho =>
        ⟨ho.tolerance_pos, hpos, ho.damping_nonneg, ho.maxStep_pos⟩⟩, rfl⟩

omit [Scalar K] in
/-- An object asks for what it did when there are more. -/
theorem AsksFor.add {c : Constraint K n} (h : s.AsksFor number c) (o : Object K) :
    (s.add o).1.AsksFor number c := by
  obtain ⟨members, settings, hget⟩ := h
  have hlt : number < s.objects.length := (List.getElem?_eq_some_iff.1 hget).1
  exact ⟨members, settings, by rw [get?_add_of_lt _ hlt, hget]⟩

omit [Scalar K] in
/-- Other settings do not change what an object asks for. -/
theorem AsksFor.update {c : Constraint K n} (h : s.AsksFor number c) (other : Nat)
    (settings : Settings K) : (s.update other settings).AsksFor number c := by
  obtain ⟨members, own, hget⟩ := h
  by_cases hsame : number = other
  · subst hsame
    exact ⟨members, settings, by rw [get?_update, hget]; rfl⟩
  · exact ⟨members, own, by rw [get?_update_of_ne _ hsame, hget]⟩

omit [Scalar K] in
/-- The objects that are intersected ask for the constraints that are. -/
theorem forall₂_asksFor {members : List Nat} (hmembers : ∀ m ∈ members, (s.get? m).isSome)
    {cs : List (Constraint K n)} (hcs : (members.filterMap s.get?).map
      (fun o => (⟨o.joints, o.constraint⟩ : (n : Nat) × Constraint K n)) = cs.map (Sigma.mk n)) :
    List.Forall₂ (fun m c => m < s.objects.length ∧ s.AsksFor m c) members cs := by
  induction members generalizing cs with
  | nil =>
    obtain rfl := List.map_eq_nil_iff.1 hcs.symm
    exact .nil
  | cons m rest ih =>
    -- the first number is found, and asks for the first constraint
    rw [List.forall_mem_cons] at hmembers
    obtain ⟨o, ho⟩ := Option.isSome_iff_exists.1 hmembers.1
    rw [List.filterMap_cons_some ho, List.map_cons] at hcs
    obtain ⟨c, others, rfl, hc, hothers⟩ := List.map_eq_cons_iff.1 hcs.symm
    obtain ⟨joints, constraint, inner, own⟩ := o
    cases hc
    exact .cons ⟨(List.getElem?_eq_some_iff.1 ho).1, inner, own, ho⟩
      (ih hmembers.2 hothers.symm)

end Store

namespace Object.LinkedIn

variable {P : (n : Nat) → Leaf K n → Prop} {s s' : Store K} {number : Nat} {o : Object K}

/-- The settings of an object that was built are valid. -/
theorem valid (h : o.LinkedIn P s number) : o.settings.Valid := by
  cases h with
  | leaf _ hvalid => exact hvalid
  | intersection _ _ hvalid => exact hvalid

/-- Objects stay linked as long as all of them ask for what they did. -/
theorem mono (h : o.LinkedIn P s number)
    (hasks : ∀ (n m : Nat) (c : Constraint K n), s.AsksFor m c → s'.AsksFor m c) :
    o.LinkedIn P s' number := by
  cases h with
  | leaf hl hvalid => exact .leaf hl hvalid
  | intersection hne hmembers hvalid =>
    exact .intersection hne (hmembers.imp fun _ _ h => ⟨h.1, hasks _ _ _ h.2⟩) hvalid

/-- An object stays linked in its store when it gets other valid settings. -/
theorem withSettings (h : o.LinkedIn P s number) {settings : Settings K}
    (hvalid : settings.Valid) : Object.LinkedIn P s number { o with settings } := by
  cases h with
  | leaf hl _ => exact .leaf hl hvalid
  | intersection hne hmembers _ => exact .intersection hne hmembers hvalid

end Object.LinkedIn

namespace Store

variable {P : (n : Nat) → Leaf K n → Prop} {s s' : Store K} {number : Nat} {o : Object K}

/-- A further object is linked if it is linked to what was there before. -/
private theorem linkedIn_add (hs : ∀ number o, s.get? number = some o → o.LinkedIn P s number)
    {new : Object K} (hnew : new.LinkedIn P s s.objects.length)
    (hget : (s.add new).1.get? number = some o) : o.LinkedIn P (s.add new).1 number := by
  -- members stay where they were
  have hasks (n m : Nat) (c : Constraint K n) (h : s.AsksFor m c) : (s.add new).1.AsksFor m c :=
    h.add new
  by_cases hlt : number < s.objects.length
  · -- an object that was there
    rw [get?_add_of_lt new hlt] at hget
    exact (hs number o hget).mono hasks
  · -- or the new one
    have hlength := (List.getElem?_eq_some_iff.1 hget).1
    have hlast : number = s.objects.length := by
      simp only [add, List.length_append, List.length_singleton] at hlength
      omega
    subst hlast
    have hsame : (s.add new).1.get? s.objects.length = some new := get?_add s new
    rw [hsame] at hget
    obtain rfl := Option.some.inj hget
    exact hnew.mono hasks

/-- The objects of a store that was built are linked. -/
theorem Built.linkedIn (hs : s.Built P) :
    ∀ number o, s.get? number = some o → o.LinkedIn P s number := by
  induction hs with
  | empty =>
    intro number o h
    cases h
  | leaf _ hl hsettings ih =>
    intro number o h
    exact linkedIn_add ih (.leaf hl (SettingsDescription.valid_of_build_eq_ok hsettings)) h
  | @intersection s s' members d settings new _ hmembers hsettings hadd ih =>
    intro number o h
    obtain ⟨c, hc, hadd⟩ := bind_eq_ok_iff.1 hadd
    obtain ⟨n, cs, hne, rfl, hcs⟩ := Constraint.eq_map_of_intersect hc
    cases hadd
    -- the new object comes last, so that its members come before it
    exact linkedIn_add ih (.intersection hne (forall₂_asksFor hmembers hcs)
      (SettingsDescription.valid_of_build_eq_ok hsettings)) h
  | @change s s' k change _ hchange ih =>
    intro number o h
    obtain rfl | ⟨changed, settings, hchanged, hretuned, rfl⟩ := change_cases hchange
    · exact ih number o h
    · -- other settings are accepted too, and what objects ask for does not change
      have hvalid : settings.Valid := hretuned.valid (ih k changed hchanged).valid
      have hasks (n m : Nat) (c : Constraint K n) (h : s.AsksFor m c) :
          (s.update k settings).AsksFor m c := h.update k settings
      by_cases hsame : number = k
      · subst hsame
        rw [get?_update] at h
        obtain ⟨old, hold, rfl⟩ := Option.map_eq_some_iff.1 h
        exact ((ih number old hold).withSettings hvalid).mono hasks
      · rw [get?_update_of_ne _ hsame] at h
        exact (ih number o h).mono hasks

/-! ## Both ways give the same answers -/

/-- What an object stacks from its members is what it would stack itself. -/
theorem Built.stack_eq {α : Type} (hs : s.Built P)
    {own : (n : Nat) → Leaf K n → Except Fault (List α)} {t : Tensor K}
    {f : Constraint K n → Vector K n → Except Fault (List α)}
    (hleaf : ∀ l, P n l → own n l = (do
      let q ← t.toConfiguration n
      f (.leaf l) q))
    (hintersection : ∀ cs q, f (.intersection cs) q = (cs.mapM (f · q)).map List.flatten)
    {c : Constraint K n} {members : List Nat} {settings : Settings K}
    (h : s.get? number = some ⟨n, c, members, settings⟩) :
    s.stack own number t = (do
      let q ← t.toConfiguration n
      f c q) := by
  -- members come before the object, so that the induction is on its number
  induction number using Nat.strong_induction_on generalizing c members settings with
  | _ number ih =>
    cases hs.linkedIn number _ h with
    | leaf hl _ => rw [stack_leaf h, hleaf _ hl]
    | @intersection _ cs _ _ _ hmembers _ =>
      have hbefore : ∀ m ∈ members, m < number := by
        intro m hm
        obtain ⟨c, -, hlt, -⟩ := forall₂_exists_mem hmembers hm
        exact hlt
      rw [stack_intersection h hbefore]
      cases hq : t.toConfiguration n with
      | error fault => rfl
      | ok q =>
        -- every member answers at the same configuration
        have hask : members.mapM (s.stack own · t) = cs.mapM (f · q) := by
          refine mapM_eq_mapM (hmembers.imp ?_)
          rintro m c ⟨hlt, inner, own', hget⟩
          rw [ih m hlt hget, hq]
          rfl
        simp only [bind, Except.bind, hask, hintersection]

end Store

/-- A reply is what an object answers itself, about every array that nested lists make. -/
structure Reply.IsOf {o : Object K} (r : Reply K o.joints) : Prop where
  evaluate_eq : ∀ q t, q.toTensor = .ok t → r.evaluate t = o.evaluate q
  jacobian_eq : ∀ q t, q.toTensor = .ok t → r.jacobian t = o.jacobian q
  isSatisfied_eq : ∀ q t, q.toTensor = .ok t → r.isSatisfied t = o.isSatisfied q
  projectionConfig_eq : r.projectionConfig = .ok o.settings
  project_eq : ∀ q t, q.toTensor = .ok t → r.project t = o.project q

namespace Store.Built

variable {P : (n : Nat) → Leaf K n → Prop} {s : Store K} {number : Nat}
  (hs : s.Built P) (hP : ∀ n l, P n l → l.IsNamed)
include hs hP

section
variable {c : Constraint K n} {members : List Nat} {settings : Settings K}
  (h : s.get? number = some ⟨n, c, members, settings⟩) (t : Tensor K)
include h

/-- Through the store an object evaluates as its constraint does, once the array is read. -/
theorem evaluate_eq : s.evaluate number t = (do
    let q ← t.toConfiguration n
    c.evaluate q) := by
  refine hs.stack_eq (fun l hl => ?_) Constraint.evaluate_intersection h
  rw [Leaf.evaluateAt_eq (hP n l hl)]
  simp only [Constraint.evaluate]

/-- The same for the Jacobian. -/
theorem jacobian_eq : s.jacobian n number t = (do
    let q ← t.toConfiguration n
    c.jacobian q) := by
  refine hs.stack_eq (fun l hl => ?_) Constraint.jacobian_intersection h
  have hfit (rows : List (Vector K n)) : fitRows rows = .ok rows := dif_pos rfl
  rw [Leaf.jacobianAt_eq (hP n l hl)]
  cases t.toConfiguration n with
  | error fault => rfl
  | ok q =>
    simp only [Constraint.jacobian, bind, Except.bind, hfit]
    cases l.jacobian q <;> rfl

/-- What the store projects onto is the residual of the constraint. -/
theorem residual_eq : s.residual n number = c.residual := by
  rw [residual, Constraint.residual]
  congr 1
  · funext q
    rw [evaluate_eq hs hP h, Tensor.toConfiguration_ofConfiguration]
    rfl
  · funext q
    rw [jacobian_eq hs hP h, Tensor.toConfiguration_ofConfiguration]
    rfl

/-- Whether an object answers that it is satisfied depends on its constraint and its own
tolerance. -/
theorem reply_isSatisfied_eq :
    (Object.reply ⟨n, c, members, settings⟩ s number).isSatisfied t = (do
      let q ← t.toConfiguration n
      c.residual.isSatisfied settings.tolerance q) := by
  simp only [Object.reply, evaluate_eq hs hP h, Residual.isSatisfied, Constraint.residual]
  cases t.toConfiguration n <;> rfl

/-- An object projects as its constraint does, with its own settings. -/
theorem reply_project_eq :
    (Object.reply ⟨n, c, members, settings⟩ s number).project t = (do
      let q ← t.toConfiguration n
      c.residual.project settings q) := by
  have hconfig : settings.describe.build = .ok settings :=
    (hs.linkedIn number _ h).valid.build_describe
  simp only [Object.reply, residual_eq hs hP h, hconfig, bind, Except.bind]

end

/-- Both ways give the same answers. -/
theorem reply_isOf {o : Object K} (ho : s.get? number = some o) : (o.reply s number).IsOf := by
  obtain ⟨n, c, members, settings⟩ := o
  -- each question by reference is the one about the constraint
  constructor
  · intro q t hq
    simp only [Object.reply, evaluate_eq hs hP ho, Object.evaluate, Object.read, hq, bind,
      Except.bind]
  · intro q t hq
    simp only [Object.reply, jacobian_eq hs hP ho, Object.jacobian, Object.read, hq, bind,
      Except.bind]
  · intro q t hq
    simp only [reply_isSatisfied_eq hs hP ho, Object.isSatisfied, Object.read, hq, bind,
      Except.bind]
  · exact (hs.linkedIn number _ ho).valid.build_describe
  · intro q t hq
    simp only [reply_project_eq hs hP ho, Object.project, Object.projectWith, Object.read, hq, bind,
      Except.bind]

end Store.Built

end KinematicManifold
