import KinematicManifold.Proofs.BuiltStores

/-!
# Settings of shared objects

A member of several intersections is one object, and its settings may be changed at any time. No
intersection notices: what is stacked from the members is read from objects without their settings.
An object reads its own settings only, to tell whether it is satisfied and to project.

The induction is over the changes. Each leaves all objects as they are but for one tolerance or
budget.

## Key results

- `Store.SameObjects`: stores whose objects differ in tolerances and budgets only
- `Store.SameObjects.stack_eq`: what is stacked does not depend on settings
- `Store.sameObjects_changeAll`, `Store.get?_changeAll`: what changes leave as it is
- `Store.Built.reply?_changeAll`: the answers of an object do not depend on the settings of others
-/

namespace KinematicManifold

variable {K : Type} [Scalar K] {n : Nat}

/-! ## The same objects -/

/-- Settings that are kept count as retuned. -/
theorem Settings.Retuned.refl (s : Settings K) : s.Retuned s := ⟨rfl, rfl, id⟩

/-- Settings that are retuned twice are retuned. -/
theorem Settings.Retuned.trans {s s' s'' : Settings K} (h : s.Retuned s') (h' : s'.Retuned s'') :
    s.Retuned s'' :=
  ⟨h'.damping_eq.trans h.damping_eq, h'.maxStep_eq.trans h.maxStep_eq, h'.valid ∘ h.valid⟩

/-- An object differs from another in its tolerance and its budget only. -/
def Object.Retuned (o o' : Object K) : Prop :=
  ∃ settings, o.settings.Retuned settings ∧ o' = { o with settings }

namespace Store

variable {s s' s'' : Store K} {number : Nat}

/-- Two stores have the same objects, but for their tolerances and budgets. -/
def SameObjects (s s' : Store K) : Prop := List.Forall₂ Object.Retuned s.objects s'.objects

namespace SameObjects

/-- A store has its own objects. -/
theorem refl (s : Store K) : s.SameObjects s :=
  List.forall₂_same.2 fun o _ => ⟨o.settings, .refl _, rfl⟩

/-- Stores with the same objects as a third one have the same objects. -/
theorem trans (h : s.SameObjects s') (h' : s'.SameObjects s'') : s.SameObjects s'' := by
  unfold SameObjects at h h' ⊢
  rw [List.forall₂_iff_get] at h h' ⊢
  refine ⟨h.1.trans h'.1, fun i hi hi'' => ?_⟩
  obtain ⟨settings, hsettings, hsame⟩ := h.2 i hi (h.1 ▸ hi)
  obtain ⟨settings', hsettings', hsame'⟩ := h'.2 i (h.1 ▸ hi) hi''
  rw [hsame] at hsettings' hsame'
  exact ⟨settings', hsettings.trans hsettings', hsame'⟩

/-- The object of a number is the same, but for its tolerance and its budget. -/
theorem exists_get? (h : s.SameObjects s') {o : Object K} (ho : s.get? number = some o) :
    ∃ settings, o.settings.Retuned settings ∧ s'.get? number = some { o with settings } := by
  obtain ⟨hlt, rfl⟩ := List.getElem?_eq_some_iff.1 ho
  obtain ⟨settings, hsettings, hsame⟩ := h.get hlt (h.length_eq ▸ hlt)
  exact ⟨settings, hsettings, List.getElem?_eq_some_iff.2 ⟨_, hsame⟩⟩

/-- What is stacked from objects does not depend on their settings. -/
theorem stackFrom_eq {α : Type} {own : (n : Nat) → Leaf K n → Except Fault (List α)} {t : Tensor K}
    {objects objects' : List (Object K)} (h : List.Forall₂ Object.Retuned objects objects')
    (number : Nat) : stackFrom own t objects number = stackFrom own t objects' number := by
  induction h generalizing number with
  | nil => rfl
  | @cons o _ earlier earlier' ho hrest ih =>
    obtain ⟨settings, -, rfl⟩ := ho
    have hask : stackFrom own t earlier = stackFrom own t earlier' := funext ih
    obtain ⟨joints, constraint, members, old⟩ := o
    -- the object asks those before it, which answer the same
    rw [stackFrom, stackFrom, hrest.length_eq, hask]
    cases constraint <;> rfl

/-- Rows stacked by reference are the same in both stores. -/
theorem stack_eq {α : Type} {own : (n : Nat) → Leaf K n → Except Fault (List α)}
    (h : s.SameObjects s') (number : Nat) (t : Tensor K) :
    s'.stack own number t = s.stack own number t :=
  (stackFrom_eq (List.forall₂_reverse_iff.2 h) number).symm

/-- An object evaluates the same in both stores. -/
theorem evaluate_eq (h : s.SameObjects s') (number : Nat) (t : Tensor K) :
    s'.evaluate number t = s.evaluate number t :=
  h.stack_eq number t

/-- It has the same Jacobian in both stores. -/
theorem jacobian_eq (h : s.SameObjects s') (n number : Nat) (t : Tensor K) :
    s'.jacobian n number t = s.jacobian n number t :=
  h.stack_eq number t

/-- It projects onto the same residual in both stores. -/
theorem residual_eq (h : s.SameObjects s') (n number : Nat) :
    s'.residual n number = s.residual n number := by
  simp only [residual, h.evaluate_eq, h.jacobian_eq]

/-- An object answers the same by reference in both stores. -/
theorem reply_eq (h : s.SameObjects s') (o : Object K) (number : Nat) :
    o.reply s' number = o.reply s number := by
  rw [Object.reply, Object.reply, h.residual_eq, funext (h.evaluate_eq number),
    funext (h.jacobian_eq o.joints number)]

end SameObjects

/-! ## Changes -/

/-- Other settings for an object leave all objects as they are but for its tolerance and budget. -/
theorem sameObjects_update {o : Object K} (ho : s.get? number = some o) {settings : Settings K}
    (h : o.settings.Retuned settings) : s.SameObjects (s.update number settings) := by
  refine List.forall₂_iff_get.2 ⟨by simp [update], fun i hi _ => ?_⟩
  by_cases hsame : number = i
  · subst hsame
    obtain rfl : s.objects[number] = o := (List.getElem?_eq_some_iff.1 ho).2
    exact ⟨settings, h, by simp [update]⟩
  · exact ⟨_, .refl _, by simp [update, hsame]⟩

/-- An accepted change leaves the objects the same but for their tolerances and budgets. -/
theorem sameObjects_change {change : Change K} (h : s.change number change = .ok s') :
    s.SameObjects s' := by
  obtain rfl | ⟨o, settings, ho, hretuned, rfl⟩ := change_cases h
  · exact .refl _
  · exact sameObjects_update ho hretuned

/-- The store after a change is tried. A change that is refused leaves it as it is. -/
def tryChange (s : Store K) (number : Nat) (change : Change K) : Store K :=
  match s.change number change with
  | .ok s' => s'
  | .error _ => s

/-- The store after changes are tried one after the other, each of an object of its own. -/
def changeAll (s : Store K) (changes : List (Nat × Change K)) : Store K :=
  changes.foldl (fun s entry => s.tryChange entry.1 entry.2) s

/-- A change that is accepted is made. -/
theorem tryChange_of_eq_ok {change : Change K} (h : s.change number change = .ok s') :
    s.tryChange number change = s' := by
  rw [tryChange, h]

/-- What holds of a store, and of what every accepted change makes of it, holds after any try. -/
theorem tryChange_induction {p : Store K → Prop} (hs : p s) {change : Change K}
    (h : ∀ s', s.change number change = .ok s' → p s') : p (s.tryChange number change) := by
  unfold tryChange
  split
  · exact h _ ‹_›
  · exact hs

/-- Any number of changes, accepted or refused, leave the objects the same but for that. -/
theorem sameObjects_changeAll (s : Store K) (changes : List (Nat × Change K)) :
    s.SameObjects (s.changeAll changes) := by
  induction changes generalizing s with
  | nil => exact .refl s
  | cons entry rest ih =>
    have hstep : s.SameObjects (s.tryChange entry.1 entry.2) :=
      tryChange_induction (.refl s) fun _ h => sameObjects_change h
    exact hstep.trans (ih _)

/-- Objects whose settings nobody tries to change stay as they are. -/
theorem get?_changeAll {changes : List (Nat × Change K)} (h : ∀ entry ∈ changes, entry.1 ≠ number) :
    (s.changeAll changes).get? number = s.get? number := by
  induction changes generalizing s with
  | nil => rfl
  | cons entry rest ih =>
    rw [List.forall_mem_cons] at h
    -- a change of another object does not reach this one
    have hstep : (s.tryChange entry.1 entry.2).get? number = s.get? number := by
      refine tryChange_induction (p := fun s' => s'.get? number = s.get? number) rfl ?_
      intro s' hs'
      obtain rfl | ⟨o, settings, -, -, rfl⟩ := change_cases hs'
      · rfl
      · exact get?_update_of_ne settings h.1.symm
    exact (ih h.2).trans hstep

/-- A store that was built is one that could have been built, after any changes. -/
theorem Built.changeAll {P : (n : Nat) → Leaf K n → Prop} (hs : s.Built P)
    (changes : List (Nat × Change K)) : (s.changeAll changes).Built P := by
  induction changes generalizing s with
  | nil => exact hs
  | cons entry rest ih =>
    have hstep : (s.tryChange entry.1 entry.2).Built P :=
      tryChange_induction hs fun _ h => .change hs h
    exact ih hstep

/-- What an object answers by reference does not depend on the settings of others. However the
settings of objects are changed, the changes of its own reach its tolerance and its budget only, and
where there are none, it answers as before. What it answers is always what it answers itself. -/
theorem Built.reply?_changeAll (hs : s.Built fun _ l => l.IsNamed) {o : Object K}
    (ho : s.get? number = some o) (changes : List (Nat × Change K)) :
    let s' := s.changeAll changes
    (o.reply s number).IsOf ∧
    ((∀ entry ∈ changes, entry.1 ≠ number) →
      s'.get? number = some o ∧ s'.reply? number = s.reply? number) ∧
    ∃ settings, s'.get? number = some { o with settings } ∧
      settings.damping = o.settings.damping ∧ settings.maxStep = o.settings.maxStep ∧
      (∀ t, s'.evaluate number t = s.evaluate number t ∧
        s'.jacobian o.joints number t = s.jacobian o.joints number t) ∧
      (Object.reply { o with settings } s' number).IsOf := by
  have hsame : s.SameObjects (s.changeAll changes) := sameObjects_changeAll s changes
  have hnamed (n : Nat) (l : Leaf K n) (h : l.IsNamed) : l.IsNamed := h
  refine ⟨hs.reply_isOf hnamed ho, fun hothers => ?_, ?_⟩
  · -- without a change of its own, an object keeps its settings too
    have hget := get?_changeAll (s := s) hothers
    refine ⟨hget.trans ho, ?_⟩
    simp only [reply?, hget, hsame.reply_eq]
  · -- in any case it keeps all but tolerance and budget
    obtain ⟨settings, hretuned, hget⟩ := hsame.exists_get? ho
    exact ⟨settings, hget, hretuned.damping_eq, hretuned.maxStep_eq,
      fun t => ⟨hsame.evaluate_eq number t, hsame.jacobian_eq o.joints number t⟩,
      (hs.changeAll changes).reply_isOf hnamed hget⟩

/-! ## Limits that are shared -/

/-- The limits of a single joint: it stays between zero and one. -/
noncomputable def unitLimits : Leaf ℝ 1 := .jointLimits ⟨.ofFn fun _ => 0, .ofFn fun _ => 1⟩

/-- The limits as an object. -/
noncomputable def limitsObject : Object ℝ := ⟨1, .leaf unitLimits, [], .standard⟩

/-- The intersection of the limits with themselves. -/
noncomputable def twiceObject : Object ℝ :=
  ⟨1, .intersection [.leaf unitLimits, .leaf unitLimits], [0, 0], .standard⟩

/-- The limits, their intersection with themselves, and the intersection of both. -/
noncomputable def sharedLimits : Store ℝ :=
  ⟨[limitsObject, twiceObject,
    ⟨1, .intersection [.leaf unitLimits, twiceObject.constraint], [0, 1], .standard⟩]⟩

/-- The store of shared limits is built in steps that are accepted. -/
theorem built_sharedLimits : sharedLimits.Built fun _ l => l.IsNamed := by
  have hsettings := Settings.valid_standard.build_describe
  have hlimits : Built (fun _ l => l.IsNamed) ⟨[limitsObject]⟩ := .leaf .empty trivial hsettings
  have hinner : ∀ m ∈ [0, 0], (get? ⟨[limitsObject]⟩ m).isSome := by simp [get?]
  have htwice : Built (fun _ l => l.IsNamed) ⟨[limitsObject, twiceObject]⟩ :=
    .intersection hlimits hinner hsettings rfl
  have houter : ∀ m ∈ [0, 1], (get? ⟨[limitsObject, twiceObject]⟩ m).isSome := by simp [get?]
  exact .intersection htwice houter hsettings rfl

/-- The limits are given another tolerance, and then one that is refused. Their intersection does
not notice, and the limits keep the first. -/
theorem reply?_changeAll_sharedLimits :
    let s' := sharedLimits.changeAll [(0, .tolerance 1), (0, .tolerance 0)]
    s' = sharedLimits.update 0 { Settings.standard with tolerance := 1 } ∧
    (s'.get? 1).isSome ∧ s'.reply? 1 = sharedLimits.reply? 1 := by
  have htwice : sharedLimits.get? 1 = some twiceObject := rfl
  have hinner := (built_sharedLimits.reply?_changeAll htwice
    [(0, .tolerance 1), (0, .tolerance 0)]).2.1 (by simp)
  refine ⟨?_, by rw [hinner.1]; rfl, hinner.2⟩
  -- the first change is accepted
  have haccepted : sharedLimits.change 0 (.tolerance 1) =
      .ok (sharedLimits.update 0 { Settings.standard with tolerance := 1 }) := by
    have hpos : checkTolerance (1 : ℝ) = .ok 1 := checkTolerance_eq_ok_iff.2 ⟨one_pos, rfl⟩
    simp only [Store.change, setTolerance, Settings.setTolerance, hpos]
    rfl
  -- the second one is refused
  have hrefused (s : Store ℝ) : s.tryChange 0 (.tolerance 0) = s := by
    have hzero : checkTolerance (0 : ℝ) = .error .toleranceNotPositive := if_neg (lt_irrefl 0)
    simp only [tryChange, Store.change, setTolerance, Settings.setTolerance, hzero]
    cases s.get? 0 <;> rfl
  simp only [changeAll, List.foldl_cons, List.foldl_nil, tryChange_of_eq_ok haccepted, hrefused]

end Store

end KinematicManifold
