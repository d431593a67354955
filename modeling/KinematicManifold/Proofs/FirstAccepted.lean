import KinematicManifold.Proofs.Sampling

/-!
# The first draw that is accepted

What sampling reports is decided by the projections of the draws: it is the first that succeeds and
ends within the bounds, or the last one if there is none. Whether an outcome ends within the bounds
can always be told. The bounds may have other shapes than a configuration, but a draw is made from
them, so that they combine to a plain list of as many numbers as there are joints, and then they
also combine with a configuration.

Since nothing after the first accepted draw is looked at, neither a larger budget nor other draws
after it change a sample that was accepted.

## Key results

- `Fits`: one shape combines with another without changing it
- `exists_withinBounds_eq_ok`: the question whether an outcome lies within bounds has an answer
- `search_add_of_refused`: attempts that are refused are left behind
- `Object.sample_eq_first`, `Object.sample_eq_last`: the two ways in which sampling ends
- `Object.sample_firstAccepted`: the sample is the projection of the first accepted draw
-/

namespace KinematicManifold

/-! ## Shapes that fit -/

/-- A shape fits another one if arrays of the two combine to the other one. Sizes are given from the
last axis on. -/
inductive Fits : List Nat → List Nat → Prop
  | nil {whole : List Nat} : Fits [] whole
  | cons {a b : Nat} {as bs : List Nat} : a = 1 ∨ a = b → Fits as bs → Fits (a :: as) (b :: bs)

namespace Fits

/-- Every shape fits itself. -/
theorem refl : (shape : List Nat) → Fits shape shape
  | [] => .nil
  | _ :: rest => .cons (.inr rfl) (refl rest)

/-- Fitting is transitive. -/
theorem trans {a b c : List Nat} (hab : Fits a b) (hbc : Fits b c) : Fits a c := by
  induction hab generalizing c with
  | nil => exact .nil
  | cons hsize _ ih =>
    cases hbc with
    | cons hsize' hrest =>
      refine .cons ?_ (ih hrest)
      -- a side of length one fits any other
      rcases hsize with hone | rfl
      · exact .inl hone
      · exact hsize'

/-- An array of a shape that fits combines. -/
theorem joinReversed?_eq {part whole : List Nat} (h : Fits part whole) :
    joinReversed? whole part = some whole := by
  induction h with
  | @nil whole => cases whole <;> rfl
  | cons hsize _ ih =>
    have hjoin : ∀ a b : Nat, a = 1 ∨ a = b → joinSizes? b a = some b := by
      rintro a b (rfl | rfl)
      · simp [joinSizes?, eq_comm]
      · simp [joinSizes?]
    simp [joinReversed?, hjoin _ _ hsize, ih]

/-- Both shapes fit their common shape. -/
theorem of_joinReversed? {a b whole : List Nat} (h : joinReversed? a b = some whole) :
    Fits a whole ∧ Fits b whole := by
  induction a generalizing b whole with
  | nil =>
    obtain rfl : b = whole := by simpa [joinReversed?] using h
    exact ⟨.nil, refl b⟩
  | cons size rest ih =>
    cases b with
    | nil =>
      obtain rfl : size :: rest = whole := by simpa [joinReversed?] using h
      exact ⟨refl _, .nil⟩
    | cons size' rest' =>
      simp only [joinReversed?, Option.bind_eq_bind, Option.bind_eq_some_iff, Option.pure_def,
        Option.some.injEq] at h
      obtain ⟨common, hsize, shape, hrest, rfl⟩ := h
      -- an axis of one, or of the common size, on either side
      have hcommon : (size = 1 ∨ size = common) ∧ (size' = 1 ∨ size' = common) := by
        unfold joinSizes? at hsize
        split_ifs at hsize <;> simp_all
      obtain ⟨hleft, hright⟩ := ih hrest
      exact ⟨.cons hcommon.1 hleft, .cons hcommon.2 hright⟩

end Fits

namespace Tensor

/-- An array fits another shape. -/
def FitsInto {K : Type} (t : Tensor K) (shape : List Nat) : Prop :=
  Fits t.shape.reverse shape.reverse

section
variable {K L M : Type} [Zero K] [Zero L]

/-- Arrays that are combined fit the combination. -/
theorem fitsInto_of_map₂ {f : K → L → M} {a : Tensor K} {b : Tensor L} {c : Tensor M}
    (h : map₂ f a b = .ok c) : a.FitsInto c.shape ∧ b.FitsInto c.shape := by
  unfold map₂ at h
  split at h
  · cases h
  · next shape hshape =>
    obtain rfl := Except.ok.inj h
    obtain ⟨reversed, hjoin, rfl⟩ := Option.map_eq_some_iff.1 hshape
    simpa [FitsInto, generate] using Fits.of_joinReversed? hjoin

/-- An array combines with one that fits it. -/
theorem exists_map₂_eq_ok (f : K → L → M) {a : Tensor K} {b : Tensor L} (h : b.FitsInto a.shape) :
    ∃ c, map₂ f a b = .ok c := by
  have hjoin : joinShapes? a.shape b.shape = some a.shape := by
    simp [joinShapes?, Fits.joinReversed?_eq h]
  unfold map₂
  rw [hjoin]
  exact ⟨_, rfl⟩

end

section
variable {K : Type} [Scalar K]

/-- Whether an array lies within bounds that fit it can be told. -/
theorem exists_withinBounds_eq_ok {q lower upper : Tensor K} (hlower : lower.FitsInto q.shape)
    (hupper : upper.FitsInto q.shape) (tolerance : K) :
    ∃ answer, q.withinBounds lower upper tolerance = .ok answer := by
  obtain ⟨above, habove⟩ :=
    exists_map₂_eq_ok (fun value bound => decide (bound - tolerance ≤ value)) hlower
  obtain ⟨below, hbelow⟩ :=
    exists_map₂_eq_ok (fun value bound => decide (value ≤ bound + tolerance)) hupper
  simp only [withinBounds, isAbove, isBelow, habove, hbelow, bind, Except.bind, pure, Except.pure]
  split <;> exact ⟨_, rfl⟩

/-- Bounds fit what is drawn between them. -/
theorem fitsInto_of_drawBetween {lower upper fractions drawn : Tensor K}
    (h : drawBetween lower upper fractions = .ok drawn) :
    lower.FitsInto drawn.shape ∧ upper.FitsInto drawn.shape := by
  obtain ⟨widths, hwidths, hrest⟩ := bind_eq_ok_iff.1 h
  obtain ⟨parts, hparts, hdrawn⟩ := bind_eq_ok_iff.1 hrest
  obtain ⟨hlower, hintoDrawn⟩ := fitsInto_of_map₂ hdrawn
  -- the upper bounds go into the widths, these into the parts of them, and these into the draw
  exact ⟨hlower, ((fitsInto_of_map₂ hwidths).1.trans (fitsInto_of_map₂ hparts).2).trans hintoDrawn⟩

end

end Tensor

/-! ## Leaving attempts behind -/

section
variable {K : Type} {n : Nat} {attempt : Nat → Except Fault (Outcome K n)}
  {accept : Outcome K n → Except Fault Bool}

/-- A search leaves the attempts behind that are refused. -/
theorem search_add_of_refused {first i : Nat}
    (h : ∀ j < i, Refused attempt accept (first + j)) (more : Nat) :
    search attempt accept (i + more) first = search attempt accept more (first + i) := by
  induction i generalizing more with
  | zero => rw [Nat.zero_add, Nat.add_zero]
  | succ i ih =>
    rw [Nat.succ_add_eq_add_succ, ih (fun j hj => h j (Nat.lt_succ_of_lt hj)),
      search_succ_of_refused (h i (Nat.lt_succ_self i)), Nat.add_assoc]

/-- A search ends with the first attempt that is accepted, whatever attempts would follow. -/
theorem search_eq_firstAccepted {i last : Nat} {o : Outcome K n}
    (h : ∀ j < i, Refused attempt accept j) (hattempt : attempt i = .ok o)
    (haccept : accept o = .ok true) (hlast : i ≤ last) :
    search attempt accept last 0 = .ok ⟨o, i + 1⟩ := by
  obtain ⟨more, rfl⟩ := Nat.exists_eq_add_of_le hlast
  rw [search_add_of_refused (by simpa using h), Nat.zero_add,
    search_of_accepted more hattempt haccept]

/-- A search in which every attempt is refused ends with the last one. -/
theorem search_eq_last {last : Nat} {o : Outcome K n}
    (h : ∀ j < last, Refused attempt accept j) (hattempt : attempt last = .ok o)
    (haccept : accept o = .ok false) : search attempt accept last 0 = .ok ⟨o, last + 1⟩ := by
  rw [← Nat.add_zero last, search_add_of_refused (by simpa using h), Nat.zero_add,
    search_zero hattempt haccept, Nat.add_zero]

end

/-! ## Samples -/

section
variable {K : Type} [Scalar K] {n : Nat}

/-- The given fractions of the way between bounds are a configuration. -/
def DrawsConfiguration (lower upper : Tensor K) (fractions : Nested K) (u : Vector K n) : Prop :=
  ∃ parts, fractions.toTensor = .ok parts ∧
    drawBetween lower upper parts = .ok (.ofConfiguration u)

/-- An outcome is a success and lies within the bounds, up to the tolerance. -/
def Outcome.IsAccepted (p : Outcome K n) (lower upper : Tensor K) (tolerance : K) : Prop :=
  p.success = true ∧
    (Tensor.ofConfiguration p.configuration).withinBounds lower upper tolerance = .ok true

variable {lower upper : Tensor K} {tolerance : K} {fractions : Nested K} {u : Vector K n}
  {p : Outcome K n}

/-- Between limits that are configurations, configurations are drawn. -/
theorem JointLimits.drawsConfiguration_between (limits : JointLimits K n) (v : Vector K n) :
    DrawsConfiguration (.ofConfiguration limits.lower) (.ofConfiguration limits.upper)
      (.ofConfiguration v) (limits.between v) := by
  refine ⟨_, Nested.toTensor_ofConfiguration v, ?_⟩
  simp only [drawBetween, bind, Except.bind, Tensor.map₂_ofConfiguration, Vector.get_ofFn]
  rfl

/-- What is drawn is projected. -/
theorem DrawsConfiguration.projectDraw_eq (h : DrawsConfiguration lower upper fractions u)
    (r : Residual K n) (s : Settings K) :
    r.projectDraw s lower upper fractions = r.project s u := by
  obtain ⟨parts, hparts, hdrawn⟩ := h
  simp only [Residual.projectDraw, hparts, hdrawn, bind, Except.bind,
    Tensor.toConfiguration_ofConfiguration]

namespace Outcome

/-- An outcome that is accepted is one that the test of the search accepts. -/
theorem IsAccepted.acceptWithin_eq (h : p.IsAccepted lower upper tolerance) :
    Residual.acceptWithin lower upper tolerance p = .ok true := by
  rw [Residual.acceptWithin, if_pos h.1, h.2]

/-- An outcome that is not accepted is refused, and is never a fault, if something can be drawn
between the bounds. -/
theorem acceptWithin_eq_false (hdraw : DrawsConfiguration lower upper fractions u)
    (h : ¬p.IsAccepted lower upper tolerance) :
    Residual.acceptWithin lower upper tolerance p = .ok false := by
  unfold Residual.acceptWithin
  split_ifs with hsuccess
  · obtain ⟨parts, -, hdrawn⟩ := hdraw
    -- the outcome has the shape of the draw, into which the bounds fit
    have hshape : (Tensor.ofConfiguration u).shape =
        (Tensor.ofConfiguration p.configuration).shape := by
      rw [Tensor.shape_ofConfiguration, Tensor.shape_ofConfiguration]
    obtain ⟨hlower, hupper⟩ := Tensor.fitsInto_of_drawBetween hdrawn
    rw [hshape] at hlower hupper
    obtain ⟨answer, hanswer⟩ := Tensor.exists_withinBounds_eq_ok hlower hupper tolerance
    cases answer with
    | false => exact hanswer
    | true => exact absurd ⟨hsuccess, hanswer⟩ h
  · rfl

end Outcome

/-- A draw whose projection is not accepted is left behind. -/
theorem DrawsConfiguration.refused {r : Residual K n} {s : Settings K} {draws : Nat → Nested K}
    {k : Nat} (hdraw : DrawsConfiguration lower upper (draws k) u)
    (hproject : r.project s u = .ok p) (hnot : ¬p.IsAccepted lower upper s.tolerance) :
    Refused (fun k => r.projectDraw s lower upper (draws k))
      (Residual.acceptWithin lower upper s.tolerance) k :=
  ⟨p, (hdraw.projectDraw_eq r s).trans hproject, Outcome.acceptWithin_eq_false hdraw hnot⟩

/-- A sample between bounds is a search among the projections of the draws. -/
theorem Object.sample_eq (o : Object K) (given : Option (Settings K)) {lower upper : Nested K}
    {lowerBounds upperBounds : Tensor K} (hlower : lower.toTensor = .ok lowerBounds)
    (hupper : upper.toTensor = .ok upperBounds) {maxAttempts : Budget} {attempts : Nat}
    (hone : maxAttempts.isBelowOne = false) (hattempts : maxAttempts.toAttempts = .ok attempts)
    (fractions : Nat → Nested K) :
    o.sample given lower upper maxAttempts fractions =
      search (fun k => o.constraint.residual.projectDraw (given.getD o.settings) lowerBounds
          upperBounds (fractions k))
        (Residual.acceptWithin lowerBounds upperBounds (given.getD o.settings).tolerance)
        (attempts - 1) 0 := by
  simp only [Object.sample, Residual.sample, hone, hlower, hupper, hattempts, bind, Except.bind]
  rfl

section
variable {o : Object K} {given : Option (Settings K)} {lower upper : Nested K}
  {lowerBounds upperBounds : Tensor K} (hlower : lower.toTensor = .ok lowerBounds)
  (hupper : upper.toTensor = .ok upperBounds) {maxAttempts : Budget} {attempts : Nat}
  (hone : maxAttempts.isBelowOne = false) (hattempts : maxAttempts.toAttempts = .ok attempts)
  {fractions : Nat → Nested K} {u : Nat → Vector K o.joints} {p : Nat → Outcome K o.joints}
include hlower hupper hone hattempts

/-- The first draw that is accepted ends sampling. Nothing is asked of the draws after it. -/
theorem Object.sample_eq_first {i : Nat} (hi : i < attempts)
    (hdraw : ∀ k ≤ i, DrawsConfiguration lowerBounds upperBounds (fractions k) (u k))
    (hproject : ∀ k ≤ i, o.constraint.residual.project (given.getD o.settings) (u k) = .ok (p k))
    (haccepted : (p i).IsAccepted lowerBounds upperBounds (given.getD o.settings).tolerance)
    (hbefore : ∀ j < i,
      ¬(p j).IsAccepted lowerBounds upperBounds (given.getD o.settings).tolerance) :
    o.sample given lower upper maxAttempts fractions = .ok ⟨p i, i + 1⟩ := by
  rw [o.sample_eq given hlower hupper hone hattempts]
  refine search_eq_firstAccepted (fun j hj => ?_) ?_ haccepted.acceptWithin_eq (by omega)
  · exact (hdraw j hj.le).refused (hproject j hj.le) (hbefore j hj)
  · exact ((hdraw i le_rfl).projectDraw_eq _ _).trans (hproject i le_rfl)

/-- Where no draw is accepted, sampling ends with the last one. -/
theorem Object.sample_eq_last
    (hdraw : ∀ k < attempts, DrawsConfiguration lowerBounds upperBounds (fractions k) (u k))
    (hproject : ∀ k < attempts,
      o.constraint.residual.project (given.getD o.settings) (u k) = .ok (p k))
    (hnone : ∀ k < attempts,
      ¬(p k).IsAccepted lowerBounds upperBounds (given.getD o.settings).tolerance) :
    o.sample given lower upper maxAttempts fractions = .ok ⟨p (attempts - 1), attempts⟩ := by
  have hpos : 1 ≤ attempts := Budget.pos_of_toAttempts_eq_ok hone hattempts
  have hend : attempts - 1 < attempts := by omega
  have hrefused (j : Nat) (hj : j < attempts) :=
    (hdraw j hj).refused (hproject j hj) (hnone j hj)
  rw [o.sample_eq given hlower hupper hone hattempts]
  -- the last attempt is returned, since the others are refused
  have hsearch := search_eq_last (fun j hj => hrefused j (hj.trans hend))
    (((hdraw _ hend).projectDraw_eq _ _).trans (hproject _ hend))
    (Outcome.acceptWithin_eq_false (hdraw _ hend) (hnone _ hend))
  rwa [Nat.sub_add_cancel hpos] at hsearch

end

end

/-- Let configurations be drawn between bounds and projected, with given settings or those of the
constraint, and let no draw in the budget fail. If one of the projections succeeds within the
bounds, the sample is the first that does, and the draws up to it are used; otherwise it is the
last, and all draws are used. So a sample is always found, and it is a success within the bounds
exactly if one of the projections is. Such a sample stays the same with any larger budget and
whatever is drawn after that. -/
theorem Object.sample_firstAccepted {K : Type} [Scalar K] (o : Object K)
    (given : Option (Settings K)) {lower upper : Nested K} {lowerBounds upperBounds : Tensor K}
    (hlower : lower.toTensor = .ok lowerBounds) (hupper : upper.toTensor = .ok upperBounds)
    {maxAttempts : Budget} {attempts : Nat} (hone : maxAttempts.isBelowOne = false)
    (hattempts : maxAttempts.toAttempts = .ok attempts) {fractions : Nat → Nested K}
    {u : Nat → Vector K o.joints} {p : Nat → Outcome K o.joints}
    (hdraw : ∀ k < attempts, DrawsConfiguration lowerBounds upperBounds (fractions k) (u k))
    (hproject : ∀ k < attempts,
      o.constraint.residual.project (given.getD o.settings) (u k) = .ok (p k)) :
    let Accepted (p : Outcome K o.joints) :=
      p.IsAccepted lowerBounds upperBounds (given.getD o.settings).tolerance
    let result := o.sample given lower upper maxAttempts fractions
    (∀ i < attempts, Accepted (p i) → (∀ j < i, ¬Accepted (p j)) → result = .ok ⟨p i, i + 1⟩) ∧
    ((∀ i < attempts, ¬Accepted (p i)) → result = .ok ⟨p (attempts - 1), attempts⟩) ∧
    ∃ sample, result = .ok sample ∧
      (Accepted sample.outcome ↔ ∃ i < attempts, Accepted (p i)) ∧
      (Accepted sample.outcome →
        ∀ (larger : Budget) (attempts' : Nat) (fractions' : Nat → Nested K),
          larger.isBelowOne = false → larger.toAttempts = .ok attempts' → attempts ≤ attempts' →
          (∀ k < attempts, fractions' k = fractions k) →
          o.sample given lower upper larger fractions' = .ok sample) := by
  intro Accepted result
  have hpos : 1 ≤ attempts := Budget.pos_of_toAttempts_eq_ok hone hattempts
  -- the draws within the first budget are what they were, whatever is drawn after them
  have hfirst {larger : Budget} {attempts' : Nat} {fractions' : Nat → Nested K}
      (hone' : larger.isBelowOne = false) (hattempts' : larger.toAttempts = .ok attempts')
      (hle : attempts ≤ attempts') (hsame : ∀ k < attempts, fractions' k = fractions k)
      (i : Nat) (hi : i < attempts) (haccepted : Accepted (p i))
      (hbefore : ∀ j < i, ¬Accepted (p j)) :
      o.sample given lower upper larger fractions' = .ok ⟨p i, i + 1⟩ := by
    refine Object.sample_eq_first hlower hupper hone' hattempts' (hi.trans_le hle)
      (fun k hk => ?_) (fun k hk => hproject k (hk.trans_lt hi)) haccepted hbefore
    rw [hsame k (hk.trans_lt hi)]
    exact hdraw k (hk.trans_lt hi)
  have hlast := Object.sample_eq_last hlower hupper hone hattempts hdraw hproject
  refine ⟨hfirst hone hattempts le_rfl fun _ _ => rfl, hlast, ?_⟩
  classical
  by_cases hsome : ∃ i < attempts, Accepted (p i)
  · -- the least of them is where every search ends
    obtain ⟨hi, haccepted⟩ := Nat.find_spec hsome
    have hbefore : ∀ j < Nat.find hsome, ¬Accepted (p j) :=
      fun j hj hj' => Nat.find_min hsome hj ⟨hj.trans hi, hj'⟩
    refine ⟨_, hfirst hone hattempts le_rfl (fun _ _ => rfl) _ hi haccepted hbefore,
      iff_of_true haccepted hsome,
      fun _ larger attempts' fractions' hone' hattempts' hle hsame => ?_⟩
    exact hfirst hone' hattempts' hle hsame _ hi haccepted hbefore
  · have hnone : ∀ i < attempts, ¬Accepted (p i) := fun i hi h => hsome ⟨i, hi, h⟩
    have hnot : ¬Accepted (p (attempts - 1)) := hnone _ (by omega)
    exact ⟨_, hlast hnone, iff_of_false hnot hsome, fun h => absurd h hnot⟩

/-- Settings that allow a single step of length one. -/
def singleStep : Settings Float := { Settings.standard with maxIterations := 1, maxStep := some 1 }

/-- Of the draws `-2` and `0` for a joint that is locked, the first is too far away to be projected
in a single step, and the second is where the joint is locked. A third is not looked at. -/
theorem Object.sample_firstAccepted_lockedJoint :
    let limits : JointLimits Float 1 := ⟨.ofFn fun _ => -2, .ofFn fun _ => 2⟩
    let fractions (k : Nat) : Vector Float 1 := .ofFn fun _ => if k = 0 then 0 else 0.5
    ∃ p, lockedJoint.residual.project singleStep (limits.between (fractions 1)) = .ok p ∧
      Object.sample (⟨1, lockedJoint, [], .standard⟩ : Object Float) (some singleStep)
          (.ofConfiguration limits.lower) (.ofConfiguration limits.upper) (.integer 3)
          (fun k => if k < 2 then .ofConfiguration (fractions k) else .node []) = .ok ⟨p, 2⟩ := by
  intro limits fractions
  have htotal (k : Nat) :
      ∃ p, lockedJoint.residual.project singleStep (limits.between (fractions k)) = .ok p :=
    Residual.exists_run_eq_ok (isTotal_ofJointLimits _) (by unfold DampingOverflows; decide +kernel)
      _ _ 0
  choose p hp using htotal
  refine ⟨p 1, hp 1, ?_⟩
  obtain ⟨hfirst, -, sample, hsample, -, hlarger⟩ :=
    Object.sample_firstAccepted (⟨1, lockedJoint, [], .standard⟩ : Object Float) (some singleStep)
      (Nested.toTensor_ofConfiguration limits.lower) (Nested.toTensor_ofConfiguration limits.upper)
      (show (Budget.integer 2).isBelowOne = false from rfl)
      (show (Budget.integer 2).toAttempts = .ok 2 from rfl)
      (fun k _ => limits.drawsConfiguration_between (fractions k)) fun k _ => hp k
  -- a single step is too short from the first draw
  have hfar : ¬(p 0).IsAccepted (.ofConfiguration limits.lower) (.ofConfiguration limits.upper)
      singleStep.tolerance := by
    have hrun : (lockedJoint.residual.project singleStep
        (limits.between (fractions 0))).toOption.all (!·.success) = true := by decide +kernel
    rw [hp 0] at hrun
    exact fun h => by simp [Except.toOption, h.1] at hrun
  -- and enough from the second
  have hnear : (p 1).IsAccepted (.ofConfiguration limits.lower) (.ofConfiguration limits.upper)
      singleStep.tolerance := by
    have hrun : (lockedJoint.residual.project singleStep
        (limits.between (fractions 1))).toOption.all (fun p => p.success &&
          ((Tensor.ofConfiguration p.configuration).withinBounds (.ofConfiguration limits.lower)
            (.ofConfiguration limits.upper) singleStep.tolerance).toOption.any id) = true := by
      decide +kernel
    simp only [hp 1, Except.toOption, Option.all_some, Bool.and_eq_true] at hrun
    refine ⟨hrun.1, ?_⟩
    cases hwithin : (Tensor.ofConfiguration (p 1).configuration).withinBounds
      (.ofConfiguration limits.lower) (.ofConfiguration limits.upper) singleStep.tolerance <;>
      simp_all
  -- so a search of two draws ends with the second, as does a longer one
  have hbefore : sample = ⟨p 1, 2⟩ := by
    refine Except.ok.inj (hsample.symm.trans (hfirst 1 (by decide) hnear fun j hj => ?_))
    obtain rfl : j = 0 := by omega
    exact hfar
  subst hbefore
  exact hlarger hnear (.integer 3) 3 _ rfl rfl (by decide) fun k hk => if_pos hk

end KinematicManifold
