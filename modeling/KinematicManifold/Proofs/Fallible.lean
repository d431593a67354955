import Mathlib.Data.List.Forall2
import KinematicManifold.Fault

/-!
# Steps that may fail

A computation that may fail succeeds when each of its steps does. The lemmas here take such a
computation apart, one step at a time, so that no proof has to look at the faults.

## Key results

- `bind_eq_ok_iff`: two steps, one after the other
- `mapM_eq_ok_iff`, `forM_eq_ok_iff`: a step for every entry of a list
- `mapM_flatten_append`, `mapM_flatten_cons`: pieces that are stacked
- `Together`: two computations that go alike
-/

namespace KinematicManifold

variable {ε α β γ : Type}

/-- Two steps succeed when the first does, and the second with what it gives. -/
theorem bind_eq_ok_iff {first : Except ε α} {next : α → Except ε β} {result : β} :
    first >>= next = .ok result ↔ ∃ a, first = .ok a ∧ next a = .ok result := by
  cases first <;> simp [bind, Except.bind]

/-- What is made of a result succeeds when the result can be had. -/
theorem map_eq_ok_iff {f : α → β} {x : Except ε α} {b : β} :
    x.map f = .ok b ↔ ∃ a, x = .ok a ∧ f a = b := by
  cases x <;> simp [Except.map]

/-- Changing the result of a computation leaves its faults as they are. -/
theorem map_eq_error_iff {f : α → β} {x : Except ε α} {fault : ε} :
    x.map f = .error fault ↔ x = .error fault := by
  cases x <;> simp [Except.map]

/-- Two computations are alike up to their faults when both succeed with one result, or both fail
with faults that are alike. -/
theorem mapError_eq_iff {ε' : Type} {g : ε → ε'} {x y : Except ε α} :
    x.mapError g = y.mapError g ↔ (∃ a, x = .ok a ∧ y = .ok a) ∨
      ∃ fault fault', x = .error fault ∧ y = .error fault' ∧ g fault = g fault' := by
  cases x <;> cases y <;> simp [Except.mapError, eq_comm]

/-- Changing no fault changes nothing. -/
theorem mapError_id (x : Except ε α) : x.mapError id = x := by
  cases x <;> rfl

/-- Computations whose faults are not told apart are alike when they succeed with the same
results. -/
theorem mapError_const_eq_iff {x y : Except ε α} :
    (x.mapError fun _ => ()) = (y.mapError fun _ => ()) ↔ ∀ a, x = .ok a ↔ y = .ok a := by
  cases x <;> cases y <;> simp [Except.mapError, eq_comm]

/-- A traversal succeeds with what every single step gives. -/
theorem mapM_eq_ok_iff {f : α → Except ε β} {l : List α} {results : List β} :
    l.mapM f = .ok results ↔ List.Forall₂ (fun a b => f a = .ok b) l results := by
  induction l generalizing results with
  | nil => cases results <;> simp [pure, Except.pure]
  | cons a rest ih =>
    simp only [List.mapM_cons, bind_eq_ok_iff, ih]
    constructor
    · rintro ⟨b, hb, others, hothers, hresults⟩
      cases hresults
      exact .cons hb hothers
    · rintro (_ | ⟨hb, hothers⟩)
      exact ⟨_, hb, _, hothers, rfl⟩

/-- Two traversals are the same when their steps are. -/
theorem mapM_eq_mapM {f : α → Except ε γ} {g : β → Except ε γ} {l : List α} {bs : List β}
    (h : List.Forall₂ (fun a b => f a = g b) l bs) : l.mapM f = bs.mapM g := by
  induction h with
  | nil => rfl
  | cons hab _ ih => rw [List.mapM_cons, List.mapM_cons, hab, ih]

/-- What is looked up for every entry of a list stands beside it. -/
theorem forall₂_of_mapM_eq_some {f : α → Option β} {l : List α} {found : List β}
    (h : l.mapM f = some found) : List.Forall₂ (fun a b => f a = some b) l found := by
  induction l generalizing found with
  | nil =>
    cases h
    exact .nil
  | cons a rest ih =>
    rw [List.mapM_cons] at h
    obtain ⟨b, hb, h⟩ := Option.bind_eq_some_iff.1 h
    obtain ⟨others, hothers, h⟩ := Option.bind_eq_some_iff.1 h
    cases h
    exact .cons hb (ih hothers)

/-- Checks succeed when every single one does. -/
theorem forM_eq_ok_iff {f : α → Except ε Unit} {l : List α} :
    l.forM f = .ok () ↔ ∀ a ∈ l, f a = .ok () := by
  induction l with
  | nil => simp [pure, Except.pure, List.forM]
  | cons a rest ih =>
    rw [List.forM, List.forall_mem_cons, ← ih, bind_eq_ok_iff]
    exact ⟨fun ⟨_, ha, hrest⟩ => ⟨ha, hrest⟩, fun ⟨ha, hrest⟩ => ⟨(), ha, hrest⟩⟩

/-- Pieces are stacked when every single one can be had. -/
theorem mapM_flatten_eq_ok_iff {f : α → Except ε (List β)} {l : List α} {stack : List β} :
    (l.mapM f).map List.flatten = .ok stack ↔
      ∃ pieces, List.Forall₂ (fun a piece => f a = .ok piece) l pieces ∧
        pieces.flatten = stack := by
  simp only [← mapM_eq_ok_iff]
  cases l.mapM f <;> simp [Except.map]

/-- The rows of two lists, collected together, are those of the first and then those of the
second. -/
theorem mapM_flatten_append {f : α → Except ε (List β)} (first second : List α) :
    ((first ++ second).mapM f).map List.flatten = (do
      let rows ← (first.mapM f).map List.flatten
      let others ← (second.mapM f).map List.flatten
      return rows ++ others) := by
  rw [List.mapM_append]
  cases first.mapM f <;> cases second.mapM f <;>
    simp [bind, Except.bind, Except.map, pure, Except.pure]

/-- The rows collected from a single entry are its own. -/
theorem mapM_flatten_singleton {f : α → Except ε (List β)} (a : α) :
    ([a].mapM f).map List.flatten = f a := by
  rw [List.mapM_cons, List.mapM_nil]
  cases f a <;> simp [bind, Except.bind, Except.map, pure, Except.pure]

/-- The rows collected from a list are those of its head and then those of its tail. -/
theorem mapM_flatten_cons {f : α → Except ε (List β)} (a : α) (rest : List α) :
    ((a :: rest).mapM f).map List.flatten = (do
      let rows ← f a
      let others ← (rest.mapM f).map List.flatten
      return rows ++ others) := by
  rw [← List.singleton_append, mapM_flatten_append, mapM_flatten_singleton]

/-! ## Computations side by side -/

/-- Two computations fail with the same fault, or succeed with results that are related. -/
inductive Together (R : α → β → Prop) : Except ε α → Except ε β → Prop
  | ok {a : α} {b : β} : R a b → Together R (.ok a) (.ok b)
  | error (fault : ε) : Together R (.error fault) (.error fault)

namespace Together

variable {α' β' : Type} {R : α → β → Prop} {S : α' → β' → Prop}

/-- A computation ends together with itself. -/
theorem refl (x : Except ε α) : Together Eq x x := by
  cases x with
  | ok a => exact .ok rfl
  | error fault => exact .error fault

/-- Related results stay related when both are changed in step. -/
theorem map {x : Except ε α} {y : Except ε β} {f : α → α'} {g : β → β'} (h : Together R x y)
    (hmap : ∀ a b, R a b → S (f a) (g b)) : Together S (x.map f) (y.map g) := by
  cases h with
  | ok hab => exact .ok (hmap _ _ hab)
  | error fault => exact .error fault

/-- Computations that end together go on to end together, if they do so from related results. -/
theorem bind {x : Except ε α} {y : Except ε β} {f : α → Except ε α'} {g : β → Except ε β'}
    (h : Together R x y) (hnext : ∀ a b, R a b → Together S (f a) (g b)) :
    Together S (x >>= f) (y >>= g) := by
  cases h with
  | ok hab => exact hnext _ _ hab
  | error fault => exact .error fault

/-- Related lists, entry by entry, collect related results or the same first fault. -/
theorem mapM {f : α → Except ε α'} {g : β → Except ε β'} {l : List α} {bs : List β}
    (h : List.Forall₂ R l bs) (hstep : ∀ a b, R a b → Together S (f a) (g b)) :
    Together (List.Forall₂ S) (l.mapM f) (bs.mapM g) := by
  induction h with
  | nil => exact .ok .nil
  | cons hab _ ih =>
    simp only [List.mapM_cons]
    exact (hstep _ _ hab).bind fun _ _ hfirst => ih.bind fun _ _ hrest => .ok (.cons hfirst hrest)

/-- Of two computations that end together one fails with a fault when the other does. -/
theorem error_iff {x : Except ε α} {y : Except ε β} (h : Together R x y) {fault : ε} :
    x = .error fault ↔ y = .error fault := by
  cases h <;> simp

/-- Of two computations that end together the second has a result when the first has one. -/
theorem exists_of_eq_ok {x : Except ε α} {y : Except ε β} (h : Together R x y) {a : α}
    (ha : x = .ok a) : ∃ b, y = .ok b ∧ R a b := by
  cases h with
  | ok hab =>
    cases ha
    exact ⟨_, rfl, hab⟩
  | error fault => cases ha

end Together

/-! ## Lists side by side -/

/-- Two lists are combined pair by pair. -/
theorem mem_zipWith_iff {f : α → β → γ} {l : List α} {bs : List β} {c : γ} :
    c ∈ List.zipWith f l bs ↔ ∃ a b, (a, b) ∈ l.zip bs ∧ f a b = c := by
  rw [← List.map_uncurry_zip_eq_zipWith, List.mem_map]
  exact Prod.exists

/-- What exists for every entry of a list makes a list beside it. -/
theorem exists_forall₂ {P : α → β → Prop} {l : List α} (h : ∀ a ∈ l, ∃ b, P a b) :
    ∃ bs, List.Forall₂ P l bs := by
  induction l with
  | nil => exact ⟨[], .nil⟩
  | cons a rest ih =>
    rw [List.forall_mem_cons] at h
    obtain ⟨⟨b, hb⟩, hrest⟩ := h
    obtain ⟨bs, hbs⟩ := ih hrest
    exact ⟨b :: bs, .cons hb hbs⟩

/-- An entry of a list has its entry in a list beside it. -/
theorem forall₂_exists_mem {P : α → β → Prop} {l : List α} {bs : List β}
    (h : List.Forall₂ P l bs) {a : α} (ha : a ∈ l) : ∃ b ∈ bs, P a b := by
  induction h with
  | nil => cases ha
  | cons hb _ ih =>
    rcases List.mem_cons.1 ha with rfl | hrest
    · exact ⟨_, List.mem_cons_self, hb⟩
    · obtain ⟨b, hmem, hb⟩ := ih hrest
      exact ⟨b, List.mem_cons_of_mem _ hmem, hb⟩

end KinematicManifold
