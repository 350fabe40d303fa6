import Mathlib.Data.List.Forall2

/-!
# Successful computations

When a computation that may fail is made of others, it succeeds exactly if they do. Each form of
composition has one equivalence, which later proofs use to take a computation apart and to put it
together again.
-/

namespace DesignMatrix.Outcomes

variable {ε ε' α β : Type}

theorem bind_eq_ok {x : Except ε α} {f : α → Except ε β} {b : β} :
    x >>= f = .ok b ↔ ∃ a, x = .ok a ∧ f a = .ok b := by
  cases x with
  | error e => simp [bind, Except.bind]
  | ok a => simp [bind, Except.bind]

theorem bind_eq_error {x : Except ε α} {f : α → Except ε β} {e : ε} :
    x >>= f = .error e ↔ x = .error e ∨ ∃ a, x = .ok a ∧ f a = .error e := by
  cases x with
  | error cause => simp [bind, Except.bind]
  | ok a => simp [bind, Except.bind]

theorem map_eq_ok {x : Except ε α} {f : α → β} {b : β} :
    x.map f = .ok b ↔ ∃ a, x = .ok a ∧ f a = b := by
  cases x <;> simp [Except.map]

theorem map_eq_error {x : Except ε α} {f : α → β} {e : ε} :
    x.map f = .error e ↔ x = .error e := by
  cases x <;> simp [Except.map]

theorem mapError_eq_ok {x : Except ε α} {f : ε → ε'} {a : α} :
    x.mapError f = .ok a ↔ x = .ok a := by
  cases x <;> simp [Except.mapError]

theorem mapError_eq_error {x : Except ε α} {f : ε → ε'} {e : ε'} :
    x.mapError f = .error e ↔ ∃ cause, x = .error cause ∧ f cause = e := by
  cases x <;> simp [Except.mapError]

theorem toOption_eq_some {x : Except ε α} {a : α} : x.toOption = some a ↔ x = .ok a := by
  cases x <;> simp [Except.toOption]

/-- A computation that can be run succeeds as soon as something is seen of its result. -/
theorem exists_of_toOption {x : Except ε α} {f : α → β} {b : β} (h : x.toOption.map f = some b) :
    ∃ a, x = .ok a ∧ f a = b := by
  obtain ⟨a, found, same⟩ := Option.map_eq_some_iff.mp h
  exact ⟨a, toOption_eq_some.mp found, same⟩

theorem forall_of_toOption {x : Except ε α} {p : α → Bool} (h : x.toOption.all p = true) :
    ∀ a, x = .ok a → p a = true := by
  rintro a rfl
  simpa [Except.toOption] using h

theorem mapM_eq_ok {f : α → Except ε β} {xs : List α} {ys : List β} :
    xs.mapM f = .ok ys ↔ List.Forall₂ (fun x y => f x = .ok y) xs ys := by
  induction xs generalizing ys with
  | nil => cases ys <;> simp [pure, Except.pure]
  | cons x xs ih =>
    simp only [List.mapM_cons, bind_eq_ok, ih, List.forall₂_cons_left_iff, pure, Except.pure,
      Except.ok.injEq]
    constructor
    · rintro ⟨y, hy, ys', hys, rfl⟩
      exact ⟨y, ys', hy, hys, rfl⟩
    · rintro ⟨y, ys', hy, hys, rfl⟩
      exact ⟨y, hy, ys', hys, rfl⟩

/-- Of several computations one after the other, the first that fails has the error. -/
theorem mapM_eq_error {f : α → Except ε β} {xs : List α} {e : ε} :
    xs.mapM f = .error e ↔ ∃ front x back, xs = front ++ x :: back ∧
      (∀ y ∈ front, ∃ result, f y = .ok result) ∧ f x = .error e := by
  induction xs with
  | nil => simp [pure, Except.pure]
  | cons first rest ih =>
    cases outcome : f first with
    | error cause =>
      simp only [List.mapM_cons, outcome, bind, Except.bind, Except.error.injEq]
      constructor
      · rintro rfl
        exact ⟨[], first, rest, rfl, by simp, outcome⟩
      · rintro ⟨_ | ⟨head, front⟩, x, back, same, succeed, failed⟩
        · cases same
          exact Except.error.inj (outcome.symm.trans failed)
        · cases same
          obtain ⟨result, found⟩ := succeed first List.mem_cons_self
          cases outcome.symm.trans found
    | ok result =>
      have step : (first :: rest).mapM f = .error e ↔ rest.mapM f = .error e := by
        simp only [List.mapM_cons, outcome, bind, Except.bind]
        cases rest.mapM f <;> simp [pure, Except.pure]
      rw [step, ih]
      constructor
      · rintro ⟨front, x, back, rfl, succeed, failed⟩
        exact ⟨first :: front, x, back, rfl,
          List.forall_mem_cons.mpr ⟨⟨result, outcome⟩, succeed⟩, failed⟩
      · rintro ⟨_ | ⟨head, front⟩, x, back, same, succeed, failed⟩
        · cases same
          cases outcome.symm.trans failed
        · cases same
          exact ⟨front, x, back, rfl, (List.forall_mem_cons.mp succeed).2, failed⟩

/-- Something is found for every member of a list exactly if all of it is found together. -/
theorem exists_forall₂_iff {r : α → β → Prop} {xs : List α} :
    (∃ ys, List.Forall₂ r xs ys) ↔ ∀ x ∈ xs, ∃ y, r x y := by
  induction xs with
  | nil => simp
  | cons x xs ih =>
    simp only [List.forall₂_cons_left_iff, List.forall_mem_cons, ← ih]
    constructor
    · rintro ⟨_, y, ys, hy, hys, rfl⟩
      exact ⟨⟨y, hy⟩, ys, hys⟩
    · rintro ⟨⟨y, hy⟩, ys, hys⟩
      exact ⟨_, y, ys, hy, hys, rfl⟩

theorem exists_mem_of_forall₂ {r : α → β → Prop} {xs : List α} {ys : List β} {x : α}
    (h : List.Forall₂ r xs ys) (member : x ∈ xs) : ∃ y ∈ ys, r x y := by
  induction h with
  | nil => cases member
  | cons head _ ih =>
    rcases List.mem_cons.mp member with rfl | behind
    · exact ⟨_, List.mem_cons_self, head⟩
    · obtain ⟨y, inRest, related⟩ := ih behind
      exact ⟨y, List.mem_cons_of_mem _ inRest, related⟩

/-- What corresponds to a list of two parts has two parts itself. -/
theorem forall₂_append_left_iff {r : α → β → Prop} {xs xs' : List α} {ys : List β} :
    List.Forall₂ r (xs ++ xs') ys ↔
      ∃ us vs, ys = us ++ vs ∧ List.Forall₂ r xs us ∧ List.Forall₂ r xs' vs := by
  constructor
  · intro h
    refine ⟨ys.take xs.length, ys.drop xs.length, (List.take_append_drop _ _).symm, ?_, ?_⟩
    · simpa using List.forall₂_take xs.length h
    · simpa using List.forall₂_drop xs.length h
  · rintro ⟨us, vs, rfl, left, right⟩
    exact List.rel_append left right

theorem map_mapIdx {γ : Type} (f : ℕ → α → β) (g : β → γ) (xs : List α) :
    (xs.mapIdx f).map g = xs.mapIdx fun i x => g (f i x) := by
  apply List.ext_getElem?
  intro i
  simp [List.getElem?_mapIdx, Function.comp_def]

end DesignMatrix.Outcomes
