import Mathlib.Data.List.Forall2

/-!
# Computations that may fail

How sequencing and a change of the error type act on `Except`, and what a sequence that returned
says about its parts.
-/

namespace Fallible

universe u v

variable {ε δ : Type u} {α β : Type v}

@[simp]
theorem ok_bind (a : α) (f : α → Except ε β) : (Except.ok a >>= f) = f a :=
  rfl

@[simp]
theorem error_bind (e : ε) (f : α → Except ε β) : (Except.error e >>= f) = Except.error e :=
  rfl

@[simp]
theorem pure_eq_ok (a : α) : (pure a : Except ε α) = Except.ok a :=
  rfl

@[simp]
theorem mapError_ok (g : ε → δ) (a : α) : (Except.ok a : Except ε α).mapError g = Except.ok a :=
  rfl

@[simp]
theorem mapError_error (g : ε → δ) (e : ε) :
    (Except.error e : Except ε α).mapError g = Except.error (g e) :=
  rfl

/-- Changing the error type of a sequence changes it in both parts. -/
theorem mapError_bind (g : ε → δ) (x : Except ε α) (f : α → Except ε β) :
    (x >>= f).mapError g = x.mapError g >>= fun a => (f a).mapError g := by
  cases x with
  | error e => rfl
  | ok a => rfl

theorem bind_eq_ok {x : Except ε α} {f : α → Except ε β} {b : β} :
    (x >>= f) = Except.ok b ↔ ∃ a, x = Except.ok a ∧ f a = Except.ok b := by
  cases x with
  | error e => simp
  | ok a => simp

theorem bind_eq_error {x : Except ε α} {f : α → Except ε β} {e : ε} :
    (x >>= f) = Except.error e ↔
      x = Except.error e ∨ ∃ a, x = Except.ok a ∧ f a = Except.error e := by
  cases x with
  | error e => simp
  | ok a => simp

theorem mapError_eq_ok {g : ε → δ} {x : Except ε α} {a : α} :
    x.mapError g = Except.ok a ↔ x = Except.ok a := by
  cases x with
  | error e => simp
  | ok a => simp

theorem map_eq_ok {f : α → β} {x : Except ε α} {b : β} :
    x.map f = Except.ok b ↔ ∃ a, x = Except.ok a ∧ f a = b := by
  cases x with
  | error e => simp [Except.map]
  | ok a => simp [Except.map]

theorem toOption_bind_pure (x : Except ε α) (f : α → β) :
    (x >>= fun a => pure (f a)).toOption = x.toOption.map f := by
  cases x with
  | error e => rfl
  | ok a => rfl

theorem toOption_eq_some {x : Except ε α} {a : α} : x.toOption = some a ↔ x = .ok a := by
  cases x with
  | error e => simp [Except.toOption]
  | ok a' => simp [Except.toOption]

/-- Up to its error a sequence depends on its parts up to theirs. -/
theorem toOption_bind_congr {x y : Except ε α} {f g : α → Except ε β}
    (same : x.toOption = y.toOption) (next : ∀ a, (f a).toOption = (g a).toOption) :
    (x >>= f).toOption = (y >>= g).toOption := by
  cases x with
  | error e =>
      cases y with
      | error e' => rfl
      | ok a' => cases same
  | ok a =>
      cases y with
      | error e' => cases same
      | ok a' =>
          cases same
          exact next a

/-- Either every computation of a list returned, or one failed. -/
theorem all_ok_or_error (results : List (Except ε α)) :
    (∃ values : List α, results = values.map Except.ok) ∨ ∃ e, Except.error e ∈ results := by
  induction results with
  | nil => exact Or.inl ⟨[], rfl⟩
  | cons result rest ih =>
      cases result with
      | error e => exact Or.inr ⟨e, List.mem_cons_self⟩
      | ok value =>
          rcases ih with ⟨values, rfl⟩ | ⟨e, e_mem⟩
          · exact Or.inl ⟨value :: values, rfl⟩
          · exact Or.inr ⟨e, List.mem_cons_of_mem _ e_mem⟩

/-- A partial function that is defined on a whole list has the list of its values. -/
theorem exists_map_some {f : α → Option β} {xs : List α} (defined : ∀ x ∈ xs, (f x).isSome) :
    ∃ ys : List β, xs.map f = ys.map some := by
  induction xs with
  | nil => exact ⟨[], rfl⟩
  | cons x rest ih =>
      rw [List.forall_mem_cons] at defined
      rcases Option.isSome_iff_exists.1 defined.1 with ⟨y, found⟩
      rcases ih defined.2 with ⟨ys, found_rest⟩
      exact ⟨y :: ys, by simp [found, found_rest]⟩

/-- Cutting a list before or after a map that drops nothing. -/
theorem take_filterMap {f : α → Option β} {xs : List α} (defined : ∀ x ∈ xs, (f x).isSome)
    (n : Nat) : (xs.take n).filterMap f = (xs.filterMap f).take n := by
  induction xs generalizing n with
  | nil => simp
  | cons x rest ih =>
      rw [List.forall_mem_cons] at defined
      rcases Option.isSome_iff_exists.1 defined.1 with ⟨y, found⟩
      cases n with
      | zero => simp
      | succ n => simp [found, ih defined.2]

theorem mapM_eq_ok {f : α → Except ε β} {xs : List α} {ys : List β} :
    xs.mapM f = .ok ys ↔ List.Forall₂ (fun x y => f x = .ok y) xs ys := by
  induction xs generalizing ys with
  | nil => simp [eq_comm]
  | cons x rest ih =>
      simp only [List.mapM_cons, bind_eq_ok, ih, pure_eq_ok, Except.ok.injEq,
        List.forall₂_cons_left_iff]
      constructor
      · rintro ⟨y, done, ys, done_rest, rfl⟩
        exact ⟨y, ys, done, done_rest, rfl⟩
      · rintro ⟨y, ys, done, done_rest, rfl⟩
        exact ⟨y, done, ys, done_rest, rfl⟩

theorem defined_of_forall₂ {f : α → Except ε β} {xs : List α} {ys : List β}
    (done : List.Forall₂ (fun x y => f x = .ok y) xs ys) : ∀ x ∈ xs, ∃ y, f x = .ok y := by
  induction done with
  | nil => simp
  | cons first _ ih => exact List.forall_mem_cons.2 ⟨⟨_, first⟩, ih⟩

theorem mapM_defined {f : α → Except ε β} {xs : List α} (defined : ∀ x ∈ xs, ∃ y, f x = .ok y) :
    ∃ ys, xs.mapM f = .ok ys := by
  induction xs with
  | nil => exact ⟨[], rfl⟩
  | cons x rest ih =>
      rw [List.forall_mem_cons] at defined
      rcases defined.1 with ⟨y, done⟩
      rcases ih defined.2 with ⟨ys, done_rest⟩
      exact ⟨y :: ys, mapM_eq_ok.2 (List.Forall₂.cons done (mapM_eq_ok.1 done_rest))⟩

theorem mapM_eq_some_map {f : α → Option β} {g : α → β} {xs : List α}
    (computed : ∀ x ∈ xs, f x = some (g x)) : xs.mapM f = some (xs.map g) := by
  induction xs with
  | nil => rfl
  | cons x rest ih =>
      rw [List.forall_mem_cons] at computed
      simp [List.mapM_cons, computed.1, ih computed.2]

theorem mapM_eq_filterMap {f : α → Option β} {xs : List α}
    (defined : ∀ x ∈ xs, ∃ y, f x = some y) : xs.mapM f = some (xs.filterMap f) := by
  induction xs with
  | nil => rfl
  | cons x xs ih =>
      rw [List.forall_mem_cons] at defined
      rcases defined.1 with ⟨y, at_x⟩
      rw [List.mapM_cons, ih defined.2, List.filterMap_cons_some at_x, at_x]
      rfl

theorem mapM_eq_none {f : α → Option β} {xs : List α} {x : α} (x_mem : x ∈ xs)
    (stopped : f x = none) : xs.mapM f = none := by
  induction xs with
  | nil => cases x_mem
  | cons first rest ih =>
      rcases List.mem_cons.1 x_mem with rfl | later
      · simp [List.mapM_cons, stopped]
      · cases first_read : f first <;> simp [List.mapM_cons, first_read, ih later]

end Fallible
