import Mathlib.Algebra.BigOperators.Fin
import Mathlib.Algebra.BigOperators.Group.Finset.Basic
import Mathlib.Algebra.Order.BigOperators.Group.Finset
import Mathlib.Data.Fintype.BigOperators
import Mathlib.Tactic.Abel

/-!
# Executions of a labelled machine

A machine is a partial function from states and labels to states. A run follows a list of labels,
a condition on single steps is extended to a run by `Along`, and the invariant rules carry a
property of states from the first to the last state of a run.
-/

namespace Execution

universe u v

variable {σ : Type u} {ℓ : Type v} (next : σ → ℓ → Option σ)

/-- The state after following `labels`, when every one of them is enabled. -/
def run : σ → List ℓ → Option σ
  | s, [] => some s
  | s, label :: rest =>
      match next s label with
      | some s' => run s' rest
      | none => none

/-- Every step of the run meets `condition`. -/
def Along (condition : σ → ℓ → Prop) : σ → List ℓ → Prop
  | _, [] => True
  | s, label :: rest =>
      condition s label ∧ ∀ s', next s label = some s' → Along condition s' rest

/-- No step is enabled. -/
def Stuck (s : σ) : Prop :=
    ∀ label, next s label = none

variable {next}

theorem run_cons {s s' : σ} {label : ℓ} {rest : List ℓ} :
    run next s (label :: rest) = some s' ↔
      ∃ middle, next s label = some middle ∧ run next middle rest = some s' := by
  rw [run]
  cases next s label with
  | none => simp
  | some middle => simp

theorem run_append {s s' : σ} {before after : List ℓ} :
    run next s (before ++ after) = some s' ↔
      ∃ middle, run next s before = some middle ∧ run next middle after = some s' := by
  induction before generalizing s with
  | nil => simp [run]
  | cons label rest ih =>
      simp only [List.cons_append, run_cons, ih]
      constructor
      · rintro ⟨first, stepped, middle, ran, ran_after⟩
        exact ⟨middle, ⟨first, stepped, ran⟩, ran_after⟩
      · rintro ⟨middle, ⟨first, stepped, ran⟩, ran_after⟩
        exact ⟨first, stepped, middle, ran, ran_after⟩

theorem along_cons {condition : σ → ℓ → Prop} {s s' : σ} {label : ℓ} {rest : List ℓ}
    (stepped : next s label = some s') :
    Along next condition s (label :: rest) ↔ condition s label ∧ Along next condition s' rest := by
  simp [Along, stepped]

instance decidableAlong {condition : σ → ℓ → Prop} [∀ s label, Decidable (condition s label)] :
    (s : σ) → (labels : List ℓ) → Decidable (Along next condition s labels)
  | _, [] => .isTrue trivial
  | s, label :: rest =>
      match stepped : next s label with
      | some s' =>
          have : Decidable (Along next condition s' rest) := decidableAlong s' rest
          decidable_of_iff (condition s label ∧ Along next condition s' rest)
            (along_cons stepped).symm
      | none => decidable_of_iff (condition s label) (by simp [Along, stepped])

/-- A condition along a run holds of the step after a part of it. -/
theorem along_at {condition : σ → ℓ → Prop} {s s' : σ} {label : ℓ} {before after : List ℓ}
    (ran : run next s before = some s')
    (along : Along next condition s (before ++ label :: after)) : condition s' label := by
  induction before generalizing s with
  | nil =>
      cases ran
      exact along.1
  | cons first rest ih =>
      rcases run_cons.1 ran with ⟨middle, stepped, ran_rest⟩
      exact ih ran_rest (along.2 middle stepped)

/-- What every step that meets the condition preserves, a run along the condition preserves. -/
theorem invariant_along {condition : σ → ℓ → Prop} (Inv : σ → Prop)
    (step : ∀ s label s', Inv s → condition s label → next s label = some s' → Inv s')
    {s s' : σ} {labels : List ℓ} (start : Inv s) (along : Along next condition s labels)
    (ran : run next s labels = some s') : Inv s' := by
  induction labels generalizing s with
  | nil =>
      cases ran
      exact start
  | cons label rest ih =>
      rcases run_cons.1 ran with ⟨middle, stepped, ran_rest⟩
      exact ih (step s label middle start along.1 stepped) (along.2 middle stepped) ran_rest

/-- What holds of every step that meets the condition from a state of the invariant holds along a
run that meets it. -/
theorem along_of_invariant {condition property : σ → ℓ → Prop} (Inv : σ → Prop)
    (step : ∀ s label s', Inv s → condition s label → next s label = some s' → Inv s')
    (holds : ∀ s label, Inv s → condition s label → property s label)
    {s : σ} {labels : List ℓ} (start : Inv s) (along : Along next condition s labels) :
    Along next property s labels := by
  induction labels generalizing s with
  | nil => trivial
  | cons label rest ih =>
      refine ⟨holds s label start along.1, fun s' stepped => ?_⟩
      exact ih (step s label s' start along.1 stepped) (along.2 s' stepped)

/-- Conditions that agree on the states of the invariant hold along the same runs. -/
theorem along_congr {condition property : σ → ℓ → Prop} (Inv : σ → Prop)
    (step : ∀ s label s', Inv s → condition s label → next s label = some s' → Inv s')
    (same : ∀ s label, Inv s → (condition s label ↔ property s label))
    {s : σ} {labels : List ℓ} (start : Inv s) :
    Along next condition s labels ↔ Along next property s labels := by
  constructor
  · exact along_of_invariant Inv step (fun s label inv => (same s label inv).1) start
  · apply along_of_invariant Inv _ (fun s label inv => (same s label inv).2) start
    intro s label s' inv holds stepped
    exact step s label s' inv ((same s label inv).2 holds) stepped

/-- A condition on the labels alone holds along every run of labels that meet it. -/
theorem along_of_labels {condition : ℓ → Prop} {labels : List ℓ}
    (meet : ∀ label ∈ labels, condition label) (s : σ) :
    Along next (fun _ label => condition label) s labels := by
  induction labels generalizing s with
  | nil => trivial
  | cons label rest ih =>
      refine ⟨meet label (by simp), fun s' _ => ih ?_ s'⟩
      intro other mem
      exact meet other (by simp [mem])

/-- What every step preserves, a run preserves. -/
theorem invariant (Inv : σ → Prop)
    (step : ∀ s label s', Inv s → next s label = some s' → Inv s')
    {s s' : σ} {labels : List ℓ} (start : Inv s) (ran : run next s labels = some s') :
    Inv s' :=
  invariant_along Inv (fun s label s' inv _ stepped => step s label s' inv stepped) start
    (along_of_labels (fun _ _ => trivial) s) ran

/-! ## Sums over the parts of a state -/

/-- Replacing one part exchanges its summand. -/
theorem sum_update {n : Nat} {α : Type u} {M : Type v} [AddCommMonoid M] (f : α → M)
    (parts : Fin n → α) (i : Fin n) (part : α) :
    (∑ j, f (Function.update parts i part j)) + f (parts i) = (∑ j, f (parts j)) + f part := by
  have summands : (fun j => f (Function.update parts i part j)) =
      Function.update (fun j => f (parts j)) i (f part) := by
    funext j
    by_cases same : j = i
    · subst same
      simp
    · simp [Function.update_of_ne same]
  rw [summands, Finset.sum_update_of_mem (Finset.mem_univ i),
    ← Finset.add_sum_erase _ (fun j => f (parts j)) (Finset.mem_univ i),
    Finset.sdiff_singleton_eq_erase]
  abel

theorem le_sum {n : Nat} (f : Fin n → Nat) (i : Fin n) : f i ≤ ∑ j, f j :=
  Finset.single_le_sum (fun _ _ => Nat.zero_le _) (Finset.mem_univ i)

/-- Two parts are within the sum. -/
theorem add_le_sum {n : Nat} (f : Fin n → Nat) {i j : Fin n} (distinct : j ≠ i) :
    f i + f j ≤ ∑ k, f k := by
  rw [← Finset.add_sum_erase _ f (Finset.mem_univ i)]
  apply Nat.add_le_add_left
  exact Finset.single_le_sum (fun _ _ => Nat.zero_le _)
    (Finset.mem_erase.2 ⟨distinct, Finset.mem_univ j⟩)

/-- The sum over the parts up to and including `k`. -/
theorem sum_lt_succ {n : Nat} {M : Type v} [AddCommMonoid M] (f : Fin n → M) (k : Fin n) :
    (∑ i : Fin n, if i.val < k.val + 1 then f i else 0) =
      (∑ i : Fin n, if i.val < k.val then f i else 0) + f k := by
  have split : ∀ i : Fin n, (if i.val < k.val + 1 then f i else 0) =
      (if i.val < k.val then f i else 0) + if i = k then f i else 0 := by
    intro i
    rcases Nat.lt_trichotomy i.val k.val with below | same | above
    · have distinct : i ≠ k := by
        intro same
        exact Nat.lt_irrefl _ (same ▸ below)
      simp [below, distinct, Nat.lt_succ_of_lt below]
    · have same_index : i = k := Fin.ext same
      simp [same_index]
    · have distinct : i ≠ k := by
        intro same
        exact Nat.lt_irrefl _ (same ▸ above)
      rw [if_neg (by omega), if_neg (by omega), if_neg distinct, add_zero]
  simp only [split, Finset.sum_add_distrib, Finset.sum_ite_eq', Finset.mem_univ, if_true]

end Execution
