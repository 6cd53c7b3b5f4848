import Mathlib.Data.List.Nodup
import Mathlib.Data.List.Pairwise
import Mathlib.Logic.Relation

/-!
# Topological walks

A walk from a head lists what the head reaches, less what a hidden set that is closed under the
relation holds, with targets before sources. The head itself is the last of such a walk.
-/

namespace Topological

universe u

variable {α : Type u} {edge : α → α → Prop} {head : α} {Hidden : α → Prop} {walk : List α}

/-- A path that ends in `b` starts there or comes to it from another node. -/
theorem reaches_cases {a b : α} (reaches : Relation.ReflTransGen edge a b) :
    a = b ∨ ∃ c, c ≠ b ∧ Relation.ReflTransGen edge a c ∧ edge c b := by
  induction reaches with
  | refl => exact Or.inl rfl
  | @tail c d reach_c edge_cd ih =>
      by_cases same : c = d
      · rw [← same]
        exact ih
      · exact Or.inr ⟨c, same, reach_c, edge_cd⟩

/-- A walk lists the reached, unhidden nodes, targets before sources. -/
structure IsWalk (edge : α → α → Prop) (head : α) (Hidden : α → Prop) (walk : List α) : Prop where
  mem : ∀ a, a ∈ walk ↔ Relation.ReflTransGen edge head a ∧ ¬ Hidden a
  nodup : walk.Nodup
  order : walk.Pairwise fun earlier later => ¬ edge earlier later

/-- A walk that is not empty ends in its head. -/
theorem IsWalk.getLast? (isWalk : IsWalk edge head Hidden walk)
    (closed : ∀ a b, Hidden a → edge a b → Hidden b) {last : α}
    (is_last : walk.getLast? = some last) : last = head := by
  rcases List.getLast?_eq_some_iff.1 is_last with ⟨front, split⟩
  have last_mem : last ∈ walk := by simp [split]
  rcases (isWalk.mem last).1 last_mem with ⟨reached, visible⟩
  rcases reaches_cases reached with same | ⟨previous, distinct, reached_previous, edge_last⟩
  · exact same.symm
  · have previous_mem : previous ∈ walk :=
      (isWalk.mem previous).2 ⟨reached_previous, fun hidden => visible (closed _ _ hidden edge_last)⟩
    have previous_front : previous ∈ front := by
      rw [split] at previous_mem
      rcases List.mem_append.1 previous_mem with front_mem | end_mem
      · exact front_mem
      · exact absurd (List.mem_singleton.1 end_mem) distinct
    have order := isWalk.order
    rw [split] at order
    have no_edge := (List.pairwise_append.1 order).2.2 previous previous_front last (by simp)
    exact absurd edge_last no_edge

end Topological
