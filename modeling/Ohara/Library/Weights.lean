import Mathlib.Algebra.Ring.Nat
import Mathlib.Data.List.Basic
import Mathlib.Data.List.Infix

/-!
# Weighted lists

Lists whose elements have weights: cutting a list at a weight, and grouping neighbours from the left
as long as a group stays within a budget.
-/

namespace Weights

universe u

variable {α : Type u} (weight : α → Nat)

/-- The weight of a list. -/
def weigh (xs : List α) : Nat :=
    (xs.map weight).sum

@[simp]
theorem weigh_nil : weigh weight [] = 0 := rfl

@[simp]
theorem weigh_cons (x : α) (xs : List α) : weigh weight (x :: xs) = weight x + weigh weight xs := by
  simp [weigh]

@[simp]
theorem weigh_append (xs ys : List α) :
    weigh weight (xs ++ ys) = weigh weight xs + weigh weight ys := by
  simp [weigh]

/-! ## Cutting at a weight -/

/-- The elements that make up the weight, and the rest; none when the cut is inside an element. -/
def splitWeight : Nat → List α → Option (List α × List α)
  | 0, xs => some ([], xs)
  | _ + 1, [] => none
  | n + 1, x :: xs =>
      if weight x ≤ n + 1 then
        (splitWeight (n + 1 - weight x) xs).map fun halves => (x :: halves.1, halves.2)
      else none

variable {weight} (positive : ∀ x, 0 < weight x)

include positive

theorem splitWeight_eq_some_iff {n : Nat} {xs before rest : List α} :
    splitWeight weight n xs = some (before, rest) ↔
      xs = before ++ rest ∧ weigh weight before = n := by
  induction xs generalizing n before rest with
  | nil =>
      cases n with
      | zero => cases before <;> simp [splitWeight, eq_comm]
      | succ n =>
          simp only [splitWeight, reduceCtorEq, false_iff, not_and]
          intro split
          simp [List.nil_eq_append_iff.1 split]
  | cons x xs ih =>
      have x_pos := positive x
      cases n with
      | zero =>
          cases before with
          | nil => simp [splitWeight, eq_comm]
          | cons y before =>
              have y_pos := positive y
              simp [splitWeight]
              omega
      | succ n =>
          cases before with
          | nil => simp [splitWeight]
          | cons y before =>
              rw [splitWeight]
              split
              · next fits =>
                  simp only [Option.map_eq_some_iff, Prod.exists, Prod.mk.injEq, List.cons.injEq,
                    List.cons_append, weigh_cons, ih]
                  constructor
                  · rintro ⟨_, _, ⟨rfl, weighed⟩, ⟨rfl, rfl⟩, rfl⟩
                    exact ⟨⟨rfl, rfl⟩, by omega⟩
                  · rintro ⟨⟨rfl, rfl⟩, weighed⟩
                    exact ⟨before, rest, ⟨rfl, by omega⟩, ⟨rfl, rfl⟩, rfl⟩
              · next heavy =>
                  simp only [reduceCtorEq, List.cons_append, List.cons.injEq, weigh_cons, false_iff]
                  rintro ⟨⟨rfl, _⟩, weighed⟩
                  omega

/-- Of two beginnings of a list the lighter one is the beginning of the other. -/
theorem prefix_of_weigh_le {xs ys : List α} {zs : List α} (xs_front : xs <+: zs)
    (ys_front : ys <+: zs) (lighter : weigh weight xs ≤ weigh weight ys) : xs <+: ys := by
  rcases List.prefix_or_prefix_of_prefix xs_front ys_front with shorter | ⟨more, rfl⟩
  · exact shorter
  · cases more with
    | nil => simp
    | cons x more =>
        have x_pos := positive x
        simp only [weigh_append, weigh_cons] at lighter
        omega

omit positive

/-! ## Grouping within a budget -/

variable (weight) (budget : Nat)

/-- The groups when the first one has been started. -/
def groupsFrom : List α → List α → List (List α)
  | group, [] => [group]
  | group, x :: rest =>
      if weigh weight group + weight x ≤ budget then groupsFrom (group ++ [x]) rest
      else group :: groupsFrom [x] rest

/-- Neighbours in groups, each as long as the budget allows. -/
def groups : List α → List (List α)
  | [] => []
  | x :: rest => groupsFrom weight budget [x] rest

/-- The groups make up the list, only an element of its own may go over the budget, and the first
element of a group would have put the group before it over. -/
structure Greedy (xs : List α) (groups : List (List α)) : Prop where
  flatten : groups.flatten = xs
  nonempty : ∀ group ∈ groups, group ≠ []
  fits : ∀ group ∈ groups, 1 < group.length → weigh weight group ≤ budget
  full : groups.IsChain fun group next =>
    ∀ x ∈ next.head?, budget < weigh weight group + weight x

variable {weight budget}

theorem groupsFrom_greedy {group : List α} (rest : List α) (some_elem : group ≠ [])
    (fits : 1 < group.length → weigh weight group ≤ budget) :
    Greedy weight budget (group ++ rest) (groupsFrom weight budget group rest) ∧
      ∃ more others, groupsFrom weight budget group rest = (group ++ more) :: others := by
  induction rest generalizing group with
  | nil =>
      refine ⟨⟨by simp [groupsFrom], ?_, ?_, ?_⟩, [], [], by simp [groupsFrom]⟩
      · simpa [groupsFrom] using some_elem
      · simpa [groupsFrom] using fits
      · simp [groupsFrom]
  | cons x rest ih =>
      rw [groupsFrom]
      split
      · next room =>
          have grown := @ih (group ++ [x]) (by simp) (by simpa using fun _ => room)
          simp only [List.append_assoc, List.singleton_append] at grown
          rcases grown with ⟨greedy, more, others, first⟩
          exact ⟨greedy, x :: more, others, first⟩
      · next no_room =>
          rcases @ih [x] (by simp) (by simp) with ⟨greedy, more, others, first⟩
          refine ⟨⟨?_, ?_, ?_, ?_⟩, [], _, by rw [List.append_nil]⟩
          · rw [List.flatten_cons, greedy.flatten, List.singleton_append]
          · exact List.forall_mem_cons.2 ⟨some_elem, greedy.nonempty⟩
          · exact List.forall_mem_cons.2 ⟨fits, greedy.fits⟩
          · have full := greedy.full
            rw [first] at full ⊢
            refine List.IsChain.cons_cons ?_ full
            simpa using no_room

theorem groups_greedy (xs : List α) : Greedy weight budget xs (groups weight budget xs) := by
  cases xs with
  | nil => exact ⟨rfl, by simp [groups], by simp [groups], by simp [groups]⟩
  | cons x rest => exact (groupsFrom_greedy rest (List.cons_ne_nil x []) (by simp)).1

end Weights
