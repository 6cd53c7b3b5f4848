import Mathlib.Data.List.Sort

/-!
# The front of a stably sorted list

When the first elements of a list are in order among themselves and before all later ones, stable
sorting leaves them where they are, and only then.
-/

namespace StableSort

universe u v

variable {α : Type u} {β : Type v} (r : α → α → Prop) [DecidableRel r]

/-- The first `k` elements are before every element that comes after them. -/
def FrontSorted (k : Nat) (xs : List α) : Prop :=
    ∀ i j, i < j → i < k → ∀ a b, xs[i]? = some a → xs[j]? = some b → r a b

variable {r}

omit [DecidableRel r] in
theorem frontSorted_zero (xs : List α) : FrontSorted r 0 xs := by
  intro i j _ front
  omega

omit [DecidableRel r] in
theorem frontSorted_cons {k : Nat} {x : α} {xs : List α} :
    FrontSorted r (k + 1) (x :: xs) ↔ (∀ y ∈ xs, r x y) ∧ FrontSorted r k xs := by
  constructor
  · intro sorted
    constructor
    · intro y y_mem
      rcases List.getElem?_of_mem y_mem with ⟨j, at_j⟩
      exact sorted 0 (j + 1) (Nat.succ_pos j) (Nat.succ_pos k) x y rfl at_j
    · intro i j before front a b at_i at_j
      exact sorted (i + 1) (j + 1) (by omega) (by omega) a b at_i at_j
  · rintro ⟨first, sorted⟩ i j before front a b at_i at_j
    cases j with
    | zero => omega
    | succ j =>
        cases i with
        | zero =>
            cases at_i
            exact first b (List.mem_of_getElem? at_j)
        | succ i => exact sorted i j (by omega) (by omega) a b at_i at_j

omit [DecidableRel r] in
theorem frontSorted_congr {s : α → α → Prop} {k : Nat} {xs : List α}
    (same : ∀ a ∈ xs, ∀ b ∈ xs, (r a b ↔ s a b)) : FrontSorted r k xs ↔ FrontSorted s k xs := by
  constructor
  · intro sorted i j before front a b at_i at_j
    exact (same a (List.mem_of_getElem? at_i) b (List.mem_of_getElem? at_j)).1
      (sorted i j before front a b at_i at_j)
  · intro sorted i j before front a b at_i at_j
    exact (same a (List.mem_of_getElem? at_i) b (List.mem_of_getElem? at_j)).2
      (sorted i j before front a b at_i at_j)

omit [DecidableRel r] in
theorem frontSorted_map {f : β → α} {k : Nat} {xs : List β} :
    FrontSorted r k (xs.map f) ↔ FrontSorted (fun a b => r (f a) (f b)) k xs := by
  constructor
  · intro sorted i j before front a b at_i at_j
    apply sorted i j before front
    · rw [List.getElem?_map, at_i, Option.map_some]
    · rw [List.getElem?_map, at_j, Option.map_some]
  · intro sorted i j before front a b at_i at_j
    rw [List.getElem?_map, Option.map_eq_some_iff] at at_i at_j
    rcases at_i with ⟨a, at_i, rfl⟩
    rcases at_j with ⟨b, at_j, rfl⟩
    exact sorted i j before front a b at_i at_j

variable [Std.Total r] [IsTrans α r]

theorem first_of_take_insertionSort {k : Nat} {x : α} {xs : List α}
    (kept : ((x :: xs).insertionSort r).take (k + 1) = (x :: xs).take (k + 1)) :
    ∀ y ∈ xs, r x y := by
  intro y y_mem
  have sorted := List.pairwise_insertionSort r (x :: xs)
  have same := List.perm_insertionSort r (x :: xs)
  generalize (x :: xs).insertionSort r = ys at kept sorted same
  cases ys with
  | nil => cases kept
  | cons z zs =>
      rw [List.take_succ_cons, List.take_succ_cons, List.cons.injEq] at kept
      rcases kept with ⟨rfl, -⟩
      apply (List.pairwise_cons.1 sorted).1
      exact (List.Perm.cons_inv same).symm.subset y_mem

/-- Sorting keeps the first `k` elements exactly when they are in front already. -/
theorem take_insertionSort_eq_iff (k : Nat) (xs : List α) :
    (xs.insertionSort r).take k = xs.take k ↔ FrontSorted r k xs := by
  induction k generalizing xs with
  | zero =>
      simp only [List.take_zero, true_iff]
      exact frontSorted_zero xs
  | succ k ih =>
      cases xs with
      | nil =>
          simp only [List.insertionSort_nil, List.take_nil, true_iff]
          intro i j _ _ a b at_i
          cases at_i
      | cons x xs =>
          rw [frontSorted_cons]
          constructor
          · intro kept
            have first := first_of_take_insertionSort kept
            rw [List.insertionSort_cons_of_forall_rel r first, List.take_succ_cons,
              List.take_succ_cons, List.cons.injEq] at kept
            exact ⟨first, (ih xs).1 kept.2⟩
          · rintro ⟨first, sorted⟩
            rw [List.insertionSort_cons_of_forall_rel r first, List.take_succ_cons,
              List.take_succ_cons, (ih xs).2 sorted]

omit [DecidableRel r] [Std.Total r] [IsTrans α r] in
theorem eq_of_map_eq {f : α → β} {xs ys zs : List α}
    (injective : ∀ a ∈ zs, ∀ b ∈ zs, f a = f b → a = b) (xs_mem : ∀ a ∈ xs, a ∈ zs)
    (ys_mem : ∀ a ∈ ys, a ∈ zs) (same : xs.map f = ys.map f) : xs = ys := by
  induction xs generalizing ys with
  | nil => exact (List.map_eq_nil_iff.1 same.symm).symm
  | cons x xs ih =>
      cases ys with
      | nil => cases same
      | cons y ys =>
          rw [List.map_cons, List.map_cons, List.cons.injEq] at same
          rw [List.forall_mem_cons] at xs_mem ys_mem
          rw [injective x xs_mem.1 y ys_mem.1 same.1, ih xs_mem.2 ys_mem.2 same.2]

/-- As `take_insertionSort_eq_iff`, told by a mark that no two elements share. -/
theorem map_take_insertionSort_eq_iff {f : α → β} {xs : List α} (distinct : (xs.map f).Nodup)
    (k : Nat) :
    ((xs.insertionSort r).take k).map f = (xs.take k).map f ↔ FrontSorted r k xs := by
  rw [← take_insertionSort_eq_iff]
  constructor
  · apply eq_of_map_eq fun a a_mem b b_mem => List.inj_on_of_nodup_map distinct a_mem b_mem
    · intro a a_mem
      exact (List.mem_insertionSort r).1 (List.mem_of_mem_take a_mem)
    · intro a a_mem
      exact List.mem_of_mem_take a_mem
  · intro same
    rw [same]

/-! ## Places -/

/-- Two elements with their places in a list: in order, and in the order of the list on a tie. -/
def PlacedBefore (r : α → α → Prop) (a b : α × Nat) : Prop :=
    r a.1 b.1 ∧ (r b.1 a.1 → a.2 < b.2)

theorem pairwise_orderedInsert_places {x : α × Nat} {sorted : List (α × Nat)}
    (earlier : ∀ y ∈ sorted, x.2 < y.2) (placed : sorted.Pairwise (PlacedBefore r)) :
    (sorted.orderedInsert (fun a b => r a.1 b.1) x).Pairwise (PlacedBefore r) := by
  induction sorted with
  | nil => simp
  | cons y rest ih =>
      rw [List.forall_mem_cons] at earlier
      rw [List.pairwise_cons] at placed
      rw [List.orderedInsert_cons]
      split
      · next before =>
          rw [List.pairwise_cons, List.forall_mem_cons]
          refine ⟨⟨⟨before, fun _ => earlier.1⟩, ?_⟩, List.pairwise_cons.2 placed⟩
          intro z z_mem
          exact ⟨IsTrans.trans _ _ _ before (placed.1 z z_mem).1, fun _ => earlier.2 z z_mem⟩
      · next after =>
          rw [List.pairwise_cons]
          refine ⟨?_, ih earlier.2 placed.2⟩
          intro z z_mem
          rcases (List.mem_orderedInsert _).1 z_mem with rfl | z_rest
          · exact ⟨(Std.Total.total z.1 y.1).resolve_left after, fun tied => absurd tied after⟩
          · exact placed.1 z z_rest

theorem pairwise_insertionSort_places {xs : List (α × Nat)}
    (increasing : xs.Pairwise fun a b => a.2 < b.2) :
    (xs.insertionSort fun a b => r a.1 b.1).Pairwise (PlacedBefore r) := by
  induction xs with
  | nil => simp
  | cons x rest ih =>
      rw [List.pairwise_cons] at increasing
      rw [List.insertionSort_cons]
      apply pairwise_orderedInsert_places _ (ih increasing.2)
      intro y y_mem
      exact increasing.1 y ((List.mem_insertionSort _).1 y_mem)

theorem pairwise_zipIdx (xs : List α) (start : Nat) :
    (xs.zipIdx start).Pairwise fun a b => a.2 < b.2 := by
  induction xs generalizing start with
  | nil => simp
  | cons x rest ih =>
      rw [List.zipIdx_cons, List.pairwise_cons]
      refine ⟨?_, ih (start + 1)⟩
      rintro ⟨y, place⟩ y_mem
      exact List.le_snd_of_mem_zipIdx y_mem

/-- A stable sort rearranges the places: elements come in order, and ties in the order of the
list. -/
theorem exists_places (xs : List α) : ∃ order : List (α × Nat), order.Perm xs.zipIdx ∧
    order.map Prod.fst = xs.insertionSort r ∧ order.Pairwise (PlacedBefore r) := by
  refine ⟨xs.zipIdx.insertionSort fun a b => r a.1 b.1, List.perm_insertionSort _ _, ?_,
    pairwise_insertionSort_places (pairwise_zipIdx xs 0)⟩
  rw [List.map_insertionSort _ r Prod.fst _ (by simp), List.zipIdx_map_fst]

end StableSort
