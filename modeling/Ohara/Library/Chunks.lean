import Mathlib.Data.List.Basic
import Ohara.Library.Fallible

/-!
# Slices of bounded length

A list cut into consecutive slices, as by `slice::chunks`, and what a loop over the slices
computes when it treats each slice element by element.
-/

namespace Chunks

universe u v w

variable {α : Type u} {β : Type v} {ε : Type w}

/-- At most `fuel` slices of `xs`, each of `size` elements but the last. -/
def chunksAux (size : Nat) : Nat → List α → List (List α)
  | 0, _ => []
  | _ + 1, [] => []
  | fuel + 1, x :: xs => (x :: xs).take size :: chunksAux size fuel ((x :: xs).drop size)

/-- `xs` in consecutive slices of `size` elements; the last one may be shorter. -/
def chunks (size : Nat) (xs : List α) : List (List α) :=
    chunksAux size xs.length xs

theorem flatten_chunksAux {size : Nat} (positive : 0 < size) (fuel : Nat) (xs : List α)
    (enough : xs.length ≤ fuel) : (chunksAux size fuel xs).flatten = xs := by
  induction fuel generalizing xs with
  | zero =>
      have empty : xs = [] := List.eq_nil_of_length_eq_zero (by omega)
      rw [empty]
      rfl
  | succ fuel ih =>
      cases xs with
      | nil => rfl
      | cons x rest =>
          rw [chunksAux, List.flatten_cons, ih, List.take_append_drop]
          rw [List.length_drop]
          simp only [List.length_cons] at enough ⊢
          omega

theorem flatten_chunks {size : Nat} (positive : 0 < size) (xs : List α) :
    (chunks size xs).flatten = xs :=
  flatten_chunksAux positive xs.length xs (Nat.le_refl _)

theorem length_le_of_mem_chunksAux {size fuel : Nat} {xs chunk : List α}
    (chunk_mem : chunk ∈ chunksAux size fuel xs) : chunk.length ≤ size := by
  induction fuel generalizing xs with
  | zero => cases chunk_mem
  | succ fuel ih =>
      cases xs with
      | nil => cases chunk_mem
      | cons x rest =>
          simp only [chunksAux, List.mem_cons] at chunk_mem
          rcases chunk_mem with rfl | later
          · exact List.length_take_le _ _
          · exact ih later

theorem length_le_of_mem_chunks {size : Nat} {xs chunk : List α}
    (chunk_mem : chunk ∈ chunks size xs) : chunk.length ≤ size :=
  length_le_of_mem_chunksAux chunk_mem

theorem mem_of_mem_chunk {size : Nat} (positive : 0 < size) {xs chunk : List α} {x : α}
    (chunk_mem : chunk ∈ chunks size xs) (x_mem : x ∈ chunk) : x ∈ xs := by
  rw [← flatten_chunks positive xs]
  exact List.mem_flatten_of_mem chunk_mem x_mem

theorem exists_chunk_of_mem {size : Nat} (positive : 0 < size) {xs : List α} {x : α}
    (x_mem : x ∈ xs) : ∃ chunk ∈ chunks size xs, x ∈ chunk := by
  rw [← flatten_chunks positive xs] at x_mem
  exact List.mem_flatten.1 x_mem

/-- A loop that gives each slice what `f` gives its elements gives the list what `f` gives it. -/
theorem foldlM_each {f : α → Option β} {step : List β → List α → Except ε (List β)}
    {slices : List (List α)} (each : ∀ slice ∈ slices, ∀ out result,
      step out slice = .ok result ↔ ∃ made, slice.map f = made.map some ∧ result = out ++ made)
    {out result : List β} : slices.foldlM step out = .ok result ↔
      ∃ made, slices.flatten.map f = made.map some ∧ result = out ++ made := by
  induction slices generalizing out with
  | nil =>
      simp only [List.foldlM_nil, List.flatten_nil, List.map_nil]
      constructor
      · rintro ⟨⟩
        exact ⟨[], rfl, (List.append_nil _).symm⟩
      · rintro ⟨made, nothing, rfl⟩
        rw [eq_comm, List.map_eq_nil_iff] at nothing
        rw [nothing, List.append_nil]
        rfl
  | cons slice rest ih =>
      rw [List.forall_mem_cons] at each
      simp only [List.foldlM_cons, Fallible.bind_eq_ok, each.1, ih each.2, List.flatten_cons,
        List.map_append]
      constructor
      · rintro ⟨-, ⟨made, head, rfl⟩, tail_made, tail, rfl⟩
        exact ⟨made ++ tail_made, by simp [head, tail], by simp⟩
      · rintro ⟨made, whole, rfl⟩
        rcases List.append_eq_map_iff.1 whole with ⟨head_made, tail_made, rfl, head, tail⟩
        exact ⟨_, ⟨head_made, head.symm, rfl⟩, tail_made, tail.symm, by simp⟩

end Chunks
