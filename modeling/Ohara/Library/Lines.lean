import Mathlib.Data.List.Basic
import Mathlib.Order.Monotone.Basic

/-!
# Lines of positions

The line of a position counts the breaks before it. From one position to the next it grows by one
at most, so the positions of a range meet every line between the first and the last.
-/

namespace Lines

universe u

/-- What grows by one step at most takes every value in between. -/
theorem exists_eq_of_unit_steps {f : Nat → Nat} (steps : ∀ n, f (n + 1) ≤ f n + 1) {a b value : Nat}
    (le : a ≤ b) (above : f a ≤ value) (below : value ≤ f b) :
    ∃ n, a ≤ n ∧ n ≤ b ∧ f n = value := by
  induction b, le using Nat.le_induction with
  | base => exact ⟨a, le_rfl, le_rfl, le_antisymm above below⟩
  | succ b le ih =>
      by_cases reached : value ≤ f b
      · rcases ih reached with ⟨n, from_a, to_b, same⟩
        exact ⟨n, from_a, Nat.le_succ_of_le to_b, same⟩
      · refine ⟨b + 1, Nat.le_succ_of_le le, le_rfl, ?_⟩
        have step := steps b
        omega

variable {α : Type u} [DecidableEq α]

/-- The line of a position, from one. -/
def lineOf (sep : α) (text : List α) (pos : Nat) : Nat :=
    (text.take pos).count sep + 1

section Positions

variable (sep : α) (text : List α)

theorem lineOf_mono : Monotone (lineOf sep text) := by
  intro a b le
  have within := (List.take_prefix_take_left (l := text) le).sublist
  exact Nat.add_le_add_right (within.count_le sep) 1

theorem lineOf_succ_le (pos : Nat) : lineOf sep text (pos + 1) ≤ lineOf sep text pos + 1 := by
  rw [lineOf, lineOf, List.take_add_one, List.count_append]
  have single : (text[pos]?.toList).count sep ≤ 1 := by
    apply le_trans List.count_le_length
    cases text[pos]? <;> simp
  omega

/-- After the last position the line stays. -/
theorem lineOf_min (pos : Nat) : lineOf sep text (min pos text.length) = lineOf sep text pos := by
  rw [lineOf, lineOf, ← List.take_eq_take_min]

/-- The last line of a range; an empty range is on the line it starts on. -/
def lastLine (start stop : Nat) : Nat :=
    max (lineOf sep text (min stop text.length - 1)) (lineOf sep text start)

/-- The lines of a range of positions are those from its first to its last. -/
theorem exists_pos_iff (start stop line : Nat) :
    (∃ pos, (pos = start ∨ start ≤ pos ∧ pos < stop ∧ pos < text.length) ∧
      lineOf sep text pos = line) ↔
      lineOf sep text start ≤ line ∧ line ≤ lastLine sep text start stop := by
  constructor
  · rintro ⟨pos, rfl | ⟨from_start, before_stop, in_text⟩, rfl⟩
    · exact ⟨le_rfl, le_max_right _ _⟩
    · refine ⟨lineOf_mono sep text from_start, le_trans ?_ (le_max_left _ _)⟩
      apply lineOf_mono sep text
      omega
  · rintro ⟨first, last⟩
    by_cases nonempty : start < min stop text.length
    · have le := Nat.le_sub_one_of_lt nonempty
      rw [lastLine, max_eq_left (lineOf_mono sep text le)] at last
      rcases exists_eq_of_unit_steps (lineOf_succ_le sep text) le first last with
        ⟨pos, from_start, to_stop, same⟩
      exact ⟨pos, .inr (by omega), same⟩
    · refine ⟨start, .inl rfl, le_antisymm first ?_⟩
      rw [lastLine, max_eq_right] at last
      · exact last
      · apply lineOf_mono sep text
        omega

end Positions

/-! ## Lines with their breaks -/

/-- The lines of a text, each with the break that ends it; the last may have none. -/
def pieces (sep : α) : List α → List (List α)
  | [] => []
  | x :: rest =>
      if x = sep then [x] :: pieces sep rest
      else
        match pieces sep rest with
        | [] => [[x]]
        | line :: lines => (x :: line) :: lines

section Pieces

variable {sep : α}

@[simp]
theorem pieces_nil : pieces sep [] = [] := rfl

@[simp]
theorem pieces_sep (rest : List α) : pieces sep (sep :: rest) = [sep] :: pieces sep rest := by
  simp [pieces]

theorem pieces_eq_nil {text : List α} : pieces sep text = [] ↔ text = [] := by
  cases text with
  | nil => simp
  | cons x rest =>
      simp only [pieces, reduceCtorEq, iff_false]
      split
      · simp
      · split <;> simp

@[simp]
theorem flatten_pieces (text : List α) : (pieces sep text).flatten = text := by
  induction text with
  | nil => rfl
  | cons x rest ih =>
      rw [pieces]
      split
      · simp [ih]
      · split
        · next none =>
            rw [pieces_eq_nil] at none
            simp [none]
        · next line lines some => simpa [some] using ih

/-- What is no break is put in front of the first line. -/
theorem flatten_take_pieces_cons {x : α} (inside : x ≠ sep) (n : Nat) (rest : List α) :
    ((pieces sep (x :: rest)).take (n + 1)).flatten
      = x :: ((pieces sep rest).take (n + 1)).flatten := by
  rw [pieces, if_neg inside]
  split
  · next none => simp [none]
  · next line lines some => simp [some]

theorem length_pieces (text : List α) :
    (pieces sep text).length
      = text.count sep + if text.getLast?.any (fun x => decide (x ≠ sep)) then 1 else 0 := by
  induction text with
  | nil => simp
  | cons x rest ih =>
      by_cases break_first : x = sep
      · subst break_first
        cases rest with
        | nil => simp
        | cons y rest => simp [ih, List.getLast?_cons_cons]; omega
      · rw [pieces, if_neg break_first]
        split
        · next none =>
            rw [pieces_eq_nil] at none
            simp [none, break_first]
        · next line lines some =>
            rw [some] at ih
            cases rest with
            | nil => simp at some
            | cons y rest => simpa [break_first, List.getLast?_cons_cons] using ih

/-- The position is in the line, counted from one; a break is in the line that it ends. -/
def Within (sep : α) (text : List α) (pos line : Nat) : Prop :=
    ((pieces sep text).take (line - 1)).flatten.length ≤ pos ∧
      pos < ((pieces sep text).take line).flatten.length

theorem within_succ_iff {text : List α} {pos : Nat} (inside : pos < text.length) (line : Nat) :
    Within sep text pos (line + 1) ↔ lineOf sep text pos = line + 1 := by
  rw [Within, lineOf, Nat.add_sub_cancel]
  induction text generalizing pos line with
  | nil => simp at inside
  | cons x rest ih =>
      by_cases break_first : x = sep
      · subst break_first
        cases pos with
        | zero => cases line <;> simp
        | succ pos =>
            have step := ih (Nat.lt_of_succ_lt_succ inside)
            cases line with
            | zero => simp
            | succ line =>
                have previous := step line
                simp only [pieces_sep, List.take_succ_cons, List.flatten_cons,
                  List.length_append, List.length_singleton, List.count_cons_self] at previous ⊢
                omega
      · rw [flatten_take_pieces_cons break_first]
        cases pos with
        | zero =>
            cases line with
            | zero => simp
            | succ line => simp [flatten_take_pieces_cons break_first]
        | succ pos =>
            have step := ih (Nat.lt_of_succ_lt_succ inside) line
            cases line with
            | zero => simpa [break_first] using step
            | succ line => simpa [break_first, flatten_take_pieces_cons break_first] using step

theorem within_iff {text : List α} {pos : Nat} (inside : pos < text.length) (line : Nat) :
    Within sep text pos line ↔ lineOf sep text pos = line := by
  cases line with
  | zero => simp [Within, lineOf]
  | succ line => exact within_succ_iff inside line

theorem pieces_append {block : List α} (nonempty : block ≠ []) (inside : sep ∉ block)
    (rest : List α) :
    pieces sep (block ++ rest)
      = match pieces sep rest with
        | [] => [block]
        | line :: lines => (block ++ line) :: lines := by
  induction block with
  | nil => exact absurd rfl nonempty
  | cons x block ih =>
      simp only [List.mem_cons, not_or] at inside
      rw [List.cons_append, pieces, if_neg (Ne.symm inside.1)]
      by_cases last : block = []
      · subst last
        rw [List.nil_append]
        cases pieces sep rest <;> rfl
      · rw [ih last inside.2]
        cases pieces sep rest <;> simp

/-- Lines are encoded on their own when breaks are encoded as breaks, and nothing else is. -/
theorem pieces_flatMap {β : Type u} [DecidableEq β] {sep' : β} {encode : α → List β}
    (on_break : encode sep = [sep'])
    (on_other : ∀ x, x ≠ sep → encode x ≠ [] ∧ sep' ∉ encode x) (text : List α) :
    pieces sep' (text.flatMap encode) = (pieces sep text).map (List.flatMap encode) := by
  induction text with
  | nil => rfl
  | cons x rest ih =>
      rw [List.flatMap_cons]
      by_cases break_first : x = sep
      · subst break_first
        simp [on_break, ih]
      · have other := on_other x break_first
        rw [pieces_append other.1 other.2, ih, pieces, if_neg break_first]
        cases pieces sep rest <;> simp

end Pieces

end Lines
