import Mathlib.Data.List.Basic
import Mathlib.Data.List.Infix

/-!
# Markers in a text

The first occurrence of a marker: where a text is cut at it, and what an occurrence in a text that
was put together from others can be. A solid marker cannot overlap itself. The occurrences of any
marker are counted from the left.
-/

namespace Markers

universe u

variable {α : Type u} {marker text before after : List α}

/-- The first letter of the marker does not come again in it. -/
def Solid : List α → Prop
  | [] => False
  | first :: rest => first ∉ rest

instance [DecidableEq α] : DecidablePred (Solid : List α → Prop)
  | [] => inferInstanceAs (Decidable False)
  | first :: rest => inferInstanceAs (Decidable (first ∉ rest))

theorem infix_or_infix_of_separator {sep : α} {xs ys : List α} (not_sep : sep ∉ marker)
    (occurs : marker <:+: xs ++ sep :: ys) : marker <:+: xs ∨ marker <:+: ys := by
  induction xs with
  | nil =>
      rcases List.infix_cons_iff.1 occurs with starts | later
      · cases marker with
        | nil => exact .inl (List.nil_infix)
        | cons x marker =>
            cases (List.cons_prefix_cons.1 starts).1
            simp at not_sep
      · exact .inr later
  | cons x xs ih =>
      rcases List.infix_cons_iff.1 occurs with starts | later
      · left
        rcases List.prefix_or_prefix_of_prefix starts (List.prefix_append (x :: xs) (sep :: ys))
          with inside | ⟨more, overlap⟩
        · exact inside.isInfix
        · cases more with
          | nil => simp [← overlap]
          | cons y more =>
              rw [← overlap, List.cons_append, List.cons_prefix_cons] at starts
              have starts := (List.prefix_append_right_inj xs).1 starts.2
              cases (List.cons_prefix_cons.1 starts).1
              simp [← overlap] at not_sep
      · exact (ih later).imp_left List.infix_cons

/-- What starts with a letter that is not in the first part is in the second. -/
theorem infix_of_first_notMem {first : α} {rest xs ys : List α} (notMem : first ∉ xs)
    (occurs : first :: rest <:+: xs ++ ys) : first :: rest <:+: ys := by
  induction xs with
  | nil => exact occurs
  | cons x xs ih =>
      rw [List.mem_cons, not_or] at notMem
      rcases List.infix_cons_iff.1 occurs with starts | later
      · exact absurd (List.cons_prefix_cons.1 starts).1 notMem.1
      · exact ih notMem.2 later

/-- Neither marker starts with the other, and the first does not start later in the other. -/
def Apart (marker other : List α) : Prop :=
    ¬ marker <+: other ∧ ¬ other <+: marker ∧ ∀ first ∈ marker.head?, first ∉ other.tail

instance [DecidableEq α] (marker other : List α) : Decidable (Apart marker other) :=
  inferInstanceAs (Decidable (_ ∧ _ ∧ ∀ first ∈ marker.head?, first ∉ other.tail))

theorem Apart.infix_of_append {other xs : List α} (apart : Apart marker other)
    (occurs : marker <:+: other ++ xs) : marker <:+: xs := by
  rcases apart with ⟨not_start, not_start', not_later⟩
  cases other with
  | nil => exact occurs
  | cons y other =>
      cases marker with
      | nil => exact List.nil_infix
      | cons first rest =>
          rcases List.infix_cons_iff.1 occurs with starts | later
          · rcases List.prefix_or_prefix_of_prefix starts (List.prefix_append (y :: other) xs)
              with inside | overlap
            · exact absurd inside not_start
            · exact absurd overlap not_start'
          · exact infix_of_first_notMem (not_later first rfl) later

theorem Solid.ne_nil (solid : Solid marker) : marker ≠ [] := by
  rintro rfl
  exact solid

/-- Of two occurrences of a solid marker the later one starts after the earlier one ends. -/
theorem Solid.prefix_of_append {overlap xs ys : List α} (solid : Solid marker)
    (overlap_ne_nil : overlap ≠ []) (same : marker ++ xs = overlap ++ (marker ++ ys)) :
    marker <+: overlap := by
  rcases List.append_eq_append_iff.1 same with ⟨inside, rfl, _⟩ | ⟨inside, whole, tail⟩
  · exact List.prefix_append marker inside
  · cases overlap with
    | nil => exact absurd rfl overlap_ne_nil
    | cons x overlap =>
        cases inside with
        | nil => simp [whole]
        | cons y inside =>
            subst whole
            cases (List.cons.inj tail).1
            exact absurd (List.mem_append_right overlap List.mem_cons_self) solid

section FirstOccurrence

variable [DecidableEq α]

theorem dropInfix?_eq_some_iff_least :
    text.dropInfix? marker = some (before, after) ↔
      text = before ++ marker ++ after ∧
        ∀ earlier rest, text = earlier ++ marker ++ rest → before.length ≤ earlier.length := by
  rw [List.dropInfix?_eq_some_iff]
  simp only [beq_iff_eq, ge_iff_le]
  constructor
  · rintro ⟨⟨_, cut, rfl⟩, least⟩
    exact ⟨cut, fun earlier rest cut' => least earlier _ rest cut' rfl⟩
  · rintro ⟨cut, least⟩
    refine ⟨⟨_, cut, rfl⟩, ?_⟩
    rintro earlier _ rest cut' rfl
    exact least earlier rest cut'

/-- A marker whose first letter does not come before it is the first one. -/
theorem dropInfix?_of_first_notMem {first : α} {rest : List α} (notMem : first ∉ before)
    (after : List α) :
    (before ++ (first :: rest) ++ after).dropInfix? (first :: rest) = some (before, after) := by
  refine dropInfix?_eq_some_iff_least.2 ⟨rfl, fun earlier tail cut => ?_⟩
  by_contra! shorter
  rw [List.append_assoc, List.append_assoc] at cut
  rcases List.append_eq_append_iff.1 cut with ⟨overlap, rfl, _⟩ | ⟨overlap, rfl, split⟩
  · rw [List.length_append] at shorter
    omega
  · cases overlap with
    | nil => simp at shorter
    | cons x overlap =>
        cases (List.cons.inj split).1
        simp at notMem

/-- The occurrences of a marker from the left, none over another: the letter before, and the text
after. The first letters that are skipped belong to the last occurrence. -/
def occurrences (marker : List α) : Nat → Option α → List α → List (Option α × List α)
  | _, _, [] => []
  | skipped + 1, _, x :: text => occurrences marker skipped (some x) text
  | 0, last, x :: text =>
      if marker <+: x :: text then
        (last, (x :: text).drop marker.length) ::
          occurrences marker (marker.length - 1) (some x) text
      else occurrences marker 0 (some x) text

theorem cut_of_mem_occurrences {skipped : Nat} {found : Option α × List α}
    (found_mem : found ∈ occurrences marker skipped before.getLast? text) :
    ∃ front, before ++ text = front ++ marker ++ found.2 ∧ front.getLast? = found.1 := by
  induction text generalizing skipped before with
  | nil => simp [occurrences] at found_mem
  | cons x text ih =>
      have later : ∀ skipped, found ∈ occurrences marker skipped (some x) text →
          ∃ front, before ++ x :: text = front ++ marker ++ found.2 ∧ front.getLast? = found.1 := by
        intro skipped later_mem
        rw [← List.getLast?_concat (l := before)] at later_mem
        rw [List.append_cons]
        exact ih later_mem
      cases skipped with
      | succ skipped => exact later skipped found_mem
      | zero =>
          rw [occurrences] at found_mem
          split at found_mem
          case isTrue starts =>
            rcases List.mem_cons.1 found_mem with rfl | later_mem
            · rcases starts with ⟨after, whole⟩
              refine ⟨before, ?_, rfl⟩
              simp [← whole]
            · exact later _ later_mem
          · exact later _ found_mem

variable (solid : Solid marker)

include solid

theorem not_infix_of_dropInfix? (cut : text.dropInfix? marker = some (before, after)) :
    ¬ marker <:+: before := by
  rcases dropInfix?_eq_some_iff_least.1 cut with ⟨rfl, least⟩
  rintro ⟨earlier, rest, rfl⟩
  have shorter := least earlier (rest ++ marker ++ after) (by simp)
  have positive := List.length_pos_iff.2 solid.ne_nil
  simp only [List.length_append] at shorter
  omega

/-- The first occurrence of a solid marker is the one with none before it. -/
theorem dropInfix?_eq_some_iff_absent :
    text.dropInfix? marker = some (before, after) ↔
      text = before ++ marker ++ after ∧ ¬ marker <:+: before := by
  constructor
  · intro cut
    exact ⟨(dropInfix?_eq_some_iff_least.1 cut).1, not_infix_of_dropInfix? solid cut⟩
  · rintro ⟨rfl, absent⟩
    refine dropInfix?_eq_some_iff_least.2 ⟨rfl, fun earlier rest cut => ?_⟩
    by_contra! shorter
    rw [List.append_assoc, List.append_assoc] at cut
    rcases List.append_eq_append_iff.1 cut with ⟨overlap, rfl, _⟩ | ⟨overlap, rfl, split⟩
    · rw [List.length_append] at shorter
      omega
    · have overlap_ne_nil : overlap ≠ [] := by
        rintro rfl
        simp at shorter
      exact absent ((solid.prefix_of_append overlap_ne_nil split).isInfix.trans
        (List.suffix_append earlier overlap).isInfix)

theorem before_unique {before' after' : List α}
    (same : before ++ marker ++ after = before' ++ marker ++ after')
    (absent : ¬ marker <:+: before) (absent' : ¬ marker <:+: before') : before = before' := by
  have cut : (before ++ marker ++ after).dropInfix? marker = some (before, after) :=
    (dropInfix?_eq_some_iff_absent solid).2 ⟨rfl, absent⟩
  have cut' := (dropInfix?_eq_some_iff_absent solid).2 ⟨same, absent'⟩
  exact congrArg Prod.fst (Option.some.inj (cut.symm.trans cut'))

theorem exists_cut_of_infix (occurs : marker <:+: text) :
    ∃ before after, text.dropInfix? marker = some (before, after) := by
  induction text with
  | nil => exact absurd (List.infix_nil.1 occurs) solid.ne_nil
  | cons x text ih =>
      by_cases starts : marker <+: x :: text
      · rcases starts with ⟨after, starts⟩
        refine ⟨[], after, (dropInfix?_eq_some_iff_absent solid).2 ⟨starts.symm, ?_⟩⟩
        rw [List.infix_nil]
        exact solid.ne_nil
      · rcases ih ((List.infix_cons_iff.1 occurs).resolve_left starts) with ⟨before, after, cut⟩
        rcases (dropInfix?_eq_some_iff_absent solid).1 cut with ⟨rfl, absent⟩
        refine ⟨x :: before, after, (dropInfix?_eq_some_iff_absent solid).2 ⟨rfl, ?_⟩⟩
        intro occurs_before
        rcases List.infix_cons_iff.1 occurs_before with starts_before | later
        · exact starts (starts_before.trans ⟨marker ++ after, by simp⟩)
        · exact absent later

/-- The first occurrence up to a known one. -/
theorem exists_first_occurrence (xs : List α) :
    ∃ before overlap, xs ++ marker = before ++ marker ++ overlap ∧ ¬ marker <:+: before := by
  rcases exists_cut_of_infix solid (List.suffix_append xs marker).isInfix with
    ⟨before, overlap, cut⟩
  exact ⟨before, overlap, (dropInfix?_eq_some_iff_absent solid).1 cut⟩

end FirstOccurrence

end Markers
