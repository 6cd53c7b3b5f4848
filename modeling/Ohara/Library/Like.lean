import Mathlib.Data.List.Forall2
import Mathlib.Data.List.Infix

/-!
# LIKE patterns

A pattern is a word over the alphabet of the text in which one symbol stands for any sequence and
one for any single symbol. Letters are compared by a relation, such as equality up to case.
-/

namespace Like

universe u

variable {σ : Type u} [DecidableEq σ] (same : σ → σ → Bool) (many one : σ)

/-- Whether the whole text matches the pattern. -/
def matchesPattern : List σ → List σ → Bool
  | [], text => text.isEmpty
  | p :: pattern, text =>
      if p = many then text.tails.any fun rest => matchesPattern pattern rest
      else
        match text with
        | [] => false
        | x :: rest => (decide (p = one) || same p x) && matchesPattern pattern rest

/-- Letters that the pattern language gives a meaning of its own. -/
def Special (p : σ) : Prop :=
    p = many ∨ p = one

variable {same many one}

theorem matchesPattern_many {pattern text : List σ} :
    matchesPattern same many one (many :: pattern) text = true ↔
      ∃ before rest, text = before ++ rest ∧ matchesPattern same many one pattern rest = true := by
  simp only [matchesPattern, if_true, List.any_eq_true, List.mem_tails, List.IsSuffix]
  constructor
  · rintro ⟨rest, ⟨before, rfl⟩, found⟩
    exact ⟨before, rest, rfl, found⟩
  · rintro ⟨before, rest, rfl, found⟩
    exact ⟨rest, ⟨before, rfl⟩, found⟩

theorem matchesPattern_cons {p x : σ} {pattern text : List σ} (single : p ≠ many) :
    matchesPattern same many one (p :: pattern) (x :: text) = true ↔
      (p = one ∨ same p x = true) ∧ matchesPattern same many one pattern text = true := by
  simp [matchesPattern, single]

/-- A pattern in which nothing is special matches the words it spells, up to what is the same. -/
theorem matchesPattern_append_of_literal {pattern rest text : List σ}
    (literal : ∀ p ∈ pattern, ¬Special many one p) :
    matchesPattern same many one (pattern ++ rest) text = true ↔
      ∃ word more, text = word ++ more ∧ List.Forall₂ (fun p x => same p x = true) pattern word ∧
        matchesPattern same many one rest more = true := by
  induction pattern generalizing text with
  | nil => simp [List.forall₂_nil_left_iff]
  | cons p pattern ih =>
      rw [List.forall_mem_cons] at literal
      have single : p ≠ many := fun eq => literal.1 (Or.inl eq)
      have letter : p ≠ one := fun eq => literal.1 (Or.inr eq)
      cases text with
      | nil => simp [matchesPattern, single, List.forall₂_cons_left_iff]
      | cons x text =>
          rw [List.cons_append, matchesPattern_cons single, ih literal.2]
          constructor
          · rintro ⟨one_or_same, word, more, rfl, spelled, found⟩
            have same_letter := one_or_same.resolve_left letter
            exact ⟨x :: word, more, rfl, List.Forall₂.cons same_letter spelled, found⟩
          · rintro ⟨word, more, split, spelled, found⟩
            cases spelled with
            | cons same_letter spelled =>
                cases split
                exact ⟨Or.inr same_letter, _, more, rfl, spelled, found⟩

/-- A literal between two wildcards is searched for. -/
theorem matchesPattern_contains {pattern text : List σ}
    (literal : ∀ p ∈ pattern, ¬Special many one p) :
    matchesPattern same many one (many :: (pattern ++ [many])) text = true ↔
      ∃ before word rest, text = before ++ (word ++ rest) ∧
        List.Forall₂ (fun p x => same p x = true) pattern word := by
  have any_rest : ∀ rest, matchesPattern same many one [many] rest = true := by
    intro rest
    exact matchesPattern_many.2 ⟨rest, [], by simp, rfl⟩
  simp only [matchesPattern_many, matchesPattern_append_of_literal literal, any_rest, and_true]
  constructor
  · rintro ⟨before, _, rfl, word, rest, rfl, spelled⟩
    exact ⟨before, word, rest, rfl, spelled⟩
  · rintro ⟨before, word, rest, rfl, spelled⟩
    exact ⟨before, word ++ rest, rfl, word, rest, rfl, spelled⟩

/-- Any letter will do for a special one. -/
theorem matchesPattern_of_forall₂ {pattern word rest more : List σ}
    (spelled : List.Forall₂ (fun p x => Special many one p ∨ same p x = true) pattern word)
    (found : matchesPattern same many one rest more = true) :
    matchesPattern same many one (pattern ++ rest) (word ++ more) = true := by
  induction spelled with
  | nil => exact found
  | @cons p x pattern word fits _ ih =>
      by_cases wild : p = many
      · subst wild
        exact matchesPattern_many.2 ⟨[x], word ++ more, rfl, ih⟩
      · refine (matchesPattern_cons wild).2 ⟨?_, ih⟩
        rcases fits with (eq_many | eq_one) | same_letter
        · exact absurd eq_many wild
        · exact Or.inl eq_one
        · exact Or.inr same_letter

end Like
