import Ohara.Library.Paths

/-!
# Ignore rules

Patterns cover paths and directories, and some are negated. A path is looked at before the
directories it is in, nearest first; at the first of these levels that a pattern covers, the last
pattern that covers it decides.
-/

namespace IgnoreRules

open Paths

/-- What a list of patterns says of a path. -/
inductive Verdict where
  | none
  | ignore
  | whitelist
deriving DecidableEq, Repr

/-- A path, and whether it is a directory. -/
abbrev Level := List Name × Bool

/-- The path and the directories it is in, up to the root. -/
def levels (names : List Name) (isDir : Bool) : List Level :=
    (names, isDir) :: ((List.range names.length).reverse.map fun depth => (names.take depth, true))

universe u

variable {Glob : Type u} (covers : Glob → Level → Bool) (negated : Glob → Bool)

/-- The last pattern that covers the level. -/
def lastAt (globs : List Glob) (level : Level) : Option Glob :=
    globs.reverse.find? fun glob => covers glob level

/-- The pattern that decides: of the nearest level that has one, the last. -/
def decisive (globs : List Glob) (at_levels : List Level) : Option Glob :=
    at_levels.findSome? (lastAt covers globs)

/-- What the deciding pattern says. -/
def verdictOf : Option Glob → Verdict
  | none => .none
  | some glob => if negated glob then .whitelist else .ignore

/-- What the patterns say of a path, from its levels. -/
def verdict (globs : List Glob) (at_levels : List Level) : Verdict :=
    verdictOf negated (decisive covers globs at_levels)

/-- Some pattern covers one of the levels. -/
def Speaks (globs : List Glob) (at_levels : List Level) : Prop :=
    ∃ glob ∈ globs, ∃ level ∈ at_levels, covers glob level = true

/-- The first verdict that is one decides. -/
def firstVerdict : List Verdict → Bool
  | [] => false
  | .none :: rest => firstVerdict rest
  | .ignore :: _ => true
  | .whitelist :: _ => false

section Levels

variable {names : List Name} {isDir : Bool} {level : Level}

theorem mem_levels :
    level ∈ levels names isDir ↔
      level = (names, isDir) ∨ ∃ dir, dir <+: names ∧ dir ≠ names ∧ level = (dir, true) := by
  simp only [levels, List.mem_cons, List.mem_map, List.mem_reverse, List.mem_range]
  apply or_congr_right
  constructor
  · rintro ⟨depth, inside, rfl⟩
    refine ⟨names.take depth, List.take_prefix _ _, ?_, rfl⟩
    intro same
    have lengths := congrArg List.length same
    rw [List.length_take] at lengths
    omega
  · rintro ⟨dir, front, strict, rfl⟩
    refine ⟨dir.length, ?_, ?_⟩
    · apply lt_of_le_of_ne front.length_le
      intro same
      exact strict (front.eq_of_length same)
    · rw [List.prefix_iff_eq_take.1 front]
      simp

/-- The directories above a file are the levels of their names. -/
theorem mem_dropLast_iff_level {last : Name} (nonempty : names ≠ []) :
    last ∈ names.dropLast ↔ ∃ above, (above ++ [last], true) ∈ levels names false := by
  have whole := List.dropLast_append_getLast nonempty
  constructor
  · intro last_mem
    rcases List.append_of_mem last_mem with ⟨above, below, split⟩
    rw [split] at whole
    refine ⟨above, mem_levels.2 (Or.inr ⟨above ++ [last], ?_, ?_, rfl⟩)⟩
    · exact ⟨below ++ [names.getLast nonempty], by simpa using whole⟩
    · intro same
      have lengths := congrArg List.length (whole.trans same.symm)
      simp at lengths
  · rintro ⟨above, level_mem⟩
    rcases mem_levels.1 level_mem with file | ⟨dir, ⟨below, split⟩, strict, same⟩
    · cases file
    · cases same
      have more : below ≠ [] := by
        rintro rfl
        exact strict (by simpa using split)
      rw [← split, List.dropLast_append_of_ne_nil more]
      simp

end Levels

variable {covers negated} {globs : List Glob} {at_levels : List Level}

section Verdicts

theorem lastAt_eq_none_iff {level : Level} :
    lastAt covers globs level = none ↔ ∀ glob ∈ globs, covers glob level = false := by
  simp [lastAt]

/-- Levels that the patterns cover alike have the same last pattern. -/
theorem lastAt_congr {level level' : Level}
    (same : ∀ glob ∈ globs, covers glob level = covers glob level') :
    lastAt covers globs level = lastAt covers globs level' := by
  rw [lastAt, lastAt, ← List.head?_filter, ← List.head?_filter]
  congr 1
  apply List.filter_congr
  intro glob glob_mem
  exact same glob (List.mem_reverse.1 glob_mem)

theorem decisive_eq_none_iff :
    decisive covers globs at_levels = none ↔ ¬Speaks covers globs at_levels := by
  simp only [decisive, List.findSome?_eq_none_iff, lastAt_eq_none_iff, Speaks]
  constructor
  · rintro silent ⟨glob, glob_mem, level, level_mem, covered⟩
    rw [silent level level_mem glob glob_mem] at covered
    cases covered
  · intro silent level level_mem glob glob_mem
    by_contra covered
    exact silent ⟨glob, glob_mem, level, level_mem, by simpa using covered⟩

theorem decisive_nil : decisive covers globs [] = none := rfl

theorem decisive_cons (level : Level) (rest : List Level) :
    decisive covers globs (level :: rest)
      = (lastAt covers globs level).or (decisive covers globs rest) := by
  rw [decisive, List.findSome?_cons, decisive]
  cases lastAt covers globs level with
  | none => rfl
  | some glob => rfl

theorem mem_of_decisive {glob : Glob} (found : decisive covers globs at_levels = some glob) :
    glob ∈ globs := by
  rcases List.exists_of_findSome?_eq_some found with ⟨level, -, last⟩
  exact List.mem_reverse.1 (List.mem_of_find?_eq_some last)

theorem verdict_eq_none_iff :
    verdict covers negated globs at_levels = .none ↔ ¬Speaks covers globs at_levels := by
  rw [← decisive_eq_none_iff, verdict]
  cases decisive covers globs at_levels with
  | none => simp [verdictOf]
  | some glob =>
      simp only [verdictOf, reduceCtorEq, iff_false]
      split
      · simp
      · simp

/-- Without patterns nothing is said. -/
@[simp]
theorem verdict_nil (at_levels : List Level) : verdict covers negated [] at_levels = .none := by
  rw [verdict_eq_none_iff]
  rintro ⟨glob, glob_mem, -⟩
  cases glob_mem

theorem verdict_eq_ignore_iff :
    verdict covers negated globs at_levels = .ignore ↔
      ∃ glob, decisive covers globs at_levels = some glob ∧ negated glob = false := by
  rw [verdict]
  cases decisive covers globs at_levels with
  | none => simp [verdictOf]
  | some glob =>
      cases sign : negated glob with
      | false => simp [verdictOf, sign]
      | true => simp [verdictOf, sign]

/-- Without negated patterns every path that is covered is ignored. -/
theorem verdict_eq_ignore_of_positive (positive : ∀ glob ∈ globs, negated glob = false) :
    verdict covers negated globs at_levels = .ignore ↔ Speaks covers globs at_levels := by
  rw [verdict_eq_ignore_iff]
  constructor
  · rintro ⟨glob, found, -⟩
    by_contra silent
    rw [decisive_eq_none_iff.2 silent] at found
    cases found
  · intro speaks
    cases found : decisive covers globs at_levels with
    | none => exact absurd speaks (decisive_eq_none_iff.1 found)
    | some glob => exact ⟨glob, rfl, positive glob (mem_of_decisive found)⟩

end Verdicts

/-! ## Layers -/

/-- The first of the layers with a pattern for the path decides, and without one nothing is
ignored. -/
def DecidedByFirst (covers : Glob → Level → Bool) (negated : Glob → Bool)
    (layers : List (List Glob)) (at_levels : List Level) (ignored : Bool) : Prop :=
    (∃ before globs after, layers = before ++ globs :: after ∧
      (∀ other ∈ before, ¬Speaks covers other at_levels) ∧ Speaks covers globs at_levels ∧
        (ignored = true ↔ verdict covers negated globs at_levels = .ignore)) ∨
    ((∀ globs ∈ layers, ¬Speaks covers globs at_levels) ∧ ignored = false)

theorem decidedByFirst (layers : List (List Glob)) :
    DecidedByFirst covers negated layers at_levels
      (firstVerdict (layers.map fun globs => verdict covers negated globs at_levels)) := by
  induction layers with
  | nil => exact .inr ⟨by simp, rfl⟩
  | cons globs rest ih =>
      rw [List.map_cons]
      by_cases speaks : Speaks covers globs at_levels
      · refine .inl ⟨[], globs, rest, rfl, by simp, speaks, ?_⟩
        cases first : verdict covers negated globs at_levels with
        | none => exact absurd speaks (verdict_eq_none_iff.1 first)
        | ignore => simp [firstVerdict]
        | whitelist => simp [firstVerdict]
      · rw [verdict_eq_none_iff.2 speaks, firstVerdict]
        rcases ih with ⟨before, decides, after, rfl, silent, spoken, same⟩ | ⟨silent, none_ignored⟩
        · exact .inl ⟨globs :: before, decides, after, rfl,
            List.forall_mem_cons.2 ⟨speaks, silent⟩, spoken, same⟩
        · exact .inr ⟨List.forall_mem_cons.2 ⟨speaks, silent⟩, none_ignored⟩

end IgnoreRules
