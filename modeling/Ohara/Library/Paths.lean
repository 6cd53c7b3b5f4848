import Mathlib.Data.List.Basic
import Mathlib.Data.List.Infix

/-!
# Relative paths

A relative path is a list of names. Its text has a slash between the names, and that of a directory
another one after the last.
-/

namespace Paths

/-- A component of a path. -/
abbrev Name := List Char

/-- The names with slashes between them. -/
def join (names : List Name) : List Char :=
    ['/'].intercalate names

/-- The path of a directory with a slash at its end. -/
def dirText (names : List Name) : List Char :=
    join names ++ ['/']

/-- A name as a path has it. -/
def IsName (name : Name) : Prop :=
    name ≠ [] ∧ '/' ∉ name

instance (name : Name) : Decidable (IsName name) :=
  inferInstanceAs (Decidable (name ≠ [] ∧ '/' ∉ name))

/-- A path below the root. -/
structure RelPath where
  names : List Name
  nonempty : names ≠ []
  named : ∀ name ∈ names, IsName name
deriving DecidableEq

namespace RelPath

/-- The components with slashes between them. -/
def text (path : RelPath) : List Char :=
    join path.names

/-- The directory is one of those the path is in. -/
def Below (dir : List Name) (path : RelPath) : Prop :=
    dir <+: path.names ∧ dir ≠ path.names

instance (dir : List Name) (path : RelPath) : Decidable (Below dir path) :=
  inferInstanceAs (Decidable (dir <+: path.names ∧ dir ≠ path.names))

end RelPath

/-! ## Texts of paths -/

section Join

variable {names front rest : List Name} {name : Name}

@[simp]
theorem join_nil : join [] = [] := rfl

@[simp]
theorem join_singleton : join [name] = name :=
  List.intercalate_singleton

theorem join_cons (more : rest ≠ []) : join (name :: rest) = name ++ '/' :: join rest := by
  simp [join, List.intercalate_cons_of_ne_nil more]

theorem join_append (some_front : front ≠ []) (more : rest ≠ []) :
    join (front ++ rest) = join front ++ '/' :: join rest := by
  induction front with
  | nil => exact absurd rfl some_front
  | cons first front ih =>
      by_cases last : front = []
      · simp [last, join_cons more]
      · rw [List.cons_append, join_cons (by simp [last]), ih last, join_cons last]
        simp

theorem splitOn_join (some_name : names ≠ []) (named : ∀ name ∈ names, IsName name) :
    (join names).splitOn '/' = names :=
  List.splitOn_intercalate '/' (fun name name_mem => (named name name_mem).2) some_name

theorem join_injective {names' : List Name} (some_name : names ≠ []) (some_name' : names' ≠ [])
    (named : ∀ name ∈ names, IsName name) (named' : ∀ name ∈ names', IsName name)
    (same : join names = join names') : names = names' := by
  rw [← splitOn_join some_name named, same, splitOn_join some_name' named']

theorem join_eq_nil_iff (named : ∀ name ∈ names, IsName name) : join names = [] ↔ names = [] := by
  cases names with
  | nil => simp
  | cons name rest =>
      have nonempty : name ≠ [] := (named name List.mem_cons_self).1
      by_cases last : rest = []
      · simp [last, nonempty]
      · simp [join_cons last]

theorem slash_not_last (named : ∀ name ∈ names, IsName name) :
    (join names).getLast? ≠ some '/' := by
  induction names with
  | nil => simp
  | cons name rest ih =>
      rw [List.forall_mem_cons] at named
      by_cases last : rest = []
      · rw [last, join_singleton]
        intro slash
        exact named.1.2 (List.mem_of_getLast? slash)
      · have more : join rest ≠ [] := by
          rw [ne_eq, join_eq_nil_iff named.2]
          exact last
        rw [join_cons last, List.getLast?_append_of_ne_nil _ (List.cons_ne_nil _ _),
          List.getLast?_cons_of_ne_nil more]
        exact ih named.2

theorem count_slash_join (some_name : names ≠ []) (named : ∀ name ∈ names, IsName name) :
    (join names).count '/' + 1 = names.length := by
  induction names with
  | nil => exact absurd rfl some_name
  | cons name rest ih =>
      rw [List.forall_mem_cons] at named
      have none_inside : name.count '/' = 0 := List.count_eq_zero_of_not_mem named.1.2
      by_cases last : rest = []
      · simp [last, none_inside]
      · rw [join_cons last, List.count_append, none_inside, List.count_cons_self]
        have step := ih last named.2
        simp only [List.length_cons]
        omega

end Join

end Paths
