import Mathlib.Data.List.Basic

/-!
# Lists that are edited in place and grow at the end

An edit decides about each entry on its own whether it stays and what becomes of it, and then
pushes new entries. What many edits did to an entry can therefore be followed entry by entry.
-/

universe u

/-- What becomes of each entry, and what is pushed after the entries that were kept. -/
structure RosterEdit (α : Type u) where
  fate : α → Option α
  pushed : List α → List α

namespace RosterEdit

variable {α : Type u}

/-- The entries that stay, as they are changed. -/
def kept (edit : RosterEdit α) (entries : List α) : List α := entries.filterMap edit.fate

/-- The entries after the edit. -/
def apply (edit : RosterEdit α) (entries : List α) : List α :=
    edit.kept entries ++ edit.pushed (edit.kept entries)

/-- The entries after the edits in turn. -/
def applyAll (edits : List (RosterEdit α)) (entries : List α) : List α :=
    edits.foldl (fun entries edit => edit.apply entries) entries

/-- What becomes of one entry under many edits. -/
def fates : List (RosterEdit α) → α → Option α
  | [], a => some a
  | edit :: rest, a => (edit.fate a).bind (fates rest)

@[simp]
theorem applyAll_cons (edit : RosterEdit α) (rest : List (RosterEdit α)) (entries : List α) :
    applyAll (edit :: rest) entries = applyAll rest (edit.apply entries) := rfl

theorem applyAll_append (edits rest : List (RosterEdit α)) (entries : List α) :
    applyAll (edits ++ rest) entries = applyAll rest (applyAll edits entries) :=
  List.foldl_append

theorem applyAll_snoc (edits : List (RosterEdit α)) (edit : RosterEdit α) (entries : List α) :
    applyAll (edits ++ [edit]) entries = edit.apply (applyAll edits entries) :=
  List.foldl_append

theorem fates_append (edits rest : List (RosterEdit α)) (a : α) :
    fates (edits ++ rest) a = (fates edits a).bind (fates rest) := by
  induction edits generalizing a with
  | nil => rfl
  | cons edit edits ih =>
      simp only [List.cons_append, fates, Option.bind_assoc]
      congr 1
      funext b
      exact ih b

/-- The entries from before the edits come first, each as its fate says. -/
theorem applyAll_eq (edits : List (RosterEdit α)) (entries : List α) :
    ∃ added, applyAll edits entries = entries.filterMap (fates edits) ++ added := by
  induction edits generalizing entries with
  | nil => exact ⟨[], by simp [applyAll, fates]⟩
  | cons edit edits ih =>
      rcases ih (edit.apply entries) with ⟨added, applied⟩
      refine ⟨(edit.pushed (edit.kept entries)).filterMap (fates edits) ++ added, ?_⟩
      rw [applyAll_cons, applied, apply, List.filterMap_append, kept, List.filterMap_filterMap,
        List.append_assoc]
      rfl

/-- An entry that survives the edits is there after them. -/
theorem mem_applyAll {edits : List (RosterEdit α)} {entries : List α} {a b : α}
    (a_mem : a ∈ entries) (survives : fates edits a = some b) : b ∈ applyAll edits entries := by
  rcases applyAll_eq edits entries with ⟨added, applied⟩
  rw [applied]
  exact List.mem_append_left _ (List.mem_filterMap.2 ⟨a, a_mem, survives⟩)

/-- An entry was there before the edits, or one of them pushed it. -/
theorem origin {edits : List (RosterEdit α)} {entries : List α} {b : α}
    (b_mem : b ∈ applyAll edits entries) :
    (∃ a ∈ entries, fates edits a = some b) ∨
      ∃ before edit after, edits = before ++ edit :: after ∧
        ∃ a ∈ edit.pushed (edit.kept (applyAll before entries)), fates after a = some b := by
  induction edits generalizing entries with
  | nil => exact Or.inl ⟨b, b_mem, rfl⟩
  | cons edit edits ih =>
      rcases ih b_mem with ⟨a, a_mem, survives⟩ | ⟨before, pusher, after, rfl, pushed⟩
      · rcases List.mem_append.1 a_mem with kept | pushed
        · rcases List.mem_filterMap.1 kept with ⟨old, old_mem, stays⟩
          exact Or.inl ⟨old, old_mem, by simp [fates, stays, survives]⟩
        · exact Or.inr ⟨[], edit, edits, rfl, a, pushed, survives⟩
      · exact Or.inr ⟨edit :: before, pusher, after, rfl, pushed⟩

/-- A property that no edit changes of an entry holds of it to the end. -/
theorem fates_invariant {p : α → Prop} {edits : List (RosterEdit α)}
    (stable : ∀ edit ∈ edits, ∀ a b, edit.fate a = some b → (p b ↔ p a)) {a b : α}
    (survives : fates edits a = some b) : p b ↔ p a := by
  induction edits generalizing a with
  | nil =>
      cases survives
      exact Iff.rfl
  | cons edit edits ih =>
      rcases Option.bind_eq_some_iff.1 survives with ⟨middle, stays, rest⟩
      have later := ih (fun other other_mem => stable other (List.mem_cons_of_mem _ other_mem)) rest
      exact later.trans (stable edit List.mem_cons_self a middle stays)

/-- The first entry with a property no edit changes stays the first one while it survives. -/
theorem find?_applyAll {p : α → Bool} {edits : List (RosterEdit α)}
    (stable : ∀ edit ∈ edits, ∀ a b, edit.fate a = some b → (p b = true ↔ p a = true))
    {before after : List α} {a b : α} (none_before : ∀ other ∈ before, ¬ p other = true)
    (holds : p a = true) (survives : fates edits a = some b) :
    (applyAll edits (before ++ a :: after)).find? p = some b := by
  rcases applyAll_eq edits (before ++ a :: after) with ⟨added, applied⟩
  have still_none : ∀ other ∈ before.filterMap (fates edits), ¬ p other = true := by
    intro other other_mem still
    rcases List.mem_filterMap.1 other_mem with ⟨old, old_mem, old_survives⟩
    exact none_before old old_mem
      ((fates_invariant (p := fun entry => p entry = true) stable old_survives).1 still)
  have still_holds := (fates_invariant (p := fun entry => p entry = true) stable survives).2 holds
  rw [applied, List.filterMap_append, List.filterMap_cons_some survives, List.append_assoc,
    List.find?_append, List.find?_eq_none.2 still_none]
  simp [List.find?_cons_of_pos, still_holds]

end RosterEdit
