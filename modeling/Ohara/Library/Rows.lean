import Mathlib.Data.List.Basic
import Mathlib.Data.List.Nodup
import Mathlib.Data.List.Dedup

/-!
# Keyed rows

A table of a relational store as the list of its rows, oldest first, with the column that
identifies a row given as a function. The operations are the row effects of `DELETE … WHERE key`,
`INSERT OR REPLACE`, `INSERT OR IGNORE` and `ON CONFLICT … DO UPDATE`, and the lemmas say how they
act on the keys of the table and on a second table that mirrors it row by row.
-/

namespace Rows

universe u v w

variable {ρ : Type u} {κ : Type v} {μ : Type w}

section Keys

variable [DecidableEq κ]

/-- The rows left after deleting every row with key `k`. -/
def deleteKey (key : ρ → κ) (k : κ) (rows : List ρ) : List ρ :=
    rows.filter fun row => decide (key row ≠ k)

/-- `INSERT OR REPLACE`: rows with the new row's key go, the new row is appended. -/
def insertOrReplace (key : ρ → κ) (row : ρ) (rows : List ρ) : List ρ :=
    deleteKey key (key row) rows ++ [row]

/-- `INSERT OR IGNORE`: a row whose key is taken is dropped. -/
def insertOrIgnore (key : ρ → κ) (row : ρ) (rows : List ρ) : List ρ :=
    if key row ∈ rows.map key then rows else rows ++ [row]

/-- `INSERT … ON CONFLICT DO UPDATE`: `update` rewrites the conflicting row in place. -/
def upsert (key : ρ → κ) (row : ρ) (update : ρ → ρ) (rows : List ρ) : List ρ :=
    if key row ∈ rows.map key then
      rows.map fun old => if key old = key row then update old else old
    else
      rows ++ [row]

/-- The first row with the key. -/
def lookup (key : ρ → κ) (k : κ) (rows : List ρ) : Option ρ :=
    rows.find? fun row => decide (key row = k)

/-- The identifier the next inserted row gets: one more than the largest in use. -/
def nextRowid (ids : List Nat) : Nat :=
    ids.foldr max 0 + 1

@[simp] theorem mem_deleteKey {key : ρ → κ} {k : κ} {rows : List ρ} {row : ρ} :
    row ∈ deleteKey key k rows ↔ row ∈ rows ∧ key row ≠ k := by
  simp [deleteKey]

theorem deleteKey_sublist (key : ρ → κ) (k : κ) (rows : List ρ) :
    (deleteKey key k rows).Sublist rows :=
  List.filter_sublist

theorem deleteKey_eq_self {key : ρ → κ} {k : κ} {rows : List ρ}
    (absent : k ∉ rows.map key) : deleteKey key k rows = rows := by
  apply List.filter_eq_self.2
  intro row row_mem
  have distinct : key row ≠ k := by
    intro same
    exact absent (same ▸ List.mem_map_of_mem row_mem)
  simpa using distinct

/-- Deleting by key commutes with a row-by-row translation that keeps the key. -/
theorem deleteKey_map {key : ρ → κ} {mirrorKey : μ → κ} {mirror : ρ → μ}
    (sameKey : ∀ row, mirrorKey (mirror row) = key row) (k : κ) (rows : List ρ) :
    deleteKey mirrorKey k (rows.map mirror) = (deleteKey key k rows).map mirror := by
  simp only [deleteKey, List.filter_map]
  congr 1
  apply List.filter_congr
  intro row _
  simp [sameKey]

/-- As `deleteKey_map`, for a mirror whose keys are of another type but agree on what is equal. -/
theorem insertOrReplace_map {η : Type*} [DecidableEq η] (key : ρ → κ) (mirrorKey : μ → η)
    (mirror : ρ → μ)
    (sameKey : ∀ row other, mirrorKey (mirror row) = mirrorKey (mirror other) ↔
      key row = key other) (row : ρ) (rows : List ρ) :
    insertOrReplace mirrorKey (mirror row) (rows.map mirror) =
      (insertOrReplace key row rows).map mirror := by
  simp only [insertOrReplace, deleteKey, List.filter_map, List.map_append, List.map_cons,
    List.map_nil]
  congr 2
  apply List.filter_congr
  intro other _
  simp [sameKey]

@[simp] theorem mem_insertOrReplace {key : ρ → κ} {new row : ρ} {rows : List ρ} :
    row ∈ insertOrReplace key new rows ↔ (row ∈ rows ∧ key row ≠ key new) ∨ row = new := by
  simp [insertOrReplace]

theorem nodup_deleteKey {key : ρ → κ} {rows : List ρ} (nodup : (rows.map key).Nodup) (k : κ) :
    ((deleteKey key k rows).map key).Nodup :=
  ((deleteKey_sublist key k rows).map key).nodup nodup

omit [DecidableEq κ] in
theorem nodup_append_fresh {key : ρ → κ} {rows : List ρ} {row : ρ}
    (nodup : (rows.map key).Nodup) (fresh : key row ∉ rows.map key) :
    ((rows ++ [row]).map key).Nodup := by
  rw [List.map_append, List.nodup_append]
  refine ⟨nodup, by simp, ?_⟩
  intro k k_mem k' k'_mem same
  simp only [List.map_cons, List.map_nil, List.mem_singleton] at k'_mem
  exact fresh (k'_mem ▸ same ▸ k_mem)

theorem nodup_insertOrReplace {key : ρ → κ} {rows : List ρ}
    (nodup : (rows.map key).Nodup) (row : ρ) :
    ((insertOrReplace key row rows).map key).Nodup := by
  apply nodup_append_fresh (nodup_deleteKey nodup _)
  simp

theorem mem_map_insertOrReplace {key : ρ → κ} {new : ρ} {rows : List ρ} {k : κ} :
    k ∈ (insertOrReplace key new rows).map key ↔ k ∈ rows.map key ∨ k = key new := by
  by_cases same : k = key new
  · subst same
    simp [insertOrReplace]
  · simp only [insertOrReplace, List.map_append, List.map_cons, List.map_nil, List.mem_append,
      List.mem_singleton, List.mem_map, mem_deleteKey, same, or_false]
    constructor
    · rintro ⟨row, ⟨row_mem, _⟩, rfl⟩
      exact ⟨row, row_mem, rfl⟩
    · rintro ⟨row, row_mem, rfl⟩
      exact ⟨row, ⟨row_mem, same⟩, rfl⟩

theorem mem_map_insertOrIgnore {key : ρ → κ} {new : ρ} {rows : List ρ} {k : κ} :
    k ∈ (insertOrIgnore key new rows).map key ↔ k ∈ rows.map key ∨ k = key new := by
  unfold insertOrIgnore
  split
  · next taken =>
      constructor
      · exact Or.inl
      · rintro (stored | rfl)
        · exact stored
        · exact taken
  · simp

theorem mem_insertOrIgnore {key : ρ → κ} {new row : ρ} {rows : List ρ}
    (row_mem : row ∈ insertOrIgnore key new rows) : row ∈ rows ∨ row = new := by
  unfold insertOrIgnore at row_mem
  split at row_mem
  · exact Or.inl row_mem
  · simpa using row_mem

/-- The row is the last one with its key. -/
def IsLast (key : ρ → κ) (row : ρ) (rows : List ρ) : Prop :=
    ∃ before after, rows = before ++ row :: after ∧ ∀ other ∈ after, key other ≠ key row

omit [DecidableEq κ] in
theorem isLast_cons {key : ρ → κ} {row head : ρ} {rest : List ρ} :
    IsLast key row (head :: rest) ↔
      IsLast key row rest ∨ row = head ∧ ∀ other ∈ rest, key other ≠ key row := by
  constructor
  · rintro ⟨before, after, split, fresh⟩
    cases before with
    | nil =>
        cases split
        exact Or.inr ⟨rfl, fresh⟩
    | cons first before =>
        cases split
        exact Or.inl ⟨before, after, rfl, fresh⟩
  · rintro (⟨before, after, rfl, fresh⟩ | ⟨rfl, fresh⟩)
    · exact ⟨head :: before, after, rfl, fresh⟩
    · exact ⟨[], rest, rfl, fresh⟩

omit [DecidableEq κ] in
theorem IsLast.mem {key : ρ → κ} {row : ρ} {rows : List ρ} (last : IsLast key row rows) :
    row ∈ rows := by
  rcases last with ⟨before, after, rfl, -⟩
  simp

omit [DecidableEq κ] in
theorem isLast_map {key : μ → κ} {f : ρ → μ} {item : μ} {rows : List ρ} :
    IsLast key item (rows.map f) ↔
      ∃ row, IsLast (fun row => key (f row)) row rows ∧ f row = item := by
  induction rows with
  | nil => simp [IsLast]
  | cons head rest ih =>
      rw [List.map_cons, isLast_cons, ih]
      constructor
      · rintro (⟨row, last, rfl⟩ | ⟨rfl, fresh⟩)
        · exact ⟨row, isLast_cons.2 (Or.inl last), rfl⟩
        · rw [List.forall_mem_map] at fresh
          exact ⟨head, isLast_cons.2 (Or.inr ⟨rfl, fresh⟩), rfl⟩
      · rintro ⟨row, last, rfl⟩
        rcases isLast_cons.1 last with last | ⟨rfl, fresh⟩
        · exact Or.inl ⟨row, last, rfl⟩
        · exact Or.inr ⟨rfl, List.forall_mem_map.2 fresh⟩

/-- Of the rows written one after another the last of each key stays. -/
theorem mem_foldl_insertOrReplace {key : ρ → κ} {rows news : List ρ} {row : ρ} :
    row ∈ news.foldl (fun rows new => insertOrReplace key new rows) rows ↔
      (row ∈ rows ∧ ∀ new ∈ news, key new ≠ key row) ∨ IsLast key row news := by
  induction news generalizing rows with
  | nil => simp [IsLast]
  | cons new rest ih =>
      rw [List.foldl_cons, ih, isLast_cons, mem_insertOrReplace, List.forall_mem_cons]
      constructor
      · rintro (⟨⟨stored, distinct⟩ | rfl, fresh⟩ | last)
        · exact Or.inl ⟨stored, distinct.symm, fresh⟩
        · exact Or.inr (Or.inr ⟨rfl, fresh⟩)
        · exact Or.inr (Or.inl last)
      · rintro (⟨stored, distinct, fresh⟩ | last | ⟨rfl, fresh⟩)
        · exact Or.inl ⟨Or.inl ⟨stored, distinct.symm⟩, fresh⟩
        · exact Or.inr last
        · exact Or.inl ⟨Or.inr rfl, fresh⟩

/-- A column the update leaves alone gains at most the new row's value. -/
theorem map_upsert {key : ρ → κ} (update : ρ → ρ) {column : ρ → μ}
    (kept : ∀ row, column (update row) = column row) (new : ρ) (rows : List ρ) :
    (upsert key new update rows).map column =
      if key new ∈ rows.map key then rows.map column else rows.map column ++ [column new] := by
  unfold upsert
  split
  · rw [List.map_map]
    apply List.map_congr_left
    intro row _
    simp only [Function.comp_apply]
    split
    · exact kept row
    · rfl
  · simp

theorem mem_map_upsert_self {key : ρ → κ} (update : ρ → ρ)
    (kept : ∀ row, key (update row) = key row) (new : ρ) (rows : List ρ) :
    key new ∈ (upsert key new update rows).map key := by
  rw [map_upsert update kept]
  split
  · assumption
  · simp

/-- Where keys are unique, the rows with a stored row's key are that row alone. -/
theorem filter_key_eq_singleton {key : ρ → κ} {rows : List ρ} {row : ρ}
    (nodup : (rows.map key).Nodup) (row_mem : row ∈ rows) :
    rows.filter (fun other => decide (key other = key row)) = [row] := by
  induction rows with
  | nil => cases row_mem
  | cons head rest ih =>
      rw [List.map_cons, List.nodup_cons] at nodup
      rcases List.mem_cons.1 row_mem with rfl | row_mem_rest
      · have rest_empty : rest.filter (fun other => decide (key other = key row)) = [] := by
          apply List.filter_eq_nil_iff.2
          intro other other_mem same
          have same_key : key other = key row := by simpa using same
          exact nodup.1 (same_key ▸ List.mem_map_of_mem other_mem)
        rw [List.filter_cons_of_pos (by simp), rest_empty]
      · have head_distinct : key head ≠ key row := by
          intro same
          exact nodup.1 (same ▸ List.mem_map_of_mem row_mem_rest)
        rw [List.filter_cons_of_neg (by simpa using head_distinct)]
        exact ih nodup.2 row_mem_rest

theorem lookup_eq_some_of_mem {key : ρ → κ} {rows : List ρ} {row : ρ}
    (nodup : (rows.map key).Nodup) (row_mem : row ∈ rows) :
    lookup key (key row) rows = some row := by
  have singleton := filter_key_eq_singleton nodup row_mem
  rw [lookup, ← List.head?_filter, singleton, List.head?_cons]

theorem mem_of_lookup_eq_some {key : ρ → κ} {k : κ} {rows : List ρ} {row : ρ}
    (found : lookup key k rows = some row) : row ∈ rows ∧ key row = k :=
  ⟨List.mem_of_find?_eq_some found, by simpa using List.find?_some found⟩

theorem lookup_eq_none_iff {key : ρ → κ} {k : κ} {rows : List ρ} :
    lookup key k rows = none ↔ k ∉ rows.map key := by
  simp [lookup]

theorem map_filterMap_lookup {key : ρ → κ} {rows : List ρ} {keys : List κ}
    (taken : ∀ k ∈ keys, k ∈ rows.map key) :
    (keys.filterMap fun k => lookup key k rows).map key = keys := by
  induction keys with
  | nil => rfl
  | cons k rest ih =>
      rw [List.forall_mem_cons] at taken
      cases found : lookup key k rows with
      | none => exact absurd taken.1 (lookup_eq_none_iff.1 found)
      | some row =>
          simp only [List.filterMap_cons, found, List.map_cons, ih taken.2,
            (mem_of_lookup_eq_some found).2]

theorem lookup_isSome_iff {key : ρ → κ} {k : κ} {rows : List ρ} :
    (lookup key k rows).isSome ↔ k ∈ rows.map key := by
  rw [Option.isSome_iff_ne_none, ne_eq, lookup_eq_none_iff, not_not]

theorem lookup_append (key : ρ → κ) (k : κ) (rows rest : List ρ) :
    lookup key k (rows ++ rest) = (lookup key k rows).or (lookup key k rest) := by
  simp [lookup, List.find?_append]

theorem lookup_deleteKey_of_ne {key : ρ → κ} {k other : κ} (distinct : other ≠ k)
    (rows : List ρ) : lookup key other (deleteKey key k rows) = lookup key other rows := by
  simp only [lookup, deleteKey, List.find?_filter]
  congr 1
  funext row
  by_cases same : key row = other
  · simp [same, distinct]
  · simp [same]

@[simp] theorem lookup_insertOrReplace_self (key : ρ → κ) (row : ρ) (rows : List ρ) :
    lookup key (key row) (insertOrReplace key row rows) = some row := by
  have absent : lookup key (key row) (deleteKey key (key row) rows) = none := by
    rw [lookup_eq_none_iff]
    simp
  rw [insertOrReplace, lookup_append, absent]
  simp [lookup]

theorem lookup_insertOrReplace_of_ne {key : ρ → κ} {row : ρ} {other : κ}
    (distinct : other ≠ key row) (rows : List ρ) :
    lookup key other (insertOrReplace key row rows) = lookup key other rows := by
  have absent : lookup key other [row] = none := by
    rw [lookup_eq_none_iff]
    simpa using distinct
  simp [insertOrReplace, lookup_append, absent, lookup_deleteKey_of_ne distinct]

/-- An ignored insert leaves what was found. -/
theorem lookup_insertOrIgnore (key : ρ → κ) (k : κ) (new : ρ) (rows : List ρ) :
    lookup key k (insertOrIgnore key new rows) =
      (lookup key k rows).or (if key new = k then some new else none) := by
  have alone : lookup key k [new] = if key new = k then some new else none := by
    by_cases same : key new = k
    · simp [lookup, same]
    · simp [lookup, same]
  rw [insertOrIgnore]
  split
  · next taken =>
      by_cases same : key new = k
      · subst same
        cases found : lookup key (key new) rows with
        | none => exact absurd taken (lookup_eq_none_iff.1 found)
        | some row => rfl
      · simp [same]
  · rw [lookup_append, alone]

theorem lookup_map {key : ρ → κ} {rewrite : ρ → ρ} (kept : ∀ row, key (rewrite row) = key row)
    (k : κ) (rows : List ρ) : lookup key k (rows.map rewrite) = (lookup key k rows).map rewrite := by
  simp only [lookup, List.find?_map]
  congr 2
  funext row
  simp [kept]

/-- A rewrite of the rows with one key keeps the keys it keeps everywhere. -/
theorem kept_of_rewrite {key : ρ → κ} {update : ρ → ρ} (kept : ∀ row, key (update row) = key row)
    (k : κ) (row : ρ) : key (if key row = k then update row else row) = key row := by
  split
  · exact kept row
  · rfl

/-- An upsert leaves the updated row under its key, or the new one where there was none. -/
theorem lookup_upsert_self (key : ρ → κ) (update : ρ → ρ)
    (kept : ∀ row, key (update row) = key row) (new : ρ) (rows : List ρ) :
    lookup key (key new) (upsert key new update rows) =
      some (((lookup key (key new) rows).map update).getD new) := by
  unfold upsert
  split
  · next taken =>
      rw [lookup_map (kept_of_rewrite kept (key new))]
      cases found : lookup key (key new) rows with
      | none => exact absurd taken (lookup_eq_none_iff.1 found)
      | some row => simp [(mem_of_lookup_eq_some found).2]
  · next free =>
      have absent := lookup_eq_none_iff.2 free
      rw [lookup_append, absent]
      simp [lookup]

theorem lookup_upsert_of_ne (key : ρ → κ) (update : ρ → ρ)
    (kept : ∀ row, key (update row) = key row) {new : ρ} {k : κ} (distinct : k ≠ key new)
    (rows : List ρ) : lookup key k (upsert key new update rows) = lookup key k rows := by
  unfold upsert
  split
  · rw [lookup_map (kept_of_rewrite kept (key new))]
    cases found : lookup key k rows with
    | none => rfl
    | some row => simp [(mem_of_lookup_eq_some found).2, distinct]
  · have absent : lookup key k [new] = none := by
      rw [lookup_eq_none_iff]
      simpa using distinct
    simp [lookup_append, absent]

/-- An upsert among rows that a filter drops does not show behind the filter. -/
theorem filter_upsert (key : ρ → κ) (row : ρ) (update : ρ → ρ) (keep : ρ → Bool)
    (new : keep row = false)
    (old : ∀ other, key other = key row → keep other = false ∧ keep (update other) = false)
    (rows : List ρ) : (upsert key row update rows).filter keep = rows.filter keep := by
  have rewritten : (rows.map fun other => if key other = key row then update other else other).filter
      keep = rows.filter keep := by
    induction rows with
    | nil => rfl
    | cons head rest ih =>
        rw [List.map_cons]
        by_cases same : key head = key row
        · rw [if_pos same, List.filter_cons_of_neg (by simp [(old head same).2]), ih,
            List.filter_cons_of_neg (by simp [(old head same).1])]
        · rw [if_neg same, List.filter_cons, List.filter_cons, ih]
  rw [upsert]
  split
  · exact rewritten
  · simp [new]

end Keys

/-- Filtering blocks that are kept or dropped whole is filtering the rows they come from. -/
theorem filter_flatMap (block : ρ → List μ) (keepItem : μ → Bool) (keepRow : ρ → Bool)
    {rows : List ρ} (whole : ∀ row ∈ rows, ∀ item ∈ block row, keepItem item = keepRow row) :
    (rows.flatMap block).filter keepItem = (rows.filter keepRow).flatMap block := by
  induction rows with
  | nil => rfl
  | cons head rest ih =>
      have rest_whole := ih fun row row_mem => whole row (List.mem_cons_of_mem _ row_mem)
      have head_whole := whole head List.mem_cons_self
      rw [List.flatMap_cons, List.filter_append, rest_whole]
      cases kept : keepRow head with
      | true =>
          rw [List.filter_cons_of_pos kept, List.flatMap_cons]
          congr 1
          apply List.filter_eq_self.2
          intro item item_mem
          rw [head_whole item item_mem, kept]
      | false =>
          rw [List.filter_cons_of_neg (by simp [kept])]
          have dropped : (block head).filter keepItem = [] := by
            apply List.filter_eq_nil_iff.2
            intro item item_mem
            simp [head_whole item item_mem, kept]
          rw [dropped, List.nil_append]

/-- As `filter_flatMap`, for a mirror with one row a row. -/
theorem filter_map (mirror : ρ → μ) (keepItem : μ → Bool) (keepRow : ρ → Bool)
    {rows : List ρ} (same : ∀ row ∈ rows, keepItem (mirror row) = keepRow row) :
    (rows.map mirror).filter keepItem = (rows.filter keepRow).map mirror := by
  rw [List.filter_map]
  congr 1
  apply List.filter_congr
  intro row row_mem
  exact same row row_mem

theorem le_foldr_max {ids : List Nat} {id : Nat} (id_mem : id ∈ ids) : id ≤ ids.foldr max 0 := by
  induction ids with
  | nil => cases id_mem
  | cons head rest ih =>
      rcases List.mem_cons.1 id_mem with rfl | id_mem_rest
      · exact Nat.le_max_left _ _
      · exact Nat.le_trans (ih id_mem_rest) (Nat.le_max_right _ _)

theorem lt_nextRowid {ids : List Nat} {id : Nat} (id_mem : id ∈ ids) : id < nextRowid ids :=
  Nat.lt_succ_of_le (le_foldr_max id_mem)

theorem nextRowid_not_mem (ids : List Nat) : nextRowid ids ∉ ids := by
  intro id_mem
  exact Nat.lt_irrefl _ (lt_nextRowid id_mem)

/-- Where keys are unique, a stored row has exactly one row in a mirror with its key. -/
theorem filter_mirror_eq_singleton [DecidableEq κ] (mirror : ρ → μ) {key : ρ → κ}
    {mirrorKey : μ → κ} (sameKey : ∀ row, mirrorKey (mirror row) = key row) {rows : List ρ}
    {row : ρ} (nodup : (rows.map key).Nodup) (row_mem : row ∈ rows) :
    (rows.map mirror).filter (fun item => decide (mirrorKey item = key row)) = [mirror row] := by
  rw [filter_map mirror _ (fun other => decide (key other = key row)) (by simp [sameKey]),
    filter_key_eq_singleton nodup row_mem]
  rfl

end Rows
