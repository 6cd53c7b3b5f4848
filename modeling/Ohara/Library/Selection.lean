import Mathlib.Data.List.Dedup
import Mathlib.Data.List.Sort
import Mathlib.Data.Prod.Lex

/-!
# Ordered, cut and deduplicated rows

`ORDER BY`, `LIMIT` and the loop that keeps the first row of each key. Cutting before a condition
or a deduplication loses rows exactly when something that goes anyway takes up the room of
something that would stay.
-/

namespace Selection

universe u v w u' v'

/-- `ORDER BY` an expression. Rows that tie come in an order of the sorter's own. -/
structure Sorter where
  orderBy : {ρ κ : Type} → [LinearOrder κ] → (ρ → κ) → List ρ → List ρ
  perm : ∀ {ρ κ : Type} [LinearOrder κ] (key : ρ → κ) (rows : List ρ),
    (orderBy key rows).Perm rows
  sorted : ∀ {ρ κ : Type} [LinearOrder κ] (key : ρ → κ) (rows : List ρ),
    (orderBy key rows).Pairwise fun a b => key a ≤ key b

/-- The sorter that leaves ties as it finds them. -/
def Sorter.stable : Sorter where
  orderBy key rows := rows.insertionSort fun a b => key a ≤ key b
  perm _ rows := List.perm_insertionSort _ rows
  sorted key rows := by
    have : Std.Total fun a b => key a ≤ key b := ⟨fun a b => le_total (key a) (key b)⟩
    have : IsTrans _ fun a b => key a ≤ key b := ⟨fun _ _ _ ab bc => le_trans ab bc⟩
    exact List.pairwise_insertionSort _ rows

/-- Two orders of the same rows differ in ties only. -/
theorem map_key_eq_of_perm {ρ : Type u} {κ : Type v} [LinearOrder κ] {key : ρ → κ}
    {rows others : List ρ} (perm : rows.Perm others)
    (sorted : rows.Pairwise fun a b => key a ≤ key b)
    (sorted' : others.Pairwise fun a b => key a ≤ key b) : rows.map key = others.map key := by
  apply (perm.map key).eq_of_pairwise 
  · exact fun a b _ _ => le_antisymm
  · exact List.pairwise_map.2 sorted
  · exact List.pairwise_map.2 sorted'

/-! ## Cutting -/

section Cut

variable {ρ : Type u} {k : Nat} {rows : List ρ}

theorem take_before_drop {r : ρ → ρ → Prop} (sorted : rows.Pairwise r) {a b : ρ}
    (a_mem : a ∈ rows.take k) (b_mem : b ∈ rows.drop k) : r a b := by
  rw [← List.take_append_drop k rows, List.pairwise_append] at sorted
  exact sorted.2.2 a a_mem b b_mem

theorem mem_take_or_drop {a : ρ} (a_mem : a ∈ rows) : a ∈ rows.take k ∨ a ∈ rows.drop k := by
  rwa [← List.mem_append, List.take_append_drop]

/-- What is left of a cut that is too short for the rows. -/
theorem drop_eq_nil_of_length_take_lt (short : (rows.take k).length < k) : rows.drop k = [] := by
  simp at short ⊢
  omega

/-- The cut keeps as many good rows as it can when it holds good rows only, or all of them. -/
theorem countP_take_eq_min_iff (good : ρ → Bool) :
    (rows.take k).countP good = min k (rows.countP good) ↔
      (∀ a ∈ rows.take k, good a = true) ∨ ∀ a ∈ rows.drop k, good a = false := by
  have split : (rows.take k).countP good + (rows.drop k).countP good = rows.countP good := by
    rw [← List.countP_append, List.take_append_drop]
  have bound := List.length_take_le k rows
  have at_most := List.countP_le_length (p := good) (l := rows.take k)
  constructor
  · intro most
    by_cases full : (rows.take k).countP good = k
    · exact Or.inl (List.countP_eq_length.1 (by omega))
    · right
      intro a a_mem
      have none_left : (rows.drop k).countP good = 0 := by omega
      simpa using List.countP_eq_zero.1 none_left a a_mem
  · rintro (all_good | none_left)
    · have count := List.countP_eq_length.2 all_good
      rcases Nat.lt_or_ge (rows.take k).length k with short | full
      · rw [drop_eq_nil_of_length_take_lt short, List.countP_nil] at split
        omega
      · omega
    · have none_counted : (rows.drop k).countP good = 0 := by
        apply List.countP_eq_zero.2
        intro a a_mem
        simp [none_left a a_mem]
      omega

end Cut

/-! ## The first row of each key -/

section Firsts

variable {ρ : Type u} {κ : Type v} [DecidableEq κ] {key : ρ → κ}

/-- The rows whose keys have not been seen, each key once. -/
def firstsFrom (key : ρ → κ) : List κ → List ρ → List ρ
  | _, [] => []
  | seen, row :: rest =>
      if key row ∈ seen then firstsFrom key seen rest
      else row :: firstsFrom key (key row :: seen) rest

/-- The first row of each key. -/
def firsts (key : ρ → κ) (rows : List ρ) : List ρ :=
    firstsFrom key [] rows

theorem firstsFrom_sublist (seen : List κ) (rows : List ρ) :
    (firstsFrom key seen rows).Sublist rows := by
  induction rows generalizing seen with
  | nil => simp [firstsFrom]
  | cons row rest ih =>
      rw [firstsFrom]
      split
      · exact (ih seen).cons row
      · exact (ih _).cons_cons row

theorem mem_map_firstsFrom {seen : List κ} {rows : List ρ} {k : κ} :
    k ∈ (firstsFrom key seen rows).map key ↔ k ∈ rows.map key ∧ k ∉ seen := by
  induction rows generalizing seen with
  | nil => simp [firstsFrom]
  | cons row rest ih =>
      rw [firstsFrom]
      by_cases same : k = key row
      · subst same
        split <;> simp_all
      · split <;> simp [ih, same]

theorem nodup_firstsFrom (seen : List κ) (rows : List ρ) :
    ((firstsFrom key seen rows).map key).Nodup := by
  induction rows generalizing seen with
  | nil => simp [firstsFrom]
  | cons row rest ih =>
      rw [firstsFrom]
      split
      · exact ih seen
      · rw [List.map_cons, List.nodup_cons, mem_map_firstsFrom]
        exact ⟨by simp, ih _⟩

theorem firstsFrom_congr {seen seen' : List κ} (same : ∀ k, k ∈ seen ↔ k ∈ seen')
    (rows : List ρ) : firstsFrom key seen rows = firstsFrom key seen' rows := by
  induction rows generalizing seen seen' with
  | nil => rfl
  | cons row rest ih =>
      have same_more : ∀ k, k ∈ key row :: seen ↔ k ∈ key row :: seen' := by simp [same]
      simp only [firstsFrom, same, ih same, ih same_more]

theorem firstsFrom_append (seen : List κ) (rows rest : List ρ) :
    firstsFrom key seen (rows ++ rest) =
      firstsFrom key seen rows ++ firstsFrom key (rows.map key ++ seen) rest := by
  induction rows generalizing seen with
  | nil => rfl
  | cons row rows ih =>
      rw [List.cons_append, firstsFrom, firstsFrom]
      split
      · next taken =>
          rw [ih]
          congr 1
          apply firstsFrom_congr
          intro k
          by_cases same : k = key row <;> simp_all
      · rw [ih, List.cons_append]
        congr 2
        apply firstsFrom_congr
        intro k
        simp [or_left_comm]

theorem firstsFrom_eq_nil_iff {seen : List κ} {rows : List ρ} :
    firstsFrom key seen rows = [] ↔ ∀ row ∈ rows, key row ∈ seen := by
  rw [← List.map_eq_nil_iff (f := key), List.eq_nil_iff_forall_not_mem]
  simp [mem_map_firstsFrom]

theorem nodup_firsts (rows : List ρ) : ((firsts key rows).map key).Nodup :=
  nodup_firstsFrom [] rows

theorem mem_map_firsts {rows : List ρ} {k : κ} :
    k ∈ (firsts key rows).map key ↔ k ∈ rows.map key := by
  simp [firsts, mem_map_firstsFrom]

theorem mem_of_mem_firsts {rows : List ρ} {row : ρ} (row_mem : row ∈ firsts key rows) :
    row ∈ rows :=
  (firstsFrom_sublist [] rows).subset row_mem

theorem length_firsts (rows : List ρ) :
    (firsts key rows).length = (rows.map key).dedup.length := by
  rw [← List.length_map (f := key)]
  apply List.Perm.length_eq
  rw [List.perm_ext_iff_of_nodup (nodup_firsts rows) (List.nodup_dedup _)]
  simp [mem_map_firsts, -List.mem_map]

theorem firsts_eq_self {rows : List ρ} (nodup : (rows.map key).Nodup) :
    firsts key rows = rows := by
  have same_length : (firsts key rows).length = rows.length := by
    rw [length_firsts, nodup.dedup, List.length_map]
  exact (firstsFrom_sublist [] rows).eq_of_length same_length

/-- Rows that are read one by one are deduplicated before or after they are read. -/
theorem firstsFrom_forall₂ {ρ' : Type u'} {κ' : Type v'} [DecidableEq κ'] {key' : ρ' → κ'}
    {read : ρ → ρ' → Prop} {rename : κ → κ'} (injective : Function.Injective rename)
    (renamed : ∀ row row', read row row' → key' row' = rename (key row)) {rows : List ρ}
    {rows' : List ρ'} (reads : List.Forall₂ read rows rows') (seen : List κ) :
    List.Forall₂ read (firstsFrom key seen rows) (firstsFrom key' (seen.map rename) rows') := by
  induction reads generalizing seen with
  | nil => exact List.Forall₂.nil
  | @cons row row' rest rest' first _ ih =>
      have same_key := renamed row row' first
      simp only [firstsFrom, same_key, List.mem_map_of_injective injective]
      split
      · exact ih seen
      · exact List.Forall₂.cons first (ih (key row :: seen))

/-- In a sorted list the first row of a key is a best one. -/
theorem firsts_least {r : ρ → ρ → Prop} {rows : List ρ} (sorted : rows.Pairwise r) {row other : ρ}
    (kept : row ∈ firsts key rows) (other_mem : other ∈ rows) (same : key other = key row) :
    other = row ∨ r row other := by
  rw [firsts] at kept
  generalize ([] : List κ) = seen at kept
  induction rows generalizing seen with
  | nil => cases kept
  | cons head rest ih =>
      rw [List.pairwise_cons] at sorted
      have kept_key := (mem_map_firstsFrom.1 (List.mem_map_of_mem (f := key) kept)).2
      rw [firstsFrom] at kept
      split at kept
      · next taken =>
          rcases List.mem_cons.1 other_mem with rfl | other_rest
          · exact absurd (same ▸ taken) kept_key
          · exact ih sorted.2 other_rest seen kept
      · rcases List.mem_cons.1 kept with rfl | kept_rest
        · rcases List.mem_cons.1 other_mem with rfl | other_rest
          · exact Or.inl rfl
          · exact Or.inr (sorted.1 other other_rest)
        · rcases List.mem_cons.1 other_mem with rfl | other_rest
          · have kept_later := List.mem_map_of_mem (f := key) kept_rest
            rw [mem_map_firstsFrom, ← same] at kept_later
            exact absurd List.mem_cons_self kept_later.2
          · exact ih sorted.2 other_rest _ kept_rest

theorem firsts_take_append (key : ρ → κ) (k : Nat) (rows : List ρ) :
    firsts key rows = firsts key (rows.take k) ++
      firstsFrom key ((rows.take k).map key) (rows.drop k) := by
  conv_lhs => rw [← List.take_append_drop k rows]
  rw [firsts, firstsFrom_append, List.append_nil]
  rfl

/-- The cut keeps as many keys as it can when it repeats none, or holds all of them. -/
theorem length_firsts_take_eq_min_iff (k : Nat) (rows : List ρ) :
    (firsts key (rows.take k)).length = min k (firsts key rows).length ↔
      ((rows.take k).map key).Nodup ∨
        ∀ row ∈ rows.drop k, key row ∈ (rows.take k).map key := by
  have split := congrArg List.length (firsts_take_append key k rows)
  rw [List.length_append] at split
  have bound := List.length_take_le k rows
  have sublist : (firsts key (rows.take k)).Sublist (rows.take k) := firstsFrom_sublist [] _
  have at_most := sublist.length_le
  constructor
  · intro most
    by_cases full : (firsts key (rows.take k)).length = k
    · left
      rw [← sublist.eq_of_length (by omega)]
      exact nodup_firsts _
    · right
      exact firstsFrom_eq_nil_iff.1 (List.length_eq_zero_iff.1 (by omega))
  · rintro (distinct | all_seen)
    · rw [firsts_eq_self distinct] at split ⊢
      rcases Nat.lt_or_ge (rows.take k).length k with short | full
      · rw [drop_eq_nil_of_length_take_lt short, firstsFrom, List.length_nil] at split
        omega
      · omega
    · rw [firstsFrom_eq_nil_iff.2 all_seen, List.length_nil] at split
      omega

/-! ## The best keys -/

variable {τ : Type w} [LinearOrder τ] {rank : ρ → τ}

/-- Every key once, with a best row of it, best first. -/
structure Ranking (key : ρ → κ) (rank : ρ → τ) (rows reference : List ρ) : Prop where
  mem : ∀ row ∈ reference, row ∈ rows
  keys : ∀ row ∈ rows, key row ∈ reference.map key
  nodup : (reference.map key).Nodup
  best : ∀ row ∈ reference, ∀ other ∈ rows, key other = key row → rank row ≤ rank other
  sorted : reference.Pairwise fun a b => rank a ≤ rank b

/-- As many keys as `k` allows, each with a best row of it, best first, and no better one missed. -/
structure TopK (key : ρ → κ) (rank : ρ → τ) (k : Nat) (rows chosen : List ρ) : Prop where
  length : chosen.length = min k (rows.map key).dedup.length
  nodup : (chosen.map key).Nodup
  mem : ∀ row ∈ chosen, row ∈ rows
  best : ∀ row ∈ chosen, ∀ other ∈ rows, key other = key row → rank row ≤ rank other
  sorted : chosen.Pairwise fun a b => rank a ≤ rank b
  complete : ∀ other ∈ rows, key other ∉ chosen.map key → ∀ row ∈ chosen, rank row ≤ rank other

theorem ranking_firsts (key : ρ → κ) {rows sorted : List ρ} (perm : sorted.Perm rows)
    (ordered : sorted.Pairwise fun a b => rank a ≤ rank b) :
    Ranking key rank rows (firsts key sorted) where
  mem row row_mem := perm.subset (mem_of_mem_firsts row_mem)
  keys row row_mem := mem_map_firsts.2 (List.mem_map_of_mem (perm.symm.subset row_mem))
  nodup := nodup_firsts sorted
  best row row_mem other other_mem same := by
    rcases firsts_least ordered row_mem (perm.symm.subset other_mem) same with rfl | least
    · exact le_rfl
    · exact least
  sorted := ordered.sublist (firstsFrom_sublist [] sorted)

theorem Ranking.length_eq {rows reference : List ρ} (ranking : Ranking key rank rows reference) :
    reference.length = (rows.map key).dedup.length := by
  rw [← List.length_map (f := key)]
  apply List.Perm.length_eq
  rw [List.perm_ext_iff_of_nodup ranking.nodup (List.nodup_dedup _)]
  intro k
  rw [List.mem_dedup]
  constructor
  · intro k_mem
    rcases List.mem_map.1 k_mem with ⟨row, row_mem, rfl⟩
    exact List.mem_map_of_mem (ranking.mem row row_mem)
  · intro k_mem
    rcases List.mem_map.1 k_mem with ⟨row, row_mem, rfl⟩
    exact ranking.keys row row_mem

theorem Ranking.topK {rows reference : List ρ} (ranking : Ranking key rank rows reference)
    (k : Nat) : TopK key rank k rows (reference.take k) where
  length := by rw [List.length_take, ranking.length_eq]
  nodup := ((List.take_sublist k reference).map key).nodup ranking.nodup
  mem row row_mem := ranking.mem row (List.mem_of_mem_take row_mem)
  best row row_mem := ranking.best row (List.mem_of_mem_take row_mem)
  sorted := ranking.sorted.sublist (List.take_sublist k reference)
  complete other other_mem left_out row row_mem := by
    rcases List.mem_map.1 (ranking.keys other other_mem) with ⟨listed, listed_mem, same⟩
    have listed_late : listed ∈ reference.drop k := by
      rcases mem_take_or_drop (k := k) listed_mem with early | late
      · exact absurd (same ▸ List.mem_map_of_mem early) left_out
      · exact late
    exact (take_before_drop ranking.sorted row_mem listed_late).trans
      (ranking.best listed listed_mem other other_mem same.symm)

/-- Cutting the sorted rows before deduplicating them costs nothing exactly when the cut repeats
no key, or holds every key. -/
theorem length_firsts_take_iff (key : ρ → κ) {rows sorted : List ρ} (perm : sorted.Perm rows)
    (k : Nat) :
    (firsts key (sorted.take k)).length = min k (rows.map key).dedup.length ↔
      ((sorted.take k).map key).Nodup ∨ ∀ row ∈ rows, key row ∈ (sorted.take k).map key := by
  have seen_iff : (∀ row ∈ rows, key row ∈ (sorted.take k).map key) ↔
      ∀ row ∈ sorted.drop k, key row ∈ (sorted.take k).map key := by
    constructor
    · intro seen row row_mem
      exact seen row (perm.subset (List.mem_of_mem_drop row_mem))
    · intro seen row row_mem
      rcases mem_take_or_drop (k := k) (perm.symm.subset row_mem) with early | late
      · exact List.mem_map_of_mem early
      · exact seen row late
  rw [seen_iff, ← length_firsts_take_eq_min_iff, length_firsts sorted,
    ((perm.map key).dedup).length_eq]

theorem topK_firsts_take {rows sorted : List ρ} (perm : sorted.Perm rows)
    (ordered : sorted.Pairwise fun a b => rank a ≤ rank b) {k : Nat}
    (length : (firsts key (sorted.take k)).length = min k (rows.map key).dedup.length) :
    TopK key rank k rows (firsts key (sorted.take k)) := by
  have ranking := ranking_firsts key perm ordered
  have front : firsts key (sorted.take k) = (firsts key sorted).take k := by
    have split := firsts_take_append key k sorted
    rw [← ranking.length_eq] at length
    rw [List.prefix_iff_eq_take.1 ⟨_, split.symm⟩, List.take_eq_take_iff, length]
    omega
  rw [front]
  exact ranking.topK k

section Filtered

variable {rows sorted chosen : List ρ} {k : Nat} {good : ρ → Bool}

/-- Cutting the sorted rows before a condition is applied costs nothing exactly when the cut holds
good rows only, or every good row. -/
theorem length_filter_take_iff (distinct : (rows.map key).Nodup) (perm : sorted.Perm rows)
    (chosen_perm : chosen.Perm ((sorted.take k).filter good)) :
    chosen.length = min k ((rows.filter good).map key).dedup.length ↔
      (∀ row ∈ sorted.take k, good row = true) ∨
        ∀ row ∈ rows, good row = true → key row ∈ (sorted.take k).map key := by
  have sorted_distinct : (sorted.map key).Nodup := (perm.map key).nodup_iff.2 distinct
  have good_distinct : ((rows.filter good).map key).Nodup :=
    (List.filter_sublist.map key).nodup distinct
  have none_late_iff : (∀ row ∈ rows, good row = true → key row ∈ (sorted.take k).map key) ↔
      ∀ row ∈ sorted.drop k, good row = false := by
    constructor
    · intro early row row_late
      cases row_good : good row with
      | false => rfl
      | true =>
          have row_mem := perm.subset (List.mem_of_mem_drop row_late)
          rcases List.mem_map.1 (early row row_mem row_good) with ⟨other, other_early, same⟩
          -- the key would stand on both sides of the cut
          rw [← List.take_append_drop k sorted, List.map_append, List.nodup_append]
            at sorted_distinct
          exact absurd same (sorted_distinct.2.2 _ (List.mem_map_of_mem other_early) _
            (List.mem_map_of_mem row_late))
    · intro none_late row row_mem row_good
      rcases mem_take_or_drop (k := k) (perm.symm.subset row_mem) with early | late
      · exact List.mem_map_of_mem early
      · simp [none_late row late] at row_good
  have chosen_length : chosen.length = (sorted.take k).countP good := by
    rw [chosen_perm.length_eq, List.countP_eq_length_filter]
  have good_length : ((rows.filter good).map key).dedup.length = sorted.countP good := by
    rw [good_distinct.dedup, List.length_map, ← List.countP_eq_length_filter, perm.countP_eq]
  rw [none_late_iff, ← countP_take_eq_min_iff, ← chosen_length, ← good_length]

theorem topK_filter_take (distinct : (rows.map key).Nodup) (perm : sorted.Perm rows)
    (ordered : sorted.Pairwise fun a b => rank a ≤ rank b)
    (chosen_perm : chosen.Perm ((sorted.take k).filter good))
    (chosen_ordered : chosen.Pairwise fun a b => rank a ≤ rank b)
    (length : chosen.length = min k ((rows.filter good).map key).dedup.length) :
    TopK key rank k (rows.filter good) chosen := by
  have chosen_mem : ∀ row, row ∈ chosen ↔ row ∈ sorted.take k ∧ good row = true := by
    intro row
    rw [chosen_perm.mem_iff, List.mem_filter]
  have chosen_rows : ∀ row ∈ chosen, row ∈ rows := by
    intro row row_mem
    exact perm.subset (List.mem_of_mem_take ((chosen_mem row).1 row_mem).1)
  refine ⟨length, ?_, ?_, ?_, chosen_ordered, ?_⟩
  · have sorted_distinct : (sorted.map key).Nodup := (perm.map key).nodup_iff.2 distinct
    apply (chosen_perm.map key).nodup_iff.2
    exact ((List.filter_sublist.trans (List.take_sublist k sorted)).map key).nodup sorted_distinct
  · intro row row_mem
    exact List.mem_filter.2 ⟨chosen_rows row row_mem, ((chosen_mem row).1 row_mem).2⟩
  · intro row row_mem other other_mem same
    have same_row := List.inj_on_of_nodup_map distinct (List.mem_filter.1 other_mem).1
      (chosen_rows row row_mem) same
    exact same_row ▸ le_rfl
  · intro other other_mem left_out row row_mem
    rcases List.mem_filter.1 other_mem with ⟨other_rows, other_good⟩
    rcases mem_take_or_drop (k := k) (perm.symm.subset other_rows) with early | late
    · exact absurd (List.mem_map_of_mem ((chosen_mem other).2 ⟨early, other_good⟩)) left_out
    · exact take_before_drop ordered ((chosen_mem row).1 row_mem).1 late

end Filtered

end Firsts

end Selection
