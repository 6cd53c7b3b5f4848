import Mathlib.Data.List.Nodup

/-!
# Least-recently-used caches

A bounded map whose entries are kept with the most recently used one first. A lookup moves the
entry it finds to the front, an insertion into a full cache forgets the last entry.
-/

universe u v

/-- A cache that holds at most `capacity` entries, one for each key. -/
structure LruCache (κ : Type u) (ν : Type v) where
  capacity : Nat
  entries : List (κ × ν)
  positive : 0 < capacity
  bounded : entries.length ≤ capacity
  nodup : (entries.map Prod.fst).Nodup

namespace LruCache

variable {κ : Type u} {ν : Type v} [DecidableEq κ]

/-- The entries without the one of `key`. -/
def without (key : κ) (entries : List (κ × ν)) : List (κ × ν) :=
    entries.filter fun entry => decide (entry.1 ≠ key)

@[simp]
theorem mem_without {key : κ} {entries : List (κ × ν)} {entry : κ × ν} :
    entry ∈ without key entries ↔ entry ∈ entries ∧ entry.1 ≠ key := by
  simp [without]

theorem without_length_le (key : κ) (entries : List (κ × ν)) :
    (without key entries).length ≤ entries.length :=
  List.length_filter_le _ _

theorem without_keys_nodup {key : κ} {entries : List (κ × ν)}
    (nodup : (entries.map Prod.fst).Nodup) : ((without key entries).map Prod.fst).Nodup :=
  nodup.sublist (List.filter_sublist.map Prod.fst)

theorem cons_without_nodup {key : κ} (value : ν) {entries : List (κ × ν)}
    (nodup : (entries.map Prod.fst).Nodup) :
    (((key, value) :: without key entries).map Prod.fst).Nodup := by
  rw [List.map_cons, List.nodup_cons]
  refine ⟨?_, without_keys_nodup nodup⟩
  simp

/-- Taking an entry that is present out makes the list shorter. -/
theorem without_length_lt {key : κ} {value : ν} {entries : List (κ × ν)}
    (present : (key, value) ∈ entries) : (without key entries).length < entries.length := by
  apply List.length_filter_lt_length_iff_exists.2
  exact ⟨(key, value), present, by simp⟩

/-- A cache without an entry. -/
def new (capacity : Nat) (positive : 0 < capacity) : LruCache κ ν where
  capacity := capacity
  entries := []
  positive := positive
  bounded := Nat.zero_le capacity
  nodup := List.nodup_nil

/-- The value of `key`, without marking it used. -/
def peek (cache : LruCache κ ν) (key : κ) : Option ν :=
    (cache.entries.find? fun entry => decide (entry.1 = key)).map Prod.snd

theorem peek_mem {cache : LruCache κ ν} {key : κ} {value : ν}
    (found : cache.peek key = some value) : (key, value) ∈ cache.entries := by
  rcases Option.map_eq_some_iff.1 found with ⟨⟨k, v⟩, hit, rfl⟩
  have key_eq : k = key := by simpa using List.find?_some hit
  exact key_eq ▸ List.mem_of_find?_eq_some hit

/-- One entry for each key: the lookup finds exactly the entries of the cache. -/
theorem peek_eq_some {cache : LruCache κ ν} {key : κ} {value : ν} :
    cache.peek key = some value ↔ (key, value) ∈ cache.entries := by
  refine ⟨peek_mem, fun present => ?_⟩
  cases lookup : cache.peek key with
  | none =>
      have absent : ∀ entry ∈ cache.entries, ¬ entry.1 = key := by
        simpa [peek] using lookup
      exact absurd rfl (absent _ present)
  | some other =>
      have same := List.inj_on_of_nodup_map cache.nodup (peek_mem lookup) present rfl
      simpa using same

/-- Make the entry of `key` the most recently used one. -/
def promote (cache : LruCache κ ν) (key : κ) (value : ν) (present : cache.peek key = some value) :
    LruCache κ ν where
  capacity := cache.capacity
  entries := (key, value) :: without key cache.entries
  positive := cache.positive
  bounded := by
    have shorter := without_length_lt (peek_mem present)
    have bounded := cache.bounded
    simp only [List.length_cons]
    omega
  nodup := cons_without_nodup value cache.nodup

/-- The value of the key, whose entry becomes the most recently used one. -/
def get (cache : LruCache κ ν) (key : κ) : Option ν × LruCache κ ν :=
    match lookup : cache.peek key with
    | some value => (some value, cache.promote key value lookup)
    | none => (none, cache)

@[simp]
theorem get_fst (cache : LruCache κ ν) (key : κ) : (cache.get key).1 = cache.peek key := by
  rw [get]
  split <;> simp_all

theorem get_snd_of_none {cache : LruCache κ ν} {key : κ} (absent : cache.peek key = none) :
    (cache.get key).2 = cache := by
  rw [get]
  split <;> simp_all

/-- A lookup only reorders the entries. -/
@[simp]
theorem mem_get {cache : LruCache κ ν} {key : κ} {entry : κ × ν} :
    entry ∈ (cache.get key).2.entries ↔ entry ∈ cache.entries := by
  rw [get]
  split
  · next value lookup =>
      have present := peek_mem lookup
      simp only [promote, List.mem_cons, mem_without]
      constructor
      · rintro (rfl | ⟨mem, -⟩)
        · exact present
        · exact mem
      · intro mem
        by_cases same : entry.1 = key
        · left
          exact List.inj_on_of_nodup_map cache.nodup mem present same
        · exact Or.inr ⟨mem, same⟩
  · exact Iff.rfl

/-- Store `value` as the most recently used entry; a full cache forgets its last entry. -/
def put (cache : LruCache κ ν) (key : κ) (value : ν) : LruCache κ ν where
  capacity := cache.capacity
  entries := ((key, value) :: without key cache.entries).take cache.capacity
  positive := cache.positive
  bounded := List.length_take_le _ _
  nodup := (cons_without_nodup value cache.nodup).sublist
    ((List.take_sublist _ _).map Prod.fst)

/-- After an insertion a cache holds the new entry and some of the other ones. -/
theorem mem_put {cache : LruCache κ ν} {key : κ} {value : ν} {entry : κ × ν}
    (mem : entry ∈ (cache.put key value).entries) :
    entry = (key, value) ∨ entry ∈ cache.entries ∧ entry.1 ≠ key := by
  have kept := List.mem_of_mem_take mem
  simpa using kept

/-- Remove the entry of `key`. -/
def pop (cache : LruCache κ ν) (key : κ) : LruCache κ ν where
  capacity := cache.capacity
  entries := without key cache.entries
  positive := cache.positive
  bounded := Nat.le_trans (without_length_le key cache.entries) cache.bounded
  nodup := without_keys_nodup cache.nodup

@[simp]
theorem mem_pop {cache : LruCache κ ν} {key : κ} {entry : κ × ν} :
    entry ∈ (cache.pop key).entries ↔ entry ∈ cache.entries ∧ entry.1 ≠ key :=
  mem_without

theorem mem_foldl_pop {keys : List κ} {cache : LruCache κ ν} {entry : κ × ν} :
    entry ∈ (keys.foldl pop cache).entries ↔ entry ∈ cache.entries ∧ entry.1 ∉ keys := by
  induction keys generalizing cache with
  | nil => simp
  | cons key keys ih =>
      rw [List.foldl_cons, ih]
      simp only [mem_pop, List.mem_cons, not_or, ne_eq]
      tauto

/-- Taking out the keys with a property leaves the entries without it. -/
theorem mem_foldl_pop_filter {cache : LruCache κ ν} (p : κ → Prop) [DecidablePred p]
    {entry : κ × ν} :
    entry ∈ (((cache.entries.filter fun entry => decide (p entry.1)).map Prod.fst).foldl
      pop cache).entries ↔ entry ∈ cache.entries ∧ ¬ p entry.1 := by
  rw [mem_foldl_pop]
  refine and_congr_right fun mem => not_congr ?_
  simp only [List.mem_map, List.mem_filter, decide_eq_true_eq]
  constructor
  · rintro ⟨other, ⟨-, holds⟩, same_key⟩
    rw [← same_key]
    exact holds
  · intro holds
    exact ⟨entry, ⟨mem, holds⟩, rfl⟩

end LruCache
