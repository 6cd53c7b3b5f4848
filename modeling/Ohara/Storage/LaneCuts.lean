import Mathlib.Algebra.Order.Field.Rat
import Ohara.Library.Fallible
import Ohara.Storage.LaneQueries

/-!
# Where the lanes cut their rows

On laid contents every joined row is read into a hit, so a lane returns what its statement
delivers. The vector search is cut before the filters apply and the historical-symbol lane before
its hunks are deduplicated; each meets its contract exactly when the cut takes nothing away that
the later step would have kept.
-/

namespace Ohara

open Retriever Selection

variable {K : Type} [Field K] [LinearOrder K]

/-! ## Reading rows -/

theorem strToChangeKind_toStr (kind : ChangeKind) : strToChangeKind kind.toStr = .ok kind := by
  cases kind <;> rfl

omit [Field K] [LinearOrder K] in
theorem rowToHit_eq_ok {row : LaneRow} {similarity : K} {hit : HunkHit K}
    (read : rowToHit row similarity = .ok hit) :
    hit.hunkId = row.hunkId ∧ hit.similarity = similarity := by
  rcases Fallible.bind_eq_ok.1 read with ⟨kind, -, rest⟩
  cases rest
  exact ⟨rfl, rfl⟩

variable {db : Database} {contents : IndexContents} {language : Option String}
  {sinceUnix : Option Int}

theorem mem_hunks_of_joinHunk {id : Nat} {row : LaneRow}
    (joined : (db.withContents contents).joinHunk id = some row) :
    ∃ hunk ∈ contents.hunks, hunk.row = row.hunk ∧ hunk.id = id := by
  rcases Rows.mem_of_lookup_eq_some (joinHunk_eq_some.1 joined).1 with ⟨row_mem, same_id⟩
  rcases List.mem_map.1 row_mem with ⟨hunk, hunk_mem, same_row⟩
  exact ⟨hunk, hunk_mem, same_row, by rw [← same_id, ← same_row]; rfl⟩

theorem hunkId_of_joinHunk {id : Nat} {row : LaneRow} (joined : db.joinHunk id = some row) :
    row.hunkId = id :=
  (Rows.mem_of_lookup_eq_some (joinHunk_eq_some.1 joined).1).2

omit [Field K] [LinearOrder K] in
theorem rowToHit_defined {id : Nat} {row : LaneRow}
    (joined : (db.withContents contents).joinHunk id = some row) (similarity : K) :
    ∃ hit, rowToHit row similarity = .ok hit := by
  rcases mem_hunks_of_joinHunk joined with ⟨hunk, -, same_row, -⟩
  have kind : strToChangeKind row.hunk.changeKind = .ok hunk.changeKind := by
    rw [← same_row]
    exact strToChangeKind_toStr hunk.changeKind
  exact ⟨_, Fallible.bind_eq_ok.2 ⟨_, kind, rfl⟩⟩

theorem mem_joinRows {γ : Type} {found : List (Nat × γ)} {row : LaneRow × γ} :
    row ∈ joinRows db found ↔ (row.1.hunkId, row.2) ∈ found ∧
      db.joinHunk row.1.hunkId = some row.1 := by
  rw [joinRows, List.mem_filterMap]
  constructor
  · rintro ⟨⟨id, score⟩, pair_mem, joined⟩
    rcases Option.map_eq_some_iff.1 joined with ⟨laneRow, found_row, rfl⟩
    have same_id : laneRow.hunkId = id := hunkId_of_joinHunk found_row
    exact ⟨same_id ▸ pair_mem, same_id ▸ found_row⟩
  · rintro ⟨pair_mem, joined⟩
    exact ⟨_, pair_mem, by rw [joined]; rfl⟩

/-- Where nothing is lost in the join, the rows have the ids they were found by. -/
theorem map_hunkId_joinRows {γ : Type} {found : List (Nat × γ)}
    (defined : ∀ pair ∈ found, ((db.joinHunk pair.1).map fun row => (row, pair.2)).isSome) :
    (joinRows db found).map (fun row => row.1.hunkId) = found.map Prod.fst := by
  induction found with
  | nil => rfl
  | cons pair rest ih =>
      rw [List.forall_mem_cons] at defined
      have later := ih defined.2
      cases joined : db.joinHunk pair.1 with
      | none => simp [joined] at defined
      | some row =>
          simp only [joinRows, List.filterMap_cons, joined, Option.map_some, List.map_cons]
            at later ⊢
          rw [later, hunkId_of_joinHunk joined]

theorem mem_filteredRows {γ : Type} {found : List (Nat × γ)} {row : LaneRow × γ} :
    row ∈ filteredRows db language sinceUnix found ↔
      row ∈ joinRows db found ∧ passes language sinceUnix row.1 = true := by
  rw [filteredRows, List.mem_filter]

theorem map_fst_filteredRows {γ : Type} (found : List (Nat × γ)) :
    (filteredRows db language sinceUnix found).map Prod.fst =
      (found.filterMap fun pair => db.joinHunk pair.1).filter (passes language sinceUnix) := by
  have joined : found.filterMap (fun pair => db.joinHunk pair.1) =
      (joinRows db found).map Prod.fst := by
    rw [joinRows, List.map_filterMap]
    congr 1
    funext pair
    cases db.joinHunk pair.1 <;> rfl
  rw [joined, List.filter_map]
  rfl

omit [Field K] [LinearOrder K] in
theorem rows_defined {γ : Type} {found : List (Nat × γ)} (rows : List (LaneRow × γ))
    (filtered : ∀ row ∈ rows,
      row ∈ filteredRows (db.withContents contents) language sinceUnix found)
    (similarity : γ → K) :
    ∃ hits, rows.mapM (fun row => rowToHit row.1 (similarity row.2)) = .ok hits := by
  apply Fallible.mapM_defined
  intro row row_mem
  exact rowToHit_defined (mem_joinRows.1 (mem_filteredRows.1 (filtered row row_mem)).1).2 _

omit [Field K] [LinearOrder K] in
theorem map_hunkId_of_read {γ : Type} {similarity : γ → K} {rows : List (LaneRow × γ)}
    {hits : List (HunkHit K)} (read : List.Forall₂ (fun (row : LaneRow × γ) hit =>
      rowToHit row.1 (similarity row.2) = .ok hit) rows hits) :
    hits.map HunkHit.hunkId = rows.map (Nat.cast ∘ fun row => row.1.hunkId) := by
  induction read with
  | nil => rfl
  | cons read_row _ ih =>
      rw [List.map_cons, List.map_cons, ih, (rowToHit_eq_ok read_row).1]
      rfl

/-! ## The hunks that satisfy the filters -/

/-- The hunks of the index that satisfy both filters. -/
def Database.matching (db : Database) (language : Option String) (sinceUnix : Option Int) :
    List LaneRow :=
    (db.hunk.filterMap fun hunk => db.joinHunk hunk.id).filter (passes language sinceUnix)

theorem mem_matching {row : LaneRow} :
    row ∈ (db.withContents contents).matching language sinceUnix ↔
      (db.withContents contents).joinHunk row.hunkId = some row ∧
        passes language sinceUnix row = true := by
  rw [Database.matching, List.mem_filter, List.mem_filterMap]
  constructor
  · rintro ⟨⟨hunk, -, joined⟩, passing⟩
    rw [hunkId_of_joinHunk joined]
    exact ⟨joined, passing⟩
  · rintro ⟨joined, passing⟩
    have hunk_mem := (Rows.mem_of_lookup_eq_some (joinHunk_eq_some.1 joined).1).1
    exact ⟨⟨row.hunk, hunk_mem, joined⟩, passing⟩

/-! ## Vector search -/

namespace Hunk

variable {vec0 sorter : Sorter} {distance : List UInt8 → List UInt8 → K} {queryEmb : Vector}
  {k : UInt8}

omit [Field K] [LinearOrder K] in
theorem distances_withContents :
    distances distance (db.withContents contents) queryEmb = contents.hunks.map fun hunk =>
      (hunk.id, distance (vecToBytes queryEmb) (vecToBytes hunk.diffEmb)) := by
  rw [distances, Database.withContents, List.map_map]
  rfl

omit [Field K] [LinearOrder K] in
/-- Every vector is one of a hunk that joins. -/
theorem join_defined :
    ∀ pair ∈ distances distance (db.withContents contents) queryEmb,
      (((db.withContents contents).joinHunk pair.1).map fun row => (row, pair.2)).isSome := by
  intro pair pair_mem
  rw [distances_withContents, List.mem_map] at pair_mem
  rcases pair_mem with ⟨hunk, hunk_mem, rfl⟩
  rcases joinHunk_of_mem db hunk_mem with ⟨filePath, commit, joined⟩
  simp [joined]

omit [Field K] [LinearOrder K] in
/-- The vectors give the hunks of the index, each once. -/
theorem map_fst_filteredRows_distances (distance : List UInt8 → List UInt8 → K)
    (queryEmb : Vector) :
    (filteredRows (db.withContents contents) language sinceUnix
      (distances distance (db.withContents contents) queryEmb)).map Prod.fst =
      (db.withContents contents).matching language sinceUnix := by
  have hunks : (db.withContents contents).hunk = contents.hunks.map StoredHunk.row := rfl
  rw [map_fst_filteredRows, distances_withContents, Database.matching, hunks, List.filterMap_map,
    List.filterMap_map]
  rfl

/-- The rows of the index with their distances, nearest first. -/
def sortedRows (vec0 : Sorter) (distance : List UInt8 → List UInt8 → K) (db : Database)
    (queryEmb : Vector) : List (LaneRow × K) :=
    joinRows db (vec0.orderBy Prod.snd (distances distance db queryEmb))

omit [Field K] in
theorem sortedRows_perm : (sortedRows vec0 distance db queryEmb).Perm
    (joinRows db (distances distance db queryEmb)) :=
  (vec0.perm _ _).filterMap _

omit [Field K] in
theorem sortedRows_ordered :
    (sortedRows vec0 distance db queryEmb).Pairwise fun a b => a.2 ≤ b.2 := by
  rw [sortedRows, joinRows, List.pairwise_filterMap]
  apply (vec0.sorted Prod.snd _).imp
  intro a b before row joined row' joined'
  rcases Option.map_eq_some_iff.1 joined with ⟨_, -, rfl⟩
  rcases Option.map_eq_some_iff.1 joined' with ⟨_, -, rfl⟩
  exact before

omit [Field K] in
theorem take_sortedRows : (sortedRows vec0 distance (db.withContents contents) queryEmb).take
    k.toNat = joinRows (db.withContents contents)
      (nearest vec0 distance (db.withContents contents) queryEmb k) := by
  rw [sortedRows, joinRows, nearest, joinRows, Fallible.take_filterMap]
  intro pair pair_mem
  exact join_defined pair ((vec0.perm _ _).subset pair_mem)

omit [Field K] [LinearOrder K] in
theorem nodup_joinRows : ((joinRows (db.withContents contents)
    (distances distance (db.withContents contents) queryEmb)).map
      fun row => row.1.hunkId).Nodup := by
  rw [map_hunkId_joinRows join_defined, distances_withContents, List.map_map]
  exact contents.hunk_ids_nodup

/-- The nearest hunks that satisfy the filters, as many as `k` allows, read into hits. -/
def ReturnsNearest (distance : List UInt8 → List UInt8 → K) (db : Database) (queryEmb : Vector)
    (k : UInt8) (language : Option String) (sinceUnix : Option Int)
    (result : Except OhraError (List (HunkHit K))) : Prop :=
    ∃ chosen hits,
      TopK (fun row => row.1.hunkId) Prod.snd k.toNat
        (filteredRows db language sinceUnix (distances distance db queryEmb)) chosen ∧
      chosen.mapM (fun row => rowToHit row.1 (1 / (1 + row.2))) = .ok hits ∧ result = .ok hits

omit [Field K] in
theorem nearest_defined :
    ∀ pair ∈ nearest vec0 distance (db.withContents contents) queryEmb k,
      (((db.withContents contents).joinHunk pair.1).map fun row => (row, pair.2)).isSome := by
  intro pair pair_mem
  exact join_defined pair ((vec0.perm _ _).subset (List.mem_of_mem_take pair_mem))

omit [Field K] in
/-- The front of the sorted rows passes the filters when the nearest hunks do. -/
theorem front_passes_iff :
    (∀ row ∈ (sortedRows vec0 distance (db.withContents contents) queryEmb).take k.toNat,
      passes language sinceUnix row.1 = true) ↔
    ∀ pair ∈ nearest vec0 distance (db.withContents contents) queryEmb k, ∀ row,
      (db.withContents contents).joinHunk pair.1 = some row →
        passes language sinceUnix row = true := by
  rw [take_sortedRows]
  constructor
  · intro pass pair pair_mem row joined
    have same_id := hunkId_of_joinHunk joined
    exact pass (row, pair.2) (mem_joinRows.2 ⟨same_id ▸ pair_mem, same_id ▸ joined⟩)
  · intro pass row row_mem
    rcases mem_joinRows.1 row_mem with ⟨pair_mem, joined⟩
    exact pass _ pair_mem row.1 joined

omit [Field K] in
/-- The front of the sorted rows has every row that passes when the nearest hunks do. -/
theorem front_complete_iff :
    (∀ row ∈ joinRows (db.withContents contents)
        (distances distance (db.withContents contents) queryEmb),
      passes language sinceUnix row.1 = true → row.1.hunkId ∈
        ((sortedRows vec0 distance (db.withContents contents) queryEmb).take k.toNat).map
          fun row => row.1.hunkId) ↔
    ∀ row ∈ (db.withContents contents).matching language sinceUnix,
      row.hunkId ∈ (nearest vec0 distance (db.withContents contents) queryEmb k).map Prod.fst := by
  rw [take_sortedRows, map_hunkId_joinRows nearest_defined,
    ← map_fst_filteredRows_distances distance queryEmb, List.forall_mem_map]
  simp only [mem_filteredRows, and_imp]

/-- The vector search returns the nearest hunks that satisfy the filters exactly when the `k`
nearest hunks all satisfy them, or include every hunk that does. -/
theorem knn_returnsNearest_iff (vec0 sorter : Sorter) (distance : List UInt8 → List UInt8 → K)
    (db : Database) (contents : IndexContents) (queryEmb : Vector) (k : UInt8)
    (language : Option String) (sinceUnix : Option Int) :
    let db := db.withContents contents
    ReturnsNearest distance db queryEmb k language sinceUnix
        (knn vec0 sorter distance db queryEmb k language sinceUnix) ↔
      (∀ pair ∈ nearest vec0 distance db queryEmb k, ∀ row, db.joinHunk pair.1 = some row →
        passes language sinceUnix row = true) ∨
      ∀ row ∈ db.matching language sinceUnix,
        row.hunkId ∈ (nearest vec0 distance db queryEmb k).map Prod.fst := by
  intro db
  let rows := filteredRows db language sinceUnix (nearest vec0 distance db queryEmb k)
  have ordered := sorter.sorted Prod.snd rows
  have perm := sorter.perm Prod.snd rows
  have cut : rows = ((sortedRows vec0 distance db queryEmb).take k.toNat).filter
      fun row => passes language sinceUnix row.1 := by
    rw [take_sortedRows]
    rfl
  have perm_cut : (sorter.orderBy Prod.snd rows).Perm
      (((sortedRows vec0 distance db queryEmb).take k.toNat).filter
        fun row => passes language sinceUnix row.1) := by
    rw [← cut]
    exact perm
  rcases rows_defined (sorter.orderBy Prod.snd rows) (fun row row_mem =>
    perm.subset row_mem) (fun d : K => 1 / (1 + d)) with ⟨hits, read⟩
  have result : knn vec0 sorter distance db queryEmb k language sinceUnix = .ok hits := read
  have length_iff := length_filter_take_iff (k := k.toNat) nodup_joinRows sortedRows_perm perm_cut
  rw [← front_passes_iff, ← front_complete_iff, ← length_iff]
  constructor
  · rintro ⟨chosen, hits', top, read', result'⟩
    rw [result, Except.ok.injEq] at result'
    have same_length : chosen.length = (sorter.orderBy Prod.snd rows).length := by
      rw [(Fallible.mapM_eq_ok.1 read').length_eq, (Fallible.mapM_eq_ok.1 read).length_eq, result']
    rw [← same_length]
    exact top.length
  · intro length
    exact ⟨_, hits, topK_filter_take nodup_joinRows sortedRows_perm sortedRows_ordered
      perm_cut ordered length, read, result⟩

/-! ### A selective filter -/

/-- All zeros. -/
def zeroVector : Vector :=
    List.replicate vectorDimension 0

/-- `1.0` followed by zeros. -/
def unitVector : Vector :=
    0x3f800000 :: List.replicate (vectorDimension - 1) 0

/-- The L2 distance of these two vectors. -/
def apart (a b : List UInt8) : ℚ :=
    if a = b then 0 else 1

/-- A hunk of the commit `c1`. -/
def storedHunk (id filePathId : Nat) (diffEmb : Vector) (symbols : List HunkSymbol) :
    StoredHunk where
  id := id
  commitSha := "c1"
  filePathId := filePathId
  changeKind := .added
  diffText := "+x"
  semanticText := "+x"
  diffEmb := diffEmb
  symbols := symbols
  semantic_fallback := by decide

/-- A commit with a hunk in a Rust file and one in a Python file. -/
def twoLanguages (rust python : List HunkSymbol) : IndexContents where
  commits := [⟨⟨"c1", none, false, none, 1, "m"⟩, zeroVector, ""⟩]
  filePaths := [⟨1, "a.rs", some "rust"⟩, ⟨2, "b.py", some "python"⟩]
  hunks := [storedHunk 1 1 zeroVector rust, storedHunk 2 2 unitVector python]
  symbols := []
  commits_nodup := by decide
  filePath_ids_nodup := by decide
  filePath_paths_nodup := by decide
  hunk_ids_nodup := by simp [storedHunk]
  hunk_commit := by simp [storedHunk, CommitRecord.sha]
  hunk_path := by simp [storedHunk]
  symbol_ids_nodup := by decide
  symbol_path := by simp

set_option maxRecDepth 20000 in
/-- The nearest hunk takes the one place although it is in another language. -/
theorem not_returnsNearest_python :
    ¬∀ (contents : IndexContents) (queryEmb : Vector) (k : UInt8) (language : Option String),
      ReturnsNearest apart (Database.empty.withContents contents) queryEmb k language none
        (knn Sorter.stable Sorter.stable apart (Database.empty.withContents contents) queryEmb k
          language none) := by
  intro always
  rcases always (twoLanguages [] []) zeroVector 1 (some "python") with
    ⟨chosen, hits, top, read, result⟩
  have returned : knn Sorter.stable Sorter.stable apart
      (Database.empty.withContents (twoLanguages [] [])) zeroVector 1 (some "python") none =
      .ok [] := rfl
  rw [returned, Except.ok.injEq] at result
  subst result
  have none_chosen := (Fallible.mapM_eq_ok.1 read).length_eq
  have matching_one : ((filteredRows (Database.empty.withContents (twoLanguages [] []))
      (some "python") none (distances apart (Database.empty.withContents (twoLanguages [] []))
        zeroVector)).map fun row => row.1.hunkId).dedup.length = 1 := rfl
  rw [top.length, matching_one] at none_chosen
  cases none_chosen

end Hunk

/-! ## Historical symbols -/

namespace HunkSymbol

/-- The best hunks the query matches, as many as `k` allows, each with its best attribution. -/
def ReturnsBestAttributed (u : Unicode) (db : Database) (query : String) (k : UInt8)
    (language : Option String) (sinceUnix : Option Int)
    (result : Except OhraError (List (HunkHit K))) : Prop :=
    ∃ chosen hits,
      TopK (fun row => row.1.hunkId) rank k.toNat (attributions u db query language sinceUnix)
        chosen ∧
      chosen.mapM (fun row => rowToHit row.1 (attributionSimilarity row.2)) = .ok hits ∧
      result = .ok hits

omit [LinearOrder K] in
/-- The historical-symbol lane returns the best distinct hunks exactly when the `k` best attribution
rows are of different hunks, or include one of every hunk the query matches. -/
theorem bm25ByHistoricalSymbol_returnsBest_iff (u : Unicode) (sorter : Sorter) (db : Database)
    (contents : IndexContents) (query : String) (k : UInt8) (language : Option String)
    (sinceUnix : Option Int) :
    let db := db.withContents contents
    ReturnsBestAttributed (K := K) u db query k language sinceUnix
        (bm25ByHistoricalSymbol u sorter db query k language sinceUnix) ↔
      ((bestAttributions u sorter db query k language sinceUnix).map
        fun row => row.1.hunkId).Nodup ∨
      ∀ row ∈ attributions u db query language sinceUnix, row.1.hunkId ∈
        (bestAttributions u sorter db query k language sinceUnix).map fun row => row.1.hunkId := by
  intro db
  let rows := attributions u db query language sinceUnix
  let best := bestAttributions u sorter db query k language sinceUnix
  have perm := sorter.perm rank rows
  have ordered := sorter.sorted rank rows
  rcases rows_defined best (fun row row_mem =>
    perm.subset (List.mem_of_mem_take row_mem)) (attributionSimilarity (K := K)) with ⟨hits, read⟩
  have same_id : ∀ (row : LaneRow × String) (hit : HunkHit K),
      rowToHit row.1 (attributionSimilarity row.2) = .ok hit →
        hit.hunkId = ((row.1.hunkId : Nat) : Int) :=
    fun _ _ read_row => (rowToHit_eq_ok read_row).1
  have read_firsts : List.Forall₂
      (fun (row : LaneRow × String) (hit : HunkHit K) =>
        rowToHit row.1 (attributionSimilarity row.2) = .ok hit)
      (firsts (fun row => row.1.hunkId) best) (firsts HunkHit.hunkId hits) :=
    firstsFrom_forall₂ Nat.cast_injective same_id (Fallible.mapM_eq_ok.1 read) []
  have result : bm25ByHistoricalSymbol u sorter db query k language sinceUnix =
      .ok (firsts HunkHit.hunkId hits) := Fallible.bind_eq_ok.2 ⟨hits, read, rfl⟩
  have length_iff := length_firsts_take_iff (fun row => row.1.hunkId) perm k.toNat
  constructor
  · rintro ⟨chosen, hits', top, read', result'⟩
    rw [result, Except.ok.injEq] at result'
    have same_length : chosen.length = (firsts (fun row => row.1.hunkId) best).length := by
      rw [(Fallible.mapM_eq_ok.1 read').length_eq, read_firsts.length_eq, result']
    exact length_iff.1 (same_length ▸ top.length)
  · intro harmless
    exact ⟨_, _, topK_firsts_take perm ordered (length_iff.2 harmless),
      Fallible.mapM_eq_ok.2 read_firsts, result⟩

/-- Two symbols of one hunk take both places. -/
theorem not_returnsBestAttributed_retry :
    ¬∀ (contents : IndexContents) (query : String) (k : UInt8),
      ReturnsBestAttributed (K := ℚ) Unicode.ascii (Database.empty.withContents contents) query k
        none none (bm25ByHistoricalSymbol Unicode.ascii Sorter.stable
          (Database.empty.withContents contents) query k none none) := by
  intro always
  let contents := Hunk.twoLanguages
    [⟨.function, "retry", none, .exactSpan⟩, ⟨.function, "retry_all", none, .exactSpan⟩]
    [⟨.function, "retry", none, .hunkHeader⟩]
  rcases always contents "retry" 2 with ⟨chosen, hits, top, read, result⟩
  have returned : ∀ hits : List (HunkHit ℚ), bm25ByHistoricalSymbol Unicode.ascii Sorter.stable
      (Database.empty.withContents contents) "retry" 2 none none = .ok hits → hits.length = 1 := by
    have one_hit : ((bm25ByHistoricalSymbol Unicode.ascii Sorter.stable
        (Database.empty.withContents contents) "retry" 2 none none).toOption.map
          fun hits : List (HunkHit ℚ) => hits.length) = some 1 := by decide +kernel
    intro hits result
    simpa [result, Except.toOption] using one_hit
  have matching_two : ((attributions Unicode.ascii (Database.empty.withContents contents) "retry"
      none none).map fun row => row.1.hunkId).dedup.length = 2 := by decide +kernel
  have chosen_length := (Fallible.mapM_eq_ok.1 read).length_eq
  rw [top.length, matching_two, returned hits result] at chosen_length
  exact absurd chosen_length (by decide)

end HunkSymbol

end Ohara
