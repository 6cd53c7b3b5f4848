import Ohara.Storage.Views

/-!
# The lanes' queries

Each lane of the retriever finds hunks through an index of its own and joins them with their path
and commit; the language and time filters are conditions on the joined row. What an index matches
is a parameter of the lane; ranking and `LIMIT` come after the filters and are left out.
-/

namespace Ohara

/-- A hunk joined with its path and its commit. -/
structure LaneRow where
  hunk : HunkRow
  filePath : FilePathRow
  commit : CommitRow
deriving DecidableEq, Repr

/-- `JOIN hunk`, `JOIN file_path`, `JOIN commit_record` for one hunk id. -/
def Database.joinHunk (db : Database) (hunkId : Nat) : Option LaneRow := do
    let hunk ← Rows.lookup HunkRow.id hunkId db.hunk
    let filePath ← Rows.lookup FilePathRow.id hunk.filePathId db.filePath
    let commit ← Rows.lookup CommitRow.sha hunk.commitSha db.commitRecord
    return ⟨hunk, filePath, commit⟩

/-- `AND fp.language = :lang`, when a language is asked for. -/
def langFilter (language : Option String) (row : LaneRow) : Bool :=
    match language with
    | none => true
    | some language => decide (row.filePath.language = some language)

/-- `AND cr.ts >= :ts`, when a time is asked for. -/
def tsFilter (sinceUnix : Option Int) (row : LaneRow) : Bool :=
    match sinceUnix with
    | none => true
    | some ts => decide (ts ≤ row.commit.ts)

/-- A lane's search with the answer of its index. -/
inductive LaneSearch where
  /-- The hunks `vec_hunk` has nearest to the query. -/
  | knn (nearest : List Nat)
  /-- The hunks `fts_hunk_text` matches. -/
  | bm25ByText (matching : List Nat)
  /-- The hunks `fts_hunk_semantic` matches. -/
  | bm25BySemanticText (matching : List Nat)
  /-- The symbol names that contain the query. -/
  | bm25ByHistoricalSymbol (named : String → Bool)
  /-- The symbols `fts_symbol_name` matches. -/
  | bm25BySymbolName (matching : List Nat)

/-- The ids of the hunks a search joins. -/
def LaneSearch.hunkIds (db : Database) : LaneSearch → List Nat
  | .knn nearest => nearest
  | .bm25ByText matching => matching
  | .bm25BySemanticText matching => matching
  | .bm25ByHistoricalSymbol named =>
      (db.hunkSymbol.filter fun row => named row.symbolName).map HunkSymbolRow.hunkId
  | .bm25BySymbolName matching =>
      (matching.filterMap fun id => Rows.lookup SymbolRow.id id db.symbol).flatMap fun symbol =>
        (db.hunk.filter fun hunk => decide (hunk.filePathId = symbol.filePathId)).map HunkRow.id

/-- The rows a lane ranks. -/
def LaneSearch.rows (search : LaneSearch) (db : Database) (language : Option String)
    (sinceUnix : Option Int) : List LaneRow :=
    ((search.hunkIds db).filterMap db.joinHunk).filter fun row =>
      tsFilter sinceUnix row && langFilter language row

/-- Asking for the language drops the hunk from no lane that would return it otherwise. -/
def Database.Admits (db : Database) (hunk : HunkRow) (language : String) : Prop :=
    ∀ (search : LaneSearch) (sinceUnix : Option Int) (row : LaneRow),
      row ∈ search.rows db none sinceUnix → row.hunk = hunk →
        row ∈ search.rows db (some language) sinceUnix

theorem joinHunk_eq_some {db : Database} {hunkId : Nat} {row : LaneRow} :
    db.joinHunk hunkId = some row ↔ Rows.lookup HunkRow.id hunkId db.hunk = some row.hunk ∧
      Rows.lookup FilePathRow.id row.hunk.filePathId db.filePath = some row.filePath ∧
      Rows.lookup CommitRow.sha row.hunk.commitSha db.commitRecord = some row.commit := by
  simp only [Database.joinHunk, Option.bind_eq_bind, Option.pure_def, Option.bind_eq_some_iff]
  constructor
  · rintro ⟨hunk, found, filePath, path, commit, owner, ⟨⟩⟩
    exact ⟨found, path, owner⟩
  · rintro ⟨found, path, owner⟩
    exact ⟨row.hunk, found, row.filePath, path, row.commit, owner, rfl⟩

/-- A hunk of laid tables joins with its path and its commit. -/
theorem joinHunk_of_mem (db : Database) {contents : IndexContents} {hunk : StoredHunk}
    (hunk_mem : hunk ∈ contents.hunks) : ∃ filePath commit,
      (db.withContents contents).joinHunk hunk.id = some ⟨hunk.row, filePath, commit⟩ := by
  have hunk_found : Rows.lookup HunkRow.id hunk.id (contents.hunks.map StoredHunk.row) =
      some hunk.row := by
    have nodup : ((contents.hunks.map StoredHunk.row).map HunkRow.id).Nodup := by
      rw [map_row_id]
      exact contents.hunk_ids_nodup
    exact Rows.lookup_eq_some_of_mem nodup (List.mem_map_of_mem hunk_mem)
  rcases List.mem_map.1 (contents.hunk_path hunk hunk_mem) with ⟨filePath, path_mem, same_id⟩
  have path_found := Rows.lookup_eq_some_of_mem contents.filePath_ids_nodup path_mem
  rcases List.mem_map.1 (contents.hunk_commit hunk hunk_mem) with ⟨record, record_mem, same_sha⟩
  have commit_found : Rows.lookup CommitRow.sha record.sha
      (contents.commits.map CommitRecord.row) = some record.row := by
    have nodup : ((contents.commits.map CommitRecord.row).map CommitRow.sha).Nodup := by
      rw [map_row_sha]
      exact contents.commits_nodup
    exact Rows.lookup_eq_some_of_mem nodup (List.mem_map_of_mem record_mem)
  refine ⟨filePath, record.row, joinHunk_eq_some.2 ⟨hunk_found, ?_, ?_⟩⟩
  · rw [same_id] at path_found
    exact path_found
  · rw [same_sha] at commit_found
    exact commit_found

/-- A hunk is admitted under the language its path is stored with, and under no other. -/
theorem admits_iff {db : Database} {contents : IndexContents} {hunk : StoredHunk}
    {language : String} (hunk_mem : hunk ∈ contents.hunks) :
    (db.withContents contents).Admits hunk.row language ↔
      ∀ row ∈ contents.filePaths, row.id = hunk.filePathId → row.language = some language := by
  constructor
  · intro admits path path_mem same_id
    rcases joinHunk_of_mem db hunk_mem with ⟨filePath, commit, joined⟩
    have path_found := (joinHunk_eq_some.1 joined).2.1
    have same_row : some filePath = some path := by
      rw [← path_found, ← Rows.lookup_eq_some_of_mem contents.filePath_ids_nodup path_mem, same_id]
      rfl
    cases same_row
    have found : (⟨hunk.row, path, commit⟩ : LaneRow) ∈
        (LaneSearch.knn [hunk.id]).rows (db.withContents contents) none none := by
      simp [LaneSearch.rows, LaneSearch.hunkIds, joined, tsFilter, langFilter]
    have kept := admits _ none _ found rfl
    simpa [tsFilter, langFilter] using (List.mem_filter.1 kept).2
  · intro language_stored search sinceUnix row found same_hunk
    rcases List.mem_filter.1 found with ⟨joined, conditions⟩
    rcases List.mem_filterMap.1 joined with ⟨id, -, joined_id⟩
    have path_found := (joinHunk_eq_some.1 joined_id).2.1
    rw [same_hunk] at path_found
    rcases Rows.mem_of_lookup_eq_some path_found with ⟨path_mem, same_id⟩
    have stored := language_stored row.filePath path_mem same_id
    refine List.mem_filter.2 ⟨joined, ?_⟩
    simp only [Bool.and_eq_true] at conditions ⊢
    exact ⟨conditions.1, by simpa [langFilter] using stored⟩

end Ohara
