import Ohara.Storage.Commit
import Ohara.Storage.Hunk
import Ohara.Storage.Symbol

/-!
# What the database is for

`IndexContents` is the index without its mirrors: commits with their embeddings, hunks with theirs
and with their symbols, and the symbols of one snapshot. A value carries the uniqueness of its ids
and the references of the schema, so only contents a database can hold can be built.

`Database.withContents` lays contents out as tables. Each storage call, run on the tables of some
contents, gives the tables of the contents the call stands for, or is refused when the contents
refuse it.
-/

namespace Ohara

/-- The commit a record is about. -/
def CommitRecord.sha (record : CommitRecord) : String :=
    record.commitMeta.commitSha

/-- The row of `vec_commit`. -/
def CommitRecord.vecRow (record : CommitRecord) : VecCommitRow where
  commitSha := record.sha
  messageEmb := vecToBytes record.messageEmb

/-- The row of `fts_commit`. -/
def CommitRecord.ftsRow (record : CommitRecord) : FtsCommitRow where
  sha := record.sha
  message := record.commitMeta.message

/-- A hunk with everything stored about it. -/
structure StoredHunk where
  id : Nat
  commitSha : String
  filePathId : Nat
  changeKind : ChangeKind
  diffText : String
  semanticText : String
  diffEmb : Vector
  symbols : List HunkSymbol
  /-- The diff text stands in for an empty semantic text. -/
  semantic_fallback : semanticText.isEmpty = true → diffText = semanticText

namespace StoredHunk

/-- The row of `hunk`. -/
def row (hunk : StoredHunk) : HunkRow where
  id := hunk.id
  commitSha := hunk.commitSha
  filePathId := hunk.filePathId
  changeKind := hunk.changeKind.toStr
  diffText := hunk.diffText
  semanticText := hunk.semanticText

/-- The row of `vec_hunk`. -/
def vecRow (hunk : StoredHunk) : VecHunkRow where
  hunkId := hunk.id
  diffEmb := vecToBytes hunk.diffEmb

/-- The row of `fts_hunk_text`. -/
def textRow (hunk : StoredHunk) : FtsHunkRow where
  hunkId := hunk.id
  content := hunk.diffText

/-- The row of `fts_hunk_semantic`. -/
def semanticRow (hunk : StoredHunk) : FtsHunkRow where
  hunkId := hunk.id
  content := hunk.semanticText

/-- The rows of `hunk_symbol`. -/
def symbolRows (hunk : StoredHunk) : List HunkSymbolRow :=
    hunk.symbols.map (HunkSymbol.row hunk.id)

end StoredHunk

/-- A symbol of the snapshot with its row ids. -/
structure StoredSymbol where
  id : Nat
  filePathId : Nat
  symbol : Symbol

namespace StoredSymbol

/-- The row of `symbol`. -/
def row (stored : StoredSymbol) : SymbolRow :=
    stored.symbol.row stored.id stored.filePathId

/-- The row of `fts_symbol_name`. -/
def nameRow (stored : StoredSymbol) : FtsSymbolNameRow :=
    stored.symbol.ftsNameRow stored.id

end StoredSymbol

/-- The index without its mirrors. -/
@[ext] structure IndexContents where
  commits : List CommitRecord
  filePaths : List FilePathRow
  hunks : List StoredHunk
  symbols : List StoredSymbol
  commits_nodup : (commits.map CommitRecord.sha).Nodup
  filePath_ids_nodup : (filePaths.map FilePathRow.id).Nodup
  filePath_paths_nodup : (filePaths.map FilePathRow.path).Nodup
  hunk_ids_nodup : (hunks.map StoredHunk.id).Nodup
  hunk_commit : ∀ hunk ∈ hunks, hunk.commitSha ∈ commits.map CommitRecord.sha
  hunk_path : ∀ hunk ∈ hunks, hunk.filePathId ∈ filePaths.map FilePathRow.id
  symbol_ids_nodup : (symbols.map StoredSymbol.id).Nodup
  symbol_path : ∀ stored ∈ symbols, stored.filePathId ∈ filePaths.map FilePathRow.id

/-- The tables of `contents`, next to the tables of `db` the index calls do not touch. -/
def Database.withContents (db : Database) (contents : IndexContents) : Database :=
    { db with
      commitRecord := contents.commits.map CommitRecord.row
      vecCommit := contents.commits.map CommitRecord.vecRow
      ftsCommit := contents.commits.map CommitRecord.ftsRow
      filePath := contents.filePaths
      hunk := contents.hunks.map StoredHunk.row
      vecHunk := contents.hunks.map StoredHunk.vecRow
      ftsHunkText := contents.hunks.map StoredHunk.textRow
      ftsHunkSemantic := contents.hunks.map StoredHunk.semanticRow
      hunkSymbol := contents.hunks.flatMap StoredHunk.symbolRows
      symbol := contents.symbols.map StoredSymbol.row
      ftsSymbol := []
      ftsSymbolName := contents.symbols.map StoredSymbol.nameRow
      vecSymbol := [] }

theorem map_row_sha (commits : List CommitRecord) :
    (commits.map CommitRecord.row).map CommitRow.sha = commits.map CommitRecord.sha := by
  rw [List.map_map]
  rfl

theorem map_row_id (hunks : List StoredHunk) :
    (hunks.map StoredHunk.row).map HunkRow.id = hunks.map StoredHunk.id := by
  rw [List.map_map]
  rfl

theorem withContents_foreignKeys (db : Database) (contents : IndexContents) :
    (db.withContents contents).ForeignKeys := by
  refine ⟨?_, ?_, ?_, ?_⟩
  · intro row row_mem
    rcases List.mem_map.1 row_mem with ⟨hunk, hunk_mem, rfl⟩
    change hunk.commitSha ∈ (contents.commits.map CommitRecord.row).map CommitRow.sha
    rw [map_row_sha]
    exact contents.hunk_commit hunk hunk_mem
  · intro row row_mem
    rcases List.mem_map.1 row_mem with ⟨hunk, hunk_mem, rfl⟩
    exact contents.hunk_path hunk hunk_mem
  · intro row row_mem
    rcases List.mem_map.1 row_mem with ⟨stored, stored_mem, rfl⟩
    exact contents.symbol_path stored stored_mem
  · intro row row_mem
    rcases List.mem_flatMap.1 row_mem with ⟨hunk, hunk_mem, row_mem_hunk⟩
    rcases List.mem_map.1 row_mem_hunk with ⟨symbol, _, rfl⟩
    change hunk.id ∈ (contents.hunks.map StoredHunk.row).map HunkRow.id
    rw [map_row_id]
    exact List.mem_map_of_mem hunk_mem

namespace IndexContents

/-- The contents of the tables the migrations create. -/
def empty : IndexContents where
  commits := []
  filePaths := []
  hunks := []
  symbols := []
  commits_nodup := List.nodup_nil
  filePath_ids_nodup := List.nodup_nil
  filePath_paths_nodup := List.nodup_nil
  hunk_ids_nodup := List.nodup_nil
  hunk_commit := by simp
  hunk_path := by simp
  symbol_ids_nodup := List.nodup_nil
  symbol_path := by simp

/-- Store a commit, in place of what was stored under its SHA. -/
def putCommit (record : CommitRecord) (contents : IndexContents) : Option IndexContents :=
    if record.messageEmb.length = vectorDimension then
      some { contents with
        commits := Rows.insertOrReplace CommitRecord.sha record contents.commits
        commits_nodup := Rows.nodup_insertOrReplace contents.commits_nodup record
        hunk_commit := fun hunk hunk_mem =>
          Rows.mem_map_insertOrReplace.2 (.inl (contents.hunk_commit hunk hunk_mem)) }
    else
      none

/-- Drop the hunks of a commit. -/
def deleteHunks (contents : IndexContents) (sha : String) : IndexContents :=
    { contents with
      hunks := Rows.deleteKey StoredHunk.commitSha sha contents.hunks
      hunk_ids_nodup :=
        ((Rows.deleteKey_sublist _ _ _).map StoredHunk.id).nodup contents.hunk_ids_nodup
      hunk_commit := fun hunk hunk_mem =>
        contents.hunk_commit hunk (Rows.mem_deleteKey.1 hunk_mem).1
      hunk_path := fun hunk hunk_mem =>
        contents.hunk_path hunk (Rows.mem_deleteKey.1 hunk_mem).1 }

/-- The row a path's upsert inserts when the path is new. -/
def newPathRow (path : String) (language : Option String) (contents : IndexContents) :
    FilePathRow where
  id := Rows.nextRowid (contents.filePaths.map FilePathRow.id)
  path := path
  language := language

/-- The path table after an upsert. -/
def upsertedPaths (path : String) (language : Option String) (contents : IndexContents) :
    List FilePathRow :=
    Rows.upsert FilePathRow.path (contents.newPathRow path language)
      (FilePathRow.coalesceLanguage language) contents.filePaths

theorem map_id_upsertedPaths (path : String) (language : Option String)
    (contents : IndexContents) :
    (contents.upsertedPaths path language).map FilePathRow.id =
      if path ∈ contents.filePaths.map FilePathRow.path then
        contents.filePaths.map FilePathRow.id
      else
        contents.filePaths.map FilePathRow.id ++
          [Rows.nextRowid (contents.filePaths.map FilePathRow.id)] :=
  Rows.map_upsert (FilePathRow.coalesceLanguage language) (fun _ => rfl) _ _

theorem map_path_upsertedPaths (path : String) (language : Option String)
    (contents : IndexContents) :
    (contents.upsertedPaths path language).map FilePathRow.path =
      if path ∈ contents.filePaths.map FilePathRow.path then
        contents.filePaths.map FilePathRow.path
      else
        contents.filePaths.map FilePathRow.path ++ [path] :=
  Rows.map_upsert (FilePathRow.coalesceLanguage language) (fun _ => rfl) _ _

theorem mem_id_upsertedPaths {path : String} {language : Option String}
    {contents : IndexContents} {id : Nat}
    (id_mem : id ∈ contents.filePaths.map FilePathRow.id) :
    id ∈ (contents.upsertedPaths path language).map FilePathRow.id := by
  rw [map_id_upsertedPaths]
  split
  · exact id_mem
  · exact List.mem_append_left _ id_mem

/-- Record a path, keeping its language when none is given. -/
def upsertPath (path : String) (language : Option String) (contents : IndexContents) :
    IndexContents :=
    { contents with
      filePaths := contents.upsertedPaths path language
      filePath_ids_nodup := by
        rw [map_id_upsertedPaths]
        split
        · exact contents.filePath_ids_nodup
        · have fresh := Rows.nextRowid_not_mem (contents.filePaths.map FilePathRow.id)
          exact List.nodup_append.2 ⟨contents.filePath_ids_nodup, by simp, by
            intro id id_mem other other_mem same
            rw [List.mem_singleton.1 other_mem] at same
            exact fresh (same ▸ id_mem)⟩
      filePath_paths_nodup := by
        rw [map_path_upsertedPaths]
        split
        · exact contents.filePath_paths_nodup
        · exact List.nodup_append.2 ⟨contents.filePath_paths_nodup, by simp, by
            intro known known_mem other other_mem same
            rw [List.mem_singleton.1 other_mem] at same
            exact absurd (same ▸ known_mem) ‹_›⟩
      hunk_path := fun hunk hunk_mem => mem_id_upsertedPaths (contents.hunk_path hunk hunk_mem)
      symbol_path := fun stored stored_mem =>
        mem_id_upsertedPaths (contents.symbol_path stored stored_mem) }

/-- The id of a recorded path. -/
def pathId (path : String) (contents : IndexContents) : Nat :=
    ((Rows.lookup FilePathRow.path path contents.filePaths).map FilePathRow.id).getD 0

theorem lookup_upsertPath (path : String) (language : Option String) (contents : IndexContents) :
    ∃ row, Rows.lookup FilePathRow.path path (contents.upsertPath path language).filePaths =
      some row ∧ row.id = (contents.upsertPath path language).pathId path := by
  have path_mem : path ∈ (contents.upsertPath path language).filePaths.map FilePathRow.path :=
    Rows.mem_map_upsert_self (FilePathRow.coalesceLanguage language) (fun _ => rfl)
      (contents.newPathRow path language) _
  cases found : Rows.lookup FilePathRow.path path
      (contents.upsertPath path language).filePaths with
  | none => exact absurd path_mem (Rows.lookup_eq_none_iff.1 found)
  | some row => exact ⟨row, rfl, by simp [pathId, found]⟩

theorem pathId_upsertPath_mem (path : String) (language : Option String)
    (contents : IndexContents) :
    (contents.upsertPath path language).pathId path ∈
      (contents.upsertPath path language).filePaths.map FilePathRow.id := by
  rcases lookup_upsertPath path language contents with ⟨row, found, sameId⟩
  rw [← sameId]
  exact List.mem_map_of_mem (Rows.mem_of_lookup_eq_some found).1

/-- Attach a symbol to a hunk, in place of one with its kind and name. -/
def attach (symbols : List HunkSymbol) (symbol : HunkSymbol) : List HunkSymbol :=
    Rows.insertOrReplace (fun symbol => (symbol.kind.toStr, symbol.name)) symbol symbols

/-- The hunk a record is stored as. -/
def storedHunk (id filePathId : Nat) (record : HunkRecord) : StoredHunk where
  id := id
  commitSha := record.hunk.commitSha
  filePathId := filePathId
  changeKind := record.hunk.changeKind
  diffText := record.hunk.diffText
  semanticText := record.storedSemanticText
  diffEmb := record.diffEmb
  symbols := record.symbols.foldl attach []
  semantic_fallback := by
    intro empty
    unfold HunkRecord.storedSemanticText at empty ⊢
    split at empty
    · rw [if_pos ‹_›]
    · exact absurd empty ‹_›

/-- The contents with one more hunk, of a stored commit. -/
def withHunk (contents : IndexContents) (record : HunkRecord)
    (known : record.hunk.commitSha ∈ contents.commits.map CommitRecord.sha) : IndexContents :=
    let located := contents.upsertPath record.hunk.filePath record.hunk.language
    { located with
      hunks := contents.hunks ++ [storedHunk (Rows.nextRowid (contents.hunks.map StoredHunk.id))
        (located.pathId record.hunk.filePath) record]
      hunk_ids_nodup := Rows.nodup_append_fresh contents.hunk_ids_nodup (Rows.nextRowid_not_mem _)
      hunk_commit := by
        intro hunk hunk_mem
        rcases List.mem_append.1 hunk_mem with old | new
        · exact contents.hunk_commit hunk old
        · rw [List.mem_singleton.1 new]
          exact known
      hunk_path := by
        intro hunk hunk_mem
        rcases List.mem_append.1 hunk_mem with old | new
        · exact located.hunk_path hunk old
        · rw [List.mem_singleton.1 new]
          exact pathId_upsertPath_mem _ _ _ }

/-- Store one more hunk; its commit must be stored and its vector of the declared dimension. -/
def addHunk (contents : IndexContents) (record : HunkRecord) : Option IndexContents :=
    if accepted : record.hunk.commitSha ∈ contents.commits.map CommitRecord.sha ∧
        record.diffEmb.length = vectorDimension then
      some (contents.withHunk record accepted.1)
    else
      none

/-- Replace the hunks of the batch's commits by the batch; an empty batch changes nothing. -/
def putHunks (records : List HunkRecord) (contents : IndexContents) : Option IndexContents :=
    if records.isEmpty then some contents
    else records.foldlM addHunk ((Hunk.batchShas records).foldl deleteHunks contents)

/-- Drop the symbols of the snapshot. -/
def clearSymbols (contents : IndexContents) : IndexContents :=
    { contents with
      symbols := []
      symbol_ids_nodup := List.nodup_nil
      symbol_path := by simp }

/-- Store one more symbol of the snapshot. -/
def addSymbol (contents : IndexContents) (symbol : Symbol) : IndexContents :=
    let located := contents.upsertPath symbol.filePath (some symbol.language)
    { located with
      symbols := contents.symbols ++
        [⟨Rows.nextRowid (contents.symbols.map StoredSymbol.id),
          located.pathId symbol.filePath, symbol⟩]
      symbol_ids_nodup := Rows.nodup_append_fresh contents.symbol_ids_nodup
        (Rows.nextRowid_not_mem _)
      symbol_path := by
        intro stored stored_mem
        rcases List.mem_append.1 stored_mem with old | new
        · exact located.symbol_path stored old
        · rw [List.mem_singleton.1 new]
          exact pathId_upsertPath_mem _ _ _ }

/-- The symbols in place of those there were. -/
def putSymbols (symbols : List Symbol) (contents : IndexContents) : IndexContents :=
    symbols.foldl addSymbol contents.clearSymbols

end IndexContents

end Ohara
